/-! What a call counts about itself. -/
namespace PacedCall

structure Stats where
  creditsRequested : Nat := 0
  messagesReceived : Nat := 0
  messagesSent : Nat := 0
  lateDeliveries : Nat := 0
  deferredEnqueues : Nat := 0
deriving DecidableEq

namespace Stats

def requested (s : Stats) (n : Nat) : Stats := { s with creditsRequested := s.creditsRequested + n }
def received (s : Stats) : Stats := { s with messagesReceived := s.messagesReceived + 1 }
def sent (s : Stats) : Stats := { s with messagesSent := s.messagesSent + 1 }
def late (s : Stats) : Stats := { s with lateDeliveries := s.lateDeliveries + 1 }
def deferred (s : Stats) : Stats := { s with deferredEnqueues := s.deferredEnqueues + 1 }

inductive Step where
  | credit (n : Nat)
  | received
  | sent
  | late
  | deferred
  | unknown

def step (s : Stats) : Step → Stats
  | .credit n => s.requested n
  | .received => s.received
  | .sent => s.sent
  | .late => s.late
  | .deferred => s.deferred
  | .unknown => s

end Stats
end PacedCall
