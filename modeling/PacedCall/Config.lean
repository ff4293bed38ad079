/-!
How much a call may buffer in each direction, and how long it may take.
-/
namespace PacedCall

def maxWord : Nat := 0xFFFFFFFFFFFFFFFF

structure Span where
  seconds : Nat
  nanos : Nat
deriving DecidableEq

namespace Span

def ofMillis (ms : Nat) : Span := ⟨ms / 1000, ms % 1000 * 1000000⟩

def millis (s : Span) : Nat := s.seconds * 1000 + s.nanos / 1000000

end Span

structure Config where
  inboundCapacity : Nat := 1
  outboundCapacity : Nat := 1
  deadlineMs : Option Nat := none
deriving DecidableEq

namespace Config

def withCapacity (n : Nat) : Config := { inboundCapacity := n, outboundCapacity := n }

/-- A deadline is kept in whole milliseconds, and no longer than can be written down. -/
def within (c : Config) (s : Span) : Config := { c with deadlineMs := some (min s.millis maxWord) }

def deadline (c : Config) : Option Span := c.deadlineMs.map .ofMillis

end Config
end PacedCall
