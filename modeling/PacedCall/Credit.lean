/-!
The latch on a request for credit: while it is claimed, nobody asks for credit on top of the
request that is under way.
-/
namespace PacedCall

/-- A latch; `issued` counts the claims that were won. -/
structure CreditLatch where
  claimed : Bool := false
  issued : Nat := 0
deriving DecidableEq

namespace CreditLatch

def tryClaim (l : CreditLatch) : CreditLatch × Bool :=
  if l.claimed then (l, false) else (⟨true, l.issued + 1⟩, true)

def claim (l : CreditLatch) : CreditLatch := { l with claimed := true }

def release (l : CreditLatch) : CreditLatch := { l with claimed := false }

inductive Step where
  | tryClaim
  | claim
  | release
  | unknown

inductive Answer where
  | nothing
  | flag (b : Bool)
  | badStep

def step (l : CreditLatch) : Step → CreditLatch × Answer
  | .tryClaim =>
    let (l, won) := l.tryClaim
    (l, .flag won)
  | .claim => (l.claim, .nothing)
  | .release => (l.release, .nothing)
  | .unknown => (l, .badStep)

end CreditLatch
end PacedCall
