import PacedCall.Status

/-!
A transport held in memory that plays the peer of a call. It records what the call does to it,
hands on what the peer does, and counts what the peer delivers against the credit it was granted.
-/
namespace PacedCall

inductive Notice (α : Type) where
  | message (v : α)
  | failed (st : Status)
  | completed
  | cancelled
  | ready

inductive PeerAct (α : Type) where
  | deliver (v : α)
  | complete
  | fail (st : Status)
  | cancel
  | setReady (b : Bool)
  | fireReady
  | rejectWrites (st : Status)

def PeerAct.moves {α : Type} : PeerAct α → Bool
  | .setReady _ => false
  | .fireReady => false
  | .rejectWrites _ => false
  | _ => true

/-- The transport: `started` once a listener hears of messages and ends, `watched` once somebody
hears of readiness. -/
structure Loopback (α : Type) where
  ready : Bool := true
  started : Bool := false
  watched : Bool := false
  manualCredit : Bool := false
  requested : Nat := 0
  delivered : Nat := 0
  maxOutstanding : Nat := 0
  sent : Array α := #[]
  halfClosed : Bool := false
  closedWith : Option Status := none
  cancellations : List Status := []
  rejecting : Option Status := none

namespace Loopback
variable {α : Type}

def outstanding (t : Loopback α) : Nat := t.requested - t.delivered

def violations (t : Loopback α) : Nat := t.delivered - t.requested

def terminated (t : Loopback α) : Bool := t.closedWith.isSome || !t.cancellations.isEmpty

def finished (t : Loopback α) : Bool := t.halfClosed || t.terminated

def heard (t : Loopback α) (n : Notice α) : Option (Notice α) := if t.started then some n else none

def readyNotice (t : Loopback α) : Option (Notice α) := if t.watched then some .ready else none

def peer (t : Loopback α) : PeerAct α → Loopback α × Option (Notice α)
  | .deliver v => ({ t with delivered := t.delivered + 1 }, t.heard (.message v))
  | .complete => (t, t.heard .completed)
  | .fail st => (t, t.heard (.failed st))
  | .cancel => (t, t.heard .cancelled)
  | .setReady b => ({ t with ready := b }, t.readyNotice)
  | .fireReady => (t, t.readyNotice)
  | .rejectWrites st => ({ t with rejecting := some st }, none)

def start (t : Loopback α) : Loopback α × Option (Notice α) :=
  ({ t with started := true }, if t.ready then t.readyNotice else none)

def watch (t : Loopback α) : Loopback α := { t with watched := true }

def disableAutomaticCredit (t : Loopback α) : Loopback α := { t with manualCredit := true }

def requestCredit (t : Loopback α) (n : Nat) : Loopback α :=
  let t := { t with requested := t.requested + n }
  { t with maxOutstanding := max t.maxOutstanding t.outstanding }

/-- A write set to be refused is refused even on a finished call. -/
def sendMessage (t : Loopback α) (v : α) : Loopback α × Except Status Unit :=
  match t.rejecting with
  | some st => (t, .error st)
  | none =>
    if t.finished then (t, .error .alreadyClosed)
    else ({ t with sent := t.sent.push v }, .ok ())

def halfClose (t : Loopback α) : Loopback α := { t with halfClosed := true }

def closeWithError (t : Loopback α) (st : Status) : Loopback α := { t with closedWith := some st }

def cancel (t : Loopback α) (st : Status) : Loopback α :=
  { t with cancellations := t.cancellations ++ [st] }

inductive Wait (α : Type) where
  | deliver (v : α)
  | credit
  | finished
  | sent (n : Nat)

/-- The wait is over. A delivery no longer waits for credit once the call was terminated. -/
def settles (t : Loopback α) : Wait α → Bool
  | .deliver _ => decide (0 < t.outstanding) || t.terminated
  | .credit => decide (0 < t.outstanding)
  | .finished => t.finished
  | .sent n => decide (n ≤ t.sent.size) || t.finished

end Loopback
end PacedCall
