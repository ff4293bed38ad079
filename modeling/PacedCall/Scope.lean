import PacedCall.Status

/-!
The scope a call runs in. Cancelling a scope ends its call; the first recorded cause stays, and a
scope that ends with its parent records none.
-/
namespace PacedCall

inductive Origin where
  | peer
  | here
deriving DecidableEq

namespace Origin

def name : Origin → String
  | peer => "peer"
  | here => "local"

def label : Origin → String
  | peer => "Peer"
  | here => "Local"

end Origin

structure Scope where
  cancelled : Bool := false
  cause : Option (Origin × Status) := none
deriving DecidableEq

namespace Scope

def trip (s : Scope) : Scope := { s with cancelled := true }

def cancel (s : Scope) (origin : Origin) (st : Status) : Scope × Bool :=
  if s.cancelled then (s, false)
  else
    match s.cause with
    | some _ => (s.trip, false)
    | none => (⟨true, some (origin, st)⟩, true)

def cancelWith (s : Scope) (origin : Origin) (st : Status) : Scope := (s.cancel origin st).1

def status (s : Scope) : Option Status :=
  if s.cancelled then
    match s.cause with
    | some c => some c.2
    | none => some .localCancelled
  else none

theorem cancelled_cancelWith (s : Scope) (origin : Origin) (st : Status) :
    (s.cancelWith origin st).cancelled = true := by
  unfold cancelWith cancel
  split
  · assumption
  · split <;> rfl

theorem isSome_status (s : Scope) : s.status.isSome = s.cancelled := by
  unfold status
  split
  · split <;> simp_all
  · simp_all

def byPeer (s : Scope) : Bool :=
  match s.cause with
  | some (.peer, _) => true
  | _ => false

end Scope
end PacedCall
