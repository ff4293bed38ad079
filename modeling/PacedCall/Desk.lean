/-!
Operations under way, each kept under a name and looked at by hand. An operation that had to wait
is woken once when something it waits for changes, and stays woken until it is looked at.
-/
namespace PacedCall

inductive Park where
  | idle
  | parked
  | called
deriving DecidableEq

namespace Park

def call : Park → Park
  | parked => called
  | p => p

end Park

/-- An operation on a desk. A finished one keeps its name until it is dropped. -/
structure Held (φ : Type) where
  op : φ
  finished : Bool := false
  woken : Bool := false

abbrev Desk (φ : Type) := List (String × Held φ)

namespace Desk
variable {φ : Type}

def find? (d : Desk φ) (id : String) : Option (Held φ) := d.lookup id

def erase (d : Desk φ) (id : String) : Desk φ := d.filter fun e => e.1 != id

def put (d : Desk φ) (id : String) (h : Held φ) : Desk φ := d.erase id ++ [(id, h)]

def wake (d : Desk φ) (moved : String → φ → Option φ) : Desk φ :=
  d.map fun e =>
    if e.2.finished then e
    else
      match moved e.1 e.2.op with
      | some op => (e.1, { e.2 with op := op, woken := true })
      | none => e

def woken (d : Desk φ) : List String :=
  ((d.filter fun e => e.2.woken).map Prod.fst).mergeSort fun a b => decide (a ≤ b)

def anyLive (d : Desk φ) (p : φ → Bool) : Bool := d.any fun e => !e.2.finished && p e.2.op

end Desk

inductive Look (ρ : Type) where
  | missing
  | finished
  | pending
  | done (result : ρ)

end PacedCall
