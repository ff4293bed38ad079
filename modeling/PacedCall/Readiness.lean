import PacedCall.Status

/-!
Readiness to write. The transport signals that readiness may have changed; a writer waits until
the call is ready. A signal goes to the longest waiting writer that has none yet, or is kept as
the one permit. The first wait of all needs a signal before it looks at the call.
-/
namespace PacedCall

/-- The permit in store and those who wait: `line` holds the waiters without a signal, oldest
first, `called` those with one they have not used. With `cause` the waits were cancelled. -/
structure Readiness (ι : Type) where
  permit : Bool := false
  observed : Bool := false
  cause : Option Status := none
  line : List ι := []
  called : List ι := []

namespace Readiness

/-- Where one wait stands. The first wait of all has not `observed` a signal before. -/
inductive Wait where
  | fresh
  | inLine (observed : Bool)

variable {ι : Type} [DecidableEq ι]

def signal (r : Readiness ι) : Readiness ι :=
  match r.line with
  | [] => { r with permit := true }
  | w :: rest => { r with line := rest, called := r.called ++ [w] }

def cancel (r : Readiness ι) (st : Status) : Readiness ι :=
  { r with cause := some (r.cause.getD st) }

def enter (r : Readiness ι) (id : ι) : Readiness ι := { r with line := r.line ++ [id] }

def leave (r : Readiness ι) (id : ι) : Readiness ι :=
  if id ∈ r.called then signal { r with called := r.called.erase id }
  else { r with line := r.line.erase id }

/-- Looks at the call: cancelled, gone, ready, or else once more in line. A permit in store is
used up first, which shows the same call again. -/
def check (r : Readiness ι) (id : ι) (control : Option Bool) :
    Readiness ι × Wait × Option (Except Status Unit) :=
  match r.cause, control with
  | some st, _ => (r, .fresh, some (.error st))
  | none, none => (r, .fresh, some (.error .callReleased))
  | none, some true => (r, .fresh, some (.ok ()))
  | none, some false => (enter { r with permit := false } id, .inLine true, none)

def afterSignal (r : Readiness ι) (id : ι) (control : Option Bool) :
    Readiness ι × Wait × Option (Except Status Unit) :=
  check { r with observed := true } id control

/-- One look at a wait. `control` is the readiness of the call, nothing once the call is gone. -/
def poll (r : Readiness ι) (id : ι) (control : Option Bool) :
    Wait → Readiness ι × Wait × Option (Except Status Unit)
  | .fresh =>
    if r.observed then r.check id control
    else
      match r.cause with
      | some st => (r, .fresh, some (.error st))
      | none =>
        if r.permit then afterSignal { r with permit := false } id control
        else (r.enter id, .inLine false, none)
  | .inLine observed =>
    match r.cause with
    | some st => (r.leave id, .fresh, some (.error st))
    | none =>
      if id ∈ r.called then
        let r := { r with called := r.called.erase id }
        if observed then r.check id control else r.afterSignal id control
      else (r, .inLine observed, none)

end Readiness
end PacedCall
