import PacedCall.Loopback
import PacedCall.Desk

/-!
A loopback transport with a recording listener and any number of waits under way, looked at in any
order. Every change but one of readiness or of refusal wakes all waits in line.
-/
namespace PacedCall
namespace Loopback
variable {α : Type}

/-- A transport with its desk; `notices` holds what the listener heard in the last step, `fired`
how often readiness was reported. -/
structure Session (α : Type) where
  wire : Loopback α
  notices : List (Notice α) := []
  fired : Nat := 0
  desk : Desk (Wait α × Park) := []

inductive Step (α : Type) where
  | peer (a : PeerAct α)
  | start
  | watch
  | disableAutomaticCredit
  | requestCredit (n : Nat)
  | sendMessage (v : α)
  | halfClose
  | closeWithError (st : Status)
  | cancel (st : Status)
  | wait (id : String) (w : Wait α)
  | poll (id : String)
  | drop (id : String)
  | unknown

inductive Answer (α : Type) where
  | nothing
  | flag (b : Bool)
  | wrote (r : Except Status Unit)
  | look (l : Look (Wait α))
  | badStep


namespace Session

def touch (s : Session α) : Session α :=
  { s with
      desk := s.desk.wake fun _ w => if w.2 == .parked then some (w.1, .called) else none }

def note (s : Session α) : Option (Notice α) → Session α
  | none => s
  | some .ready => { s with fired := s.fired + 1 }
  | some n => { s with notices := s.notices ++ [n] }

def peer (s : Session α) (a : PeerAct α) : Session α :=
  let (t, n) := s.wire.peer a
  let s := note { s with wire := t } n
  if a.moves then s.touch else s

def poll (s : Session α) (id : String) : Session α × Look (Wait α) :=
  match s.desk.find? id with
  | none => (s, .missing)
  | some h =>
    if h.finished then ({ s with desk := s.desk.put id { h with woken := false } }, .finished)
    else
      let (w, p) := h.op
      let settled := p != .parked && s.wire.settles w
      let s := { s with desk := s.desk.put id { op := (w, .parked), finished := settled } }
      if settled then
        (match w with
          | .deliver v => s.peer (.deliver v)
          | _ => s,
          .done w)
      else (s, .pending)

def apply (s : Session α) : Step α → Session α × Answer α
  | .peer a => (s.peer a, .nothing)
  | .start =>
    let (t, n) := s.wire.start
    ((note { s with wire := t } n).touch, .nothing)
  | .watch => ({ s with wire := s.wire.watch }, .nothing)
  | .disableAutomaticCredit => ({ s with wire := s.wire.disableAutomaticCredit }, .nothing)
  | .requestCredit n => (touch { s with wire := s.wire.requestCredit n }, .nothing)
  | .sendMessage v =>
    let (t, r) := s.wire.sendMessage v
    let s := { s with wire := t }
    (match r with
      | .ok _ => s.touch
      | .error _ => s,
      .wrote r)
  | .halfClose => (touch { s with wire := s.wire.halfClose }, .nothing)
  | .closeWithError st => (touch { s with wire := s.wire.closeWithError st }, .nothing)
  | .cancel st => (touch { s with wire := s.wire.cancel st }, .nothing)
  | .wait id w => ({ s with desk := s.desk.put id { op := (w, .idle) } }, .nothing)
  | .poll id =>
    let (s, l) := s.poll id
    (s, .look l)
  | .drop id => ({ s with desk := s.desk.erase id }, .flag (s.desk.find? id).isSome)
  | .unknown => (s, .badStep)

def step (s : Session α) (a : Step α) : Session α × Answer α := apply { s with notices := [] } a

end Session
end Loopback
end PacedCall
