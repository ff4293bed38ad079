import PacedCall.Readiness
import PacedCall.Desk

/-!
Waits for readiness under way over a call whose readiness is set by hand. A wait is woken by the
signal it gets, and every wait in line by a cancellation.
-/
namespace PacedCall
namespace Readiness

structure Session where
  ready : Readiness String := {}
  control : Option Bool
  desk : Desk Wait := []

inductive Step where
  | signal
  | setReady (b : Bool)
  | cancel (st : Status)
  | release
  | wait (id : String)
  | poll (id : String)
  | drop (id : String)
  | unknown

inductive Answer where
  | nothing
  | flag (b : Bool)
  | look (l : Look (Except Status Unit))
  | badStep

namespace Session

def waiting : Wait → Bool
  | .fresh => false
  | .inLine _ => true

def callWaits (s : Session) : Session :=
  { s with
      desk := s.desk.wake fun id w =>
        if waiting w && (decide (id ∈ s.ready.called) || s.ready.cause.isSome) then some w
        else none }

def remove (s : Session) (id : String) : Session × Bool :=
  match s.desk.find? id with
  | none => (s, false)
  | some h =>
    let ready := if waiting h.op && !h.finished then s.ready.leave id else s.ready
    ({ s with ready := ready, desk := s.desk.erase id }, true)

def poll (s : Session) (id : String) : Session × Look (Except Status Unit) :=
  match s.desk.find? id with
  | none => (s, .missing)
  | some h =>
    if h.finished then ({ s with desk := s.desk.put id { h with woken := false } }, .finished)
    else
      let (ready, w, out) := s.ready.poll id s.control h.op
      ({ s with ready := ready, desk := s.desk.put id { op := w, finished := out.isSome } },
        match out with
        | some r => .done r
        | none => .pending)

def apply (s : Session) : Step → Session × Answer
  | .signal => ({ s with ready := s.ready.signal }, .nothing)
  | .setReady b => ({ s with control := s.control.map fun _ => b }, .nothing)
  | .cancel st => ({ s with ready := s.ready.cancel st }, .nothing)
  | .release => ({ s with control := none }, .nothing)
  | .wait id =>
    let s := (s.remove id).1
    ({ s with desk := s.desk.put id { op := .fresh } }, .nothing)
  | .poll id =>
    let (s, l) := s.poll id
    (s, .look l)
  | .drop id =>
    let (s, there) := s.remove id
    (s, .flag there)
  | .unknown => (s, .badStep)

def step (s : Session) (a : Step) : Session × Answer :=
  let (s, r) := s.apply a
  (s.callWaits, r)

end Session
end Readiness
end PacedCall
