import PacedCall.Scope
import PacedCall.Desk

/-!
A scope, its parent, and any number of waits for its end. A scope without a parent ends on its
own only; a wait is woken when the scope ends.
-/
namespace PacedCall
namespace Scope

/-- A scope with its desk; `linked` when the scope ends with its parent. -/
structure Session where
  scope : Scope := {}
  parentCancelled : Bool := false
  linked : Bool
  desk : Desk Park := []

inductive Step where
  | cancel (origin : Origin) (st : Status)
  | cancelParent
  | cancelToken
  | wait (id : String)
  | poll (id : String)
  | drop (id : String)
  | unknown

inductive Answer where
  | nothing
  | flag (b : Bool)
  | look (l : Look Unit)
  | badStep

namespace Session

def callWaits (s : Session) : Session :=
  if s.scope.cancelled then
    { s with desk := s.desk.wake fun _ p => if p == .parked then some .called else none }
  else s

def poll (s : Session) (id : String) : Session × Look Unit :=
  match s.desk.find? id with
  | none => (s, .missing)
  | some h =>
    if h.finished then ({ s with desk := s.desk.put id { h with woken := false } }, .finished)
    else
      let settled := s.scope.cancelled
      ({ s with desk := s.desk.put id { op := .parked, finished := settled } },
        if settled then .done () else .pending)

def step (s : Session) : Step → Session × Answer
  | .cancel origin st =>
    let (scope, first) := s.scope.cancel origin st
    (callWaits { s with scope := scope }, .flag first)
  | .cancelParent =>
    let scope := if s.linked then s.scope.trip else s.scope
    (callWaits { s with scope := scope, parentCancelled := true }, .nothing)
  | .cancelToken => (callWaits { s with scope := s.scope.trip }, .nothing)
  | .wait id => ({ s with desk := s.desk.put id { op := .idle } }, .nothing)
  | .poll id =>
    let (s, l) := s.poll id
    (s, .look l)
  | .drop id => ({ s with desk := s.desk.erase id }, .flag (s.desk.find? id).isSome)
  | .unknown => (s, .badStep)

end Session
end Scope
end PacedCall
