import PacedCall.Inbound
import PacedCall.Queue.Desk
import PacedCall.Stats

/-!
An inbound side over a control that only records what is asked of it, with receives and sends on
tasks beside it. Tasks run when the session settles: each is looked at until none moves.
-/
namespace PacedCall

namespace Stats

def delivery (s : Stats) : Delivery → Stats
  | .taken => s
  | .late => s.late
  | .deferred => s.deferred

end Stats

namespace Inbound
variable {α : Type}

inductive Job where
  | recv
  | send (e : Enqueue)

/-- An inbound side with its tasks; `control` is the readiness, and nothing once the control is
severed, `done` holds the results of the tasks that ended since the last step. -/
structure Session (α : Type) where
  side : Inbound α
  control : Option Bool
  held : Bool := true
  requested : Nat := 0
  requests : Nat := 0
  stats : Stats := {}
  jobs : List (String × Job) := []
  done : List (String × Queue.Outcome α) := []

inductive Step (α : Type) where
  | value (v : α)
  | complete
  | onReady
  | next
  | letGo
  | unknown
  | tryRecv
  | drain
  | recv (id : String)
  | send (id : String) (v : α)
  | trySend (v : α)
  | close (t : Termination)
  | cancel (st : Status)
  | setReady (b : Bool)
  | sever
  | settle

inductive Answer (α : Type) where
  | nothing
  | flag (b : Bool)
  | trySent (r : Except Refusal Unit) (v : α)
  | queued (immediate : Bool)
  | received (r : Received α)
  | drained (items : List α) (last : Received α)
  | gone

namespace Session

def ask (s : Session α) (wanted : Bool) : Session α :=
  if wanted && s.control.isSome then
    { s with requested := s.requested + 1, requests := s.requests + 1 }
  else s

def withQueue (s : Session α) (q : Queue α) : Session α :=
  { s with side := { s.side with queue := q } }

def pollDeferred (s : Session α) (i : Nat) : Session α × Bool :=
  let (side, wanted, ended) := s.side.pollDeferred i
  (ask { s with side := side } wanted, ended)

def lookAt (q : Queue α) : Job → Queue α × Option (Queue.Outcome α)
  | .recv =>
    let (q, r) := q.tryRecv
    (q, r.settled?.map .received)
  | .send e =>
    let (q, _, r) := q.pollSend e
    (q, r.map .sent)

def pollJob (s : Session α) (i : Nat) : Session α × Bool :=
  match s.jobs[i]? with
  | none => (s, false)
  | some (id, job) =>
    match lookAt s.side.queue job with
    | (_, none) => (s, false)
    | (q, some r) =>
      (withQueue { s with jobs := s.jobs.eraseIdx i, done := s.done ++ [(id, r)] } q, true)

/-- Looks at tasks from the last to the first, so that an ended one leaves the rest in place. -/
def sweep (look : Session α → Nat → Session α × Bool) : Nat → Session α → Session α × Bool
  | 0, s => (s, false)
  | n + 1, s =>
    let (s, moved) := look s n
    let (s, more) := sweep look n s
    (s, moved || more)

def settleWith : Nat → Session α → Session α
  | 0, s => s
  | fuel + 1, s =>
    let (s, moved) := sweep pollDeferred s.side.deferred.length s
    let (s, more) := sweep pollJob s.jobs.length s
    if moved || more then settleWith fuel s else s

def settle (s : Session α) : Session α :=
  settleWith (s.side.deferred.length + s.jobs.length + 1) s

def onCoordinator : Step α → Bool
  | .value _ => true
  | .complete => true
  | .onReady => true
  | .next => true
  | .letGo => true
  | .unknown => true
  | _ => false

def apply (s : Session α) : Step α → Session α × Answer α
  | .value v =>
    let (side, what, wanted) := s.side.onValue v
    (ask { s with side := side, stats := s.stats.delivery what } wanted, .nothing)
  | .complete => ({ s with side := s.side.onCompleted }, .nothing)
  | .onReady =>
    let (side, wanted) := s.side.onReady s.control
    (ask { s with side := side } wanted, .nothing)
  | .next =>
    let (side, wanted) := s.side.next
    (ask { s with side := side } wanted, .nothing)
  | .letGo => ({ s with held := false }, .nothing)
  | .unknown => (s, .nothing)
  | .tryRecv =>
    let (q, r) := s.side.queue.tryRecv
    (s.withQueue q, .received r)
  | .drain =>
    let (q, items, last) := s.side.queue.drain
    (s.withQueue q, .drained items last)
  | .recv id => ({ s with jobs := s.jobs ++ [(id, .recv)] }, .nothing)
  | .send id v =>
    let (q, e) := s.side.queue.send v
    (withQueue { s with jobs := s.jobs ++ [(id, .send e)] } q, .queued e.immediate)
  | .trySend v =>
    let (q, r) := s.side.queue.trySend v
    (s.withQueue q, .trySent r v)
  | .close t =>
    let (q, first) := s.side.queue.close t
    (s.withQueue q, .flag first)
  | .cancel st =>
    let (q, first) := s.side.queue.cancel st
    (s.withQueue q, .flag first)
  | .setReady b => ({ s with control := s.control.map fun _ => b }, .nothing)
  | .sever => ({ s with control := none }, .nothing)
  | .settle => (s, .nothing)

def step (s : Session α) (a : Step α) (settles : Bool) : Session α × Answer α :=
  let s := { s with done := [] }
  let (s, r) := if !s.held && onCoordinator a then (s, .gone) else s.apply a
  (if settles then s.settle else s, r)

end Session
end Inbound
end PacedCall
