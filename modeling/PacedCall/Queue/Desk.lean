import PacedCall.Queue
import PacedCall.Desk

/-!
A queue with any number of sends, receives and waits under way on it, looked at in any order. A
sender in line is woken when its value's fate is known, a receiver or reader when values may have
come, a watcher when the queue closes.
-/
namespace PacedCall

abbrev RecvResult (α : Type) := Except Status (Option α)

namespace Received
variable {α : Type}

def settled? : Received α → Option (RecvResult α)
  | item v => some (.ok (some v))
  | empty => none
  | closed .completed => some (.ok none)
  | closed (.failed st) => some (.error st)

end Received

namespace Queue

/-- An operation under way on a queue. A send is `watched` once it has been looked at in vain. -/
inductive Op where
  | send (e : Enqueue) (watched : Bool)
  | recv (p : Park)
  | readable (p : Park)
  | closed (p : Park)

namespace Op

/-- All but a send in line keep the queue alive. -/
def keepsQueue : Op → Bool
  | send _ _ => false
  | _ => true

def callReader : Op → Option Op
  | recv .parked => some (recv .called)
  | readable .parked => some (readable .called)
  | _ => none

def callWatcher : Op → Option Op
  | closed .parked => some (closed .called)
  | _ => none

end Op

inductive Outcome (α : Type) where
  | sent (r : SendResult)
  | received (r : RecvResult α)
  | readable
  | closed (t : Termination)

/-- A queue with its desk; `held` while somebody outside the desk keeps the queue. -/
structure Session (α : Type) where
  queue : Queue α
  desk : Desk Op := []
  held : Bool := true

inductive Step (α : Type) where
  | trySend (v : α)
  | send (id : String) (v : α)
  | recv (id : String)
  | readable (id : String)
  | closed (id : String)
  | tryRecv
  | drain
  | close (t : Termination)
  | cancel (st : Status)
  | letGo
  | poll (id : String)
  | drop (id : String)
  | unknown

inductive Answer (α : Type) where
  | nothing
  | flag (b : Bool)
  | trySent (r : Except Refusal Unit) (v : α)
  | queued (immediate : Bool)
  | received (r : Received α)
  | drained (items : List α) (last : Received α)
  | look (l : Look (Outcome α))
  | gone
  | badStep

namespace Session
variable {α : Type}

def callReaders (s : Session α) : Session α :=
  { s with desk := s.desk.wake fun _ op => op.callReader }

def callWatchers (s : Session α) : Session α :=
  { s with desk := s.desk.wake fun _ op => op.callWatcher }

def callSenders (s : Session α) : Session α :=
  { s with
      desk := s.desk.wake fun _ op =>
        match op with
        | .send (.inLine ticket) true =>
          if (s.queue.fate? ticket).isSome then some op else none
        | _ => none }

def alive (s : Session α) : Bool := s.held || s.desk.anyLive Op.keepsQueue

/-- What every step ends with: a queue nobody keeps goes away, and senders that were told are
woken. -/
def tidy (s : Session α) : Session α :=
  (if s.alive then s else { s with queue := s.queue.release }).callSenders

def remove (s : Session α) (id : String) : Session α × Bool :=
  match s.desk.find? id with
  | none => (s, false)
  | some h =>
    let queue :=
      match h.op with
      | .send e _ => s.queue.dropSend e
      | _ => s.queue
    ({ s with queue := queue, desk := s.desk.erase id }, true)

def start (s : Session α) (id : String) (op : Op) : Session α :=
  let s := (s.remove id).1
  { s with desk := s.desk.put id { op := op } }

/-- One look at an operation: the queue after it, where the operation stands, its outcome. -/
def lookAt (q : Queue α) : Op → Queue α × Op × Option (Outcome α)
  | .send e _ =>
    let (q, e, r) := q.pollSend e
    (q, .send e true, r.map .sent)
  | .recv .parked => (q, .recv .parked, none)
  | .recv _ =>
    let (q, r) := q.tryRecv
    (q, .recv .parked, r.settled?.map .received)
  | .readable .parked => (q, .readable .parked, none)
  | .readable _ => (q, .readable .parked, if q.readable then some .readable else none)
  | .closed .parked => (q, .closed .parked, none)
  | .closed _ => (q, .closed .parked, q.termination.map .closed)

def finishes : Op → Bool
  | .send _ _ => false
  | _ => true

def poll (s : Session α) (id : String) : Session α × Look (Outcome α) :=
  match s.desk.find? id with
  | none => (s, .missing)
  | some h =>
    if h.finished then ({ s with desk := s.desk.put id { h with woken := false } }, .finished)
    else
      let (q, op, out) := lookAt s.queue h.op
      let h : Held Op := { op := op, finished := out.isSome && finishes op }
      ({ s with queue := q, desk := s.desk.put id h },
        match out with
        | some r => .done r
        | none => .pending)

def apply (s : Session α) : Step α → Session α × Answer α
  | .trySend v =>
    let (q, r) := s.queue.trySend v
    let s := { s with queue := q }
    (match r with
      | .ok _ => s.callReaders
      | .error _ => s,
      .trySent r v)
  | .send id v =>
    let (q, e) := s.queue.send v
    let s := start { s with queue := q } id (.send e false)
    (if e.immediate then s.callReaders else s, .queued e.immediate)
  | .recv id => (s.start id (.recv .idle), .nothing)
  | .readable id => (s.start id (.readable .idle), .nothing)
  | .closed id => (s.start id (.closed .idle), .nothing)
  | .tryRecv =>
    let (q, r) := s.queue.tryRecv
    ({ s with queue := q }, .received r)
  | .drain =>
    let (q, items, last) := s.queue.drain
    ({ s with queue := q }, .drained items last)
  | .close t =>
    let (q, first) := s.queue.close t
    let s := { s with queue := q }
    (if first then s.callReaders.callWatchers else s, .flag first)
  | .cancel st =>
    let (q, first) := s.queue.cancel st
    let s := callReaders { s with queue := q }
    (if first then s.callWatchers else s, .flag first)
  | .letGo => ({ s with held := false }, .nothing)
  | .poll id =>
    let (s, l) := s.poll id
    (s, .look l)
  | .drop id =>
    let (s, there) := s.remove id
    (s, .flag there)
  | .unknown => (s, .badStep)

def needsQueue : Step α → Bool
  | .poll _ => false
  | .drop _ => false
  | _ => true

def step (s : Session α) (a : Step α) : Session α × Answer α :=
  if !s.held && needsQueue a then (s, .gone)
  else
    let (s, r) := s.apply a
    (s.tidy, r)

end Session
end Queue
end PacedCall
