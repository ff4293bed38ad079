import PacedCall.Queue
import PacedCall.Credit

/-!
The inbound side of a call: a queue, the values that wait for room in it on tasks of their own,
and the pacing that asks the peer for one message at a time. The next message is asked for only
once the last one has its place in the queue.
-/
namespace PacedCall

structure InFlight where
  count : Nat := 0
  completed : Bool := false
deriving DecidableEq

/-- How credit is paced. Counting asks again for every value that found its place and closes the
queue after the last one; latching keeps at most one request open, and asks ahead when ready. -/
inductive Pacing where
  | counting (f : InFlight)
  | latching (l : CreditLatch)
deriving DecidableEq

inductive Delivery where
  | taken
  | late
  | deferred
deriving DecidableEq

namespace InFlight
variable {α : Type}

def enter (f : InFlight) : InFlight := { f with count := f.count + 1 }

def leave (f : InFlight) : InFlight := { f with count := f.count - 1 }

def drained (f : InFlight) : Bool := f.completed && f.count == 0

def next (f : InFlight) (q : Queue α) : Queue α × Bool :=
  if f.drained then ((q.close .completed).1, false) else (q, true)

def finish (f : InFlight) (q : Queue α) : InFlight × Queue α :=
  let f := { f with completed := true }
  (f, if f.count == 0 then (q.close .completed).1 else q)

end InFlight

namespace CreditLatch
variable {α : Type}

def next (l : CreditLatch) (q : Queue α) : CreditLatch × Bool :=
  if q.closedForSend then (l, false) else l.tryClaim

def preload (l : CreditLatch) (q : Queue α) (ready : Bool) : CreditLatch × Bool :=
  if ready && !q.isFull && !q.closedForSend then l.tryClaim else (l, false)

end CreditLatch

/-- An inbound side; `deferred` holds the values in line for room, each with the task that waits
for it. -/
structure Inbound (α : Type) where
  pacing : Pacing
  queue : Queue α
  deferred : List Enqueue := []

namespace Inbound
variable {α : Type}

def counting (capacity : Nat) : Inbound α := ⟨.counting {}, .new capacity, []⟩

def latching (capacity : Nat) : Inbound α := ⟨.latching {}, .new capacity, []⟩

/-- The value takes its place in line now, whatever order the tasks run in. -/
def defer (b : Inbound α) (v : α) : Inbound α :=
  let (q, e) := b.queue.send v
  { b with queue := q, deferred := b.deferred ++ [e] }

/-- A value arrives. The flag says whether to ask for the next one. -/
def onValue (b : Inbound α) (v : α) : Inbound α × Delivery × Bool :=
  let (q, r) := b.queue.trySend v
  match r, b.pacing with
  | .ok _, .counting f =>
    let (q, ask) := f.next q
    ({ b with queue := q }, .taken, ask)
  | .ok _, .latching l =>
    let (l, ask) := l.release.next q
    ({ b with queue := q, pacing := .latching l }, .taken, ask)
  | .error .closed, _ => (b, .late, false)
  | .error .full, .counting f => (defer { b with pacing := .counting f.enter } v, .deferred, false)
  | .error .full, .latching l => (defer { b with pacing := .latching l.claim } v, .deferred, false)

def onEnqueued (b : Inbound α) (r : SendResult) : Inbound α × Bool :=
  match b.pacing, r with
  | .counting f, .ok _ =>
    let f := f.leave
    let b := { b with pacing := .counting f }
    if b.queue.closedForReceive then (b, false)
    else
      let (q, ask) := f.next b.queue
      ({ b with queue := q }, ask)
  | .counting f, .error e =>
    ({ b with pacing := .counting f.leave, queue := (b.queue.close (.failed e.status)).1 }, false)
  | .latching l, .ok _ =>
    let (l, ask) := l.release.next b.queue
    ({ b with pacing := .latching l }, ask)
  | .latching _, .error e =>
    ({ b with queue := (b.queue.close (.failed e.status)).1 }, false)

/-- One look at the task of a deferred value. The last flag says whether the task ended. -/
def pollDeferred (b : Inbound α) (i : Nat) : Inbound α × Bool × Bool :=
  match b.deferred[i]? with
  | none => (b, false, false)
  | some e =>
    match b.queue.pollSend e with
    | (_, _, none) => (b, false, false)
    | (q, _, some r) =>
      let (b, ask) := onEnqueued { b with queue := q, deferred := b.deferred.eraseIdx i } r
      (b, ask, true)

def onCompleted (b : Inbound α) : Inbound α :=
  match b.pacing with
  | .counting f =>
    let (f, q) := f.finish b.queue
    { b with pacing := .counting f, queue := q }
  | .latching _ => { b with queue := (b.queue.close .completed).1 }

def onReady (b : Inbound α) (control : Option Bool) : Inbound α × Bool :=
  match b.pacing, control with
  | .latching l, some ready =>
    let (l, ask) := l.preload b.queue ready
    ({ b with pacing := .latching l }, ask)
  | _, _ => (b, false)

def next (b : Inbound α) : Inbound α × Bool :=
  match b.pacing with
  | .counting f =>
    let (q, ask) := f.next b.queue
    ({ b with queue := q }, ask)
  | .latching _ => (b, false)

end Inbound
end PacedCall
