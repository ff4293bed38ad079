import PacedCall.Status

/-!
A bounded first-in first-out queue whose senders may wait in line. A value takes its place when it
is sent, not when its sender next looks; closing keeps every value already taken or in line, and
only cancelling discards.
-/
namespace PacedCall

inductive Termination where
  | completed
  | failed (status : Status)
deriving DecidableEq

namespace Termination

def error : Termination → QueueError
  | completed => .closed
  | failed st => .terminated st

end Termination

abbrev SendResult := Except QueueError Unit

inductive Received (α : Type) where
  | item (value : α)
  | empty
  | closed (how : Termination)

structure Waiting (α : Type) where
  ticket : Nat
  value : α

/-- A queue; `fates` holds what became of the waiting values whose senders have not looked since. -/
structure Queue (α : Type) where
  capacity : Nat
  buffer : List α := []
  waiting : List (Waiting α) := []
  nextTicket : Nat := 0
  termination : Option Termination := none
  fates : List (Nat × SendResult) := []

inductive Enqueue where
  | settled (result : SendResult)
  | inLine (ticket : Nat)
  | spent

namespace Enqueue

def immediate : Enqueue → Bool
  | settled (.ok _) => true
  | _ => false

end Enqueue

namespace Queue
variable {α : Type}

def new (capacity : Nat) : Queue α := { capacity := max 1 capacity }

def line (q : Queue α) : List α := q.buffer ++ q.waiting.map Waiting.value

def length (q : Queue α) : Nat := q.buffer.length + q.waiting.length

/-- A value in line keeps the room that falls free for itself. -/
def hasRoom (q : Queue α) : Bool := q.buffer.length < q.capacity && q.waiting.isEmpty

def isFull (q : Queue α) : Bool := !q.hasRoom

def isEmpty (q : Queue α) : Bool := q.length == 0

def closedForSend (q : Queue α) : Bool := q.termination.isSome

def closedForReceive (q : Queue α) : Bool :=
  q.termination.isSome && q.buffer.isEmpty && q.waiting.isEmpty

def readable (q : Queue α) : Bool := !q.buffer.isEmpty || q.termination.isSome

def trySend (q : Queue α) (v : α) : Queue α × Except Refusal Unit :=
  if q.closedForSend then (q, .error .closed)
  else if q.hasRoom then ({ q with buffer := q.buffer ++ [v] }, .ok ())
  else (q, .error .full)

def send (q : Queue α) (v : α) : Queue α × Enqueue :=
  match q.termination with
  | some t => (q, .settled (.error t.error))
  | none =>
    if q.hasRoom then ({ q with buffer := q.buffer ++ [v] }, .settled (.ok ()))
    else
      ({ q with
          waiting := q.waiting ++ [⟨q.nextTicket, v⟩]
          nextTicket := q.nextTicket + 1 },
        .inLine q.nextTicket)

def promote (q : Queue α) : Queue α :=
  match q.waiting with
  | [] => q
  | w :: rest =>
    { q with
        buffer := q.buffer ++ [w.value]
        waiting := rest
        fates := q.fates ++ [(w.ticket, .ok ())] }

def tryRecv (q : Queue α) : Queue α × Received α :=
  match q.buffer with
  | v :: rest => (promote { q with buffer := rest }, .item v)
  | [] =>
    match q.termination with
    | some t => (q, .closed t)
    | none => (q, .empty)

def drainWith : Nat → Queue α → Queue α × List α × Received α
  | 0, q => (q, [], .empty)
  | fuel + 1, q =>
    match q.tryRecv with
    | (q, .item v) =>
      let (q, vs, last) := drainWith fuel q
      (q, v :: vs, last)
    | (q, last) => (q, [], last)

/-- Receives everything there is. Each round takes one value, so one round more than there are
values always ends at the answer that is no item. -/
def drain (q : Queue α) : Queue α × List α × Received α := drainWith (q.length + 1) q

def close (q : Queue α) (t : Termination) : Queue α × Bool :=
  match q.termination with
  | some _ => (q, false)
  | none => ({ q with termination := some t }, true)

def dismiss (q : Queue α) (r : SendResult) : Queue α :=
  { q with
      waiting := []
      fates := q.fates ++ q.waiting.map fun w => (w.ticket, r) }

/-- Closes with a failure and discards what is held. The values in line fail with this status
even where the queue was closed before and keeps its first termination. -/
def cancel (q : Queue α) (st : Status) : Queue α × Bool :=
  let (q, first) := q.close (.failed st)
  (dismiss { q with buffer := [] } (.error (.terminated st)), first)

def release (q : Queue α) : Queue α := dismiss { q with buffer := [] } (.error .closed)

def withdraw (q : Queue α) (ticket : Nat) : Queue α :=
  { q with waiting := q.waiting.filter fun w => w.ticket != ticket }

def fate? (q : Queue α) (ticket : Nat) : Option SendResult :=
  (q.fates.find? fun f => f.1 == ticket).map Prod.snd

def forget (q : Queue α) (ticket : Nat) : Queue α :=
  { q with fates := q.fates.filter fun f => f.1 != ticket }

/-- A sender looks after its value. Once told, it can only learn that the line is behind it. -/
def pollSend (q : Queue α) : Enqueue → Queue α × Enqueue × Option SendResult
  | .settled r => (q, .spent, some r)
  | .spent => (q, .spent, some (.error .closed))
  | .inLine ticket =>
    match q.fate? ticket with
    | some r => (q.forget ticket, .spent, some r)
    | none => (q, .inLine ticket, none)

def dropSend (q : Queue α) : Enqueue → Queue α
  | .inLine ticket => (q.withdraw ticket).forget ticket
  | _ => q

end Queue
end PacedCall
