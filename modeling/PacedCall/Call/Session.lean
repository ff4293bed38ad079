import PacedCall.Call.Pump
import PacedCall.Call.Supervisor
import PacedCall.Call.Handler

/-!
A call of any kind, run step by step over a loopback transport. The session holds what its owner
holds: the receiving half in one of its forms, sinks under names, and tasks. Tasks run when the
session settles: each is looked at, in turn, until none moves any more.
-/
namespace PacedCall
namespace Session

/-- A single response under way; `opening` before it was looked at, then with the sink it has to
let go first. -/
inductive Awaiting (α : Type) where
  | opening (sink : Bool)
  | reading (s : Call.Single α)

inductive Unary (α : Type) where
  | unsent (request : α)
  | sending (s : Send α)
  | awaiting (a : Awaiting α)

inductive Kind (α : Type) where
  | bidi
  | responses (request : α)
  | clientStreaming
  | unary (request : α)
  | serve (shape : Shape) (program : List (Instr α))

inductive Reader where
  | none
  | call
  | clientCall
  | responses
  | inbound
  | single
  | stream (live : Bool)
deriving DecidableEq

inductive Job (α : Type) where
  | send (s : Send α)
  | recv
  | response (a : Awaiting α)
  | play (rest : List α) (completes : Bool)
  | wait (w : Loopback.Wait α)
  | cancelled
  | unary (u : Unary α)

inductive Reading (α : Type) where
  | received (r : RecvResult α)
  | noStream

inductive Outcome (α : Type) where
  | sent (r : SendResult)
  | read (r : Reading α)
  | response (r : Except Status α)
  | played (completed : Bool)
  | waited (w : Loopback.Wait α)
  | cancelled

structure Task (α : Type) where
  id : String
  serial : Nat
  job : Job α
  aborted : Bool := false

end Session

open Session in
/-- A call and all that is around it; `wire` is the transport until the call holds it.
`controlled` says that the owner has the call's control in hand, `names` which task was last
started under a name, `gates` which openings came before there was a handler; `done` and `notes`
hold what happened since the last step. -/
structure Session (α : Type) where
  wire : Loopback α
  plan : CallPlan
  hasParent : Bool := false
  parentCancelled : Bool := false
  call? : Option (Call α) := none
  controlled : Bool := false
  handler? : Option (Handler α) := none
  reader : Reader := .none
  sinks : List String := []
  tasks : List (Session.Task α) := []
  names : List (String × Nat) := []
  nextSerial : Nat := 0
  gates : List String := []
  now : Nat := 0
  done : List (String × Outcome α) := []
  notes : List (Note α) := []

namespace Session
variable {α : Type}

def transport (s : Session α) : Loopback α :=
  match s.call? with
  | some c => c.wire
  | none => s.wire

def control? (s : Session α) : Option (Call α) := if s.controlled then s.call? else none

def withCall (s : Session α) (c : Call α) : Session α := { s with call? := some c }

def mapCall (s : Session α) (f : Call α → Call α) : Session α :=
  match s.call? with
  | some c => s.withCall (f c)
  | none => s

def peer (s : Session α) (a : PeerAct α) : Session α :=
  match s.call? with
  | some c => s.withCall (c.peer a)
  | none => { s with wire := (s.wire.peer a).1 }

def planned (s : Session α) : CallPlan :=
  { s.plan with parentCancelled := s.hasParent && s.parentCancelled }

def busy (s : Session α) : Bool :=
  s.tasks.any fun t =>
    match t.job with
    | .recv => true
    | _ => false

def addTask (s : Session α) (id : String) (job : Job α) : Session α :=
  { s with
    tasks := s.tasks ++ [⟨id, s.nextSerial, job, false⟩]
    names := (id, s.nextSerial) :: s.names.filter fun n => n.1 != id
    nextSerial := s.nextSerial + 1 }

def keepSink (s : Session α) (name : String) : Session α :=
  if name ∈ s.sinks then s.mapCall Call.dropSink else { s with sinks := s.sinks ++ [name] }

def dropReader (s : Session α) : Session α :=
  let s' := { s with reader := .none }
  match s.reader with
  | .none => s'
  | .stream false => s'
  | .call => s'.mapCall fun c => c.dropInbound.dropSink
  | .clientCall => s'.mapCall fun c => c.dropInbound.dropSink
  | _ => s'.mapCall Call.dropInbound

def split (s : Session α) : Session α :=
  match s.reader with
  | .call => keepSink { s with reader := .inbound } "main"
  | .clientCall => keepSink { s with reader := .single } "main"
  | .responses => { s with reader := .inbound }
  | _ => s

def pollRecv (s : Session α) : Session α × Option (Reading α) :=
  match s.reader, s.call? with
  | .stream false, _ => (s, some (.received (.ok none)))
  | .stream true, some c =>
    match c.recv with
    | (_, none) => (s, none)
    | (c, some (.ok (some v))) => (s.withCall c, some (.received (.ok (some v))))
    | (c, some r) =>
      ({ s with reader := .stream false, call? := some c.dropInbound }, some (.received r))
  | .call, some c => plain c
  | .responses, some c => plain c
  | .inbound, some c => plain c
  | _, _ => (s, some .noStream)
where
  plain (c : Call α) : Session α × Option (Reading α) :=
    match c.recv with
    | (_, none) => (s, none)
    | (c, some r) => (s.withCall c, some (.received r))

def pollAwaiting (c : Call α) : Awaiting α → Call α × Awaiting α × Option (Except Status α)
  | .opening sink =>
    let (c, s, r) := (if sink then c.dropSink else c).pollResponse .first
    (c, .reading s, r)
  | .reading s =>
    let (c, s, r) := c.pollResponse s
    (c, .reading s, r)

/-- The first look at a single response always changes something, later ones may not. -/
def awaitingMoves : Awaiting α → Awaiting α → Bool
  | .reading .first, .reading .first => false
  | .reading (.last _), _ => false
  | _, _ => true

def pollUnary (plan : CallPlan) (wire : Loopback α) (c? : Option (Call α)) :
    Unary α → Call α × Unary α × Option (Except Status α)
  | .unsent v => onSend (plan.bidi wire) (.fresh v)
  | .sending s => onSend (c?.getD (plan.bidi wire)) s
  | .awaiting a => onAwait (c?.getD (plan.bidi wire)) a
where
  onAwait (c : Call α) (a : Awaiting α) : Call α × Unary α × Option (Except Status α) :=
    let (c, a, r) := pollAwaiting c a
    (c, .awaiting a, r)
  onSend (c : Call α) (s : Send α) : Call α × Unary α × Option (Except Status α) :=
    match c.pollSend s with
    | (c, s, none) => (c, .sending s, none)
    | (c, _, some (.ok _)) => onAwait c (.opening true)
    | (c, s, some (.error e)) => (c.dropSink.dropInbound, .sending s, some (.error e.status))

def unaryMoves : Unary α → Unary α → Bool
  | .sending _, .sending _ => false
  | .awaiting a, .awaiting b => awaitingMoves a b
  | _, _ => true

def play : List α → Session α → Session α × List α × Bool
  | [], s => (s, [], false)
  | v :: rest, s =>
    if s.transport.settles (.deliver v) then
      let (s, rest, _) := play rest (s.peer (.deliver v))
      (s, rest, true)
    else (s, v :: rest, false)

def pollJob (s : Session α) : Job α → Session α × Job α × Option (Outcome α) × Bool
  | .send sd =>
    match s.call? with
    | none => (s, .send sd, none, false)
    | some c =>
      match sd, c.pollSend sd with
      | .fresh _, (c, sd, none) => (s.withCall c, .send sd, none, true)
      | .placed _, (_, _, none) => (s, .send sd, none, false)
      | _, (c, sd, some r) => (s.withCall c.dropSink, .send sd, some (.sent r), true)
  | .recv =>
    match s.pollRecv with
    | (s, none) => (s, .recv, none, false)
    | (s, some r) => (s, .recv, some (.read r), true)
  | .response a =>
    match s.call? with
    | none => (s, .response a, none, false)
    | some c =>
      let (c, b, r) := pollAwaiting c a
      (s.withCall c, .response b, r.map .response, r.isSome || awaitingMoves a b)
  | .play rest completes =>
    let (t, left, moved) := play rest s
    if left.isEmpty then
      (if completes then t.peer .complete else t, .play [] completes, some (.played completes),
        true)
    else (t, .play left completes, none, moved)
  | .wait w =>
    if s.transport.settles w then (s, .wait w, some (.waited w), true)
    else (s, .wait w, none, false)
  | .cancelled =>
    match s.call? with
    | some c =>
      if c.scope.cancelled then (s, .cancelled, some .cancelled, true)
      else (s, .cancelled, none, false)
    | none => (s, .cancelled, none, false)
  | .unary u =>
    let (c, u', r) := pollUnary s.planned s.wire s.call? u
    (s.withCall c, .unary u', r.map .response, r.isSome || unaryMoves u u')

def dropJob (s : Session α) : Job α → Session α
  | .send sd => s.mapCall fun c => (c.dropSend sd).dropSink
  | .response a => s.mapCall (dropAwaiting a)
  | .unary (.unsent _) => s
  | .unary (.sending sd) => s.mapCall fun c => (c.dropSend sd).dropSink.dropInbound
  | .unary (.awaiting a) => s.mapCall (dropAwaiting a)
  | _ => s
where
  dropAwaiting : Awaiting α → Call α → Call α
    | .opening true, c => c.dropSink.dropInbound
    | _, c => c.dropInbound

def pollTask (s : Session α) (serial : Nat) : Session α × Bool :=
  match s.tasks.find? fun t => t.serial == serial with
  | none => (s, false)
  | some t =>
    let (s, job, out, moved) := s.pollJob t.job
    match out with
    | some r =>
      ({ s with
          tasks := s.tasks.filter fun t => t.serial != serial
          done := s.done ++ [(t.id, r)] }, true)
    | none =>
      ({ s with
          tasks := s.tasks.map fun t => if t.serial == serial then { t with job := job } else t },
        moved)

def pollTasks (s : Session α) : Session α × Bool :=
  (s.tasks.map Task.serial).foldl
    (fun (s, moved) serial =>
      let (s, more) := s.pollTask serial
      (s, moved || more))
    (s, false)

def dropAborted (s : Session α) : Session α :=
  s.tasks.foldl
    (fun s t =>
      if t.aborted then
        dropJob { s with tasks := s.tasks.filter fun u => u.serial != t.serial } t.job
      else s)
    s

def pollPump (s : Session α) : Session α × Bool :=
  match s.call? with
  | some c => if c.pumpMoves then (s.withCall c.pollPump, true) else (s, false)
  | none => (s, false)

def pollSupervisor (s : Session α) : Session α × Bool :=
  match s.call? with
  | some c =>
    if c.supervisorMoves s.now then (s.withCall (c.pollSupervisor s.now), true) else (s, false)
  | none => (s, false)

/-- Looks at the deferred values, the last one first, so that an ended task leaves the rest in
place. -/
def pollDeferredFrom : Nat → Call α → Call α × Bool
  | 0, c => (c, false)
  | n + 1, c =>
    let (c, ended) := c.pollDeferred n
    let (c, more) := pollDeferredFrom n c
    (c, ended || more)

def pollDeferred (s : Session α) : Session α × Bool :=
  match s.call? with
  | some c =>
    let (c, moved) := pollDeferredFrom c.inbound.deferred.length c
    (s.withCall c, moved)
  | none => (s, false)

def pollHandler [Message α] (s : Session α) : Session α × Bool :=
  match s.call?, s.handler? with
  | some c, some h =>
    let (c, h, moved) := h.poll s.now c
    let s := { s with
      call? := some c
      handler? := some { h with notes := [], kept := [] }
      notes := s.notes ++ h.notes }
    (h.kept.foldl keepSink s, moved)
  | _, _ => (s, false)

def round [Message α] (s : Session α) : Session α × Bool :=
  let (s, a) := s.pollPump
  let (s, b) := s.pollSupervisor
  let (s, c) := s.pollDeferred
  let (s, d) := s.pollHandler
  let (s, e) := s.pollTasks
  (s, a || b || c || d || e)

def load (s : Session α) : Nat :=
  let playing := s.tasks.map fun t =>
    match t.job with
    | .play rest _ => rest.length
    | _ => 0
  let inCall := match s.call? with
    | some c => c.inbound.queue.length + c.outbound.length + c.inbound.deferred.length
    | none => 0
  let inHandler := match s.handler? with
    | some h => h.program.length + h.acc.length
    | none => 0
  playing.foldl (· + ·) 0 + inCall + inHandler + s.tasks.length + 8

inductive Try (α : Type) where
  | send (s : Send α)
  | recv
  | join

inductive Tried (α : Type) where
  | sent (r : SendResult)
  | read (r : Reading α)
  | joined

def joined (s : Session α) : Bool :=
  (match s.call? with
    | some c => c.pump.done && c.supervisor.done && c.inbound.deferred.isEmpty
    | none => true)
    && (match s.handler? with
      | some h => h.done
      | none => true)

def pollTry (s : Session α) : Try α → Session α × Try α × Option (Tried α)
  | .send sd =>
    match s.call? with
    | none => (s, .send sd, none)
    | some c =>
      let (c, sd, r) := c.pollSend sd
      (s.withCall c, .send sd, r.map .sent)
  | .recv =>
    let (s, r) := s.pollRecv
    (s, .recv, r.map .read)
  | .join => (s, .join, if s.joined then some .joined else none)

def dropTry (s : Session α) : Try α → Session α
  | .send sd => s.mapCall fun c => c.dropSend sd
  | _ => s

def settleWith [Message α] : Nat → Session α → Option (Try α) → Session α × Option (Tried α)
  | 0, s, t => (t.elim s s.dropTry, none)
  | fuel + 1, s, t =>
    let (s, moved) := s.dropAborted.round
    match t with
    | none => if moved then settleWith fuel s none else (s, none)
    | some t =>
      match s.pollTry t with
      | (s, _, some r) => (s, some r)
      | (s, t, none) => if moved then settleWith fuel s (some t) else (s.dropTry t, none)

/-- Every round but the last moves something, and there is only so much to move. -/
def rounds (s : Session α) : Nat := 16 * s.load * s.load

def settle [Message α] (s : Session α) : Session α := (settleWith s.rounds s none).1

/-- Tries at once, and if need be while the session settles. Nothing comes of a try that is then
still waiting. -/
def attempt [Message α] (s : Session α) (t : Try α) : Session α × Option (Tried α) :=
  match s.pollTry t with
  | (s, _, some r) => (s, some r)
  | (s, t, none) => settleWith s.rounds s (some t)

end Session
end PacedCall
