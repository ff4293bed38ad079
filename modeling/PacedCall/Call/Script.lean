import PacedCall.Call.Session

/-!
Scripts for a call: what its owner and its peer may do one step at a time, and what each step
answers. Unless a step says otherwise the session settles after it.
-/
namespace PacedCall
namespace Session
variable {α : Type}

inductive Step (α : Type) where
  | peer (a : PeerAct α)
  | play (id : String) (values : List α) (completes : Bool)
  | wait (id : String) (w : Loopback.Wait α)
  | send (sink : String) (v : α)
  | sendStart (sink : String) (id : String) (v : α)
  | trySend (sink : String) (v : α)
  | sinkClose (sink : String)
  | sinkFail (sink : String) (f : Failure)
  | sinkInfo (sink : String)
  | sinkClone (sink : String) (name : String)
  | sinkDrop (sink : String)
  | recv
  | recvAll
  | recvStart (id : String)
  | inCancel
  | inFail (f : Failure)
  | inClosed
  | inDrop
  | intoStream
  | split
  | response (id : String)
  | callSend (v : α)
  | callInfo
  | cancel
  | fail (f : Failure)
  | debug
  | cancelled (id : String)
  | join
  | parentCancel
  | gate (name : String)
  | advance (ticks : Nat)
  | abort (id : String)
  | settle
  | unknown

inductive Answer (α : Type) where
  | nothing
  | flag (b : Bool)
  | sent (r : SendResult)
  | trySent (r : Except Refusal Unit) (v : α)
  | read (r : Reading α)
  | readAll (rs : List (Option (Reading α)))
  | sink (closed : Bool) (capacity : Nat)
  | call (sink : Option (Bool × Nat)) (role : Role)
  | text (shown : String)
  | joined
  | pending
  | unavailable
  | busy
  | badStep

def ofTried : Option (Tried α) → Answer α
  | some (.sent r) => .sent r
  | some (.read r) => .read r
  | some .joined => .joined
  | none => .pending

def needsControl : Step α → Bool
  | .cancel => true
  | .fail _ => true
  | .debug => true
  | .cancelled _ => true
  | .join => true
  | .unknown => true
  | _ => false

def needsReader : Step α → Bool
  | .recv => true
  | .recvAll => true
  | .recvStart _ => true
  | .inCancel => true
  | .inFail _ => true
  | .inClosed => true
  | .inDrop => true
  | .intoStream => true
  | .split => true
  | .response _ => true
  | .callSend _ => true
  | .callInfo => true
  | _ => false

def sinkOf : Step α → Option String
  | .send sink _ => some sink
  | .sendStart sink _ _ => some sink
  | .trySend sink _ => some sink
  | .sinkClose sink => some sink
  | .sinkFail sink _ => some sink
  | .sinkInfo sink => some sink
  | .sinkClone sink _ => some sink
  | .sinkDrop sink => some sink
  | _ => none

def refused (s : Session α) (a : Step α) : Option (Answer α) :=
  if needsControl a && s.control?.isNone then some .unavailable
  else if needsReader a && s.busy then some .busy
  else
    match sinkOf a with
    | some name => if name ∈ s.sinks then none else some .unavailable
    | none => none

def recvAllWith [Message α] : Nat → Session α → Session α × List (Option (Reading α))
  | 0, s => (s, [])
  | fuel + 1, s =>
    match s.attempt .recv with
    | (s, some (.read (.received (.ok (some v))))) =>
      let (s, rs) := recvAllWith fuel s
      (s, some (.received (.ok (some v))) :: rs)
    | (s, some (.read r)) => (s, [some r])
    | (s, _) => (s, [none])

def sinkInfo (c : Call α) : Bool × Nat := (c.outbound.closedForSend, c.outbound.capacity)

def onReader (s : Session α) (fits : Reader → Bool) (f : Call α → Call α × Answer α) :
    Session α × Answer α :=
  match fits s.reader, s.call? with
  | true, some c =>
    let (c, r) := f c
    (s.withCall c, r)
  | _, _ => (s, .unavailable)

def isInbound : Reader → Bool
  | .call => true
  | .inbound => true
  | _ => false

def canCancel : Reader → Bool
  | .responses => true
  | r => isInbound r

def isWhole : Reader → Bool
  | .call => true
  | .clientCall => true
  | _ => false

def onCall (s : Session α) (f : Call α → Call α × Answer α) : Session α × Answer α :=
  onReader s (fun _ => true) f

def openGate (s : Session α) (name : String) : Session α :=
  match s.handler? with
  | some h => { s with handler? := some (h.openGate name) }
  | none => { s with gates := name :: s.gates.erase name }

/-- Marks the task last started under a name; it goes away when tasks get to run. -/
def abort (s : Session α) (id : String) : Session α × Bool :=
  match s.names.lookup id with
  | none => (s, false)
  | some serial =>
    ({ s with
        names := s.names.filter fun n => n.1 != id
        tasks := s.tasks.map fun t =>
          if t.serial == serial then { t with aborted := true } else t },
      true)

def controlShown (c : Call α) : String :=
  "CallControl \x7b role: " ++ c.handle.role.label ++ ", cancelled: "
    ++ toString c.scope.cancelled ++ ", .. \x7d"

def apply [Message α] (s : Session α) : Step α → Session α × Answer α
  | .peer a => (s.peer a, .nothing)
  | .play id values completes => (s.addTask id (.play values completes), .nothing)
  | .wait id w => (s.addTask id (.wait w), .nothing)
  | .send _ v =>
    let (s, r) := s.attempt (.send (.fresh v))
    (s, ofTried r)
  | .sendStart _ id v => ((s.mapCall Call.cloneSink).addTask id (.send (.fresh v)), .nothing)
  | .trySend _ v =>
    s.onCall fun c =>
      let (c, r) := c.trySend v
      (c, .trySent r v)
  | .sinkClose _ =>
    s.onCall fun c =>
      let (c, first) := c.closeSink
      (c, .flag first)
  | .sinkFail _ f =>
    s.onCall fun c =>
      let (c, first) := c.failSink f
      (c, .flag first)
  | .sinkInfo _ =>
    s.onCall fun c =>
      let (closed, capacity) := sinkInfo c
      (c, .sink closed capacity)
  | .sinkClone _ name => ((s.mapCall Call.cloneSink).keepSink name, .nothing)
  | .sinkDrop name => (mapCall { s with sinks := s.sinks.erase name } Call.dropSink, .nothing)
  | .recv =>
    let (s, r) := s.attempt .recv
    (s, ofTried r)
  | .recvAll =>
    let (s, rs) := recvAllWith (s.load + 1) s
    (s, .readAll rs)
  | .recvStart id => (s.addTask id .recv, .nothing)
  | .inCancel => s.onReader canCancel fun c => (c.cancelInbound, .nothing)
  | .inFail f => s.onReader isInbound fun c => (c.failWith f, .nothing)
  | .inClosed => s.onReader isInbound fun c => (c, .flag c.readAll)
  | .inDrop => (s.dropReader, .nothing)
  | .intoStream =>
    (match s.reader with
      | .inbound => { s with reader := .stream true }
      | .responses => { s with reader := .stream true }
      | _ => s,
      .nothing)
  | .split => (s.split, .nothing)
  | .response id =>
    match s.reader with
    | .clientCall => (addTask { s with reader := .none } id (.response (.opening true)), .nothing)
    | .single => (addTask { s with reader := .none } id (.response (.opening false)), .nothing)
    | _ => (s, .unavailable)
  | .callSend v =>
    if isWhole s.reader then
      let (s, r) := s.attempt (.send (.fresh v))
      (s, ofTried r)
    else (s, .unavailable)
  | .callInfo =>
    match s.reader with
    | .responses => s.onCall fun c => (c, .call none c.handle.role)
    | _ => s.onReader isWhole fun c => (c, .call (some (sinkInfo c)) c.handle.role)
  | .cancel => (s.mapCall fun c => c.cancelScope .here .localCancelled, .nothing)
  | .fail f => (s.mapCall fun c => c.failWith f, .nothing)
  | .debug => s.onCall fun c => (c, .text (controlShown c))
  | .cancelled id => (s.addTask id .cancelled, .nothing)
  | .join =>
    let (s, r) := s.attempt .join
    (s, ofTried r)
  | .parentCancel =>
    let s := { s with parentCancelled := true }
    (if s.hasParent then s.mapCall fun c => { c with scope := c.scope.trip } else s, .nothing)
  | .gate name => (s.openGate name, .nothing)
  | .advance ticks => ({ s with now := s.now + ticks }, .nothing)
  | .abort id =>
    let (s, there) := s.abort id
    (s, .flag there)
  | .settle => (s, .nothing)
  | .unknown => (s, .badStep)

def alwaysSettles : Step α → Bool
  | .advance _ => true
  | _ => false

def step [Message α] (s : Session α) (a : Step α) (settles : Bool) : Session α × Answer α :=
  let s := { s with done := [], notes := [] }
  let (s, r) :=
    match s.refused a with
    | some r => (s, r)
    | none => s.apply a
  (if settles || alwaysSettles a then s.settle else s, r)

def build (s : Session α) (kind : Kind α) : Session α :=
  let plan := s.planned
  match kind with
  | .bidi => { s with call? := some (plan.bidi s.wire), controlled := true, reader := .call }
  | .responses v =>
    { s with call? := some (plan.responses s.wire v), controlled := true, reader := .responses }
  | .clientStreaming =>
    { s with call? := some (plan.bidi s.wire), controlled := true, reader := .clientCall }
  | .unary v => s.addTask "unary" (.unary (.unsent v))
  | .serve shape program =>
    { s with
      call? := some (plan.bidi s.wire).cloneSink
      controlled := true
      handler? := some { Handler.new shape program with gates := s.gates } }

/-- Starts the call, takes it apart if asked to, and settles; the flags say whether the transport
was started and put in manual credit before that. -/
def start [Message α] (s : Session α) (kind : Kind α) (splits settles : Bool) :
    Session α × Bool × Bool :=
  let s := build { s with done := [], notes := [] } kind
  let s := if splits then s.split else s
  (if settles then s.settle else s, s.transport.started, s.transport.manualCredit)

end Session
end PacedCall
