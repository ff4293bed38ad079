import PacedCall.Call.Reading
import PacedCall.Call.Writing

/-!
A server call run by a handler. The handler is a program over the two halves of the call; when it
returns, what it holds goes away, and the call is closed normally or failed with its error.
-/
namespace PacedCall

class Message (α : Type) where
  blank : α
  pack : List α → α

/-- One instruction of a handler. Strict ones end the handler with the error they meet; the last
three are instructions under way. -/
inductive Instr (α : Type) where
  | recv
  | recvStrict
  | collect
  | echo (pause : Nat)
  | inClosed
  | inCancel
  | inFail (f : Failure)
  | inDrop
  | send (v : α)
  | sendStrict (v : α)
  | sendAll
  | trySend (v : α)
  | sinkClose
  | sinkFail (f : Failure)
  | sinkDrop
  | sinkKeep (name : String)
  | gate (name : String)
  | sleep (ticks : Nat)
  | log (v : α)
  | fail (f : Failure)
  | respond (v : α)
  | respondAll
  | unknown
  | sending (s : Send α) (strict : Bool)
  | atGate (name : String) (called : Bool)
  | asleep (time : Nat)

inductive Note (α : Type) where
  | received (r : RecvResult α)
  | flag (b : Bool)
  | sent (r : SendResult)
  | trySent (r : Except Refusal Unit) (v : α)
  | value (v : α)
  | badInstruction

inductive Shape where
  | bidi
  | unary
  | clientStreaming
  | serverStreaming
deriving DecidableEq

namespace Shape

def reads : Shape → Bool
  | bidi => true
  | clientStreaming => true
  | _ => false

def writes : Shape → Bool
  | bidi => true
  | serverStreaming => true
  | _ => false

end Shape

inductive Phase (α : Type) where
  | request (s : Call.Single α)
  | running
  | responding (s : Send α)
  | returned

/-- A handler: `inbound` and `sink` say which halves are still held, `gates` holds the openings
nobody has used. With `textOnly` an error leaves the program as its text alone. -/
structure Handler (α : Type) where
  shape : Shape
  phase : Phase α
  program : List (Instr α)
  acc : List α := []
  inbound : Bool := true
  sink : Bool := true
  gates : List String := []
  notes : List (Note α) := []
  kept : List String := []
  failure : Option Status := none
  textOnly : Bool := false

namespace Handler
variable {α : Type}

def new (shape : Shape) (program : List (Instr α)) : Handler α :=
  { shape := shape
    phase := if shape.reads then .running else .request .first
    program := program }

def done (h : Handler α) : Bool :=
  match h.phase with
  | .returned => true
  | _ => false

def canRead (h : Handler α) : Bool := h.shape.reads && h.inbound

def canWrite (h : Handler α) : Bool := h.shape.writes && h.sink

def note (h : Handler α) (n : Note α) : Handler α := { h with notes := h.notes ++ [n] }

def openGate (h : Handler α) (name : String) : Handler α :=
  match h.program with
  | .atGate place false :: rest =>
    if place == name then { h with program := .atGate place true :: rest }
    else { h with gates := name :: h.gates.erase name }
  | _ => { h with gates := name :: h.gates.erase name }

def shownError (h : Handler α) (f : Failure) : Failure :=
  if h.textOnly then ⟨.text f.head.shown, []⟩ else f

def dropInbound (c : Call α) (h : Handler α) : Call α × Handler α :=
  if h.inbound then (c.dropInbound, { h with inbound := false }) else (c, h)

def dropSink (c : Call α) (h : Handler α) : Call α × Handler α :=
  if h.sink then (c.dropSink, { h with sink := false }) else (c, h)

/-- The handler has returned. What it held goes away first; the call's own sink then closes the
call, or fails it after the scope. -/
def finish (c : Call α) (h : Handler α) (r : Except Failure Unit) : Call α × Handler α :=
  let (c, h) := dropInbound c h
  let (c, h) := dropSink c h
  match r with
  | .ok _ => (c.closeSink.1.dropSink, { h with phase := .returned })
  | .error f =>
    let st := f.toStatus
    let c := c.cancelScope .here st
    ((c.closeOutbound (.failed st)).1.dropSink, { h with phase := .returned, failure := some st })

/-- The program has returned. A single response is sent after the requests are let go. -/
def conclude (c : Call α) (h : Handler α) (r : Except Failure α) : Call α × Handler α :=
  match r with
  | .error f => finish c h (.error (h.shownError f))
  | .ok v =>
    if h.shape.writes then finish c h (.ok ())
    else
      let (c, h) := dropInbound c h
      (c, { h with phase := .responding (.fresh v) })

inductive Turn (α : Type) where
  | moved (c : Call α) (h : Handler α)
  | blocked

namespace Turn

def noted (c : Call α) (h : Handler α) (n : Note α) : Turn α := .moved c (h.note n)

def ended (p : Call α × Handler α) : Turn α := .moved p.1 p.2

end Turn

/-- Runs one instruction; `h` already stands behind it. -/
def execute [Message α] (now : Nat) (c : Call α) (h : Handler α) : Instr α → Turn α
  | .recv =>
    if !h.canRead then .noted c h .badInstruction
    else
      match c.recv with
      | (_, none) => .blocked
      | (c, some r) => .noted c h (.received r)
  | .recvStrict =>
    if !h.canRead then .noted c h .badInstruction
    else
      match c.recv with
      | (_, none) => .blocked
      | (c, some (.error st)) => .ended (conclude c h (.error (.ofStatus st)))
      | (c, some (.ok none)) => .moved c h
      | (c, some (.ok (some v))) => .moved c { h with acc := h.acc ++ [v] }
  | .collect =>
    if !h.canRead then .noted c h .badInstruction
    else
      match c.recv with
      | (_, none) => .blocked
      | (c, some (.error st)) => .ended (conclude c h (.error (.ofStatus st)))
      | (c, some (.ok none)) => .moved c h
      | (c, some (.ok (some v))) =>
        .moved c { h with acc := h.acc ++ [v], program := .collect :: h.program }
  | .echo pause =>
    if !(h.canRead && h.canWrite) then .noted c h .badInstruction
    else
      match c.recv with
      | (_, none) => .blocked
      | (c, some (.error st)) => .ended (conclude c h (.error (.ofStatus st)))
      | (c, some (.ok none)) => .moved c h
      | (c, some (.ok (some v))) =>
        .moved c { h with program := .sleep pause :: .sendStrict v :: .echo pause :: h.program }
  | .inClosed =>
    if !h.canRead then .noted c h .badInstruction else .noted c h (.flag c.readAll)
  | .inCancel =>
    if !h.canRead then .noted c h .badInstruction else .moved c.cancelInbound h
  | .inFail f =>
    if !h.canRead then .noted c h .badInstruction else .moved (c.failWith f) h
  | .inDrop =>
    if !h.canRead then .noted c h .badInstruction else .ended (dropInbound c h)
  | .send v =>
    if !h.canWrite then .noted c h .badInstruction
    else .moved c { h with program := .sending (.fresh v) false :: h.program }
  | .sendStrict v =>
    if !h.canWrite then .noted c h .badInstruction
    else .moved c { h with program := .sending (.fresh v) true :: h.program }
  | .sendAll =>
    if !h.canWrite then .noted c h .badInstruction
    else .moved c { h with program := h.acc.map .sendStrict ++ h.program }
  | .trySend v =>
    if !h.canWrite then .noted c h .badInstruction
    else
      let (c, r) := c.trySend v
      .noted c h (.trySent r v)
  | .sinkClose =>
    if !h.canWrite then .noted c h .badInstruction
    else
      let (c, first) := c.closeSink
      .noted c h (.flag first)
  | .sinkFail f =>
    if !h.canWrite then .noted c h .badInstruction
    else
      let (c, first) := c.failSink f
      .noted c h (.flag first)
  | .sinkDrop =>
    if !h.canWrite then .noted c h .badInstruction else .ended (dropSink c h)
  | .sinkKeep name =>
    if !h.canWrite then .noted c h .badInstruction
    else .moved c.cloneSink { h with kept := h.kept ++ [name] }
  | .gate name =>
    if name ∈ h.gates then .moved c { h with gates := h.gates.erase name }
    else .moved c { h with program := .atGate name false :: h.program }
  | .sleep ticks => .moved c { h with program := .asleep (now + ticks) :: h.program }
  | .log v => .noted c h (.value v)
  | .fail f => .ended (conclude c h (.error f))
  | .respond v => .ended (conclude c h (.ok v))
  | .respondAll => .ended (conclude c h (.ok (Message.pack h.acc)))
  | .unknown => .noted c h .badInstruction
  | .sending s strict =>
    match s, c.pollSend s with
    | .fresh _, (c, s, none) => .moved c { h with program := .sending s strict :: h.program }
    | .placed _, (_, _, none) => .blocked
    | _, (c, _, some r) =>
      if strict then
        match r with
        | .ok _ => .moved c h
        | .error e => .ended (conclude c h (.error (.ofQueue e)))
      else .noted c h (.sent r)
  | .atGate _ called => if called then .moved c h else .blocked
  | .asleep time => if time ≤ now then .moved c h else .blocked

/-- One turn of the handler: of the reading of its request, of its program, or of the sending of
its response. A program that runs out has succeeded with an empty message. -/
def turn [Message α] (now : Nat) (c : Call α) (h : Handler α) : Turn α :=
  match h.phase with
  | .returned => .blocked
  | .request s =>
    match s, c.pollSingle "client half-closed without a request"
        "received more than one request" s with
    | .first, (c, .last v, none) => .moved c { h with phase := .request (.last v) }
    | _, (_, _, none) => .blocked
    | _, (c, _, some (.error st)) => .ended (conclude c h (.error (.ofStatus st)))
    | _, (c, _, some (.ok v)) => .moved c { h with phase := .running, acc := [v] }
  | .responding s =>
    match s, c.pollSend s with
    | .fresh _, (c, s, none) => .moved c { h with phase := .responding s }
    | .placed _, (_, _, none) => .blocked
    | _, (c, _, some (.ok _)) => .ended (finish c h (.ok ()))
    | _, (c, _, some (.error e)) => .ended (finish c h (.error (.ofQueue e)))
  | .running =>
    match h.program with
    | [] => .ended (conclude c h (.ok Message.blank))
    | i :: rest => execute now c { h with program := rest } i

def pollWith [Message α] (now : Nat) : Nat → Call α → Handler α → Call α × Handler α × Bool
  | 0, c, h => (c, h, false)
  | fuel + 1, c, h =>
    match turn now c h with
    | .blocked => (c, h, false)
    | .moved c h =>
      let (c, h, _) := pollWith now fuel c h
      (c, h, true)

/-- Turns enough for one look: every instruction, for every message there may be to handle. -/
def budget (c : Call α) (h : Handler α) : Nat :=
  8 * (h.program.length + 3) * (h.acc.length + c.inbound.queue.length + 3)

def poll [Message α] (now : Nat) (c : Call α) (h : Handler α) : Call α × Handler α × Bool :=
  pollWith now (budget c h) c h

end Handler
end PacedCall
