import PacedCall.Loopback
import PacedCall.Stats

/-!
The owner of a call's transport. Writes, credit requests and ends all pass through it; however
many parts of a call decide to end it, the transport hears of it once.
-/
namespace PacedCall

inductive Role where
  | client
  | server
deriving DecidableEq

namespace Role

def name : Role → String
  | client => "client"
  | server => "server"

def label : Role → String
  | client => "Client"
  | server => "Server"

end Role

/-- A transport with its owner's books: `outboundDone` once half-closed or closed with an error,
`remoteClosed` once the transport reported an end of the call. -/
structure Handle (α : Type) where
  role : Role
  transport : Loopback α
  stats : Stats := {}
  outboundDone : Bool := false
  cancelled : Bool := false
  remoteClosed : Bool := false

namespace Handle
variable {α : Type}

def terminated (h : Handle α) : Bool := h.cancelled || h.remoteClosed || h.outboundDone

def markRemoteClosed (h : Handle α) : Handle α := { h with remoteClosed := true }

def sendMessage (h : Handle α) (v : α) : Handle α × Except Status Unit :=
  if h.terminated then (h, .error .alreadyTerminated)
  else
    match h.transport.sendMessage v with
    | (_, .error st) => (h, .error st)
    | (t, .ok _) => ({ h with transport := t, stats := h.stats.sent }, .ok ())

/-- The flag of this and the next three says whether the transport was told. -/
def halfClose (h : Handle α) : Handle α × Bool :=
  if h.cancelled || h.remoteClosed || h.outboundDone then (h, false)
  else ({ h with outboundDone := true, transport := h.transport.halfClose }, true)

def closeWithError (h : Handle α) (st : Status) : Handle α × Bool :=
  if h.cancelled || h.remoteClosed || h.outboundDone then (h, false)
  else ({ h with outboundDone := true, transport := h.transport.closeWithError st }, true)

/-- A client may cancel what it has finished sending; a server that closed the call may not. -/
def cancel (h : Handle α) (st : Status) : Handle α × Bool :=
  if h.remoteClosed || (h.role == .server && h.outboundDone) || h.cancelled then (h, false)
  else ({ h with cancelled := true, transport := h.transport.cancel st }, true)

def fail (h : Handle α) (st : Status) : Handle α × Bool :=
  match h.role with
  | .client => h.cancel st
  | .server => h.closeWithError st

def requestCredit (h : Handle α) (n : Nat) : Handle α :=
  if h.cancelled || h.remoteClosed then h
  else { h with transport := h.transport.requestCredit n, stats := h.stats.requested n }

def ready (h : Handle α) : Bool := h.transport.ready

inductive Step (α : Type) where
  | peer (a : PeerAct α)
  | send (v : α)
  | halfClose
  | closeWithError (st : Status)
  | cancel (st : Status)
  | fail (st : Status)
  | requestCredit (n : Nat)
  | transportHalfClose
  | transportCancel (st : Status)
  | unknown

inductive Answer where
  | nothing
  | flag (b : Bool)
  | wrote (r : Except Status Unit)
  | badStep

def step (h : Handle α) : Step α → Handle α × Answer
  | .peer a => ({ h with transport := (h.transport.peer a).1 }, .nothing)
  | .send v =>
    let (h, r) := h.sendMessage v
    (h, .wrote r)
  | .halfClose =>
    let (h, told) := h.halfClose
    (h, .flag told)
  | .closeWithError st =>
    let (h, told) := h.closeWithError st
    (h, .flag told)
  | .cancel st =>
    let (h, told) := h.cancel st
    (h, .flag told)
  | .fail st =>
    let (h, told) := h.fail st
    (h, .flag told)
  | .requestCredit n => (h.requestCredit n, .nothing)
  | .transportHalfClose => ({ h with transport := h.transport.halfClose }, .nothing)
  | .transportCancel st => ({ h with transport := h.transport.cancel st }, .nothing)
  | .unknown => (h, .badStep)

end Handle
end PacedCall
