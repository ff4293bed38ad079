import PacedCall.Call.State

/-!
The receiving half of a call. A client that abandons what its peer still sends cancels the call; a
server only discards it.
-/
namespace PacedCall
namespace Call
variable {α : Type}

def withInbound (c : Call α) (q : Queue α) : Call α :=
  { c with inbound := { c.inbound with queue := q } }

/-- One look at a receive: the scope's end goes before any value. -/
def recv (c : Call α) : Call α × Option (RecvResult α) :=
  match c.scope.status with
  | some st => (c, some (.error st))
  | none =>
    let (q, r) := c.inbound.queue.tryRecv
    (c.withInbound q, r.settled?)

def readAll (c : Call α) : Bool := c.inbound.queue.closedForReceive

def discardInbound (c : Call α) : Call α :=
  c.withInbound (c.inbound.queue.cancel .inboundAbandoned).1

/-- Stops receiving. A peer that has not finished sending loses its call. -/
def cancelInbound (c : Call α) : Call α :=
  let stillOpen := !c.inbound.queue.closedForSend
  let c := c.discardInbound
  if stillOpen then c.cancelScope .here .inboundAbandoned else c

def failWith (c : Call α) (f : Failure) : Call α := c.cancelScope .here f.toStatus

def dropInbound (c : Call α) : Call α :=
  if c.readAll then c
  else
    match c.handle.role with
    | .client => c.cancelInbound
    | .server => c.discardInbound

inductive Single (α : Type) where
  | first
  | last (v : α)

def pollLast (c : Call α) (extra : String) (v : α) : Call α × Single α × Option (Except Status α) :=
  match c.recv with
  | (c, none) => (c, .last v, none)
  | (c, some (.error st)) => (c, .last v, some (.error st))
  | (c, some (.ok none)) => (c, .last v, some (.ok v))
  | (c, some (.ok (some _))) => (c, .last v, some (.error ⟨.internal, extra, []⟩))

def pollSingle (c : Call α) (missing extra : String) :
    Single α → Call α × Single α × Option (Except Status α)
  | .first =>
    match c.recv with
    | (c, none) => (c, .first, none)
    | (c, some (.error st)) => (c, .first, some (.error st))
    | (c, some (.ok none)) => (c, .first, some (.error ⟨.internal, missing, []⟩))
    | (c, some (.ok (some v))) => c.pollLast extra v
  | .last v => c.pollLast extra v

/-- One look at the single response of a call. A failure fails the call, and the receiving half
goes away either way. -/
def pollResponse (c : Call α) (s : Single α) : Call α × Single α × Option (Except Status α) :=
  match c.pollSingle "call completed without a response" "received more than one response" s with
  | (c, s, none) => (c, s, none)
  | (c, s, some (.ok v)) => (c.dropInbound, s, some (.ok v))
  | (c, s, some (.error st)) => ((c.cancelScope .here st).dropInbound, s, some (.error st))

end Call
end PacedCall
