import PacedCall.Handle
import PacedCall.Inbound.Desk
import PacedCall.Readiness
import PacedCall.Scope

/-!
A running call: the owner of its transport, the scope it runs in, its two directions, and where
its two tasks stand. The pump moves outbound values to the transport; the supervisor waits for
the call to settle, to be cancelled or to run past its deadline. What the transport reports acts
on the call only while one of the two tasks still runs.
-/
namespace PacedCall

inductive Pump where
  | reading
  | readying (w : Readiness.Wait)
  | finished

namespace Pump

def done : Pump → Bool
  | finished => true
  | _ => false

end Pump

/-- When a call runs out of time. The clock of a deadline starts when it is first looked at. -/
inductive Expiry where
  | never
  | after (ticks : Nat)
  | fixed (time : Nat)
deriving DecidableEq

namespace Expiry

def arm (now : Nat) : Expiry → Expiry
  | after ticks => .fixed (now + ticks)
  | e => e

def due (now : Nat) : Expiry → Bool
  | .fixed time => decide (time ≤ now)
  | _ => false

end Expiry

inductive Supervisor where
  | watching (e : Expiry)
  | finished
deriving DecidableEq

namespace Supervisor

def done : Supervisor → Bool
  | finished => true
  | _ => false

end Supervisor

/-- A call; `sinks` counts the sinks that may still send on the outbound queue. -/
structure Call (α : Type) where
  handle : Handle α
  scope : Scope
  inbound : Inbound α
  outbound : Queue α
  readiness : Readiness Unit := {}
  pump : Pump := .reading
  supervisor : Supervisor
  sinks : Nat

namespace Call
variable {α : Type}

def wire (c : Call α) : Loopback α := c.handle.transport

def alive (c : Call α) : Bool := !c.pump.done || !c.supervisor.done

def control (c : Call α) : Option Bool := if c.alive then some c.handle.ready else none

def ask (c : Call α) (wanted : Bool) : Call α :=
  if wanted && c.alive then { c with handle := c.handle.requestCredit 1 } else c

def cancelScope (c : Call α) (origin : Origin) (st : Status) : Call α :=
  { c with scope := c.scope.cancelWith origin st }

def onMessage (c : Call α) (v : α) : Call α :=
  if c.alive then
    let (side, what, wanted) := c.inbound.onValue v
    ask { c with
      inbound := side
      handle := { c.handle with stats := c.handle.stats.received.delivery what } } wanted
  else { c with handle := { c.handle with stats := c.handle.stats.received.late } }

/-- The transport failed: what came in is still read, what was to go out is discarded. -/
def onFailed (c : Call α) (st : Status) : Call α :=
  { c with
    handle := c.handle.markRemoteClosed
    inbound := { c.inbound with queue := (c.inbound.queue.close (.failed st)).1 }
    outbound := (c.outbound.cancel st).1
    readiness := c.readiness.cancel st }

/-- The peer sends no more; to a client this ends the call. -/
def onCompleted (c : Call α) : Call α :=
  { c with
    handle := if c.handle.role == .client then c.handle.markRemoteClosed else c.handle
    inbound := c.inbound.onCompleted }

def onCancelled (c : Call α) : Call α :=
  cancelScope { c with handle := c.handle.markRemoteClosed } .peer .peerCancelled

def onReady (c : Call α) : Call α :=
  let c := { c with readiness := c.readiness.signal }
  let (side, wanted) := c.inbound.onReady c.control
  ask { c with inbound := side } wanted

/-- The call hears from its transport. Messages are counted even when it is gone. -/
def hear (c : Call α) : Notice α → Call α
  | .message v => c.onMessage v
  | .failed st => if c.alive then c.onFailed st else c
  | .completed => if c.alive then c.onCompleted else c
  | .cancelled => if c.alive then c.onCancelled else c
  | .ready => if c.alive then c.onReady else c

def hear? (c : Call α) : Option (Notice α) → Call α
  | some n => c.hear n
  | none => c

def peer (c : Call α) (a : PeerAct α) : Call α :=
  let (t, n) := c.wire.peer a
  hear? { c with handle := { c.handle with transport := t } } n

def pollDeferred (c : Call α) (i : Nat) : Call α × Bool :=
  let (side, wanted, ended) := c.inbound.pollDeferred i
  (ask { c with inbound := side } wanted, ended)

end Call

structure CallPlan where
  role : Role
  inboundCapacity : Nat := 1
  outboundCapacity : Nat := 1
  deadline : Option Nat := none
  parentCancelled : Bool := false

namespace CallPlan
variable {α : Type}

def expiry (p : CallPlan) : Expiry :=
  match p.deadline with
  | some ticks => .after ticks
  | none => .never

def start (p : CallPlan) (wire : Loopback α) (inbound : Inbound α) (outbound : Queue α)
    (sinks : Nat) : Call α :=
  let (t, n) := wire.disableAutomaticCredit.watch.start
  let c : Call α :=
    { handle := { role := p.role, transport := t }
      scope := { cancelled := p.parentCancelled }
      inbound := inbound
      outbound := outbound
      supervisor := .watching p.expiry
      sinks := sinks }
  c.hear? n

def bidi (p : CallPlan) (wire : Loopback α) : Call α :=
  (p.start wire (.counting p.inboundCapacity) (.new p.outboundCapacity) 1).ask true

def responses (p : CallPlan) (wire : Loopback α) (request : α) : Call α :=
  let q := ((Queue.new 1).trySend request).1
  p.start wire (.latching p.inboundCapacity) (q.close .completed).1 0

end CallPlan
end PacedCall
