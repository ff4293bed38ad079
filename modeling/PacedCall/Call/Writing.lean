import PacedCall.Call.State

/-!
The sending half of a call. Messages reach the transport in the order they were accepted; the
outbound queue closes when it is told to or when the last sink goes away.
-/
namespace PacedCall

inductive Send (α : Type) where
  | fresh (v : α)
  | placed (e : Enqueue)

namespace Call
variable {α : Type}

def closeOutbound (c : Call α) (t : Termination) : Call α × Bool :=
  let (q, first) := c.outbound.close t
  ({ c with outbound := q }, first)

def dropSend (c : Call α) : Send α → Call α
  | .fresh _ => c
  | .placed e => { c with outbound := c.outbound.dropSend e }

/-- One look at a send. The scope's end goes before the fate of the value. -/
def pollSend (c : Call α) (s : Send α) : Call α × Send α × Option SendResult :=
  match c.scope.status with
  | some st => (c.dropSend s, s, some (.error (.terminated st)))
  | none =>
    let (c, e) :=
      match s with
      | .fresh v =>
        let (q, e) := c.outbound.send v
        ({ c with outbound := q }, e)
      | .placed e => (c, e)
    let (q, e, r) := c.outbound.pollSend e
    ({ c with outbound := q }, .placed e, r)

def trySend (c : Call α) (v : α) : Call α × Except Refusal Unit :=
  if c.scope.cancelled then (c, .error .closed)
  else
    let (q, r) := c.outbound.trySend v
    ({ c with outbound := q }, r)

def closeSink (c : Call α) : Call α × Bool := c.closeOutbound .completed

def failSink (c : Call α) (f : Failure) : Call α × Bool := c.closeOutbound (.failed f.toStatus)

def cloneSink (c : Call α) : Call α := { c with sinks := c.sinks + 1 }

def dropSink (c : Call α) : Call α :=
  let c := { c with sinks := c.sinks - 1 }
  if c.sinks == 0 then c.closeSink.1 else c

end Call
end PacedCall
