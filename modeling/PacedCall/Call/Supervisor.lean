import PacedCall.Call.State

/-!
The supervisor of a call. It ends when both directions have ended on their own; when the scope is
cancelled or the deadline passes it tears the call down, which releases every waiter and tells the
transport unless the peer ended the call.
-/
namespace PacedCall
namespace Call
variable {α : Type}

def tearDown (c : Call α) : Call α :=
  let (origin, st) := c.scope.cause.getD (.here, .localCancelled)
  { c with
    readiness := c.readiness.cancel st
    inbound := { c.inbound with queue := (c.inbound.queue.cancel st).1 }
    outbound := (c.outbound.cancel st).1
    handle := if origin == .here then (c.handle.fail st).1 else c.handle
    supervisor := .finished }

def settled (c : Call α) : Bool := c.inbound.queue.closedForSend && c.pump.done

/-- One look at the supervisor. Cancellation goes before the deadline, the deadline before a
settled call. -/
def pollSupervisor (c : Call α) (now : Nat) : Call α :=
  match c.supervisor with
  | .finished => c
  | .watching e =>
    if c.scope.cancelled then c.tearDown
    else if (e.arm now).due now then (c.cancelScope .here .deadlineElapsed).tearDown
    else if c.settled then { c with supervisor := .finished }
    else { c with supervisor := .watching (e.arm now) }

def supervisorMoves (c : Call α) (now : Nat) : Bool :=
  match c.supervisor with
  | .finished => false
  | .watching e =>
    c.scope.cancelled || (e.arm now).due now || c.settled || decide (e ≠ e.arm now)

end Call
end PacedCall
