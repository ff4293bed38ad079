import PacedCall.Call.State

/-!
The outbound pump: it waits for a value, waits until the call is ready, and writes the value. It
ends when the queue is closed and drained, when a write fails, or when readiness will not come.
-/
namespace PacedCall
namespace Call
variable {α : Type}

def stopPump (c : Call α) : Call α := { c with pump := .finished }

def failOutbound (c : Call α) (st : Status) : Call α :=
  if c.handle.remoteClosed then c else c.cancelScope .here st

/-- Takes the next value and writes it. The flag says whether the pump goes on. A cancelled call
is ended by its supervisor and never half-closed. -/
def pumpNext (c : Call α) : Call α × Bool :=
  match c.outbound.tryRecv with
  | (q, .item v) =>
    let c := { c with outbound := q }
    match c.handle.sendMessage v with
    | (h, .ok _) => ({ c with handle := h, pump := .reading }, true)
    | (h, .error st) =>
      let c := { c with handle := h, outbound := (c.outbound.cancel st).1 }
      ((c.failOutbound st).stopPump, false)
  | (_, .empty) => ({ c with pump := .reading }, true)
  | (_, .closed .completed) =>
    let c := if c.scope.cancelled then c else { c with handle := c.handle.halfClose.1 }
    (c.stopPump, false)
  | (_, .closed (.failed st)) => ((c.failOutbound st).stopPump, false)

def pumpReady (c : Call α) (w : Readiness.Wait) : Call α × Bool :=
  match c.readiness.poll () c.control w with
  | (r, w, none) => ({ c with readiness := r, pump := .readying w }, false)
  | (r, _, some (.ok _)) => pumpNext { c with readiness := r }
  | (r, _, some (.error _)) => (stopPump { c with readiness := r }, false)

def pumpTurn (c : Call α) : Call α × Bool :=
  match c.pump with
  | .finished => (c, false)
  | .readying w => c.pumpReady w
  | .reading =>
    if !c.outbound.readable then (c, false)
    else if c.outbound.closedForReceive then c.pumpNext
    else c.pumpReady .fresh

def pumpWith : Nat → Call α → Call α × Nat
  | 0, c => (c, 0)
  | fuel + 1, c =>
    match c.pumpTurn with
    | (c, true) =>
      let (c, n) := pumpWith fuel c
      (c, n + 1)
    | (c, false) => (c, 0)

/-- One look at the pump: each round that does not stop it takes a value, so one round more than
there are values is enough. -/
def pollPump (c : Call α) : Call α := (pumpWith (c.outbound.length + 1) c).1

def pumpMoves (c : Call α) : Bool :=
  match c.pump with
  | .finished => false
  | .reading => c.outbound.readable
  | .readying .fresh => true
  | .readying (.inLine _) => c.readiness.cause.isSome || decide (() ∈ c.readiness.called)

end Call
end PacedCall
