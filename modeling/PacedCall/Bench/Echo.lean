import PacedCall.Bench.Log
import PacedCall.Bench.Options
import PacedCall.Call.Script

/-!
The echo benchmark itself: a server call echoes every message, its peer delivers the numbers from
zero against credit and then completes. Time is counted in microseconds; it passes only while
everything waits, and then to the next moment at which something happens.
-/
namespace PacedCall
namespace Bench

instance : Message Nat := ⟨0, fun vs => vs.foldl (· + ·) 0⟩

abbrev Echo := Session Nat

namespace Echo

def plan (o : Options) : CallPlan :=
  { role := .server
    inboundCapacity := o.config.inboundCapacity
    outboundCapacity := o.config.outboundCapacity
    deadline := o.config.deadlineMs.map (· * 1000) }

def start (o : Options) : Echo :=
  let idle : Session Nat := { wire := {}, plan := plan o }
  let s := idle.build (.serve .bidi [.echo o.delayMicros])
  let s := { s with
    handler? := s.handler?.map fun (h : Handler Nat) => { h with textOnly := true } }
  s.addTask "peer" (.play (List.range o.messages) true)

def moments (s : Echo) : List Nat :=
  let wake := match s.handler?.map Handler.program with
    | some (.asleep time :: _) => [time]
    | _ => []
  let expiry := match s.call?.map Call.supervisor with
    | some (.watching (.fixed time)) => [time]
    | _ => []
  (wake ++ expiry).filter (s.now < ·)

def ended (s : Echo) : Bool := s.joined && s.tasks.isEmpty

def reach (s : Echo) (time : Nat) : Echo := Session.settle { s with now := time }

/-- Waits for the call to finish or for the interrupt, which cancels the call and is then not
heard again. The flag says whether it was heard. -/
def awaitEnd : Nat → Option Nat → Echo → Echo × Bool
  | 0, _, s => (s, false)
  | fuel + 1, interrupt, s =>
    if s.transport.finished then (s, false)
    else
      match (moments s ++ interrupt.toList).min?, interrupt with
      | none, _ => (s, false)
      | some time, some stop =>
        if stop ≤ time then
          let s := { s with now := stop }
          ((s.mapCall fun c => c.cancelScope .here .localCancelled).settle, true)
        else awaitEnd fuel interrupt (s.reach time)
      | some time, none => awaitEnd fuel none (s.reach time)

def awaitRest : Nat → Echo → Echo
  | 0, s => s
  | fuel + 1, s =>
    if s.ended then s
    else
      match (moments s).min? with
      | none => s
      | some time => awaitRest fuel (s.reach time)

end Echo

structure Report where
  messages : Nat
  echoed : Nat
  interrupted : Bool
  elapsedMicros : Nat
  maxOutstanding : Nat
  violations : Nat
  stats : Stats
  config : Config

structure Run where
  report : Report
  events : List Event
  failure : Option Status

/-- Runs the benchmark. The handler sleeps at most once for each message, so that many moments
and a few more are enough. An interrupted call does not fail the run. -/
def run (o : Options) (interruptMs : Option Nat) : Run :=
  let fuel := o.messages + 4
  let (s, interrupted) :=
    Echo.awaitEnd fuel (interruptMs.map (· * 1000)) (Session.settle (Echo.start o))
  let s := Echo.awaitRest fuel s
  let t := s.transport
  let handlerFailure := s.handler?.bind Handler.failure
  { report :=
      { messages := o.messages
        echoed := t.sent.size
        interrupted := interrupted
        elapsedMicros := s.now
        maxOutstanding := t.maxOutstanding
        violations := t.violations
        stats := (s.call?.map fun c => c.handle.stats).getD {}
        config := o.config }
    events :=
      [Event.initialized o.logFormat]
        ++ (o.endpoint.map endpointEvent).toList
        ++ (if interrupted then [Event.interrupted] else [])
        ++ (handlerFailure.map Event.handlerFailed).toList
    failure := if interrupted then none else t.closedWith }

namespace Run

def logged (r : Run) (f : Filter) : List Event := r.events.filter f.passes

def complaint (r : Run) : Option String :=
  r.failure.map fun st => "Error: call failed: " ++ st.message

def exitCode (r : Run) : Nat := if r.failure.isSome then 1 else 0

end Run

namespace Report

/-- The report as lines. `timing` gives the time and the rate, `racy` shows a number that hangs on
how tasks happened to run. -/
def lines (r : Report) (timing : String × String) (racy : Nat → String) : List String :=
  ["echoed " ++ toString r.echoed ++ "/" ++ toString r.messages ++ " messages in " ++ timing.1
      ++ " ms (" ++ timing.2 ++ " msg/s)" ++ (if r.interrupted then " [interrupted]" else ""),
    "credit: requested=" ++ racy r.stats.creditsRequested
      ++ " max_outstanding=" ++ toString r.maxOutstanding
      ++ " violations=" ++ toString r.violations,
    "messages: received=" ++ toString r.stats.messagesReceived
      ++ " sent=" ++ toString r.stats.messagesSent
      ++ " deferred=" ++ racy r.stats.deferredEnqueues
      ++ " late=" ++ racy r.stats.lateDeliveries,
    "queues: inbound=" ++ toString r.config.inboundCapacity
      ++ " outbound=" ++ toString r.config.outboundCapacity]

end Report
end Bench
end PacedCall
