import PacedCall.Proofs.Call.Departure
import PacedCall.Proofs.Call.Tasks

/-!
How a cancelled call winds down. Its supervisor empties both queues, which ends the pump and every
task that waits for room. But a supervisor that has returned before, because both sides had ended on
their own, empties nothing: a value that was still in line for room then keeps its task waiting for
the consumer, whatever happens to the scope.
-/
namespace PacedCall

namespace Course
variable {α : Type} {s : Course α} {m : Move α} {ms : List (Move α)}

theorem drained_step (hs : s.call.inbound.queue.closedForReceive = true) (m : Move α) :
    (s.step m).call.inbound.queue.closedForReceive = true := (fares_step s m).drained hs

/-- Whoever gives up leaves an empty queue. -/
theorem drained_givesUp (s : Course α) (hm : m.givesUp) :
    (s.step m).call.inbound.queue.closedForReceive = true := by
  have hcancelled : s.call.cancelInbound.inbound.queue.closedForReceive = true := by
    unfold Call.cancelInbound
    simp only
    split <;> exact Queue.closedForReceive_cancel _ _
  obtain rfl | rfl := hm
  · exact hcancelled
  · rw [step, withCall, Call.dropInbound]
    split
    · next hread => exact hread
    · split
      · exact hcancelled
      · exact Queue.closedForReceive_cancel _ _

theorem drained_run (s₀ : Course α) (hms : ∃ m ∈ ms, m.givesUp) :
    (s₀.run ms).call.inbound.queue.closedForReceive = true := by
  induction ms using List.reverseRecOn with
  | nil =>
    obtain ⟨m, hm, _⟩ := hms
    cases hm
  | append_singleton ms n ih =>
    rw [run_concat]
    obtain ⟨m, hm, hgives⟩ := hms
    obtain hm | hm := List.mem_append.mp hm
    · exact drained_step (ih ⟨m, hm, hgives⟩) n
    · exact drained_givesUp _ (List.mem_singleton.mp hm ▸ hgives)

def Settled (s₀ : Course α) (ms : List (Move α)) : Prop :=
  ∃ before after, ms = before ++ .supervise :: after ∧
    (s₀.run before).call.settles (s₀.run before).now = true

/-- A supervisor that returns has found the call settled, or has emptied its queues. -/
theorem drained_supervise (hw : s.call.supervisor.done = false)
    (hd : (s.step .supervise).call.supervisor.done = true) :
    s.call.settles s.now = true ∨
      (s.step .supervise).call.inbound.queue.closedForReceive = true := by
  cases hs : (s.step .supervise).call.scope.cancelled with
  | false => exact .inl (Call.settles_of_returns hw hd hs)
  | true =>
    have hwatch := s.call.pollSupervisor_watch s.now
    simp only [step, withCall] at hd hs ⊢
    generalize s.call.pollSupervisor s.now = d at hwatch hd hs ⊢
    cases hwatch with
    | rest => cases hw.symm.trans hd
    | tornDown hs => exact .inr (Queue.closedForReceive_cancel _ _)
    | expired => exact .inr (Queue.closedForReceive_cancel _ _)
    | settled hin hp hgoes => cases hgoes.symm.trans hs
    | watching e hw => cases hd

theorem settled_or_drained (o : Opening α) (p : CallPlan) (ready : Bool) (acts : List (PeerAct α))
    (ms : List (Move α)) :
    let s₀ := opened o p ready acts
    (s₀.run ms).call.supervisor.done = true →
    Settled s₀ ms ∨ (s₀.run ms).call.inbound.queue.closedForReceive = true := by
  intro s₀
  induction ms using List.reverseRecOn with
  | nil =>
    intro hd
    have hsup := (o.unwatched_call p (.before ready acts)).supervisor
    rw [run_nil, show s₀.call.supervisor = _ from hsup] at hd
    cases o <;> cases hd
  | append_singleton ms m ih =>
    intro hd
    rw [run_concat] at hd ⊢
    have hlater : Settled s₀ ms → Settled s₀ (ms ++ [m]) := fun h =>
      exists_split_concat.mpr (.inl h)
    cases hw : (s₀.run ms).call.supervisor.done with
    | true => exact (ih hw).imp hlater fun hc => drained_step hc m
    | false =>
      by_cases hm : m = .supervise
      · subst hm
        exact (drained_supervise hw hd).imp (fun h => exists_split_concat.mpr (.inr ⟨rfl, h⟩)) id
      · rw [(unwatched_step _ hm).supervisor, hw] at hd
        cases hd

theorem released_run (o : Opening α) (p : CallPlan) (ready : Bool) (acts : List (PeerAct α))
    (ms : List (Move α)) : ((opened o p ready acts).run ms).call.Released := by
  induction ms using List.reverseRecOn with
  | nil => exact (Lookout.attended_opened o p ready acts).released
  | append_singleton ms m ih =>
    rw [run_concat]
    exact released_step ih m

/-- A task that nothing moves has its value in line. -/
theorem Quiet.inLine (hq : s.Quiet) (h : s.call.inbound.Tasked) :
    ∀ e ∈ s.call.inbound.deferred, ∃ t ∈ s.call.inbound.queue.tickets, e = .inLine t := by
  refine h.inLine_of_stays fun i => ?_
  have hstill : (s.step (.enqueue i)).call.inbound = s.call.inbound :=
    congrArg (fun s : Course α => s.call.inbound) (hq.enqueue i)
  rw [step, withCall, Call.pollDeferred_eq, Call.inbound_ask] at hstill
  exact hstill

/-- Once nothing moves any more on a cancelled call, its pump and its supervisor have ended. A task
of a deferred value is left only if its value is still in line, and that only if the supervisor had
returned because both sides had ended, and the consumer has kept its stream ever since. -/
theorem cancelled_winds_down (o : Opening α) (p : CallPlan) (ready : Bool)
    (acts : List (PeerAct α)) (ms : List (Move α)) :
    let s₀ := opened o p ready acts
    let s := s₀.run ms
    s.Quiet → s.call.scope.cancelled = true →
    s.call.pump.done = true ∧ s.call.supervisor.done = true ∧
    (∀ e ∈ s.call.inbound.deferred, ∃ t ∈ s.call.inbound.queue.tickets, e = .inLine t) ∧
    (s.call.inbound.deferred = [] ∨ Settled s₀ ms ∧ ∀ m ∈ ms, ¬ m.givesUp) := by
  intro s₀ s hq hs
  have hsup := hq.supervisor_done hs
  have hsound := sound_opened o p ready acts ms
  have hlines := hq.inLine (tasked_run o p ready acts ms)
  refine ⟨?_, hsup, hlines, ?_⟩
  · refine (released_run o p ready acts ms hsup).elim id fun hcause => ?_
    have hrests := s.call.rests_pollPump
    rw [show s.call.pollPump = s.call from congrArg Course.call hq.pump] at hrests
    have hclosed := hsound.orderly.closedForReceive_iff.mp (hsound.unready hcause)
    exact Call.done_of_rests hrests hcause hclosed.1
  · by_cases hnone : s.call.inbound.deferred = []
    · exact .inl hnone
    · obtain ⟨e, he⟩ := List.exists_mem_of_ne_nil _ hnone
      obtain ⟨t, ht, _⟩ := hlines e he
      have hwaits : ¬ s.call.inbound.queue.closedForReceive = true := by
        intro hc
        simp only [Queue.closedForReceive, Bool.and_eq_true, List.isEmpty_iff] at hc
        simp [Queue.tickets, hc.2] at ht
      refine .inr ⟨(settled_or_drained o p ready acts ms hsup).resolve_right hwaits, ?_⟩
      exact fun m hm hgives => hwaits (drained_run s₀ ⟨m, hm, hgives⟩)

/-- The call is cancelled while a value waits for room; the supervisor empties the queue, and the
task ends at its next look. -/
theorem cancelled_winds_down_deferred :
    let s := (opened .bidi { role := .client } true ([] : List (PeerAct Nat))).run
      [.peer (.deliver 1), .peer (.deliver 2), .cancel .localCancelled, .supervise, .pump,
        .enqueue 0]
    s.Quiet ∧ s.call.pump.done = true ∧ s.call.inbound.deferred = [] := by
  intro s
  have hq : s.Quiet := ⟨rfl, rfl, fun _ => rfl⟩
  have h := cancelled_winds_down .bidi { role := .client } true ([] : List (PeerAct Nat))
    [.peer (.deliver 1), .peer (.deliver 2), .cancel .localCancelled, .supervise, .pump, .enqueue 0]
    hq rfl
  exact ⟨hq, h.1, rfl⟩

/-- The peer completes while a value waits for room, and the request is written: the supervisor
finds the call settled and returns. The scope is cancelled afterwards, nothing moves any more, and
the task of the value still waits. -/
theorem cancelled_still_waits :
    let s := (opened (.responses 0) { role := .client } true ([] : List (PeerAct Nat))).run
      [.pump, .peer (.deliver 1), .peer (.deliver 2), .peer .complete, .supervise,
        .cancel .localCancelled]
    s.Quiet ∧ s.call.scope.cancelled = true ∧ s.call.supervisor.done = true ∧
      s.call.inbound.deferred.length = 1 := by
  intro s
  refine ⟨⟨rfl, rfl, ?_⟩, rfl, rfl, rfl⟩
  intro i
  cases i with
  | zero => rfl
  | succ i => rfl

end Course
end PacedCall
