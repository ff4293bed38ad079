import PacedCall.Proofs.Call.Departure
import PacedCall.Proofs.Call.Tasks

/-!
A client that abandons its stream after the peer has completed. What it goes by is whether the
inbound queue is closed, and the queue of a completed stream stays open as long as a deferred value
is in flight. So the call is cancelled exactly if one is, which depends on the capacity and on how
far the tasks have come, and not only on what the peer has done.
-/
namespace PacedCall

namespace Call
variable {α : Type}

/-- Giving up what comes in cancels the scope if the queue is open. -/
theorem scope_cancelInbound (c : Call α) :
    c.cancelInbound.scope =
      if c.inbound.queue.closedForSend then c.scope
      else c.scope.cancelWith .here .inboundAbandoned := by
  unfold cancelInbound
  cases c.inbound.queue.closedForSend <;> rfl

end Call

namespace Course
variable {α : Type} {s : Course α} {m : Move α}

/-- To a client it is the same how it gives up. -/
theorem scope_givesUp (hrole : s.call.handle.role = .client) (hm : m.givesUp) :
    (s.step m).call.scope =
      if s.call.inbound.queue.closedForSend then s.call.scope
      else s.call.scope.cancelWith .here .inboundAbandoned := by
  obtain rfl | rfl := hm
  · exact Call.scope_cancelInbound s.call
  · rw [Departure.step_dropInbound_of_client s hrole]
    exact Call.scope_cancelInbound s.call

/-- A stream that the peer has completed is abandoned without a trace once its queue is closed, and
cancels the call before. The queue is open only while values are in flight; and if neither a failure
nor an earlier leave nor a cancellation has closed it, exactly then. -/
theorem abandoned_completed (p : CallPlan) (ready : Bool) (acts : List (PeerAct α))
    (ms : List (Move α)) (m : Move α) :
    let s := (opened .bidi p ready acts).run ms
    p.role = .client → .peer .complete ∈ ms → m.givesUp →
    ((s.step m).call.scope =
      if s.call.inbound.queue.closedForSend then s.call.scope
      else s.call.scope.cancelWith .here .inboundAbandoned) ∧
    (s.call.inbound.queue.closedForSend = false → 0 < s.call.inbound.inFlight) ∧
    (s.call.scope.cancelled = false → (∀ st, .peer (.fail st) ∉ ms) → (∀ n ∈ ms, ¬ n.givesUp) →
      (s.step m).call.scope.status =
        if s.call.inbound.inFlight = 0 then none else some .inboundAbandoned) := by
  intro s hclient hcompleted hm
  have ho : ∀ request : α, Opening.bidi ≠ .responses request := nofun
  have hrole : s.call.handle.role = .client :=
    (later_run _ ms).role.trans ((role_started_opened .bidi p ready acts).1.trans hclient)
  have hflight : s.call.inbound.inFlight = s.call.inbound.deferred.length :=
    (counted_run ho p ready acts ms).inFlight_eq
  have hfinishing : s.call.inbound.Finishing := finishing_run ho p ready acts hcompleted
  have hscope := scope_givesUp hrole hm
  have hopen : s.call.inbound.queue.closedForSend = false → 0 < s.call.inbound.inFlight := by
    intro hopen
    rw [hflight]
    exact List.length_pos_iff.mpr (hfinishing.resolve_left (by simp [hopen])).2
  refine ⟨hscope, hopen, ?_⟩
  intro hgoes hfail hstays
  have hunhurt : s.call.inbound.Unhurt := unhurt_run ho p ready acts hfail hstays hgoes
  have hstatus : s.call.scope.status = none := by simp [Scope.status, hgoes]
  rw [hscope]
  cases hq : s.call.inbound.queue.closedForSend with
  | true => simp [hflight, hunhurt.last hq, hstatus]
  | false =>
    have hsound := sound_opened .bidi p ready acts ms
    have hcancels := Call.status_cancelScope hsound hgoes .here .inboundAbandoned
    rw [if_neg (by simp), if_neg (Nat.ne_of_gt (hopen hq))]
    exact hcancels

/-- Two values arrive and the peer completes. With room for one the second is still in flight, and
leaving cancels the call. -/
theorem abandoned_completed_deferred :
    let ms : List (Move Nat) := [.peer (.deliver 1), .peer (.deliver 2), .peer .complete]
    let s := (opened .bidi { role := .client } true []).run ms
    s.call.inbound.inFlight = 1 ∧
      (s.step .dropInbound).call.scope.status = some .inboundAbandoned := by
  intro ms s
  have h := abandoned_completed { role := .client } true [] ms .dropInbound rfl (by simp [ms])
    (.inr rfl)
  have hleaves := h.2.2 rfl (by simp [ms]) (by simp [ms, Move.givesUp])
  exact ⟨rfl, hleaves⟩

/-- Whether the call counts as cancelled is not for the peer to say: the same moves cancel it with
room for one value, and do not with room for two. -/
theorem abandoned_by_capacity :
    let s (capacity : Nat) :=
      (opened .bidi { role := .client, inboundCapacity := capacity } true []).run
        [.peer (.deliver (1 : Nat)), .peer (.deliver 2), .peer .complete, .cancelInbound]
    (s 1).call.scope.status = some .inboundAbandoned ∧ (s 2).call.scope.cancelled = false := by
  intro s
  exact ⟨rfl, rfl⟩

end Course
end PacedCall
