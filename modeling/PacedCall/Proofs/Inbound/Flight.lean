import Mathlib.Data.List.Perm.Subperm
import PacedCall.Proofs.Inbound

/-!
An inbound side that counts what is in flight. Every value that waits for room waits on a task of
its own, so what is counted bounds what the queue holds beyond its buffer. A value that finds its
place asks for the next one, unless the queue is closed by then.
-/
namespace PacedCall
namespace Inbound
variable {α : Type} {b d : Inbound α} {capacity : Nat}

def inFlight (b : Inbound α) : Nat :=
  match b.pacing with
  | .counting f => f.count
  | .latching _ => 0

/-- Values that wait on tasks of their own wait behind a full buffer, so the queue holds at most one
value for each task beyond its capacity. -/
theorem length_le_of_waits (h : b.queue.Orderly)
    (hw : ∀ t ∈ b.queue.tickets, .inLine t ∈ b.deferred) :
    b.queue.length ≤ b.queue.capacity + b.deferred.length := by
  have hnodup : (b.queue.tickets.map Enqueue.inLine).Nodup :=
    h.tickets_nodup.map fun _ _ he => Enqueue.inLine.inj he
  have hsub : b.queue.tickets.map Enqueue.inLine ⊆ b.deferred := by
    intro e he
    obtain ⟨t, ht, rfl⟩ := List.mem_map.mp he
    exact hw t ht
  have hle : b.queue.waiting.length ≤ b.deferred.length := by
    simpa [Queue.tickets] using (hnodup.subperm hsub).length_le
  have hfits := h.fits
  simp only [Queue.length]
  omega

/-- A task that was told its fate leaves the values in line with tasks of their own. -/
theorem waits_of_told (h : b.queue.Orderly) (hw : ∀ t ∈ b.queue.tickets, .inLine t ∈ b.deferred)
    {i : Nat} {e : Enqueue} {r : SendResult} (he : b.deferred[i]? = some e)
    (hr : (b.queue.pollSend e).2.2 = some r) :
    ∀ t ∈ (b.queue.pollSend e).1.tickets, .inLine t ∈ b.deferred.eraseIdx i := by
  intro t ht
  rw [Queue.tickets_pollSend] at ht
  have hne : e ≠ .inLine t := by
    rintro rfl
    simp [Queue.pollSend, h.fate?_eq_none ht] at hr
  obtain ⟨j, hj⟩ := List.mem_iff_getElem?.mp (hw t ht)
  refine List.mem_eraseIdx_iff_getElem?.mpr ⟨j, ?_, hj⟩
  rintro rfl
  exact hne (Option.some.inj (he.symm.trans hj))

/-- A side that counts: each value in flight has a task, and so has each value in line for room. -/
structure Counted (capacity : Nat) (b : Inbound α) : Prop where
  orderly : b.queue.Orderly
  size : b.queue.capacity = max 1 capacity
  flight : ∃ f, b.pacing = .counting f ∧ f.count = b.deferred.length
  waits : ∀ t ∈ b.queue.tickets, .inLine t ∈ b.deferred

namespace Counted

theorem inFlight_eq (h : b.Counted capacity) : b.inFlight = b.deferred.length := by
  obtain ⟨f, hp, hf⟩ := h.flight
  simp only [inFlight, hp]
  exact hf

/-- Room for the buffer, and one more place for each task. -/
theorem length_le (h : b.Counted capacity) :
    b.queue.length ≤ max 1 capacity + b.deferred.length := by
  rw [← h.size]
  exact length_le_of_waits h.orderly h.waits

/-- A change of the queue, or of the completion alone. -/
theorem quiet (h : b.Counted capacity) (ho : d.queue.Orderly)
    (hsize : d.queue.capacity = b.queue.capacity)
    (hf : ∀ f, b.pacing = .counting f → ∃ g, d.pacing = .counting g ∧ g.count = f.count)
    (hd : d.deferred = b.deferred) (ht : ∀ t ∈ d.queue.tickets, t ∈ b.queue.tickets) :
    d.Counted capacity :=
  { orderly := ho
    size := hsize.trans h.size
    flight := by
      obtain ⟨f, hp, hcount⟩ := h.flight
      obtain ⟨g, hg, hgcount⟩ := hf f hp
      exact ⟨g, hg, by rw [hgcount, hcount, hd]⟩
    waits := fun t hm => hd ▸ h.waits t (ht t hm) }

end Counted

theorem next_facts (f : InFlight) {q : Queue α} (h : q.Orderly) :
    (f.next q).1.Orderly ∧ (f.next q).1.capacity = q.capacity ∧
      (f.next q).1.tickets = q.tickets ∧
      ((f.next q).2 = false → (f.next q).1.closedForSend = true) := by
  rw [InFlight.next]
  split
  · exact ⟨h.close _, Queue.capacity_close _ _, Queue.tickets_close _ _, fun _ => closedForSend_close _ _⟩
  · exact ⟨h, rfl, rfl, fun hf => absurd hf (by simp)⟩

/-- A value that is delivered on an open queue is there at once, or in flight with its task. -/
theorem counted_onValue (h : b.Counted capacity) (ho : b.queue.closedForSend = false) (v : α) :
    (b.onValue v).1.Counted capacity ∧
      ((b.onValue v).1.deferred.length = b.deferred.length ∧
          ((b.onValue v).2.2 = false → (b.onValue v).1.queue.closedForSend = true) ∨
        (b.onValue v).1.deferred.length = b.deferred.length + 1 ∧ (b.onValue v).2.2 = false) := by
  obtain ⟨f, hp, hcount⟩ := h.flight
  cases hr : b.queue.hasRoom with
  | true =>
    have hpush : (b.pushed v).Orderly := h.orderly.buffered v hr
    obtain ⟨hord, hcap, hticket, hask⟩ := next_facts f hpush
    rw [onValue_counting_room ho hr hp]
    refine ⟨h.quiet hord hcap ?_ rfl ?_, Or.inl ⟨rfl, hask⟩⟩
    · exact fun g hg => ⟨g, hg, rfl⟩
    · intro t ht
      simp only [hticket] at ht
      exact ht
  | false =>
    have hsend := Queue.send_of_full ho hr v
    have hord := h.orderly.send v
    rw [onValue_counting_full ho hr hp, defer, hsend]
    rw [hsend] at hord
    refine ⟨?_, Or.inr ⟨by simp, rfl⟩⟩
    exact
      { orderly := hord
        size := h.size
        flight := ⟨f.enter, rfl, by simp [InFlight.enter, hcount]⟩
        waits := by
          intro t ht
          simp only [Queue.tickets, List.map_append, List.map_cons, List.map_nil, List.mem_append,
            List.mem_singleton] at ht
          obtain ht | rfl := ht
          · exact List.mem_append_left _ (h.waits t ht)
          · exact List.mem_append_right _ (List.mem_singleton.mpr rfl) }

/-- The task of a deferred value leaves, and asks for the next value unless the side is closed. -/
theorem counted_onEnqueued (hord : b.queue.Orderly) (hsize : b.queue.capacity = max 1 capacity)
    {f : InFlight} (hp : b.pacing = .counting f) (hf : f.count = b.deferred.length + 1)
    (hw : ∀ t ∈ b.queue.tickets, .inLine t ∈ b.deferred) (r : SendResult) :
    (b.onEnqueued r).1.Counted capacity ∧ (b.onEnqueued r).1.deferred = b.deferred ∧
      ((b.onEnqueued r).2 = false → (b.onEnqueued r).1.queue.closedForSend = true) := by
  have hleave : f.leave.count = b.deferred.length := by simp [InFlight.leave, hf]
  have hbase : Counted capacity { b with pacing := .counting f.leave } :=
    { orderly := hord, size := hsize, flight := ⟨f.leave, rfl, hleave⟩, waits := hw }
  unfold onEnqueued
  rw [hp]
  cases r with
  | ok u =>
    simp only
    split
    · next hc =>
      refine ⟨hbase, rfl, fun _ => ?_⟩
      exact ((hord.closedForReceive_iff).mp hc).1
    · obtain ⟨hnord, hcap, hticket, hask⟩ := next_facts f.leave hord
      refine ⟨hbase.quiet hnord hcap (fun g hg => ⟨g, hg, rfl⟩) rfl ?_, rfl, hask⟩
      intro t ht
      simp only [hticket] at ht
      exact ht
  | error e =>
    refine ⟨hbase.quiet (hord.close _) (Queue.capacity_close _ _) (fun g hg => ⟨g, hg, rfl⟩) rfl ?_,
      rfl, fun _ => closedForSend_close _ _⟩
    intro t ht
    simp only [Queue.tickets_close] at ht
    exact ht

theorem counted_pollDeferred (h : b.Counted capacity) (i : Nat) :
    (b.pollDeferred i).1.Counted capacity ∧
      ((b.pollDeferred i).1 = b ∧ (b.pollDeferred i).2.1 = false ∨
        (b.pollDeferred i).1.deferred.length + 1 = b.deferred.length ∧
          ((b.pollDeferred i).2.1 = false →
            (b.pollDeferred i).1.queue.closedForSend = true)) := by
  obtain hsame | ⟨e, r, he, hr, hside, hask⟩ := pollDeferred_cases b i
  · rw [hsame]
    exact ⟨h, Or.inl ⟨rfl, rfl⟩⟩
  · obtain ⟨f, hp, hcount⟩ := h.flight
    obtain ⟨hi, _⟩ := List.getElem?_eq_some_iff.mp he
    have hlen : (b.deferred.eraseIdx i).length + 1 = b.deferred.length := by
      rw [List.length_eraseIdx_of_lt hi]
      omega
    have hwaits := waits_of_told h.orderly h.waits he hr
    obtain ⟨hcounted, hdef, hclosed⟩ := counted_onEnqueued
      (b := { b with
        queue := (b.queue.pollSend e).1
        deferred := b.deferred.eraseIdx i })
      (h.orderly.pollSend e) ((Queue.capacity_pollSend _ _).trans h.size) hp
      (hcount.trans hlen.symm) hwaits r
    rw [hside, hask]
    exact ⟨hcounted, Or.inr ⟨by rw [hdef]; exact hlen, hclosed⟩⟩

theorem counted_new (capacity : Nat) : (counting capacity : Inbound α).Counted capacity :=
  { orderly := Queue.orderly_new _
    size := rfl
    flight := ⟨{}, rfl, rfl⟩
    waits := by simp [counting, Queue.new, Queue.tickets] }

theorem counted_recv (h : b.Counted capacity) :
    Counted capacity { b with queue := b.queue.tryRecv.1 } :=
  h.quiet h.orderly.tryRecv (Queue.capacity_tryRecv _) (fun f hf => ⟨f, hf, rfl⟩) rfl
    (Queue.tickets_tryRecv _)

theorem counted_close (h : b.Counted capacity) (how : Termination) :
    Counted capacity { b with queue := (b.queue.close how).1 } :=
  h.quiet (h.orderly.close _) (Queue.capacity_close _ _) (fun f hf => ⟨f, hf, rfl⟩) rfl
    fun _ ht => Queue.tickets_close b.queue how ▸ ht

theorem counted_cancel (h : b.Counted capacity) (st : Status) :
    Counted capacity { b with queue := (b.queue.cancel st).1 } :=
  h.quiet (h.orderly.cancel _) (Queue.capacity_cancel _ _) (fun f hf => ⟨f, hf, rfl⟩) rfl
    fun _ ht => by cases ht

/-- A side that counts never asks because the call is ready. -/
theorem onReady_counted (h : b.Counted capacity) (control : Option Bool) :
    b.onReady control = (b, false) := by
  obtain ⟨f, hp, _⟩ := h.flight
  simp [onReady, hp]

theorem deferred_onCompleted (b : Inbound α) : b.onCompleted.deferred = b.deferred := by
  rw [onCompleted]
  cases b.pacing <;> rfl

theorem counted_onCompleted (h : b.Counted capacity) : b.onCompleted.Counted capacity := by
  obtain ⟨f, hp, _⟩ := h.flight
  have hord := orderly_onCompleted h.orderly
  unfold onCompleted at hord ⊢
  rw [hp] at hord ⊢
  refine h.quiet hord ?_ ?_ rfl ?_
  · simp only [InFlight.finish]
    split
    · exact Queue.capacity_close _ _
    · rfl
  · intro g hg
    rw [hp] at hg
    cases hg
    exact ⟨_, rfl, rfl⟩
  · intro t ht
    simp only [InFlight.finish] at ht
    split at ht
    · rwa [Queue.tickets_close] at ht
    · exact ht

/-- With nothing in flight the completion closes the queue at once. -/
theorem completed_onCompleted (h : b.Counted capacity) (ho : b.queue.closedForSend = false)
    (hd : b.deferred = []) : b.onCompleted.queue.termination = some .completed := by
  obtain ⟨f, hp, hcount⟩ := h.flight
  rw [hd, List.length_nil] at hcount
  have hnone : b.queue.termination = none := by simpa [Queue.closedForSend] using ho
  simp [onCompleted, hp, InFlight.finish, hcount, Queue.termination_close, hnone]

end Inbound
end PacedCall
