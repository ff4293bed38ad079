import PacedCall.Proofs.Inbound.Flight
import PacedCall.Proofs.Inbound.Going
import PacedCall.Proofs.Queue.Standing

/-!
An inbound side that counts what is in flight and that nobody ends before its time. Its queue closes
when the peer has completed and the last deferred value has found its place, neither sooner nor
later, whatever the order in which that comes about.
-/
namespace PacedCall
namespace Inbound
variable {α : Type} {b : Inbound α} {capacity : Nat} {completed : Bool}

/-- The peer has `completed` or not. Every value that waits for room still may find it, and the queue
has ended exactly if nothing more comes and nothing is in flight. -/
structure Steady (completed : Bool) (b : Inbound α) : Prop where
  more : b.pacing.completed = completed
  ends : b.queue.termination =
    if completed && b.deferred.isEmpty then some .completed else none
  waits : ∀ e ∈ b.deferred, ∃ t, e = .inLine t ∧ b.queue.Knows t
  placed : ∀ f ∈ b.queue.fates, f.2 = .ok ()

namespace Steady

theorem new (capacity : Nat) : (counting capacity : Inbound α).Steady false :=
  ⟨rfl, rfl, nofun, nofun⟩

theorem isOpen (h : b.Steady false) : b.queue.closedForSend = false := by
  rw [Queue.closedForSend, h.ends]
  rfl

theorem onValue (h : b.Steady false) (hc : b.Counted capacity) (v : α) :
    (b.onValue v).1.Steady false := by
  obtain ⟨f, hp, _⟩ := hc.flight
  have hmore : f.completed = false := by
    have hm := h.more
    rw [hp] at hm
    exact hm
  cases hr : b.queue.hasRoom with
  | true =>
    rw [onValue_counting_room h.isOpen hr hp, next_of_more hmore]
    exact { h with }
  | false =>
    rw [onValue_counting_full h.isOpen hr hp, defer, Queue.send_of_full h.isOpen hr]
    have hsent := Queue.send_of_full h.isOpen hr v
    refine { more := hmore, ends := h.ends, waits := ?_, placed := h.placed }
    intro e he
    obtain he | he := List.mem_append.mp he
    · obtain ⟨t, rfl, ht⟩ := h.waits e he
      have hknows := ht.send v
      rw [hsent] at hknows
      exact ⟨t, rfl, hknows⟩
    · exact ⟨_, List.mem_singleton.mp he, .inl (by simp [Queue.tickets])⟩

theorem onCompleted (h : b.Steady false) (hc : b.Counted capacity) :
    b.onCompleted.Steady true := by
  obtain ⟨f, hp, hcount⟩ := hc.flight
  have hnone : b.queue.termination = none := h.ends
  rw [Inbound.onCompleted, hp]
  simp only [InFlight.finish]
  have hempty : (f.count == 0) = b.deferred.isEmpty := by
    rw [hcount, Bool.eq_iff_iff]
    simp
  rw [hempty]
  cases hd : b.deferred with
  | nil =>
    refine ⟨rfl, ?_, by simp, ?_⟩
    · simp [Queue.termination_close, hnone]
    · intro f hf
      rw [List.isEmpty_nil, if_pos rfl, Queue.fates_close] at hf
      exact h.placed f hf
  | cons e es =>
    refine ⟨rfl, ?_, ?_, h.placed⟩
    · simpa using hnone
    · exact fun e' he' => h.waits e' (hd ▸ he')

theorem recv (h : b.Steady completed) :
    Steady completed { b with queue := b.queue.tryRecv.1 } :=
  { more := h.more
    ends := (Queue.termination_tryRecv _).trans h.ends
    waits := by
      intro e he
      obtain ⟨t, rfl, ht⟩ := h.waits e he
      exact ⟨t, rfl, ht.tryRecv⟩
    placed := placed_tryRecv h.placed }

/-- A look at the one deferred value: it still waits, or it has found its place and nothing is in
flight any more. -/
theorem pollDeferred (h : b.Steady completed) (hc : b.Counted capacity)
    (hone : b.deferred.length ≤ 1) (i : Nat) : (b.pollDeferred i).1.Steady completed := by
  obtain hsame | ⟨e, r, he, hr, hside, _⟩ := pollDeferred_cases b i
  · rw [hsame]
    exact h
  · obtain ⟨f, hp, hcount⟩ := hc.flight
    have hmem : e ∈ b.deferred := List.mem_of_getElem? he
    have hd : b.deferred = [e] := by
      obtain ⟨e', hd⟩ := List.length_eq_one_iff.mp
        (Nat.le_antisymm hone (List.length_pos_of_mem hmem))
      rw [hd, List.mem_singleton] at hmem
      rw [hd, hmem]
    have hi : i = 0 := by
      have hlt := (List.getElem?_eq_some_iff.mp he).1
      rw [hd, List.length_singleton] at hlt
      omega
    obtain ⟨t, rfl, _⟩ := h.waits e hmem
    obtain rfl := told_of_placed h.placed hr
    have hnone : (b.queue.pollSend (.inLine t)).1.termination = none := by
      rw [Queue.termination_pollSend, h.ends, hd]
      simp
    have hplaced := placed_pollSend h.placed (.inLine t)
    have hmore : f.completed = completed := by
      have hm := h.more
      rw [hp] at hm
      exact hm
    rw [hside, hi, hd]
    generalize (b.queue.pollSend (.inLine t)).1 = q at hnone hplaced ⊢
    have hnever : q.closedForReceive = false := by simp [Queue.closedForReceive, hnone]
    have hleave : f.leave.count = 0 := by simp [InFlight.leave, hcount, hd]
    simp only [Inbound.onEnqueued, hp, hnever, List.eraseIdx_cons_zero, Bool.false_eq_true,
      if_false]
    cases completed with
    | false =>
      rw [next_of_more (f := f.leave) hmore]
      exact ⟨hmore, hnone, by simp, hplaced⟩
    | true =>
      have hdrained : f.leave.drained = true := by
        simp [InFlight.drained, hleave, show f.leave.completed = true from hmore]
      rw [InFlight.next, if_pos hdrained]
      refine ⟨hmore, ?_, by simp, ?_⟩
      · simp [Queue.termination_close, hnone]
      · intro g hg
        exact hplaced g (Queue.fates_close q _ ▸ hg)

/-- A value whose line has moved on does not go unnoticed. -/
theorem settles (h : b.Steady completed) (hc : b.Counted capacity) (hline : b.queue.line = [])
    (hstays : (b.pollDeferred 0).1 = b) : b.deferred = [] := by
  cases hd : b.deferred with
  | nil => rfl
  | cons e es =>
    obtain ⟨t, rfl, ht⟩ := h.waits e (by simp [hd])
    have hnobody : t ∉ b.queue.tickets := by
      have hbuffer := hc.orderly.line_eq_nil_iff.mp hline
      simp [Queue.tickets, hc.orderly.waiting_eq_nil hbuffer]
    obtain ⟨r, hr⟩ := Option.ne_none_iff_exists'.mp
      fun hnone => Queue.fate?_eq_none_iff.mp hnone (ht.resolve_left hnobody)
    have hsplit : b.deferred = [] ++ .inLine t :: es := hd
    have hpoll := pollDeferred_split hsplit
    simp only [List.length_nil, Queue.pollSend, hr, List.nil_append] at hpoll
    rw [hpoll] at hstays
    have hleft := congrArg (List.length ∘ deferred) hstays
    simp only [Function.comp, deferred_onEnqueued, hd, List.length_cons] at hleft
    omega

end Steady
end Inbound
end PacedCall
