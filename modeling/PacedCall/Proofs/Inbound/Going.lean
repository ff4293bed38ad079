import PacedCall.Proofs.Inbound

/-!
An inbound side that goes on. As long as nobody ends it from outside, every value that had to wait
finds its place in the end, so neither the values that arrive nor the tasks of those that wait can
close the queue.
-/
namespace PacedCall
namespace Inbound
variable {α : Type} {b : Inbound α}

/-! Senders of a queue that have only been told that their values found their places. -/

/-- A receive tells the next sender in line just that. -/
theorem placed_tryRecv {q : Queue α} (hq : ∀ f ∈ q.fates, f.2 = .ok ()) :
    ∀ f ∈ q.tryRecv.1.fates, f.2 = .ok () := by
  intro f hf
  rw [Queue.tryRecv] at hf
  split at hf
  · rw [Queue.promote] at hf
    split at hf
    · exact hq f hf
    · obtain hf | hf := List.mem_append.mp hf
      · exact hq f hf
      · rw [List.mem_singleton.mp hf]
  · split at hf <;> exact hq f hf

theorem placed_pollSend {q : Queue α} (hq : ∀ f ∈ q.fates, f.2 = .ok ()) (e : Enqueue) :
    ∀ f ∈ (q.pollSend e).1.fates, f.2 = .ok () := by
  intro f hf
  unfold Queue.pollSend at hf
  split at hf
  · exact hq f hf
  · exact hq f hf
  · split at hf
    · exact hq f (List.mem_of_mem_filter hf)
    · exact hq f hf

/-- Whoever waits in line there hears nothing else. -/
theorem told_of_placed {q : Queue α} (hq : ∀ f ∈ q.fates, f.2 = .ok ()) {t : Nat} {r : SendResult}
    (hr : (q.pollSend (.inLine t)).2.2 = some r) : r = .ok () := by
  cases hfate : q.fate? t with
  | none => simp [Queue.pollSend, hfate] at hr
  | some r' =>
    simp only [Queue.pollSend, hfate, Option.some.injEq] at hr
    obtain ⟨f, hf, rfl⟩ := Option.map_eq_some_iff.mp hfate
    rw [← hr, hq f (List.mem_of_find?_eq_some hf)]

structure Going (b : Inbound α) : Prop where
  goes : b.queue.closedForSend = false
  more : b.pacing.completed = false
  waits : ∀ e ∈ b.deferred, ∃ t, e = .inLine t
  placed : ∀ f ∈ b.queue.fates, f.2 = .ok ()

theorem next_of_more {f : InFlight} (hf : f.completed = false) (q : Queue α) :
    f.next q = (q, true) := by
  simp [InFlight.next, InFlight.drained, hf]

namespace Going

theorem new (capacity : Nat) :
    (counting capacity : Inbound α).Going ∧ (latching capacity : Inbound α).Going :=
  ⟨⟨rfl, rfl, nofun, nofun⟩, ⟨rfl, rfl, nofun, nofun⟩⟩

theorem defer (h : b.Going) (hr : b.queue.hasRoom = false) (v : α) : (b.defer v).Going := by
  rw [Inbound.defer, Queue.send_of_full h.goes hr]
  exact
    { goes := h.goes
      more := h.more
      waits := by
        intro e he
        obtain he | he := List.mem_append.mp he
        · exact h.waits e he
        · exact ⟨_, List.mem_singleton.mp he⟩
      placed := h.placed }

theorem onValue (h : b.Going) (v : α) : (b.onValue v).1.Going := by
  have hmore := h.more
  have hx := b.onValue_arrives v
  generalize b.onValue v = x at hx ⊢
  cases hx with
  | late hclosed => cases h.goes.symm.trans hclosed
  | counts _ _ hp =>
    rw [hp] at hmore
    rw [next_of_more hmore]
    exact { h with }
  | latches => exact { h with more := rfl }
  | @defersCounted f _ hr hp =>
    rw [hp] at hmore
    exact Going.defer (b := { b with pacing := .counting f.enter }) { h with more := hmore } hr v
  | @defersLatched l _ hr =>
    exact Going.defer (b := { b with pacing := .latching l.claim }) { h with more := rfl } hr v

/-- A value that found its place does not end anything. -/
theorem onEnqueued (h : b.Going) : (b.onEnqueued (.ok ())).1.Going := by
  have hmore := h.more
  unfold Inbound.onEnqueued
  cases hp : b.pacing with
  | counting f =>
    rw [hp] at hmore
    simp only
    split
    · exact { h with more := hmore }
    · rw [next_of_more (f := f.leave) hmore]
      exact { h with more := hmore }
  | latching l => exact { h with more := rfl }

theorem pollDeferred (h : b.Going) (i : Nat) : (b.pollDeferred i).1.Going := by
  obtain hsame | ⟨e, r, he, hr, hside, _⟩ := pollDeferred_cases b i
  · rw [hsame]
    exact h
  · obtain ⟨t, rfl⟩ := h.waits e (List.mem_of_getElem? he)
    rw [hside, told_of_placed h.placed hr]
    refine Going.onEnqueued ?_
    exact
      { goes := by
          rw [Queue.closedForSend, Queue.termination_pollSend]
          exact h.goes
        more := h.more
        waits := fun e he => h.waits e (List.mem_of_mem_eraseIdx he)
        placed := placed_pollSend h.placed _ }

theorem onReady (h : b.Going) (control : Option Bool) : (b.onReady control).1.Going := by
  unfold Inbound.onReady
  split
  · exact { h with more := rfl }
  · exact h

theorem recv (h : b.Going) : Going { b with queue := b.queue.tryRecv.1 } :=
  { goes := by
      rw [Queue.closedForSend, Queue.termination_tryRecv]
      exact h.goes
    more := h.more
    waits := h.waits
    placed := placed_tryRecv h.placed }

end Going
end Inbound
end PacedCall
