import PacedCall.Proofs.Queue.Standing

/-!
What a queue never takes back: the way it ended, the tickets it has given out, and what it has told
a sender that has not looked since. A sender in line is told that its value is gone only when the
whole line is, so a queue that has told anybody so holds nothing any more, and never will.
-/
namespace PacedCall

def Enqueue.ticket? : Enqueue → Option Nat
  | .inLine t => some t
  | _ => none

namespace Queue
variable {α : Type} {q r p : Queue α}

def Discarded (q : Queue α) (t : Nat) : Prop := ∃ e, q.fate? t = some (.error e)

/-- The queue goes on from one state to a later one, and at most the sender with the ticket `looked`
takes its answer away meanwhile. -/
structure Lasts (looked : Option Nat) (q r : Queue α) : Prop where
  ended : ∀ how, q.termination = some how → r.termination = some how
  given : q.nextTicket ≤ r.nextTicket
  fate : ∀ t x, looked ≠ some t → q.fate? t = some x → r.fate? t = some x
  knows : ∀ t, looked ≠ some t → q.Knows t → r.Knows t
  inLine : ∀ t ∈ r.tickets, t ∈ q.tickets ∨ q.nextTicket ≤ t
  discarded : ∀ t, r.Discarded t →
    q.Discarded t ∨ (t ∈ q.tickets ∨ q.nextTicket ≤ t) ∧ r.closedForReceive = true
  drained : q.closedForReceive = true → r.closedForReceive = true

theorem not_closedForReceive_of_open (hopen : q.closedForSend = false) :
    q.closedForReceive = false := by
  rw [closedForSend] at hopen
  simp [closedForReceive, hopen]

/-- Taking the next value out tells at most one sender, and that its value was taken. -/
theorem told_tryRecv (q : Queue α) :
    ∃ more, q.tryRecv.1.fates = q.fates ++ more ∧ ∀ x ∈ more, x.2 = .ok () := by
  rw [tryRecv]
  split
  · rw [promote]
    split
    · exact ⟨[], (List.append_nil _).symm, by simp⟩
    · exact ⟨_, rfl, by simp⟩
  · split <;> exact ⟨[], (List.append_nil _).symm, by simp⟩

namespace Lasts
variable {looked : Option Nat}

theorem refl (q : Queue α) : Lasts looked q q :=
  { ended := fun _ => id
    given := Nat.le_refl _
    fate := fun _ _ _ => id
    knows := fun _ _ => id
    inLine := fun _ => .inl
    discarded := fun _ => .inl
    drained := id }

theorem trans (h : Lasts looked q r) (g : Lasts looked r p) : Lasts looked q p :=
  { ended := fun how hq => g.ended how (h.ended how hq)
    given := Nat.le_trans h.given g.given
    fate := fun t x ht hq => g.fate t x ht (h.fate t x ht hq)
    knows := fun t ht hq => g.knows t ht (h.knows t ht hq)
    inLine := by
      intro t ht
      obtain ht | ht := g.inLine t ht
      · exact h.inLine t ht
      · exact .inr (Nat.le_trans h.given ht)
    discarded := by
      intro t ht
      obtain ht | ⟨hline, hclosed⟩ := g.discarded t ht
      · exact (h.discarded t ht).imp id fun hr => ⟨hr.1, g.drained hr.2⟩
      · refine .inr ⟨?_, hclosed⟩
        obtain hline | hnew := hline
        · exact h.inLine t hline
        · exact .inr (Nat.le_trans h.given hnew)
    drained := fun hq => g.drained (h.drained hq) }

theorem imp (h : Lasts looked q r) {other : Option Nat}
    (hl : ∀ t, looked = some t → other = some t) : Lasts other q r :=
  { h with
    fate := fun t x ht => h.fate t x fun hlooked => ht (hl t hlooked)
    knows := fun t ht => h.knows t fun hlooked => ht (hl t hlooked) }

/-- Whatever else happens to it, the queue tells its senders more, and only that. -/
theorem of_more (hended : ∀ how, q.termination = some how → r.termination = some how)
    (hgiven : q.nextTicket ≤ r.nextTicket) {more : List (Nat × SendResult)}
    (hfates : r.fates = q.fates ++ more)
    (htold : ∀ x ∈ more, x.2 = .ok () ∨ x.1 ∈ q.tickets ∧ r.closedForReceive = true)
    (hknows : ∀ t, q.Knows t → r.Knows t)
    (hline : ∀ t ∈ r.tickets, t ∈ q.tickets ∨ q.nextTicket ≤ t)
    (hdrained : q.closedForReceive = true → r.closedForReceive = true) : Lasts looked q r :=
  { ended := hended
    given := hgiven
    fate := by
      intro t x _ hq
      rw [fate?_append hfates, hq, Option.some_or]
    knows := fun t _ => hknows t
    inLine := hline
    discarded := by
      rintro t ⟨e, he⟩
      rw [fate?_append hfates, Option.or_eq_some_iff] at he
      obtain hq | ⟨_, hmore⟩ := he
      · exact .inl ⟨e, hq⟩
      · obtain ⟨x, hx, hxe⟩ := Option.map_eq_some_iff.mp hmore
        have hxt : x.1 = t := by simpa using List.find?_some hx
        obtain hok | hgone := htold x (List.mem_of_find?_eq_some hx)
        · rw [hok] at hxe
          cases hxe
        · exact .inr ⟨.inl (hxt ▸ hgone.1), hgone.2⟩
    drained := hdrained }

theorem trySend (q : Queue α) (v : α) : Lasts looked q (q.trySend v).1 := by
  have hknows : ∀ t, q.Knows t → (q.trySend v).1.Knows t := fun _ ht => ht.trySend v
  rw [Queue.trySend] at hknows ⊢
  split
  · exact .refl q
  · next hopen =>
    have hfresh := not_closedForReceive_of_open (by simpa using hopen)
    rw [if_neg hopen] at hknows
    split
    · next hr =>
      rw [if_pos hr] at hknows
      exact .of_more (fun _ => id) (Nat.le_refl _) (List.append_nil _).symm (by simp) hknows
        (fun _ => .inl) (by simp [hfresh])
    · exact .refl q

theorem send (q : Queue α) (v : α) : Lasts looked q (q.send v).1 := by
  have hknows : ∀ t, q.Knows t → (q.send v).1.Knows t := fun _ ht => ht.send v
  have hfates : (q.send v).1.fates = q.fates ++ [] := by rw [fates_send, List.append_nil]
  have hterm := q.termination_send v
  refine .of_more (fun how hq => hterm.trans hq) ?_ hfates (by simp) hknows ?_ ?_
  · rw [Queue.send]
    split
    · exact Nat.le_refl _
    · split
      · exact Nat.le_refl _
      · exact Nat.le_succ _
  · intro t ht
    rw [Queue.send] at ht
    split at ht
    · exact .inl ht
    · split at ht
      · exact .inl ht
      · rw [tickets, List.map_append, List.mem_append] at ht
        exact ht.imp id fun ht => Nat.le_of_eq (List.mem_singleton.mp ht).symm
  · intro hc
    rw [Queue.send]
    split
    · exact hc
    · next hopen =>
      rw [not_closedForReceive_of_open (by simp [closedForSend, hopen])] at hc
      cases hc

theorem tryRecv (q : Queue α) : Lasts looked q q.tryRecv.1 := by
  obtain ⟨more, hfates, hok⟩ := q.told_tryRecv
  refine .of_more (fun _ hq => q.termination_tryRecv.trans hq)
    (Nat.le_of_eq q.nextTicket_tryRecv.symm) hfates (fun x hx => .inl (hok x hx))
    (fun _ ht => ht.tryRecv) (fun t ht => .inl (q.tickets_tryRecv t ht)) ?_
  intro hc
  have hb : q.buffer = [] := by simp_all [closedForReceive]
  rw [Queue.tryRecv, hb]
  cases q.termination <;> exact hc

theorem close (q : Queue α) (how : Termination) : Lasts looked q (q.close how).1 := by
  have hfates : (q.close how).1.fates = q.fates ++ [] := by rw [fates_close, List.append_nil]
  have hknows : ∀ t, q.Knows t → (q.close how).1.Knows t := fun _ ht => ht.close how
  have htickets := q.tickets_close how
  refine .of_more ?_ ?_ hfates (by simp) hknows (fun t ht => .inl (htickets ▸ ht)) ?_
  · intro k hq
    rw [termination_close, hq, Option.some_or]
  · rw [Queue.close]
    split <;> exact Nat.le_refl _
  · rw [Queue.close]
    split
    · exact id
    · intro hc
      simp_all [closedForReceive]

theorem cancel (q : Queue α) (st : Status) : Lasts looked q (q.cancel st).1 := by
  have hclosed := closedForReceive_cancel q st
  have hfates : (q.cancel st).1.fates =
      q.fates ++ q.waiting.map fun w => (w.ticket, .error (.terminated st)) := by
    unfold Queue.cancel Queue.close
    cases q.termination <;> rfl
  refine .of_more ?_ (Nat.le_of_eq (q.nextTicket_cancel st).symm) hfates ?_
    (fun _ ht => ht.cancel st) ?_ (fun _ => hclosed)
  · intro how hq
    rw [termination_cancel, hq, Option.some_or]
  · intro x hx
    obtain ⟨w, hw, rfl⟩ := List.mem_map.mp hx
    exact .inr ⟨List.mem_map_of_mem hw, hclosed⟩
  · intro t ht
    cases ht

theorem withdraw (q : Queue α) (t : Nat) : Lasts (some t) q (q.withdraw t) :=
  { ended := fun _ => id
    given := Nat.le_refl _
    fate := fun _ _ _ => id
    knows := fun u hu hq => hq.withdraw fun h => hu (congrArg some h.symm)
    inLine := by
      intro u hu
      rw [tickets_withdraw] at hu
      exact .inl (List.mem_filter.mp hu).1
    discarded := fun _ => .inl
    drained := by
      intro hc
      simp_all [closedForReceive, Queue.withdraw] }

theorem forget (q : Queue α) (t : Nat) : Lasts (some t) q (q.forget t) :=
  { ended := fun _ => id
    given := Nat.le_refl _
    fate := by
      intro u x hu hq
      rw [fate?_forget_of_ne (fun h => hu (congrArg some h.symm)), hq]
    knows := fun u hu hq => hq.forget fun h => hu (congrArg some h.symm)
    inLine := fun _ => .inl
    discarded := by
      rintro u ⟨e, he⟩
      by_cases hu : u = t
      · subst hu
        have hnone : (q.forget u).fate? u = none := by
          rw [fate?_eq_none_iff]
          simp [told, Queue.forget]
        rw [hnone] at he
        cases he
      · exact .inl ⟨e, (fate?_forget_of_ne hu).symm.trans he⟩
    drained := id }

theorem pollSend (q : Queue α) (e : Enqueue) : Lasts e.ticket? q (q.pollSend e).1 := by
  unfold Queue.pollSend
  split
  · exact .refl q
  · exact .refl q
  · split
    · exact .forget q _
    · exact .refl q

theorem dropSend (q : Queue α) (e : Enqueue) : Lasts e.ticket? q (q.dropSend e) := by
  unfold Queue.dropSend
  split
  · next t => exact (Lasts.withdraw q t).trans (.forget _ t)
  · exact .refl q

end Lasts

/-- A sender that is not answered goes on waiting under its ticket, and was told nothing. -/
theorem pollSend_pending {e f : Enqueue} (hs : q.pollSend e = (r, f, none)) :
    r = q ∧ f = e ∧ ∃ t, e = .inLine t ∧ q.fate? t = none := by
  unfold pollSend at hs
  split at hs
  · cases hs
  · cases hs
  · next t =>
    split at hs
    · cases hs
    · next hnone =>
      cases hs
      exact ⟨rfl, rfl, t, rfl, hnone⟩

/-- A sender waits under the next ticket, on a queue that has given it out and has it in line. -/
theorem nextTicket_of_inLine {v : α} {t : Nat} (hs : q.send v = (r, .inLine t)) :
    t = q.nextTicket ∧ r.nextTicket = q.nextTicket + 1 ∧ t ∈ r.tickets := by
  unfold send at hs
  split at hs
  · cases hs
  · split at hs
    · cases hs
    · cases hs
      exact ⟨rfl, rfl, by simp [tickets]⟩

/-- A closed queue answers no sender but with its end. -/
theorem send_of_ended {how : Termination} (hq : q.termination = some how) (v : α) :
    q.send v = (q, .settled (.error how.error)) := by
  rw [send, hq]

theorem trySend_of_ended {how : Termination} (hq : q.termination = some how) (v : α) :
    (q.trySend v).2 = .error .closed := by
  rw [trySend, closedForSend, hq]
  rfl

end Queue
end PacedCall
