import PacedCall.Queue.Line
import Mathlib.Data.List.Nodup
import Mathlib.Data.List.Pairwise

/-!
The order a queue keeps. Nobody waits while there is room, those who wait stand in line by ticket,
and a sender that was told its fate waits no more. So the buffer is the front of the line, as far
as the capacity goes, and every operation keeps it so.
-/
namespace PacedCall
namespace Queue
variable {α : Type} {q : Queue α}

def tickets (q : Queue α) : List Nat := q.waiting.map Waiting.ticket

def told (q : Queue α) : List Nat := q.fates.map Prod.fst

def Knows (q : Queue α) (t : Nat) : Prop := t ∈ q.tickets ∨ t ∈ q.told

theorem told_dismiss (q : Queue α) (r : SendResult) :
    (dismiss { q with buffer := [] } r).told = q.told ++ q.tickets := by
  simp [dismiss, told, tickets]

structure Orderly (q : Queue α) : Prop where
  room : 0 < q.capacity
  fits : q.buffer.length ≤ q.capacity
  full : q.waiting ≠ [] → q.buffer.length = q.capacity
  sorted : q.tickets.Pairwise (· < ·)
  fresh : ∀ t ∈ q.tickets, t < q.nextTicket
  past : ∀ t ∈ q.told, t < q.nextTicket ∧ t ∉ q.tickets
  once : q.told.Nodup

theorem orderly_new (capacity : Nat) : (new capacity : Queue α).Orderly :=
  { room := Nat.lt_of_lt_of_le Nat.one_pos (Nat.le_max_left 1 capacity)
    fits := Nat.zero_le _
    full := fun h => absurd rfl h
    sorted := .nil
    fresh := by simp [new, tickets]
    past := by simp [new, told]
    once := .nil }

namespace Orderly

theorem buffer_eq (h : q.Orderly) : q.buffer = q.line.take q.capacity := by
  by_cases hw : q.waiting = []
  · simp [line, hw, List.take_of_length_le h.fits]
  · simp [line, ← h.full hw]

theorem waiting_eq (h : q.Orderly) : q.waiting.map Waiting.value = q.line.drop q.capacity := by
  by_cases hw : q.waiting = []
  · simp [line, hw, List.drop_eq_nil_of_le h.fits]
  · simp [line, ← h.full hw]

/-- Room is what the line leaves of the capacity: whoever waits has filled the buffer. -/
theorem hasRoom_iff (h : q.Orderly) : q.hasRoom = true ↔ q.line.length < q.capacity := by
  by_cases hw : q.waiting = []
  · simp [hasRoom, line, hw]
  · have hf := h.full hw
    simp [hasRoom, line, hf]

/-- An empty buffer is an empty line: nobody waits behind a buffer that is not full. -/
theorem waiting_eq_nil (h : q.Orderly) (hb : q.buffer = []) : q.waiting = [] := by
  by_contra hw
  have hf := h.full hw
  have hr := h.room
  simp [hb] at hf
  omega

theorem line_eq_nil_iff (h : q.Orderly) : q.line = [] ↔ q.buffer = [] := by
  constructor
  · intro hl
    exact (List.append_eq_nil_iff.mp hl).1
  · intro hb
    simp [line, hb, h.waiting_eq_nil hb]

theorem closedForReceive_iff (h : q.Orderly) :
    q.closedForReceive = true ↔ q.termination.isSome = true ∧ q.line = [] := by
  rw [h.line_eq_nil_iff]
  constructor
  · intro hc
    simp only [closedForReceive, Bool.and_eq_true, List.isEmpty_iff] at hc
    exact hc.1
  · rintro ⟨ht, hb⟩
    simp [closedForReceive, ht, hb, h.waiting_eq_nil hb]

theorem buffered (h : q.Orderly) (v : α) (hr : q.hasRoom = true) :
    Orderly { q with buffer := q.buffer ++ [v] } := by
  have hw := waiting_eq_nil_of_hasRoom hr
  have hl : q.buffer.length < q.capacity := by simpa [hasRoom, hw] using hr
  exact { h with
    fits := by
      rw [List.length_append, List.length_singleton]
      exact hl
    full := fun hn => absurd hw hn }

theorem trySend (h : q.Orderly) (v : α) : (q.trySend v).1.Orderly := by
  rw [Queue.trySend]
  split
  · exact h
  · split
    · next hr => exact h.buffered v hr
    · exact h

theorem send (h : q.Orderly) (v : α) : (q.send v).1.Orderly := by
  rw [Queue.send]
  split
  · exact h
  · split
    · next hr => exact h.buffered v hr
    · next hr =>
      -- The new ticket is above all that were given out, so it is the last of the line.
      refine { room := h.room, fits := h.fits, full := ?_, sorted := ?_, fresh := ?_,
               past := ?_, once := h.once }
      · intro _
        by_cases hw : q.waiting = []
        · have hl : q.capacity ≤ q.buffer.length := by simpa [hasRoom, hw] using hr
          exact Nat.le_antisymm h.fits hl
        · exact h.full hw
      · simp only [tickets, List.map_append, List.map_cons, List.map_nil, List.pairwise_append]
        refine ⟨h.sorted, List.pairwise_singleton _ _, ?_⟩
        intro t ht u hu
        rw [List.mem_singleton.mp hu]
        exact h.fresh t ht
      · intro t ht
        simp only [tickets, List.map_append, List.map_cons, List.map_nil, List.mem_append,
          List.mem_singleton] at ht
        obtain ht | rfl := ht
        · exact Nat.lt_succ_of_lt (h.fresh t ht)
        · exact Nat.lt_succ_self _
      · intro t ht
        obtain ⟨hlt, hn⟩ := h.past t ht
        refine ⟨Nat.lt_succ_of_lt hlt, ?_⟩
        simp only [tickets, List.map_append, List.map_cons, List.map_nil, List.mem_append,
          List.mem_singleton, not_or]
        exact ⟨hn, Nat.ne_of_lt hlt⟩

/-- Promotion restores the order that taking the head of a full buffer has broken. -/
theorem promote_of_taken (h : q.Orderly) {v : α} {rest : List α} (hb : q.buffer = v :: rest) :
    (promote { q with buffer := rest }).Orderly := by
  have hfits := h.fits
  rw [hb, List.length_cons] at hfits
  rw [promote]
  split
  · next hw =>
    exact { h with fits := Nat.le_of_succ_le hfits, full := fun hn => absurd hw hn }
  · next w ws hw =>
    replace hw : q.waiting = w :: ws := hw
    have hfull : rest.length + 1 = q.capacity := by
      simpa [hb] using h.full (by simp [hw])
    have hs : (w.ticket :: ws.map Waiting.ticket).Pairwise (· < ·) := by
      simpa [tickets, hw] using h.sorted
    obtain ⟨hhead, htail⟩ := List.pairwise_cons.mp hs
    have hf : ∀ t ∈ w.ticket :: ws.map Waiting.ticket, t < q.nextTicket := by
      simpa [tickets, hw] using h.fresh
    have hp : ∀ t ∈ q.told, t < q.nextTicket ∧ t ∉ w.ticket :: ws.map Waiting.ticket := by
      simpa [tickets, hw] using h.past
    refine { room := h.room, fits := ?_, full := ?_, sorted := htail, fresh := ?_,
             past := ?_, once := ?_ }
    · simp [hfull]
    · simp [hfull]
    · exact fun t ht => hf t (List.mem_cons_of_mem _ ht)
    · intro t ht
      simp only [told, List.map_append, List.map_cons, List.map_nil, List.mem_append,
        List.mem_singleton] at ht
      obtain ht | rfl := ht
      · exact ⟨(hp t ht).1, fun hm => (hp t ht).2 (List.mem_cons_of_mem _ hm)⟩
      · exact ⟨hf _ List.mem_cons_self, fun hm => Nat.lt_irrefl _ (hhead _ hm)⟩
    · simp only [told, List.map_append, List.map_cons, List.map_nil]
      refine h.once.append (List.nodup_singleton _) ?_
      simp only [List.disjoint_singleton]
      exact fun hm => (hp _ hm).2 List.mem_cons_self

theorem tryRecv (h : q.Orderly) : q.tryRecv.1.Orderly := by
  rw [Queue.tryRecv]
  split
  · next v rest hb => exact h.promote_of_taken hb
  · split <;> exact h

theorem close (h : q.Orderly) (t : Termination) : (q.close t).1.Orderly := by
  rw [Queue.close]
  split
  · exact h
  · exact { h with }

/-- Whoever is dismissed is told, so nobody is told twice. -/
theorem dismiss (h : q.Orderly) (r : SendResult) :
    (Queue.dismiss { q with buffer := [] } r).Orderly := by
  refine { room := h.room, fits := Nat.zero_le _, full := fun hn => absurd rfl hn,
           sorted := .nil, fresh := by simp [Queue.dismiss, tickets], past := ?_, once := ?_ }
  · intro t ht
    rw [told_dismiss, List.mem_append] at ht
    refine ⟨?_, List.not_mem_nil⟩
    obtain ht | ht := ht
    · exact (h.past t ht).1
    · exact h.fresh t ht
  · rw [told_dismiss]
    exact h.once.append (h.sorted.imp Nat.ne_of_lt) fun t ht => (h.past t ht).2

theorem cancel (h : q.Orderly) (st : Status) : (q.cancel st).1.Orderly :=
  (h.close _).dismiss _

theorem release (h : q.Orderly) : q.release.Orderly := h.dismiss _

theorem withdraw (h : q.Orderly) (ticket : Nat) : (q.withdraw ticket).Orderly := by
  have hsub : (q.withdraw ticket).tickets.Sublist q.tickets :=
    List.filter_sublist.map Waiting.ticket
  refine { room := h.room, fits := h.fits, full := ?_, sorted := h.sorted.sublist hsub,
           fresh := fun t ht => h.fresh t (hsub.subset ht), past := ?_, once := h.once }
  · intro hn
    refine h.full fun hw => hn ?_
    simp [Queue.withdraw, hw]
  · exact fun t ht => ⟨(h.past t ht).1, fun hm => (h.past t ht).2 (hsub.subset hm)⟩

theorem forget (h : q.Orderly) (ticket : Nat) : (q.forget ticket).Orderly := by
  have hsub : (q.forget ticket).told.Sublist q.told := List.filter_sublist.map Prod.fst
  exact { h with
    past := fun t ht => h.past t (hsub.subset ht)
    once := h.once.sublist hsub }

theorem pollSend (h : q.Orderly) (e : Enqueue) : (q.pollSend e).1.Orderly := by
  unfold Queue.pollSend
  split
  · exact h
  · exact h
  · split
    · exact h.forget _
    · exact h

theorem dropSend (h : q.Orderly) (e : Enqueue) : (q.dropSend e).Orderly := by
  unfold Queue.dropSend
  split
  · exact (h.withdraw _).forget _
  · exact h

theorem lt_of_knows (h : q.Orderly) {t : Nat} (ht : q.Knows t) : t < q.nextTicket := by
  obtain ht | ht := ht
  · exact h.fresh t ht
  · exact (h.past t ht).1

end Orderly

/-! What else stays as it was: the capacity of a queue, and the tickets it knows of. -/

@[simp] theorem capacity_trySend (q : Queue α) (v : α) : (q.trySend v).1.capacity = q.capacity := by
  rw [trySend]
  split
  · rfl
  · split <;> rfl

@[simp] theorem capacity_send (q : Queue α) (v : α) : (q.send v).1.capacity = q.capacity := by
  rw [send]
  split
  · rfl
  · split <;> rfl

@[simp] theorem capacity_promote (q : Queue α) : q.promote.capacity = q.capacity := by
  rw [promote]
  split <;> rfl

@[simp] theorem capacity_tryRecv (q : Queue α) : q.tryRecv.1.capacity = q.capacity := by
  rw [tryRecv]
  split
  · rw [capacity_promote]
  · split <;> rfl

/-- Closing a queue sets its end and nothing else. -/
theorem exists_close (q : Queue α) (how : Termination) :
    ∃ t, (q.close how).1 = { q with termination := some t } := by
  rw [close]
  cases ht : q.termination with
  | some t => exact ⟨t, by simp [← ht]⟩
  | none => exact ⟨how, rfl⟩

@[simp] theorem capacity_close (q : Queue α) (how : Termination) :
    (q.close how).1.capacity = q.capacity := by
  obtain ⟨t, ht⟩ := exists_close q how
  rw [ht]

theorem tickets_close (q : Queue α) (how : Termination) : (q.close how).1.tickets = q.tickets := by
  obtain ⟨t, ht⟩ := exists_close q how
  rw [ht]
  rfl

@[simp] theorem capacity_cancel (q : Queue α) (st : Status) :
    (q.cancel st).1.capacity = q.capacity :=
  capacity_close q _

/-- A look at a send only uses up what it was told. -/
theorem exists_pollSend (q : Queue α) (e : Enqueue) :
    ∃ fates, (q.pollSend e).1 = { q with fates := fates } := by
  unfold pollSend
  split
  · exact ⟨_, rfl⟩
  · exact ⟨_, rfl⟩
  · split <;> exact ⟨_, rfl⟩

@[simp] theorem capacity_pollSend (q : Queue α) (e : Enqueue) :
    (q.pollSend e).1.capacity = q.capacity := by
  obtain ⟨fates, hf⟩ := exists_pollSend q e
  rw [hf]

theorem tickets_pollSend (q : Queue α) (e : Enqueue) : (q.pollSend e).1.tickets = q.tickets := by
  obtain ⟨fates, hf⟩ := exists_pollSend q e
  rw [hf]
  rfl

theorem termination_pollSend (q : Queue α) (e : Enqueue) :
    (q.pollSend e).1.termination = q.termination := by
  obtain ⟨fates, hf⟩ := exists_pollSend q e
  rw [hf]

theorem termination_trySend (q : Queue α) (v : α) : (q.trySend v).1.termination = q.termination := by
  rw [trySend]
  split
  · rfl
  · split <;> rfl

theorem termination_send (q : Queue α) (v : α) : (q.send v).1.termination = q.termination := by
  rw [send]
  split
  · rfl
  · split <;> rfl

theorem termination_close (q : Queue α) (how : Termination) :
    (q.close how).1.termination = q.termination.or (some how) := by
  unfold close
  cases ht : q.termination with
  | none => rfl
  | some first => exact ht

theorem termination_cancel (q : Queue α) (st : Status) :
    (q.cancel st).1.termination = q.termination.or (some (.failed st)) :=
  q.termination_close (.failed st)

theorem tickets_tryRecv (q : Queue α) : ∀ t ∈ q.tryRecv.1.tickets, t ∈ q.tickets := by
  intro t ht
  unfold tryRecv at ht
  split at ht
  · unfold promote at ht
    split at ht
    · exact ht
    · next w ws hw =>
      rw [tickets, show q.waiting = w :: ws from hw]
      exact List.mem_cons_of_mem _ ht
  · split at ht <;> exact ht

theorem termination_tryRecv (q : Queue α) : q.tryRecv.1.termination = q.termination := by
  rw [tryRecv]
  split
  · rw [promote]
    split <;> rfl
  · split <;> rfl

theorem nextTicket_tryRecv (q : Queue α) : q.tryRecv.1.nextTicket = q.nextTicket := by
  rw [tryRecv]
  split
  · rw [promote]
    split <;> rfl
  · split <;> rfl

theorem isSome_close (q : Queue α) (how : Termination) :
    (q.close how).1.termination.isSome = true := by
  obtain ⟨t, ht⟩ := exists_close q how
  rw [ht]
  rfl

theorem nextTicket_cancel (q : Queue α) (st : Status) :
    (q.cancel st).1.nextTicket = q.nextTicket := by
  have hclose : (q.close (.failed st)).1.nextTicket = q.nextTicket := by
    obtain ⟨t, ht⟩ := exists_close q (.failed st)
    rw [ht]
  exact hclose

/-- Whatever was in it, a cancelled queue has nothing left to receive. -/
theorem closedForReceive_cancel (q : Queue α) (st : Status) :
    (q.cancel st).1.closedForReceive = true := by
  have hclose : (q.cancel st).1.termination.isSome = true := isSome_close q _
  rw [closedForReceive, hclose]
  rfl

/-- A receive that finds nothing changes nothing. -/
theorem tryRecv_of_no_item {r : Queue α} {x : Received α} (hq : q.tryRecv = (r, x))
    (hx : ∀ v, x ≠ .item v) : r = q := by
  unfold tryRecv at hq
  split at hq
  · cases hq
    exact absurd rfl (hx _)
  · split at hq <;> cases hq <;> rfl

theorem readable_of_closedForReceive (h : q.closedForReceive = true) : q.readable = true := by
  simp only [closedForReceive, Bool.and_eq_true] at h
  simp [readable, h.1.1]

theorem buffer_of_readable (ho : q.Orderly) (hread : q.readable = true)
    (hleft : q.closedForReceive = false) : q.buffer ≠ [] := by
  intro hb
  simp only [readable, hb, List.isEmpty_nil, Bool.not_true, Bool.false_or] at hread
  simp [closedForReceive, hb, hread, ho.waiting_eq_nil hb] at hleft

theorem item_tryRecv (hb : q.buffer ≠ []) : ∃ v, q.tryRecv.2 = .item v := by
  cases hq : q.buffer with
  | nil => exact absurd hq hb
  | cons v rest => exact ⟨v, by simp [tryRecv, hq]⟩

theorem closed_tryRecv (h : q.closedForReceive = true) :
    ∃ how, q.tryRecv.2 = .closed how := by
  simp only [closedForReceive, Bool.and_eq_true, List.isEmpty_iff] at h
  obtain ⟨how, ht⟩ := Option.isSome_iff_exists.mp h.1.1
  exact ⟨how, by simp [tryRecv, h.1.2, ht]⟩

/-- A value sent on a full queue waits in line under a new ticket. -/
theorem send_of_full (hopen : q.closedForSend = false) (hr : q.hasRoom = false) (v : α) :
    q.send v =
      ({ q with
          waiting := q.waiting ++ [⟨q.nextTicket, v⟩]
          nextTicket := q.nextTicket + 1 }, .inLine q.nextTicket) := by
  unfold closedForSend at hopen
  rw [send]
  cases ht : q.termination with
  | some t => simp [ht] at hopen
  | none => simp [hr]

theorem Knows.trySend {t : Nat} (h : q.Knows t) (v : α) : (q.trySend v).1.Knows t := by
  rw [Queue.trySend]
  split
  · exact h
  · split <;> exact h

theorem Knows.send {t : Nat} (h : q.Knows t) (v : α) : (q.send v).1.Knows t := by
  rw [Queue.send]
  split
  · exact h
  · split
    · exact h
    · obtain h | h := h
      · exact Or.inl (by simpa [tickets] using Or.inl (List.mem_map.mp h))
      · exact Or.inr h

theorem Knows.promote {t : Nat} (h : q.Knows t) : q.promote.Knows t := by
  rw [Queue.promote]
  split
  · exact h
  · next w ws hw =>
    obtain h | h := h
    · rw [tickets, hw, List.map_cons, List.mem_cons] at h
      obtain rfl | h := h
      · exact Or.inr (by simp [told])
      · exact Or.inl h
    · refine Or.inr ?_
      rw [told, List.map_append, List.mem_append]
      exact Or.inl h

theorem Knows.tryRecv {t : Nat} (h : q.Knows t) : q.tryRecv.1.Knows t := by
  rw [Queue.tryRecv]
  split
  · exact promote h
  · split <;> exact h

theorem Knows.close {t : Nat} (h : q.Knows t) (how : Termination) : (q.close how).1.Knows t := by
  rw [Queue.close]
  split <;> exact h

theorem Knows.dismiss {t : Nat} (h : q.Knows t) (r : SendResult) :
    (Queue.dismiss { q with buffer := [] } r).Knows t := by
  refine Or.inr ?_
  rw [told_dismiss, List.mem_append]
  exact h.symm

theorem Knows.cancel {t : Nat} (h : q.Knows t) (st : Status) : (q.cancel st).1.Knows t :=
  (h.close _).dismiss _

theorem Knows.forget {t u : Nat} (h : q.Knows t) (hne : t ≠ u) : (q.forget u).Knows t := by
  obtain h | h := h
  · exact Or.inl h
  · obtain ⟨f, hf, rfl⟩ := List.mem_map.mp h
    exact Or.inr (List.mem_map_of_mem (List.mem_filter.mpr ⟨hf, by simpa using hne⟩))

theorem Knows.withdraw {t u : Nat} (h : q.Knows t) (hne : t ≠ u) : (q.withdraw u).Knows t := by
  obtain h | h := h
  · obtain ⟨w, hw, rfl⟩ := List.mem_map.mp h
    exact Or.inl (List.mem_map_of_mem (List.mem_filter.mpr ⟨hw, by simpa using hne⟩))
  · exact Or.inr h

/-! Only a receiver and a cancellation take anything out of the buffer. -/

theorem buffer_trySend (q : Queue α) (v : α) : q.buffer <+: (q.trySend v).1.buffer := by
  rw [trySend]
  split
  · exact List.prefix_rfl
  · split
    · exact List.prefix_append _ _
    · exact List.prefix_rfl

theorem buffer_send (q : Queue α) (v : α) : q.buffer <+: (q.send v).1.buffer := by
  rw [send]
  split
  · exact List.prefix_rfl
  · split
    · exact List.prefix_append _ _
    · exact List.prefix_rfl

theorem buffer_close (q : Queue α) (how : Termination) : (q.close how).1.buffer = q.buffer := by
  obtain ⟨t, ht⟩ := exists_close q how
  rw [ht]

theorem buffer_pollSend (q : Queue α) (e : Enqueue) : (q.pollSend e).1.buffer = q.buffer := by
  obtain ⟨fates, hf⟩ := exists_pollSend q e
  rw [hf]

theorem buffer_dropSend (q : Queue α) (e : Enqueue) : (q.dropSend e).buffer = q.buffer := by
  cases e <;> rfl

end Queue
end PacedCall
