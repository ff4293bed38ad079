import PacedCall.Proofs.Queue.Order
import Mathlib.Data.List.Basic

/-!
The line of a queue as one plain list. What an operation does to it is written as edits of a
first-in first-out list, which say as well where a value stands afterwards. A value in line has a
place behind the capacity; its sender is told that it was taken when the place comes to lie within.
-/
namespace PacedCall

inductive Edit (α : Type) where
  | append (v : α)
  | take
  | remove (place : Nat)
  | clear

namespace Edit
variable {α : Type}

def apply : Edit α → List α → List α
  | append v, l => l ++ [v]
  | take, l => l.tail
  | remove i, l => l.eraseIdx i
  | clear, _ => []

def moved : Edit α → Nat → Option Nat
  | append _, k => some k
  | take, 0 => none
  | take, k + 1 => some k
  | remove i, k => if k = i then none else some (if i < k then k - 1 else k)
  | clear, _ => none

def applyAll (es : List (Edit α)) (l : List α) : List α := es.foldl (fun l e => e.apply l) l

/-- A value that is not gone is the same value at its new place. -/
theorem getElem?_apply {e : Edit α} {l : List α} {k j : Nat} (hk : k < l.length)
    (h : e.moved k = some j) : (e.apply l)[j]? = l[k]? ∧ j < (e.apply l).length := by
  cases e with
  | append v =>
    cases h
    simp only [apply, List.length_append, List.length_singleton]
    exact ⟨List.getElem?_append_left hk, Nat.lt_succ_of_lt hk⟩
  | take =>
    cases k with
    | zero => cases h
    | succ k =>
      cases h
      refine ⟨by simp [apply], ?_⟩
      rw [apply, List.length_tail]
      omega
  | remove i =>
    simp only [moved] at h
    split at h
    · cases h
    · next hne =>
      cases h
      by_cases hi : i < k
      · have hlen : (l.eraseIdx i).length = l.length - 1 := List.length_eraseIdx_of_lt (by omega)
        simp only [apply, if_pos hi, hlen, List.getElem?_eraseIdx]
        rw [if_neg (by omega), Nat.sub_add_cancel (by omega)]
        exact ⟨rfl, by omega⟩
      · have hlt : k < i := by omega
        simp only [apply, if_neg hi, List.getElem?_eraseIdx, if_pos hlt, true_and]
        rw [List.length_eraseIdx]
        split <;> omega
  | clear => cases h

end Edit

namespace Queue
variable {α : Type} {q : Queue α}

def place? (q : Queue α) (ticket : Nat) : Option Nat :=
  if ticket ∈ q.tickets then some (q.buffer.length + q.tickets.idxOf ticket) else none

theorem tickets_withdraw (q : Queue α) (t : Nat) :
    (q.withdraw t).tickets = q.tickets.filter fun u => u != t := by
  simp only [withdraw, tickets, List.filter_map]
  rfl

/-- Taking out one of several distinct elements moves those behind it up by one. -/
theorem idxOf_erase {l : List Nat} {a b : Nat} (hl : l.Nodup) (hb : b ∈ l) (hne : b ≠ a) :
    (l.erase a).idxOf b =
      if l.idxOf a < l.idxOf b then l.idxOf b - 1 else l.idxOf b := by
  induction l with
  | nil => cases hb
  | cons x l ih =>
    obtain ⟨hx, hl⟩ := List.nodup_cons.mp hl
    by_cases hxa : x = a
    · subst hxa
      simp [List.idxOf_cons_ne _ (Ne.symm hne)]
    · rw [List.erase_cons_tail (by simpa using hxa), List.idxOf_cons_ne l hxa]
      by_cases hxb : x = b
      · subst hxb
        simp
      · have hm : b ∈ l := (List.mem_cons.mp hb).resolve_left (Ne.symm hxb)
        rw [List.idxOf_cons_ne _ hxb, List.idxOf_cons_ne _ hxb, ih hl hm]
        split <;> split <;> omega

/-- Withdrawing takes the first value under the ticket out of the waiting ones. -/
theorem values_filter {ws : List (Waiting α)} {t : Nat} (h : (ws.map Waiting.ticket).Nodup) :
    (ws.filter fun w => w.ticket != t).map Waiting.value =
      (ws.map Waiting.value).eraseIdx ((ws.map Waiting.ticket).idxOf t) := by
  induction ws with
  | nil => rfl
  | cons w ws ih =>
    obtain ⟨hw, hws⟩ := List.nodup_cons.mp h
    by_cases ht : w.ticket = t
    · have hall : ∀ u ∈ ws, (u.ticket != t) = true := by
        intro u hu
        rw [bne_iff_ne]
        rintro rfl
        exact hw (ht ▸ List.mem_map_of_mem hu)
      simp [ht, List.filter_eq_self.mpr hall]
    · rw [List.filter_cons_of_pos (by simpa using ht)]
      simp [List.idxOf_cons_ne _ ht, ih hws]

namespace Orderly

theorem tickets_nodup (h : q.Orderly) : q.tickets.Nodup := h.sorted.imp Nat.ne_of_lt

theorem place?_bounds (h : q.Orderly) {t k : Nat} (hk : q.place? t = some k) :
    q.capacity ≤ k ∧ k < q.line.length := by
  unfold place? at hk
  split at hk
  · next ht =>
    cases hk
    have hne : q.waiting ≠ [] := by
      intro hw
      simp [tickets, hw] at ht
    have hf := h.full hne
    have hi : q.tickets.idxOf t < q.waiting.length := by
      simpa [tickets] using List.idxOf_lt_length_of_mem ht
    simp only [line, List.length_append, List.length_map]
    omega
  · cases hk

theorem line_withdraw (h : q.Orderly) (t : Nat) :
    (q.withdraw t).line =
      match q.place? t with
      | some k => q.line.eraseIdx k
      | none => q.line := by
  have hv : (q.withdraw t).line =
      q.buffer ++ (q.waiting.map Waiting.value).eraseIdx (q.tickets.idxOf t) := by
    simp only [line, Queue.withdraw, values_filter h.tickets_nodup]
    rfl
  rw [hv]
  by_cases ht : t ∈ q.tickets
  · simp only [place?, if_pos ht, line]
    rw [List.eraseIdx_append_of_length_le (Nat.le_add_right _ _), Nat.add_sub_cancel_left]
  · have hlen : (q.waiting.map Waiting.value).length ≤ q.tickets.idxOf t := by
      rw [List.idxOf_eq_length ht]
      simp [tickets]
    simp only [place?, if_neg ht, line]
    rw [List.eraseIdx_of_length_le hlen]

end Orderly

def last (q : Queue α) : Received α :=
  match q.termination with
  | some t => .closed t
  | none => .empty

def found (q : Queue α) : Received α :=
  match q.line with
  | v :: _ => .item v
  | [] => q.last

theorem tryRecv_eq (h : q.Orderly) :
    q.tryRecv.1.line = q.line.tail ∧ q.tryRecv.2 = q.found := by
  cases hb : q.buffer with
  | nil =>
    have hl := h.line_eq_nil_iff.mpr hb
    simp only [tryRecv, found, last, hb, hl]
    cases q.termination <;> simp [hl]
  | cons v rest =>
    have hl : q.line = v :: (rest ++ q.waiting.map Waiting.value) := by simp [line, hb]
    simp only [tryRecv, found, hb, hl, line_promote, List.tail_cons, and_true]
    rfl

theorem closed_of_tryRecv (h : q.Orderly) {how : Termination} (hq : q.tryRecv.2 = .closed how) :
    q.line = [] ∧ q.termination = some how := by
  rw [(tryRecv_eq h).2, found] at hq
  cases hl : q.line with
  | cons v l => simp [hl] at hq
  | nil =>
    simp only [hl, last] at hq
    cases ht : q.termination with
    | none => simp [ht] at hq
    | some t =>
      simp only [ht] at hq
      cases hq
      exact ⟨rfl, rfl⟩

theorem empty_of_tryRecv (h : q.Orderly) (hq : q.tryRecv.2 = .empty) :
    q.line = [] ∧ q.termination = none := by
  rw [(tryRecv_eq h).2, found] at hq
  cases hl : q.line with
  | cons v l => simp [hl] at hq
  | nil =>
    simp only [hl, last] at hq
    cases ht : q.termination with
    | none => exact ⟨rfl, rfl⟩
    | some t => simp [ht] at hq

theorem tryRecv_of_nil (h : q.Orderly) (hl : q.line = []) : q.tryRecv = (q, q.last) := by
  simp only [tryRecv, last, h.line_eq_nil_iff.mp hl]
  cases q.termination <;> rfl

theorem drainWith_of_nil (h : q.Orderly) (hl : q.line = []) (fuel : Nat) :
    q.drainWith (fuel + 1) = (q, [], q.last) := by
  have hr := tryRecv_of_nil h hl
  unfold drainWith
  rw [hr]
  unfold last
  cases q.termination <;> rfl

theorem drainWith_of_cons (h : q.Orderly) {v : α} {l : List α} (hl : q.line = v :: l)
    (fuel : Nat) :
    q.drainWith (fuel + 1) =
      ((q.tryRecv.1.drainWith fuel).1, v :: (q.tryRecv.1.drainWith fuel).2.1,
        (q.tryRecv.1.drainWith fuel).2.2) := by
  have hr : q.tryRecv = (q.tryRecv.1, .item v) := by
    have hfound := (tryRecv_eq h).2
    simp only [found, hl] at hfound
    exact Prod.ext rfl hfound
  conv_lhs => unfold drainWith
  rw [hr]

/-- Draining takes the whole line, in order. -/
theorem drainWith_eq (h : q.Orderly) {fuel : Nat} (hf : q.line.length < fuel) :
    (q.drainWith fuel).1.line = [] ∧ (q.drainWith fuel).2 = (q.line, q.last) := by
  induction fuel generalizing q with
  | zero => omega
  | succ fuel ih =>
    cases hl : q.line with
    | nil =>
      rw [drainWith_of_nil h hl]
      exact ⟨hl, rfl⟩
    | cons v l =>
      have htail := (tryRecv_eq h).1
      rw [hl, List.tail_cons] at htail
      rw [hl, List.length_cons] at hf
      obtain ⟨hnil, hall⟩ := ih h.tryRecv (by rw [htail]; omega)
      rw [drainWith_of_cons h hl, hall, htail]
      refine ⟨hnil, ?_⟩
      have hlast : q.tryRecv.1.last = q.last := by
        unfold last
        rw [termination_tryRecv]
      rw [hlast]

theorem drain_eq (h : q.Orderly) : q.drain.1.line = [] ∧ q.drain.2 = (q.line, q.last) := by
  refine drainWith_eq h ?_
  rw [length_line]
  exact Nat.lt_succ_self _

theorem line_forget (q : Queue α) (t : Nat) : (q.forget t).line = q.line := rfl

theorem line_pollSend (q : Queue α) (e : Enqueue) : (q.pollSend e).1.line = q.line := by
  obtain ⟨fates, hf⟩ := exists_pollSend q e
  rw [hf]
  rfl

theorem hasRoom_eq_false {t : Nat} (ht : t ∈ q.tickets) : q.hasRoom = false := by
  have hne : q.waiting ≠ [] := by
    intro hw
    simp [tickets, hw] at ht
  simp [hasRoom, hne]

theorem place?_eq_some_iff {t k : Nat} :
    q.place? t = some k ↔ t ∈ q.tickets ∧ q.buffer.length + q.tickets.idxOf t = k := by
  unfold place?
  split <;> simp_all

theorem place?_eq_none_iff {t : Nat} : q.place? t = none ↔ t ∉ q.tickets := by
  unfold place?
  split <;> simp_all

theorem place?_inj {α : Type} {q : Queue α} {t u k : Nat} (ht : q.place? t = some k)
    (hu : q.place? u = some k) : t = u := by
  obtain ⟨htm, hti⟩ := place?_eq_some_iff.mp ht
  obtain ⟨hum, hui⟩ := place?_eq_some_iff.mp hu
  exact (List.idxOf_inj htm).mp (by omega)

theorem mem_tickets_of_place? {t k : Nat} (hk : q.place? t = some k) : t ∈ q.tickets :=
  (place?_eq_some_iff.mp hk).1

theorem place?_congr {r : Queue α} (hb : r.buffer.length = q.buffer.length)
    (ht : r.tickets = q.tickets) (t : Nat) : r.place? t = q.place? t := by
  simp only [place?, hb, ht]

theorem place?_forget (q : Queue α) (t u : Nat) : (q.forget u).place? t = q.place? t :=
  place?_congr rfl rfl t

theorem place?_close (q : Queue α) (how : Termination) (t : Nat) :
    (q.close how).1.place? t = q.place? t := by
  unfold close
  split
  · rfl
  · exact place?_congr rfl rfl t

/-- Nobody overtakes a value in line. -/
theorem place?_trySend (v : α) {t k : Nat} (hk : q.place? t = some k) :
    (q.trySend v).1.place? t = some k := by
  unfold trySend
  rw [hasRoom_eq_false (mem_tickets_of_place? hk), if_neg Bool.false_ne_true]
  split <;> exact hk

theorem place?_send (v : α) {t k : Nat} (hk : q.place? t = some k) :
    (q.send v).1.place? t = some k := by
  obtain ⟨ht, hi⟩ := place?_eq_some_iff.mp hk
  unfold send
  split
  · exact hk
  · rw [hasRoom_eq_false ht, if_neg Bool.false_ne_true]
    have happ : tickets { q with
        waiting := q.waiting ++ [⟨q.nextTicket, v⟩]
        nextTicket := q.nextTicket + 1 } = q.tickets ++ [q.nextTicket] := by
      simp [tickets]
    rw [place?_eq_some_iff, happ, List.idxOf_append_of_mem ht]
    exact ⟨List.mem_append_left _ ht, hi⟩

theorem place?_withdraw (h : q.Orderly) {t u k : Nat} (hne : t ≠ u) (hk : q.place? t = some k) :
    (q.withdraw u).place? t =
      match q.place? u with
      | some i => some (if i < k then k - 1 else k)
      | none => some k := by
  obtain ⟨ht, hi⟩ := place?_eq_some_iff.mp hk
  have hw : (q.withdraw u).tickets = q.tickets.erase u := by
    rw [tickets_withdraw, h.tickets_nodup.erase_eq_filter]
  have hm : t ∈ q.tickets.erase u := (List.mem_erase_of_ne hne).mpr ht
  simp only [place?, hw, if_pos hm, idxOf_erase h.tickets_nodup ht hne]
  rw [show (q.withdraw u).buffer = q.buffer from rfl]
  by_cases hu : u ∈ q.tickets
  · simp only [if_pos hu, Option.some.injEq]
    split <;> split <;> omega
  · have hlen := List.idxOf_lt_length_of_mem ht
    rw [List.idxOf_eq_length hu, if_neg hu, if_neg (by omega)]
    exact congrArg some hi

theorem fate?_eq_none_iff {t : Nat} : q.fate? t = none ↔ t ∉ q.told := by
  simp only [fate?, told, Option.map_eq_none_iff, List.find?_eq_none, List.mem_map, not_exists,
    not_and, beq_iff_eq]

/-- What a sender was told is not changed by what others are told later. -/
theorem fate?_append {p : Queue α} {t : Nat} {more : List (Nat × SendResult)}
    (hp : p.fates = q.fates ++ more) :
    p.fate? t = (q.fate? t).or ((more.find? fun f => f.1 == t).map Prod.snd) := by
  simp only [fate?, hp, List.find?_append, Option.map_or]

theorem fate?_forget_of_ne {t u : Nat} (hne : t ≠ u) : (q.forget u).fate? t = q.fate? t := by
  unfold fate? forget
  rw [List.find?_filter]
  congr 2
  funext f
  by_cases hf : f.1 = t
  · simp [hf, hne]
  · simp [hf]

theorem Orderly.fate?_eq_none (h : q.Orderly) {t : Nat} (ht : t ∈ q.tickets) :
    q.fate? t = none :=
  fate?_eq_none_iff.mpr fun hm => (h.past t hm).2 ht

/-- A receive moves a value in line up by one, and tells its sender when the place it comes to is
one of the buffer. -/
theorem place?_tryRecv (h : q.Orderly) {t k : Nat} (hk : q.place? t = some k) :
    if k - 1 < q.capacity then q.tryRecv.1.fate? t = some (.ok ())
    else q.tryRecv.1.place? t = some (k - 1) := by
  obtain ⟨ht, hi⟩ := place?_eq_some_iff.mp hk
  obtain ⟨w, ws, hws⟩ : ∃ w ws, q.waiting = w :: ws := by
    apply List.exists_cons_of_ne_nil
    intro hw
    simp [tickets, hw] at ht
  have hfull := h.full (by simp [hws])
  obtain ⟨v, rest, hb⟩ : ∃ v rest, q.buffer = v :: rest := by
    apply List.exists_cons_of_ne_nil
    intro hb
    have hroom := h.room
    simp [hb] at hfull
    omega
  have hrecv : q.tryRecv.1 = { q with
      buffer := rest ++ [w.value]
      waiting := ws
      fates := q.fates ++ [(w.ticket, .ok ())] } := by
    simp [tryRecv, hb, promote, hws]
  have hlen : rest.length + 1 = q.buffer.length := by simp [hb]
  have htick : q.tickets = w.ticket :: ws.map Waiting.ticket := by simp [tickets, hws]
  rw [htick] at ht hi
  rw [hrecv]
  by_cases hw : w.ticket = t
  · rw [← hw, List.idxOf_cons_self] at hi
    rw [if_pos (by omega), fate?_append (q := q) rfl, h.fate?_eq_none (htick ▸ ht)]
    simp [hw]
  · rw [List.idxOf_cons_ne _ hw] at hi
    have hm : t ∈ ws.map Waiting.ticket := (List.mem_cons.mp ht).resolve_left (Ne.symm hw)
    rw [if_neg (by omega), place?_eq_some_iff]
    refine ⟨hm, ?_⟩
    simp only [tickets, List.length_append, List.length_singleton]
    omega

/-- Everybody in line is told the same. -/
theorem fate?_dismiss {t : Nat} (ht : q.Knows t) (r : SendResult) :
    (dismiss { q with buffer := [] } r).fate? t = (q.fate? t).or (some r) := by
  rw [fate?_append (q := q) rfl]
  cases hq : q.fate? t with
  | some x => rfl
  | none =>
    have hline : t ∈ q.tickets := ht.resolve_right (fate?_eq_none_iff.mp hq)
    obtain ⟨w, hw, rfl⟩ := List.mem_map.mp hline
    have hfound : (q.waiting.find? fun u => u.ticket == w.ticket).isSome = true :=
      List.find?_isSome.mpr ⟨w, hw, beq_self_eq_true w.ticket⟩
    obtain ⟨u, hu⟩ := Option.isSome_iff_exists.mp hfound
    rw [List.find?_map, Function.comp_def, hu]
    rfl

theorem fate?_close (q : Queue α) (how : Termination) (t : Nat) :
    (q.close how).1.fate? t = q.fate? t := by
  obtain ⟨first, hq⟩ := exists_close q how
  rw [hq]
  rfl

/-- Everybody in line is told the status the queue is cancelled with. -/
theorem fate?_cancel (h : q.Orderly) (st : Status) {t : Nat} (ht : t ∈ q.tickets) :
    (q.cancel st).1.fate? t = some (.error (.terminated st)) := by
  have hknows : (q.close (.failed st)).1.Knows t := Knows.close (.inl ht) _
  refine (fate?_dismiss hknows _).trans ?_
  rw [fate?_close, h.fate?_eq_none ht, Option.none_or]

end Queue
end PacedCall
