import PacedCall.Proofs.Queue.Place

/-!
Where a sender in line stands, and what an edit of the line makes of it. A value whose place comes
to lie within the capacity was taken, and it stays taken; a value that is edited away before is
lost to its sender. What the queue tells its senders is this and nothing else.
-/
namespace PacedCall

inductive Standing where
  | inLine (place : Nat)
  | taken
  | gone
deriving DecidableEq

namespace Standing

def after {α : Type} (capacity : Nat) : Standing → Edit α → Standing
  | inLine k, e =>
    match e.moved k with
    | some j => if j < capacity then taken else inLine j
    | none => gone
  | taken, _ => taken
  | gone, _ => gone

def afterAll {α : Type} (capacity : Nat) (st : Standing) (es : List (Edit α)) : Standing :=
  es.foldl (after capacity) st

variable {α : Type} {capacity : Nat}

theorem afterAll_taken (es : List (Edit α)) : afterAll capacity taken es = taken := by
  induction es with
  | nil => rfl
  | cons e es ih => exact ih

theorem afterAll_gone (es : List (Edit α)) : afterAll capacity gone es = gone := by
  induction es with
  | nil => rfl
  | cons e es ih => exact ih

/-- The place of a value that is still in line is the place of that very value. -/
theorem getElem?_afterAll {es : List (Edit α)} {l : List α} {k j : Nat} (hk : k < l.length)
    (h : afterAll capacity (inLine k) es = inLine j) : (Edit.applyAll es l)[j]? = l[k]? := by
  induction es generalizing l k with
  | nil =>
    cases h
    rfl
  | cons e es ih =>
    have hstep : afterAll capacity (inLine k) (e :: es) =
        afterAll capacity (after capacity (inLine k) e) es := rfl
    rw [hstep] at h
    cases hm : e.moved k with
    | none =>
      simp only [after, hm, afterAll_gone] at h
      cases h
    | some i =>
      by_cases hi : i < capacity
      · simp only [after, hm, if_pos hi, afterAll_taken] at h
        cases h
      · simp only [after, hm, if_neg hi] at h
        obtain ⟨hval, hlen⟩ := Edit.getElem?_apply hk hm
        exact (ih hlen h).trans hval

end Standing

namespace Queue
variable {α : Type} {q : Queue α}

def standing? (q : Queue α) (t : Nat) : Option Standing :=
  match q.place? t with
  | some k => some (.inLine k)
  | none => (q.fate? t).map fun r =>
    match r with
    | .ok _ => .taken
    | .error _ => .gone

theorem standing?_eq_inLine_iff {t k : Nat} :
    q.standing? t = some (.inLine k) ↔ q.place? t = some k := by
  rw [standing?]
  cases q.place? t with
  | some j => simp
  | none =>
    cases q.fate? t with
    | none => simp
    | some r => cases r <;> simp

theorem standing?_of_mem_told (h : q.Orderly) {t : Nat} (ht : t ∈ q.told) :
    q.standing? t = (q.fate? t).map fun r =>
      match r with
      | .ok _ => .taken
      | .error _ => .gone := by
  have hp : q.place? t = none := place?_eq_none_iff.mpr (h.past t ht).2
  simp only [standing?, hp]

theorem mem_told_of_fate? {t : Nat} {r : SendResult} (h : q.fate? t = some r) : t ∈ q.told := by
  by_contra hn
  rw [fate?_eq_none_iff.mpr hn] at h
  cases h

/-- A known ticket waits at a place or was told its fate. -/
theorem Knows.cases {t : Nat} (h : q.Knows t) :
    (∃ k, q.place? t = some k) ∨ t ∈ q.told := by
  obtain h | h := h
  · exact Or.inl ⟨_, place?_eq_some_iff.mpr ⟨h, rfl⟩⟩
  · exact Or.inr h

theorem afterAll_of_mem_told (h : q.Orderly) {t : Nat} (ht : t ∈ q.told) (es : List (Edit α)) :
    (q.standing? t).map (·.afterAll q.capacity es) = q.standing? t := by
  rw [standing?_of_mem_told h ht, Option.map_map]
  congr 1
  funext r
  cases r with
  | ok _ => exact Standing.afterAll_taken es
  | error _ => exact Standing.afterAll_gone es

/-- Who was told stays told, as long as the queue only tells more senders. -/
theorem standing?_of_told_more {p : Queue α} (h : q.Orderly) (hp : p.Orderly) {t : Nat}
    (ht : t ∈ q.told) {more : List (Nat × SendResult)} (hf : p.fates = q.fates ++ more) :
    p.standing? t = q.standing? t := by
  have htold : t ∈ p.told := by
    rw [told, hf, List.map_append]
    exact List.mem_append_left _ ht
  rw [standing?_of_mem_told h ht, standing?_of_mem_told hp htold, fate?_append hf]
  cases hq : q.fate? t with
  | none => exact absurd ht (fate?_eq_none_iff.mp hq)
  | some r => rfl

/-- A change of the queue that moves those in line as an edit does and tells nobody twice. -/
theorem standing?_of_edits {p : Queue α} (h : q.Orderly) (hp : p.Orderly) {t : Nat}
    (ht : q.Knows t) {es : List (Edit α)}
    (hmore : ∃ more, p.fates = q.fates ++ more)
    (hmoved : ∀ k, q.place? t = some k → p.standing? t = some (.afterAll q.capacity (.inLine k) es)) :
    p.standing? t = (q.standing? t).map (·.afterAll q.capacity es) := by
  obtain ⟨more, hf⟩ := hmore
  obtain ⟨k, hk⟩ | htold := ht.cases
  · rw [hmoved k hk, standing?_eq_inLine_iff.mpr hk]
    rfl
  · rw [afterAll_of_mem_told h htold, standing?_of_told_more h hp htold hf]

theorem fates_trySend (q : Queue α) (v : α) : (q.trySend v).1.fates = q.fates := by
  rw [trySend]
  split
  · rfl
  · split <;> rfl

theorem fates_send (q : Queue α) (v : α) : (q.send v).1.fates = q.fates := by
  rw [send]
  split
  · rfl
  · split <;> rfl

theorem fates_close (q : Queue α) (how : Termination) : (q.close how).1.fates = q.fates := by
  rw [close]
  split <;> rfl

theorem fates_tryRecv (q : Queue α) : ∃ more, q.tryRecv.1.fates = q.fates ++ more := by
  rw [tryRecv]
  split
  · rw [promote]
    split
    · exact ⟨[], (List.append_nil _).symm⟩
    · exact ⟨_, rfl⟩
  · split <;> exact ⟨[], (List.append_nil _).symm⟩

theorem fates_cancel (q : Queue α) (st : Status) : ∃ more, (q.cancel st).1.fates = q.fates ++ more :=
  ⟨_, congrArg (· ++ _) (fates_close q _)⟩

/-- What comes behind a value in line does not move it. -/
theorem standing?_append (h : q.Orderly) (t : Nat) (v : α) :
    (q.standing? t).map (·.afterAll q.capacity [.append v]) = q.standing? t := by
  cases hst : q.standing? t with
  | none => rfl
  | some st =>
    cases st with
    | inLine k =>
      obtain ⟨hlow, _⟩ := h.place?_bounds (standing?_eq_inLine_iff.mp hst)
      have hstay : ¬ k < q.capacity := by omega
      simp only [Option.map_some, Standing.afterAll, List.foldl_cons, List.foldl_nil,
        Standing.after, Edit.moved, if_neg hstay]
    | taken => rfl
    | gone => rfl

theorem standing?_trySend (h : q.Orderly) {t : Nat} (ht : q.Knows t) (v : α) :
    (q.trySend v).1.standing? t = q.standing? t := by
  obtain ⟨k, hk⟩ | htold := ht.cases
  · rw [standing?_eq_inLine_iff.mpr hk]
    exact standing?_eq_inLine_iff.mpr (place?_trySend v hk)
  · have hfates : (q.trySend v).1.fates = q.fates ++ [] := by rw [fates_trySend, List.append_nil]
    exact standing?_of_told_more h (h.trySend v) htold hfates

theorem standing?_send (h : q.Orderly) {t : Nat} (ht : q.Knows t) (v : α) :
    (q.send v).1.standing? t = q.standing? t := by
  obtain ⟨k, hk⟩ | htold := ht.cases
  · rw [standing?_eq_inLine_iff.mpr hk]
    exact standing?_eq_inLine_iff.mpr (place?_send v hk)
  · have hfates : (q.send v).1.fates = q.fates ++ [] := by rw [fates_send, List.append_nil]
    exact standing?_of_told_more h (h.send v) htold hfates

/-- A sender that has to wait stands at the end of the line. -/
theorem standing?_send_inLine (h : q.Orderly) {v : α} {t : Nat} (ht : (q.send v).2 = .inLine t) :
    (q.send v).1.standing? t = some (.inLine q.line.length) := by
  rw [standing?_eq_inLine_iff]
  unfold send at ht ⊢
  split at ht
  · cases ht
  · split at ht
    · cases ht
    · next hr =>
      cases ht
      have hnew : q.nextTicket ∉ q.tickets := fun hm => Nat.lt_irrefl _ (h.fresh _ hm)
      have happ : tickets { q with
          waiting := q.waiting ++ [⟨q.nextTicket, v⟩]
          nextTicket := q.nextTicket + 1 } = q.tickets ++ [q.nextTicket] := by
        simp [tickets]
      rw [if_neg hr, place?_eq_some_iff, happ, List.idxOf_append_of_notMem hnew]
      refine ⟨List.mem_append_right _ (List.mem_singleton.mpr rfl), ?_⟩
      simp [line, tickets]

theorem standing?_close (q : Queue α) (t : Nat) (how : Termination) :
    (q.close how).1.standing? t = q.standing? t := by
  simp only [standing?, place?_close, fate?_close]

theorem standing?_tryRecv (h : q.Orderly) {t : Nat} (ht : q.Knows t) :
    q.tryRecv.1.standing? t =
      (q.standing? t).map (·.afterAll q.capacity [(.take : Edit α)]) := by
  refine standing?_of_edits h h.tryRecv ht (fates_tryRecv q) ?_
  intro k hk
  have hroom := h.room
  obtain ⟨hlow, _⟩ := h.place?_bounds hk
  obtain ⟨j, rfl⟩ : ∃ j, k = j + 1 := ⟨k - 1, by omega⟩
  have hrecv := place?_tryRecv h hk
  rw [Nat.add_sub_cancel] at hrecv
  simp only [Standing.afterAll, List.foldl_cons, List.foldl_nil, Standing.after, Edit.moved]
  by_cases hj : j < q.capacity
  · rw [if_pos hj] at hrecv
    rw [if_pos hj, standing?_of_mem_told h.tryRecv (mem_told_of_fate? hrecv), hrecv]
    rfl
  · rw [if_neg hj] at hrecv
    rw [if_neg hj]
    exact standing?_eq_inLine_iff.mpr hrecv

theorem standing?_cancel (h : q.Orderly) {t : Nat} (ht : q.Knows t) (st : Status) :
    (q.cancel st).1.standing? t =
      (q.standing? t).map (·.afterAll q.capacity [(.clear : Edit α)]) := by
  refine standing?_of_edits h (h.cancel st) ht (fates_cancel q st) ?_
  intro k hk
  have hfate := fate?_cancel h st (mem_tickets_of_place? hk)
  rw [standing?_of_mem_told (h.cancel st) (mem_told_of_fate? hfate), hfate]
  rfl

theorem standing?_forget {t u : Nat} (hne : t ≠ u) :
    (q.forget u).standing? t = q.standing? t := by
  simp only [standing?, place?_forget, fate?_forget_of_ne hne]

/-- A sender that gives up moves those behind it up by one. Nobody is told that way, since the
places it frees are behind the capacity. -/
theorem standing?_withdraw (h : q.Orderly) {t u : Nat} (hne : t ≠ u) (ht : q.Knows t) :
    (q.withdraw u).standing? t =
      (q.standing? t).map (·.afterAll q.capacity
        (match q.place? u with
          | some i => [(.remove i : Edit α)]
          | none => [])) := by
  refine standing?_of_edits h (h.withdraw u) ht ⟨[], (List.append_nil _).symm⟩ ?_
  intro k hk
  have hw := place?_withdraw h hne hk
  cases hu : q.place? u with
  | none =>
    rw [hu] at hw
    exact standing?_eq_inLine_iff.mpr hw
  | some i =>
    rw [hu] at hw
    have hik : k ≠ i := by
      rintro rfl
      exact hne (place?_inj hk hu)
    obtain ⟨hlow, _⟩ := h.place?_bounds hk
    obtain ⟨hlowi, _⟩ := h.place?_bounds hu
    have hstay : ¬ (if i < k then k - 1 else k) < q.capacity := by
      split <;> omega
    rw [standing?_eq_inLine_iff.mpr hw]
    simp only [Standing.afterAll, List.foldl_cons, List.foldl_nil, Standing.after, Edit.moved,
      if_neg hik, if_neg hstay]

theorem standing?_pollSend_of_ne {e : Enqueue} {t : Nat} (hne : e ≠ .inLine t) :
    (q.pollSend e).1.standing? t = q.standing? t := by
  unfold pollSend
  split
  · rfl
  · rfl
  · next u =>
    split
    · refine standing?_forget ?_
      rintro rfl
      exact hne rfl
    · rfl

theorem standing?_drainWith (h : q.Orderly) {t : Nat} (ht : q.Knows t) {fuel : Nat}
    (hf : q.line.length < fuel) :
    (q.drainWith fuel).1.standing? t =
      (q.standing? t).map
        (·.afterAll q.capacity (List.replicate q.line.length (.take : Edit α))) := by
  induction fuel generalizing q with
  | zero => omega
  | succ fuel ih =>
    cases hl : q.line with
    | nil =>
      rw [drainWith_of_nil h hl]
      exact Option.map_id'.symm
    | cons v l =>
      have htail := (tryRecv_eq h).1
      rw [hl, List.tail_cons] at htail
      rw [hl, List.length_cons] at hf
      rw [drainWith_of_cons h hl, ih h.tryRecv ht.tryRecv (by rw [htail]; omega),
        standing?_tryRecv h ht, capacity_tryRecv, Option.map_map, htail]
      rfl

end Queue
end PacedCall
