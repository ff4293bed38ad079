import PacedCall.Desk

/-!
A desk as a map from names: what is found under a name after an operation was put there, erased or
woken, and what is found under the other names.
-/
namespace PacedCall
namespace Desk
variable {φ : Type}

theorem find?_erase_self (d : Desk φ) (id : String) : (d.erase id).find? id = none := by
  simp only [find?, erase, List.lookup_eq_none_iff, List.mem_filter]
  rintro e ⟨_, he⟩
  rw [bne_iff_ne] at he
  exact bne_iff_ne.mpr he.symm

theorem find?_erase_of_ne (d : Desk φ) {id other : String} (h : other ≠ id) :
    (d.erase id).find? other = d.find? other := by
  unfold find? erase
  induction d with
  | nil => rfl
  | cons x d ih =>
    obtain ⟨name, held⟩ := x
    by_cases hx : name = id
    · have hb : (other == name) = false := by simpa [hx] using h
      rw [List.filter_cons_of_neg (by simp [hx]), List.lookup_cons, hb]
      exact ih
    · rw [List.filter_cons_of_pos (by simp [hx]), List.lookup_cons, List.lookup_cons, ih]

theorem find?_put_self (d : Desk φ) (id : String) (h : Held φ) :
    (d.put id h).find? id = some h := by
  have he : (d.erase id).lookup id = none := find?_erase_self d id
  simp [find?, put, List.lookup_append, he]

theorem find?_put_of_ne (d : Desk φ) {id other : String} (h : Held φ) (hne : other ≠ id) :
    (d.put id h).find? other = d.find? other := by
  have he : (d.erase id).lookup other = d.lookup other := find?_erase_of_ne d hne
  have hb : (other == id) = false := by simpa using hne
  simp [find?, put, List.lookup_append, he, List.lookup_cons, hb]

def roused (moved : String → φ → Option φ) (id : String) (h : Held φ) : Held φ :=
  if h.finished then h
  else
    match moved id h.op with
    | some op => { h with op := op, woken := true }
    | none => h

theorem find?_wake (d : Desk φ) (moved : String → φ → Option φ) (id : String) :
    (d.wake moved).find? id = (d.find? id).map (roused moved id) := by
  unfold find?
  induction d with
  | nil => rfl
  | cons x d ih =>
    obtain ⟨name, held⟩ := x
    have hw : wake ((name, held) :: d) moved = (name, roused moved name held) :: wake d moved := by
      unfold wake roused
      rw [List.map_cons]
      congr 1
      by_cases hf : held.finished = true
      · simp [hf]
      · cases moved name held.op <;> simp [hf]
    rw [hw, List.lookup_cons, List.lookup_cons, ih]
    by_cases hx : id = name
    · simp [hx]
    · have hb : (id == name) = false := by simpa using hx
      simp [hb]

theorem woken_of_not_mem {d : Desk φ} {id : String} {h : Held φ} (hd : d.find? id = some h)
    (hid : id ∉ d.woken) : h.woken = false := by
  obtain ⟨before, after, rfl, _⟩ := List.lookup_eq_some_iff.mp hd
  cases hwoken : h.woken with
  | false => rfl
  | true =>
    refine absurd (List.mem_mergeSort.mpr (List.mem_map.mpr ⟨(id, h), ?_, rfl⟩)) hid
    simp [hwoken]

/-! Whether something live is on the desk. -/

variable {d : Desk φ} {p : φ → Bool}

theorem anyLive_erase {id : String} (h : (d.erase id).anyLive p = true) : d.anyLive p = true := by
  obtain ⟨e, he, hp⟩ := List.any_eq_true.mp h
  exact List.any_eq_true.mpr ⟨e, (List.mem_filter.mp he).1, hp⟩

theorem anyLive_put {id : String} {g : Held φ} (h : (d.put id g).anyLive p = true) :
    d.anyLive p = true ∨ g.finished = false ∧ p g.op = true := by
  rw [put, anyLive, List.any_append, Bool.or_eq_true] at h
  refine h.imp anyLive_erase fun h => ?_
  simpa using h

theorem anyLive_of_find? {id : String} {h : Held φ} (hd : d.find? id = some h)
    (hlive : h.finished = false) (hp : p h.op = true) : d.anyLive p = true := by
  obtain ⟨before, after, rfl, _⟩ := List.lookup_eq_some_iff.mp hd
  exact List.any_eq_true.mpr ⟨(id, h), by simp, by simp [hlive, hp]⟩

theorem anyLive_wake {moved : String → φ → Option φ}
    (hm : ∀ id op op', moved id op = some op' → p op' = p op) :
    (d.wake moved).anyLive p = d.anyLive p := by
  rw [anyLive, wake, List.any_map]
  refine List.any_congr rfl fun e => ?_
  simp only [Function.comp]
  split
  · rfl
  · split
    · next hop => simp [hm _ _ _ hop]
    · rfl

end Desk
end PacedCall
