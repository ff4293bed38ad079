import Mathlib.Data.List.Induction

/-!
A crew of hands on shared state. Each hand stands somewhere in its own work; one act of it changes
the shared state and puts its next stand in its place, or lets it go. Between two acts of one hand
any other may act, so what a hand has seen is only what it wrote down in its stand.
-/
namespace PacedCall

structure Crew (S P : Type) where
  common : S
  hands : List P := []

namespace Crew
variable {S P : Type} {next : S → P → S × Option P}

def act (next : S → P → S × Option P) (c : Crew S P) (i : Nat) : Crew S P :=
  match c.hands[i]? with
  | none => c
  | some p =>
    { common := (next c.common p).1
      hands := c.hands.take i ++ (next c.common p).2.toList ++ c.hands.drop (i + 1) }

def acts (next : S → P → S × Option P) (c : Crew S P) (is : List Nat) : Crew S P :=
  is.foldl (act next) c

theorem act_split (next : S → P → S × Option P) (s : S) (before after : List P) (p : P) :
    act next { common := s, hands := before ++ p :: after } before.length =
      { common := (next s p).1, hands := before ++ (next s p).2.toList ++ after } := by
  simp [act]

/-- An act is nobody's, or that of one hand among the others. -/
theorem act_cases (next : S → P → S × Option P) (c : Crew S P) (i : Nat) :
    c.hands[i]? = none ∧ c.act next i = c ∨
      ∃ before p after, c.hands = before ++ p :: after ∧
        c.act next i = { common := (next c.common p).1,
                         hands := before ++ (next c.common p).2.toList ++ after } := by
  rw [act]
  cases hi : c.hands[i]? with
  | none => exact Or.inl ⟨rfl, rfl⟩
  | some p =>
    obtain ⟨hlt, hp⟩ := List.getElem?_eq_some_iff.mp hi
    refine Or.inr ⟨c.hands.take i, p, c.hands.drop (i + 1), ?_, rfl⟩
    rw [← hp, List.getElem_cons_drop, List.take_append_drop]

/-- A count of hands, with one of them apart. -/
theorem countP_split (f : P → Bool) (before after : List P) (p : P) :
    (before ++ p :: after).countP f = before.countP f + [p].countP f + after.countP f := by
  rw [← List.singleton_append, ← List.append_assoc, List.countP_append, List.countP_append]

/-- Whoever is not the one that acts is still there. -/
theorem mem_of_ne {before after : List P} {p q : P} (new : List P)
    (hq : q ∈ before ++ p :: after) (hne : q ≠ p) : q ∈ before ++ new ++ after := by
  simp only [List.mem_append, List.mem_cons, hne, false_or] at hq ⊢
  exact hq.imp Or.inl id

inductive Alone (next : S → P → S × Option P) : S → P → S → Option P → Prop
  | last {s t : S} {p : P} {o : Option P} (h : next s p = (t, o)) : Alone next s p t o
  | more {s t u : S} {p q : P} {o : Option P} (h : next s p = (t, some q))
      (rest : Alone next t q u o) : Alone next s p u o

/-- What a hand does alone it also does among the others, while they rest. -/
theorem Alone.acts {s t : S} {p : P} {o : Option P} (h : Alone next s p t o)
    (before after : List P) :
    ∃ n, Crew.acts next { common := s, hands := before ++ p :: after }
        (List.replicate n before.length) =
      { common := t, hands := before ++ o.toList ++ after } := by
  induction h with
  | last h => exact ⟨1, by simp [Crew.acts, act_split, h]⟩
  | more h _ ih =>
    obtain ⟨n, hn⟩ := ih
    refine ⟨n + 1, ?_⟩
    simp only [Crew.acts, List.replicate_succ, List.foldl_cons, act_split, h, Option.toList_some,
      List.append_assoc, List.singleton_append] at hn ⊢
    exact hn

/-! Crews with moves of their own, one of which lets a hand act. -/

section Moves
variable {M : Type} {step : Crew S P → M → Crew S P} {hand : Nat → M}

theorem foldl_acts (hact : ∀ c i, step c (hand i) = c.act next i) (c : Crew S P)
    (is : List Nat) : (is.map hand).foldl step c = c.acts next is := by
  induction is generalizing c with
  | nil => rfl
  | cons i is ih =>
    rw [List.map_cons, List.foldl_cons, hact, ih]
    rfl

theorem Alone.moves {s t : S} {p : P} {o : Option P} (h : Alone next s p t o)
    (hact : ∀ c i, step c (hand i) = c.act next i) (before after : List P) :
    ∃ n, (List.replicate n (hand before.length)).foldl step
        { common := s, hands := before ++ p :: after } =
      { common := t, hands := before ++ o.toList ++ after } := by
  obtain ⟨n, hn⟩ := h.acts before after
  refine ⟨n, ?_⟩
  rw [← List.map_replicate, foldl_acts hact]
  exact hn

/-- Whoever comes to a crew acts alone until it is done, or waits. -/
theorem Alone.joins {c : Crew S P} {m : M} {s t : S} {p : P} {o : Option P}
    (h : Alone next s p t o) (hact : ∀ c i, step c (hand i) = c.act next i)
    (hm : step c m = { common := s, hands := c.hands ++ [p] }) :
    ∃ n, (m :: List.replicate n (hand c.hands.length)).foldl step c =
      { common := t, hands := c.hands ++ o.toList } := by
  obtain ⟨n, hn⟩ := h.moves hact c.hands []
  rw [List.append_nil, ← hm] at hn
  exact ⟨n, hn⟩

end Moves

end Crew
end PacedCall
