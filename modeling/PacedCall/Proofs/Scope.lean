import PacedCall.Scope

/-!
A scope ends once. Only its parent ends it without a cause, and once it has ended neither its cause
nor the status of those in it changes.
-/
namespace PacedCall
namespace Scope
variable {s : Scope}

theorem trip_of_cancelled (hs : s.cancelled = true) : s.trip = s := by
  rw [trip, ← hs]

theorem cancelWith_of_cancelled (hs : s.cancelled = true) (origin : Origin) (st : Status) :
    s.cancelWith origin st = s := by
  rw [cancelWith, cancel, if_pos hs]

theorem status_eq_none (hs : s.cancelled = false) : s.status = none := by
  rw [← Option.isNone_iff_eq_none, ← Option.not_isSome, isSome_status, hs]
  rfl

def Recorded (s : Scope) : Prop := s.cause.isSome = true → s.cancelled = true

theorem Recorded.cause (h : s.Recorded) (hs : s.cancelled = false) : s.cause = none := by
  rw [← Option.not_isSome_iff_eq_none]
  exact fun hcause => absurd (h hcause) (by simp [hs])

/-- The cause is recorded by the cancellation that ends the scope. -/
theorem Recorded.cancel (h : s.Recorded) (origin : Origin) (st : Status) :
    s.cancel origin st =
      if s.cancelled then (s, false) else (⟨true, some (origin, st)⟩, true) := by
  rw [Scope.cancel]
  cases hs : s.cancelled with
  | true => rfl
  | false => rw [h.cause hs]

theorem recorded_cancelWith (s : Scope) (origin : Origin) (st : Status) :
    (s.cancelWith origin st).Recorded := fun _ => cancelled_cancelWith s origin st

/-- A cancellation leaves the scope with the status that it had, or else with its own. -/
theorem Recorded.status_cancelWith (h : s.Recorded) (origin : Origin) (st : Status) :
    (s.cancelWith origin st).status = some (s.status.getD st) := by
  rw [Scope.cancelWith, h.cancel]
  cases hs : s.cancelled with
  | true =>
    obtain ⟨told, htold⟩ := Option.isSome_iff_exists.mp ((isSome_status s).trans hs)
    rw [if_pos rfl, htold]
    rfl
  | false =>
    rw [status_eq_none hs]
    rfl

/-- What becomes of a scope: nothing, a cancellation, or, if its parent has `ended`, the end that
came with it. -/
inductive Leads (ended : Prop) (s : Scope) : Scope → Prop where
  | same : Leads ended s s
  | cancel (origin : Origin) (st : Status) : Leads ended s (s.cancelWith origin st)
  | trip (h : ended) : Leads ended s s.trip

namespace Leads
variable {ended : Prop} {s t u : Scope}

theorem frozen (h : Leads ended s t) (hs : s.cancelled = true) : t = s := by
  cases h with
  | same => rfl
  | cancel origin st => exact cancelWith_of_cancelled hs origin st
  | trip => exact trip_of_cancelled hs

theorem trans (h : Leads ended s t) (g : Leads ended t u) : Leads ended s u := by
  cases h with
  | same => exact g
  | cancel origin st =>
    rw [g.frozen (cancelled_cancelWith _ _ _)]
    exact .cancel origin st
  | trip h =>
    rw [g.frozen rfl]
    exact .trip h

theorem imp (h : Leads ended s t) {ended' : Prop} (he : ended → ended') : Leads ended' s t := by
  cases h with
  | same => exact .same
  | cancel origin st => exact .cancel origin st
  | trip h => exact .trip (he h)

theorem recorded (h : Leads ended s t) (hs : s.Recorded) : t.Recorded := by
  cases h with
  | same => exact hs
  | cancel origin st => exact recorded_cancelWith s origin st
  | trip => exact fun _ => rfl

/-- Whoever cancels a scope leaves a cause, unless it was its parent. -/
theorem isSome_cause (h : Leads ended s t) (hs : s.cancelled = false) (hcause : s.cause = none)
    (ht : t.cancelled = true) (hended : ¬ ended) : t.cause.isSome = true := by
  cases h with
  | same => cases hs.symm.trans ht
  | cancel origin st =>
    rw [Scope.cancelWith, Scope.cancel, if_neg (by simp [hs]), hcause]
    rfl
  | trip h => exact absurd h hended

end Leads
end Scope
end PacedCall
