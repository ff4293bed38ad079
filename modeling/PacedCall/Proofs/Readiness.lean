import PacedCall.Readiness

/-!
What one look at a wait for readiness can come to. Whether a signal ever came can be read off the
tracker at any time: it was seen, or it is kept for whoever looks next, and neither a look nor a
waiter that goes away loses it.
-/
namespace PacedCall
namespace Readiness

section Tracker
variable {ι : Type} {r g : Readiness ι} {id : ι} {control : Option Bool} {w : Wait} {st : Status}

def heard (r : Readiness ι) : Bool := r.observed || r.permit || !r.called.isEmpty

def linger (r : Readiness ι) (id : ι) : Wait → Readiness ι × Wait
  | .fresh => (r.enter id, .inLine false)
  | .inLine observed => (r, .inLine observed)

/-- A look at a call that was not cancelled. -/
theorem check_of_open (hgoes : r.cause = none) :
    r.check id control = match control with
      | none => (r, .fresh, some (.error .callReleased))
      | some true => (r, .fresh, some (.ok ()))
      | some false => ({ r with permit := false }.enter id, .inLine true, none) := by
  obtain _ | _ | _ := control <;> simp [check, hgoes]

theorem signal_cause : r.signal.cause = r.cause := by
  rw [signal]
  split <;> rfl

theorem check_cause : (r.check id control).1.cause = r.cause := by
  unfold check
  split <;> rfl

theorem linger_cause : (r.linger id w).1.cause = r.cause := by
  cases w <;> rfl

@[simp] theorem heard_signal : r.signal.heard = true := by
  unfold signal
  split <;> simp [heard]

theorem observed_signal : r.signal.observed = r.observed := by
  rw [signal]
  split <;> rfl

theorem heard_linger : (r.linger id w).1.heard = r.heard := by
  cases w <;> rfl

theorem observed_linger : (r.linger id w).1.observed = r.observed := by
  cases w <;> rfl

theorem observed_check : (r.check id control).1.observed = r.observed := by
  unfold check
  split <;> rfl

def Clears (id : ι) (x : Readiness ι × Wait × Option (Except Status Unit)) : Prop :=
  x.1.called = [] ∧
    (x.2.2.isSome = true ∧ x.1.line = [] ∨
      x.2 = (.inLine x.1.observed, none) ∧ x.1.line = [id] ∧ x.1.permit = false)

theorem clears_check (hgoes : r.cause = none) (hline : r.line = []) (hcalled : r.called = [])
    (hobserved : r.observed = true) : Clears id (r.check id control) := by
  rw [check_of_open hgoes]
  obtain _ | _ | _ := control
  · exact ⟨hcalled, .inl ⟨rfl, hline⟩⟩
  · refine ⟨hcalled, .inr ⟨by simp [enter, hobserved], by simp [enter, hline], rfl⟩⟩
  · exact ⟨hcalled, .inl ⟨rfl, hline⟩⟩

variable [DecidableEq ι]

def grant (r : Readiness ι) (id : ι) : Wait → Option (Readiness ι)
  | .fresh =>
    if r.observed then some r
    else if r.permit then some { r with permit := false, observed := true }
    else none
  | .inLine observed =>
    if id ∈ r.called then
      some { r with called := r.called.erase id, observed := r.observed || !observed }
    else none

/-- Before any cancellation, a wait with a signal looks at the call, and one without does not. -/
theorem poll_of_open (hgoes : r.cause = none) :
    r.poll id control w =
      match r.grant id w with
      | some g => g.check id control
      | none => ((r.linger id w).1, (r.linger id w).2, none) := by
  cases w with
  | fresh =>
    simp only [poll, grant, afterSignal, linger, hgoes]
    cases r.observed <;> cases r.permit <;> simp
  | inLine observed =>
    simp only [poll, grant, afterSignal, linger, hgoes]
    by_cases hcalled : id ∈ r.called <;> cases observed <;> simp [hcalled]

theorem poll_of_cause (hend : r.cause = some st) :
    r.poll id control w = match w with
      | .fresh => (r, .fresh, some (.error st))
      | .inLine _ => (r.leave id, .fresh, some (.error st)) := by
  cases w with
  | fresh => cases hseen : r.observed <;> simp [poll, check, hend, hseen]
  | inLine observed => simp [poll, hend]

theorem error_of_cause (hend : r.cause = some st) :
    (r.poll id control w).2 = (.fresh, some (.error st)) := by
  rw [poll_of_cause hend]
  cases w <;> rfl

theorem leave_cause : (r.leave id).cause = r.cause := by
  rw [leave]
  split
  · exact signal_cause
  · rfl

theorem grant_cause (h : r.grant id w = some g) : g.cause = r.cause := by
  cases w with
  | fresh =>
    simp only [grant] at h
    split at h
    · cases h; rfl
    · split at h <;> cases h; rfl
  | inLine observed =>
    simp only [grant] at h
    split at h <;> cases h; rfl

theorem poll_cause : (r.poll id control w).1.cause = r.cause := by
  obtain hgoes | ⟨st, hend⟩ := Option.eq_none_or_eq_some r.cause
  · rw [poll_of_open hgoes]
    split
    · next g hg => exact check_cause.trans (grant_cause hg)
    · exact linger_cause
  · rw [poll_of_cause hend]
    cases w with
    | fresh => rfl
    | inLine observed => exact leave_cause

/-- Whoever waits on has not been told of an end. -/
theorem poll_none (h : (r.poll id control w).2.2 = none) : r.cause = none := by
  obtain hgoes | ⟨st, hend⟩ := Option.eq_none_or_eq_some r.cause
  · exact hgoes
  · rw [error_of_cause hend] at h
    cases h

/-- A wait fails on a call that is over and on no other. -/
theorem poll_error (h : (r.poll id control w).2.2 = some (.error st)) :
    r.cause.isSome = true ∨ control = none := by
  obtain hgoes | ⟨cause, hend⟩ := Option.eq_none_or_eq_some r.cause
  · refine .inr ?_
    rw [poll_of_open hgoes] at h
    split at h
    · next g hg =>
      rw [check_of_open ((grant_cause hg).trans hgoes)] at h
      obtain _ | _ | _ := control
      · rfl
      · cases h
      · cases h
    · cases h
  · exact .inl (by simp [hend])

/-! A signal is not lost. -/

theorem heard_leave : (r.leave id).heard = r.heard := by
  unfold leave
  split
  · next hcalled =>
    have hsome : r.called ≠ [] := List.ne_nil_of_mem hcalled
    exact heard_signal.trans (by simp [heard, hsome])
  · rfl

theorem observed_leave : (r.leave id).observed = r.observed := by
  rw [leave]
  split
  · exact observed_signal
  · rfl

theorem heard_of_grant (h : r.grant id w = some g) : r.heard = true := by
  cases w with
  | fresh =>
    simp only [grant] at h
    split at h
    · next hseen => simp [heard, hseen]
    · split at h
      · next hpermit => simp [heard, hpermit]
      · cases h
  | inLine observed =>
    simp only [grant] at h
    split at h
    · next hcalled =>
      have hsome : r.called ≠ [] := List.ne_nil_of_mem hcalled
      simp [heard, hsome]
    · cases h

/-- Whoever may look has seen a signal, now or before. -/
theorem observed_of_grant (hsincere : w = .inLine true → r.observed = true)
    (h : r.grant id w = some g) : g.observed = true := by
  cases w with
  | fresh =>
    simp only [grant] at h
    split at h
    · next hseen =>
      cases h
      exact hseen
    · split at h <;> cases h
      rfl
  | inLine observed =>
    simp only [grant] at h
    split at h <;> cases h
    cases observed <;> simp [hsincere]

/-- What was seen stays seen. -/
theorem observed_poll_of_observed (h : r.observed = true) :
    (r.poll id control w).1.observed = true := by
  obtain hgoes | ⟨st, hend⟩ := Option.eq_none_or_eq_some r.cause
  · rw [poll_of_open hgoes]
    split
    · next g hg => exact observed_check.trans (observed_of_grant (fun _ => h) hg)
    · exact observed_linger.trans h
  · rw [poll_of_cause hend]
    cases w with
    | fresh => exact h
    | inLine observed => exact observed_leave.trans h

theorem heard_of_poll (h : (r.poll id control w).1.heard = true) : r.heard = true := by
  obtain hgoes | ⟨st, hend⟩ := Option.eq_none_or_eq_some r.cause
  · rw [poll_of_open hgoes] at h
    split at h
    · next g hg => exact heard_of_grant hg
    · exact heard_linger.symm.trans h
  · rw [poll_of_cause hend] at h
    cases w with
    | fresh => exact h
    | inLine observed => exact heard_leave.symm.trans h

theorem heard_poll (hsincere : w = .inLine true → r.observed = true) (h : r.heard = true) :
    (r.poll id control w).1.heard = true := by
  obtain hgoes | ⟨st, hend⟩ := Option.eq_none_or_eq_some r.cause
  · rw [poll_of_open hgoes]
    split
    · next g hg => simp [heard, observed_check, observed_of_grant hsincere hg]
    · exact heard_linger.trans h
  · rw [poll_of_cause hend]
    cases w with
    | fresh => exact h
    | inLine observed => exact heard_leave.trans h

/-- A wait that claims to have seen a signal has. -/
theorem observed_poll (hsincere : w = .inLine true → r.observed = true)
    (h : (r.poll id control w).2.1 = .inLine true) : (r.poll id control w).1.observed = true := by
  obtain hgoes | ⟨st, hend⟩ := Option.eq_none_or_eq_some r.cause
  · rw [poll_of_open hgoes] at h ⊢
    split
    · next g hg => exact observed_check.trans (observed_of_grant hsincere hg)
    · next hg =>
      rw [hg] at h
      cases w with
      | fresh => cases h
      | inLine observed =>
        cases h
        exact hsincere rfl
  · rw [error_of_cause hend] at h
    cases h

/-- A wait succeeds on a call that is there and ready and was not cancelled, after a signal. -/
theorem poll_ok (h : (r.poll id control w).2.2 = some (.ok ())) :
    r.cause = none ∧ control = some true ∧ r.heard = true := by
  obtain hgoes | ⟨st, hend⟩ := Option.eq_none_or_eq_some r.cause
  · rw [poll_of_open hgoes] at h
    split at h
    · next g hg =>
      refine ⟨hgoes, ?_, heard_of_grant hg⟩
      rw [check_of_open ((grant_cause hg).trans hgoes)] at h
      obtain _ | _ | _ := control
      · cases h
      · cases h
      · rfl
    · cases h
  · rw [error_of_cause hend] at h
    cases h

/-- A wait that goes on is in line. -/
theorem inLine_of_poll (h : (r.poll id control w).2.2 = none) :
    ∃ b, (r.poll id control w).2 = (.inLine b, none) := by
  have hgoes := poll_none h
  rw [poll_of_open hgoes] at h ⊢
  split at h
  · next g hg =>
    simp only [check_of_open ((grant_cause hg).trans hgoes)] at h ⊢
    obtain _ | _ | _ := control
    · cases h
    · exact ⟨true, rfl⟩
    · cases h
  · cases w with
    | fresh => exact ⟨false, rfl⟩
    | inLine b => exact ⟨b, rfl⟩

/-- On a call that is ready a wait goes on only without a signal. -/
theorem linger_of_ready (h : (r.poll id (some true) w).2.2 = none) :
    (r.poll id (some true) w).1 = (r.linger id w).1 ∧ (w = .fresh → r.observed = false) := by
  have hgoes := poll_none h
  rw [poll_of_open hgoes] at h ⊢
  cases hg : r.grant id w with
  | some g =>
    simp only [hg, check_of_open ((grant_cause hg).trans hgoes)] at h
    cases h
  | none =>
    refine ⟨rfl, ?_⟩
    rintro rfl
    cases hseen : r.observed with
    | false => rfl
    | true => simp [grant, hseen] at hg

/-! A look at a line in which nobody else stands. -/

theorem clears_poll_fresh (hline : r.line = []) (hcalled : r.called = []) :
    Clears id (r.poll id control .fresh) := by
  obtain hgoes | ⟨st, hend⟩ := Option.eq_none_or_eq_some r.cause
  · rw [poll_of_open hgoes]
    split
    · next g hg =>
      have hobserved := observed_of_grant (w := .fresh) nofun hg
      have hsame : g.line = r.line ∧ g.called = r.called := by
        simp only [grant] at hg
        split at hg
        · cases hg; exact ⟨rfl, rfl⟩
        · split at hg <;> cases hg; exact ⟨rfl, rfl⟩
      exact clears_check ((grant_cause hg).trans hgoes) (hsame.1.trans hline)
        (hsame.2.trans hcalled) hobserved
    · next hg =>
      have hnone : r.observed = false ∧ r.permit = false := by
        simp only [grant] at hg
        cases hseen : r.observed <;> cases hpermit : r.permit <;> simp [hseen, hpermit] at hg
        exact ⟨rfl, rfl⟩
      refine ⟨hcalled, .inr ⟨?_, ?_, hnone.2⟩⟩
      · simp [linger, enter, hnone.1]
      · simp [linger, enter, hline]
  · rw [poll_of_cause hend]
    exact ⟨hcalled, .inl ⟨rfl, hline⟩⟩

theorem leave_of_alone (h : r.line = [id] ∧ r.called = [] ∨ r.line = [] ∧ r.called = [id]) :
    (r.leave id).line = [] ∧ (r.leave id).called = [] := by
  obtain ⟨hline, hcalled⟩ | ⟨hline, hcalled⟩ := h
  · simp [leave, hline, hcalled]
  · simp [leave, signal, hline, hcalled]

theorem clears_poll_inLine
    (h : r.line = [id] ∧ r.called = [] ∧ r.permit = false ∨ r.line = [] ∧ r.called = [id]) :
    Clears id (r.poll id control (.inLine r.observed)) := by
  obtain hgoes | ⟨st, hend⟩ := Option.eq_none_or_eq_some r.cause
  · rw [poll_of_open hgoes]
    obtain ⟨hline, hcalled, hpermit⟩ | ⟨hline, hcalled⟩ := h
    · simp only [grant, hcalled, List.not_mem_nil, if_false]
      exact ⟨hcalled, .inr ⟨rfl, hline, hpermit⟩⟩
    · simp only [grant, hcalled, List.mem_singleton, if_true]
      exact clears_check hgoes hline (by simp) (by simp)
  · rw [poll_of_cause hend]
    obtain ⟨hline, hcalled⟩ := leave_of_alone (h.imp_left fun h => ⟨h.1, h.2.1⟩)
    exact ⟨hcalled, .inl ⟨rfl, hline⟩⟩

/-- A signal that one waiter has is not taken by another. -/
theorem called_leave {other : ι} (hne : id ≠ other) (h : id ∈ r.called) :
    id ∈ (r.leave other).called := by
  rw [leave]
  split
  · rw [signal]
    have herased : id ∈ r.called.erase other := (List.mem_erase_of_ne hne).mpr h
    split
    · exact herased
    · exact List.mem_append_left _ herased
  · exact h

theorem called_poll {other : ι} (hne : id ≠ other) (h : id ∈ r.called) :
    id ∈ (r.poll other control w).1.called := by
  obtain hgoes | ⟨st, hend⟩ := Option.eq_none_or_eq_some r.cause
  · rw [poll_of_open hgoes]
    split
    · next g hg =>
      have hkept : id ∈ g.called := by
        cases w with
        | fresh =>
          simp only [grant] at hg
          split at hg
          · cases hg; exact h
          · split at hg <;> cases hg; exact h
        | inLine observed =>
          simp only [grant] at hg
          split at hg <;> cases hg
          exact (List.mem_erase_of_ne hne).mpr h
      rw [check_of_open ((grant_cause hg).trans hgoes)]
      obtain _ | _ | _ := control <;> exact hkept
    · cases w <;> exact h
  · rw [poll_of_cause hend]
    cases w with
    | fresh => exact h
    | inLine observed => exact called_leave hne h

end Tracker

end Readiness
end PacedCall
