import Mathlib.Data.List.Induction
import PacedCall.Proofs.Scope
import PacedCall.Scope.Desk

/-!
Scopes that share a parent. Each is cancelled on its own, and those that are linked to the parent
end with it. What one step makes of one scope is said once, by `Step.acts`; the cancellations of a
scope and its parent's end then tell all there is to know of it.
-/
namespace PacedCall
namespace Scope

inductive Use where
  | cancel (origin : Origin) (st : Status)
  | wait (id : String)
  | poll (id : String)
  | drop (id : String)

namespace Use

def step : Use → Scope.Step
  | cancel origin st => .cancel origin st
  | wait id => .wait id
  | poll id => .poll id
  | drop id => .drop id

def acts : Use → Scope → Scope
  | cancel origin st, s => s.cancelWith origin st
  | _, s => s

end Use

namespace Session

@[simp] theorem scope_callWaits (s : Session) : s.callWaits.scope = s.scope := by
  rw [callWaits]
  split <;> rfl

@[simp] theorem linked_callWaits (s : Session) : s.callWaits.linked = s.linked := by
  rw [callWaits]
  split <;> rfl

theorem step_use (s : Session) (u : Use) :
    (s.step u.step).1.linked = s.linked ∧ (s.step u.step).1.scope = u.acts s.scope := by
  cases u with
  | cancel origin st => exact ⟨linked_callWaits _, scope_callWaits _⟩
  | poll id =>
    simp only [Use.step, step, poll]
    split
    · exact ⟨rfl, rfl⟩
    · split <;> exact ⟨rfl, rfl⟩
  | _ => exact ⟨rfl, rfl⟩

theorem step_cancelParent (s : Session) :
    (s.step .cancelParent).1.linked = s.linked ∧
      (s.step .cancelParent).1.scope = if s.linked then s.scope.trip else s.scope :=
  ⟨linked_callWaits _, scope_callWaits _⟩

/-- A wait that is not over is over when it is looked at in a scope that has ended. -/
theorem poll_unfinished {s : Session} {id : String} {w : Held Park}
    (hd : s.desk.find? id = some w) (hw : w.finished = false) :
    (s.step (.poll id)).2 = .look (if s.scope.cancelled then .done () else .pending) := by
  simp [step, poll, hd, hw]

end Session

structure Family where
  ended : Bool := false
  scopes : List Session := []

namespace Family

inductive Step where
  | create (linked : Bool)
  | endParent
  | use (i : Nat) (u : Use)

def born (ended linked : Bool) : Session :=
  { scope := { cancelled := linked && ended }
    parentCancelled := ended
    linked := linked }

def step (f : Family) : Step → Family × Answer
  | .create linked => ({ f with scopes := f.scopes ++ [born f.ended linked] }, .nothing)
  | .endParent =>
    ({ ended := true, scopes := f.scopes.map fun s => (s.step .cancelParent).1 }, .nothing)
  | .use i u =>
    match f.scopes[i]? with
    | none => (f, .badStep)
    | some s =>
      let (s, r) := s.step u.step
      ({ f with scopes := f.scopes.set i s }, r)

def after (f : Family) (as : List Step) : Family := as.foldl (fun f a => (f.step a).1) f

def collect {β : Type} (g : Family → Step → List β) : Family → List Step → List β
  | _, [] => []
  | f, a :: as => g f a ++ collect g (f.step a).1 as

def cancels (i : Nat) (f : Family) : Step → List ((Origin × Status) × Bool)
  | .use j (.cancel origin st) =>
    if j = i then
      match (f.step (.use j (.cancel origin st))).2 with
      | .flag first => [((origin, st), first)]
      | _ => []
    else []
  | _ => []

def Step.acts (i : Nat) (linked : Bool) : Step → Scope → Scope
  | .create _, s => s
  | .endParent, s => if linked then s.trip else s
  | .use j u, s => if j = i then u.acts s else s

variable {f : Family} {i : Nat} {s : Session} {a : Step}

@[simp] theorem after_concat (f : Family) (as : List Step) (a : Step) :
    f.after (as ++ [a]) = ((f.after as).step a).1 := by
  rw [after, List.foldl_append]
  rfl

theorem after_append (f : Family) (as bs : List Step) :
    f.after (as ++ bs) = (f.after as).after bs := List.foldl_append

@[simp] theorem collect_concat {β : Type} (g : Family → Step → List β) (f : Family)
    (as : List Step) (a : Step) :
    collect g f (as ++ [a]) = collect g f as ++ g (f.after as) a := by
  induction as generalizing f with
  | nil => simp [collect, after]
  | cons b as ih => simp [collect, after, ih]

/-! One step, as each scope sees it. -/

theorem step_use (h : f.scopes[i]? = some s) (u : Use) :
    f.step (.use i u) =
      ({ f with scopes := f.scopes.set i (s.step u.step).1 }, (s.step u.step).2) := by
  simp only [step, h]

theorem scopes_step (h : f.scopes[i]? = some s) (a : Step) :
    ∃ t, (f.step a).1.scopes[i]? = some t ∧ t.linked = s.linked ∧
      t.scope = a.acts i s.linked s.scope := by
  have hi : i < f.scopes.length := (List.getElem?_eq_some_iff.mp h).1
  cases a with
  | create linked => exact ⟨s, (List.getElem?_append_left hi).trans h, rfl, rfl⟩
  | endParent =>
    obtain ⟨hlinked, hscope⟩ := s.step_cancelParent
    refine ⟨(s.step .cancelParent).1, ?_, hlinked, hscope⟩
    rw [step, List.getElem?_map, h]
    rfl
  | use j u =>
    by_cases hji : j = i
    · subst hji
      obtain ⟨hlinked, hscope⟩ := s.step_use u
      refine ⟨(s.step u.step).1, ?_, hlinked, ?_⟩
      · rw [step_use h, List.getElem?_set_self hi]
      · rw [Step.acts, if_pos rfl, hscope]
    · refine ⟨s, ?_, rfl, by rw [Step.acts, if_neg hji]⟩
      rw [step]
      split
      · exact h
      · rw [List.getElem?_set_ne hji]
        exact h

/-- A scope that was not there is one that has just come to be. -/
theorem born_step {t : Session} (h : f.scopes[i]? = none) (ht : (f.step a).1.scopes[i]? = some t) :
    ∃ linked, a = .create linked ∧ t = born f.ended linked := by
  have hi : f.scopes.length ≤ i := List.getElem?_eq_none_iff.mp h
  cases a with
  | create linked =>
    rw [step, List.getElem?_append_right hi, List.getElem?_singleton] at ht
    split at ht
    · exact ⟨linked, rfl, (Option.some.inj ht).symm⟩
    · cases ht
  | endParent =>
    rw [step, List.getElem?_map, h] at ht
    cases ht
  | use j u =>
    have hlength : (f.step (.use j u)).1.scopes.length = f.scopes.length := by
      rw [step]
      split
      · rfl
      · exact List.length_set
    rw [List.getElem?_eq_none (hlength ▸ hi)] at ht
    cases ht

/-- A scope that is used is the only one that changes. -/
theorem use_spares (f : Family) (i : Nat) (u : Use) :
    (f.step (.use i u)).1.ended = f.ended ∧
      ∀ j ≠ i, (f.step (.use i u)).1.scopes[j]? = f.scopes[j]? := by
  rw [step]
  split
  · exact ⟨rfl, fun _ _ => rfl⟩
  · exact ⟨rfl, fun j hj => List.getElem?_set_ne hj.symm⟩

theorem ended_step (f : Family) (a : Step) :
    (f.step a).1.ended = true ↔ f.ended = true ∨ a = .endParent := by
  cases a with
  | create linked => simp [step]
  | endParent => simp [step]
  | use i u => simp [(use_spares f i u).1]

theorem ended_after (as : List Step) :
    (({} : Family).after as).ended = true ↔ .endParent ∈ as := by
  induction as using List.reverseRecOn with
  | nil => simp [after]
  | append_singleton as a ih =>
    rw [after_concat, ended_step, ih, List.mem_append, List.mem_singleton]
    exact or_congr_right eq_comm

theorem acts_of_cancelled {s : Scope} (hs : s.cancelled = true) (a : Step) (linked : Bool) :
    a.acts i linked s = s := by
  cases a with
  | create => rfl
  | endParent =>
    rw [Step.acts, trip_of_cancelled hs]
    split <;> rfl
  | use j u =>
    rw [Step.acts]
    split
    · cases u with
      | cancel origin st => exact cancelWith_of_cancelled hs origin st
      | _ => rfl
    · rfl

/-- A scope that has ended is never changed again. -/
theorem scope_of_cancelled (h : f.scopes[i]? = some s) (hs : s.scope.cancelled = true)
    (as : List Step) : ∃ t, (f.after as).scopes[i]? = some t ∧ t.scope = s.scope := by
  induction as using List.reverseRecOn with
  | nil => exact ⟨s, h, rfl⟩
  | append_singleton as a ih =>
    obtain ⟨t, ht, hscope⟩ := ih
    obtain ⟨u, hu, _, hacts⟩ := scopes_step ht a
    rw [after_concat]
    refine ⟨u, hu, ?_⟩
    rw [hacts, acts_of_cancelled (hscope ▸ hs), hscope]

/-! What was done with a scope, and what it knows of that. -/

def recorded (l : List ((Origin × Status) × Bool)) : List (Origin × Status) :=
  (l.filter (·.2)).map (·.1)

theorem recorded_append (l k : List ((Origin × Status) × Bool)) :
    recorded (l ++ k) = recorded l ++ recorded k := by
  rw [recorded, List.filter_append, List.map_append]
  rfl

theorem cancels_of_ne {j : Nat} (hji : j ≠ i) (f : Family) (u : Use) :
    f.cancels i (.use j u) = [] := by
  cases u with
  | cancel origin st => rw [cancels, if_neg hji]
  | _ => rfl

theorem cancels_of_absent (h : f.scopes[i]? = none) (a : Step) : f.cancels i a = [] := by
  cases a with
  | use j u =>
    by_cases hji : j = i
    · subst hji
      cases u with
      | cancel origin st => simp only [cancels, step, h, if_true]
      | _ => rfl
    · exact cancels_of_ne hji f u
  | _ => rfl

/-- A cancellation comes first where the scope has not ended. -/
theorem step_cancel (h : f.scopes[i]? = some s) (hs : s.scope.Recorded) (origin : Origin)
    (st : Status) : (f.step (.use i (.cancel origin st))).2 = .flag (!s.scope.cancelled) := by
  rw [step_use h, Use.step, Session.step]
  simp only [hs.cancel]
  cases s.scope.cancelled <;> rfl

theorem cancels_cancel (h : f.scopes[i]? = some s) (hs : s.scope.Recorded) (origin : Origin)
    (st : Status) :
    f.cancels i (.use i (.cancel origin st)) = [((origin, st), !s.scope.cancelled)] := by
  rw [cancels, if_pos rfl, step_cancel h hs]

/-- What a scope knows of the cancellations that it met, its parent having `ended` or not. -/
structure Knows (s : Session) (met : List ((Origin × Status) × Bool)) (ended : Bool) : Prop where
  recorded : s.scope.Recorded
  cause : Family.recorded met = s.scope.cause.toList
  cancelled : s.scope.cancelled = true ↔ met ≠ [] ∨ s.linked = true ∧ ended = true

section
variable {met : List ((Origin × Status) × Bool)} {ended : Bool} {t : Session}

theorem knows_born (ended linked : Bool) : Knows (born ended linked) [] ended :=
  { recorded := nofun
    cause := rfl
    cancelled := by simp [born] }

theorem Knows.same (h : Knows s met ended) (hlinked : t.linked = s.linked)
    (hscope : t.scope = s.scope) : Knows t met ended :=
  { recorded := hscope ▸ h.recorded
    cause := hscope ▸ h.cause
    cancelled := by rw [hscope, hlinked, h.cancelled] }

/-- The end of the parent is known to those that are linked to it. -/
theorem Knows.endParent (h : Knows s met ended) (hlinked : t.linked = s.linked)
    (hscope : t.scope = if s.linked then s.scope.trip else s.scope) : Knows t met true := by
  cases hl : s.linked with
  | false =>
    rw [hl] at hlinked
    rw [hl, if_neg Bool.false_ne_true] at hscope
    exact
      { recorded := hscope ▸ h.recorded
        cause := hscope ▸ h.cause
        cancelled := by rw [hscope, hlinked, h.cancelled, hl]; simp }
  | true =>
    rw [hl, if_pos rfl] at hscope
    exact
      { recorded := hscope ▸ fun _ => rfl
        cause := hscope ▸ h.cause
        cancelled := by simp [hscope, hlinked, hl, trip] }

/-- The first cancellation is recorded, if the scope has not ended with its parent by then. -/
theorem Knows.cancel (h : Knows s met ended) (origin : Origin) (st : Status)
    (hscope : t.scope = s.scope.cancelWith origin st) :
    Knows t (met ++ [((origin, st), !s.scope.cancelled)]) ended := by
  refine ⟨hscope ▸ recorded_cancelWith s.scope origin st, ?_, ?_⟩
  · rw [recorded_append, h.cause, hscope, cancelWith, h.recorded.cancel]
    cases hs : s.scope.cancelled with
    | true => exact List.append_nil _
    | false =>
      rw [h.recorded.cause hs]
      rfl
  · rw [hscope, cancelled_cancelWith]
    simp

theorem Knows.step (h : Knows s met f.ended) (hs : f.scopes[i]? = some s) (a : Step)
    (ht : (f.step a).1.scopes[i]? = some t) :
    Knows t (met ++ f.cancels i a) (f.step a).1.ended := by
  obtain ⟨u, hu, hlinked, hscope⟩ := scopes_step hs a
  obtain rfl : u = t := Option.some.inj (hu.symm.trans ht)
  cases a with
  | create linked => exact (List.append_nil met).symm ▸ h.same hlinked hscope
  | endParent => exact (List.append_nil met).symm ▸ h.endParent hlinked hscope
  | use j w =>
    rw [(use_spares f j w).1]
    by_cases hji : j = i
    · subst hji
      rw [Step.acts, if_pos rfl] at hscope
      cases w with
      | cancel origin st =>
        rw [cancels_cancel hs h.recorded]
        exact h.cancel origin st hscope
      | _ => exact (List.append_nil met).symm ▸ h.same hlinked hscope
    · rw [Step.acts, if_neg hji] at hscope
      rw [cancels_of_ne hji, List.append_nil]
      exact h.same hlinked hscope

end

/-- A scope knows what it met since it came to be, and nothing was done with it before. -/
theorem knows_after (as : List Step) (i : Nat) :
    let f := ({} : Family).after as
    let met := collect (cancels i) {} as
    (f.scopes[i]? = none → met = []) ∧ ∀ s, f.scopes[i]? = some s → Knows s met f.ended := by
  induction as using List.reverseRecOn with
  | nil => exact ⟨fun _ => rfl, fun s hs => by simp [after] at hs⟩
  | append_singleton as a ih =>
    intro f met
    obtain ⟨habsent, hthere⟩ := ih
    simp only [f, met, after_concat, collect_concat]
    cases hbefore : (({} : Family).after as).scopes[i]? with
    | none =>
      rw [habsent hbefore, cancels_of_absent hbefore]
      refine ⟨fun _ => rfl, fun s hs => ?_⟩
      obtain ⟨linked, rfl, rfl⟩ := born_step hbefore hs
      exact knows_born _ linked
    | some s =>
      refine ⟨fun hnone => ?_, fun t ht => (hthere s hbefore).step hbefore a ht⟩
      obtain ⟨t, ht, _⟩ := scopes_step hbefore a
      cases hnone.symm.trans ht

/-! Whose parent ended first has no cause. -/

/-- The parent has ended, and the scope has ended with it, or will come to be like that. -/
structure Orphaned (f : Family) (i : Nat) : Prop where
  ended : f.ended = true
  scope : ∀ t, f.scopes[i]? = some t → t.linked = true → t.scope = ⟨true, none⟩

theorem Orphaned.step (h : f.Orphaned i) (a : Step) : (f.step a).1.Orphaned i := by
  refine ⟨(ended_step f a).mpr (.inl h.ended), fun t ht hlinked => ?_⟩
  cases hbefore : f.scopes[i]? with
  | none =>
    obtain ⟨linked, rfl, rfl⟩ := born_step hbefore ht
    simp only [born] at hlinked
    simp [born, hlinked, h.ended]
  | some s =>
    obtain ⟨u, hu, hsame, hscope⟩ := scopes_step hbefore a
    obtain rfl : u = t := Option.some.inj (hu.symm.trans ht)
    have hs := h.scope s hbefore (hsame ▸ hlinked)
    rw [hscope, hs]
    exact acts_of_cancelled rfl a _

theorem Orphaned.after (h : f.Orphaned i) (as : List Step) : (f.after as).Orphaned i := by
  induction as using List.reverseRecOn with
  | nil => exact h
  | append_singleton as a ih =>
    rw [after_concat]
    exact ih.step a

/-- A scope that had not ended when its parent did, or was not there yet, is orphaned. -/
theorem orphaned_endParent
    (hgoes : ∀ t, f.scopes[i]? = some t → t.scope.Recorded ∧ t.scope.cancelled = false) :
    (f.step .endParent).1.Orphaned i := by
  refine ⟨rfl, fun t ht hlinked => ?_⟩
  cases hbefore : f.scopes[i]? with
  | none =>
    obtain ⟨_, hcreate, _⟩ := born_step hbefore ht
    cases hcreate
  | some s =>
    obtain ⟨u, hu, hsame, hscope⟩ := scopes_step hbefore .endParent
    obtain rfl : u = t := Option.some.inj (hu.symm.trans ht)
    obtain ⟨hrecorded, hs⟩ := hgoes s hbefore
    rw [hscope, Step.acts, if_pos (hsame ▸ hlinked), trip, hrecorded.cause hs]

/-- A scope keeps one cause. A cancellation of it comes first where it has not ended, by itself or
with its parent; the one that does is recorded, and none is if the parent ended first. Once the
scope has ended it does not change again, and what is done with it changes nothing else. Those in
it have a status as soon as it has ended, and a wait for its end is over then. -/
theorem one_cause (as : List Step) (i : Nat) (s : Session)
    (h : (({} : Family).after as).scopes[i]? = some s) :
    let f := ({} : Family).after as
    let met := collect (cancels i) {} as
    (∀ origin st, (f.step (.use i (.cancel origin st))).2 = .flag (!s.scope.cancelled)) ∧
    recorded met = s.scope.cause.toList ∧
    (s.scope.cancelled = true ↔ met ≠ [] ∨ s.linked = true ∧ .endParent ∈ as) ∧
    (s.scope.cancelled = true → ∀ bs, ∃ t, (f.after bs).scopes[i]? = some t ∧ t.scope = s.scope) ∧
    s.scope.status =
      (if s.scope.cancelled then some (s.scope.cause.elim .localCancelled Prod.snd) else none) ∧
    (∀ before rest, as = before ++ .endParent :: rest → s.linked = true →
      (∀ t, (({} : Family).after before).scopes[i]? = some t → t.scope.cancelled = false) →
      s.scope.cause = none ∧ s.scope.status = some .localCancelled) ∧
    (∀ u, (f.step (.use i u)).1.ended = f.ended ∧
      ∀ j ≠ i, (f.step (.use i u)).1.scopes[j]? = f.scopes[j]?) ∧
    ∀ id w, s.desk.find? id = some w → w.finished = false →
      (f.step (.use i (.poll id))).2 =
        .look (if s.scope.cancelled then .done () else .pending) := by
  intro f met
  have hknows : Knows s met f.ended := (knows_after as i).2 s h
  refine ⟨step_cancel h hknows.recorded, hknows.cause, ?_, fun hs bs => scope_of_cancelled h hs bs, ?_,
    ?_, use_spares f i, fun id w hd hw => ?_⟩
  · rw [hknows.cancelled, ended_after]
  · rw [status]
    cases s.scope.cause <;> rfl
  · rintro before rest has hlinked hgoes
    have horphaned : f.Orphaned i := by
      rw [show f = ((({} : Family).after before).step .endParent).1.after rest by
        simp only [f, has, after_append]; rfl]
      exact (orphaned_endParent fun t ht =>
        ⟨((knows_after before i).2 t ht).recorded, hgoes t ht⟩).after rest
    rw [horphaned.scope s h hlinked]
    exact ⟨rfl, rfl⟩
  · rw [step_use h]
    exact Session.poll_unfinished hd hw

/-- Two scopes with one parent: one is cancelled by its peer before the parent ends, and the other
only after that. -/
theorem one_cause_siblings :
    let gone : Status := ⟨.unavailable, "gone", []⟩
    let as : List Step := [.create true, .create true, .use 0 (.cancel .peer gone), .endParent,
      .use 1 (.cancel .here gone)]
    let f := ({} : Family).after as
    (∃ s, f.scopes[0]? = some s ∧ s.scope.cause.toList = [(.peer, gone)]) ∧
      ∃ s, f.scopes[1]? = some s ∧ s.scope.cause = none ∧ s.scope.status = some .localCancelled := by
  intro gone as f
  obtain ⟨_, hcause, _⟩ := one_cause as 0 _ rfl
  obtain ⟨_, _, _, _, _, horphaned, _⟩ := one_cause as 1 _ rfl
  refine ⟨⟨_, rfl, hcause.symm⟩, _, rfl, ?_⟩
  refine horphaned (as.take 3) [.use 1 (.cancel .here gone)] rfl rfl fun t ht => ?_
  obtain rfl : born false true = t := Option.some.inj ht
  rfl

end Family
end Scope
end PacedCall
