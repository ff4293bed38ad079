import PacedCall.Readiness.Desk
import PacedCall.Proofs.Desk
import PacedCall.Proofs.Readiness
import Mathlib.Data.List.Induction

/-!
What a wait for readiness tells its writer, and what it does not miss. A wait that succeeds does so on
a call that is there and ready, after a signal and before any cancellation. While waits are taken one
at a time, the one in line is the one that the next signal calls; so if it was not called, there was
no signal since it was looked at, and what it saw of the call was the last there was to see, unless
the call changed and nobody said so.
-/
namespace PacedCall
namespace Readiness
namespace Session
variable {s : Session} {d : Desk Wait} {id other : String} {a : Step} {w : Wait} {b : Bool}

def opened (control : Option Bool) : Session := { control := control }

def after (s : Session) (as : List Step) : Session := as.foldl (fun s a => (s.step a).1) s

def name? : Step → Option String
  | .wait id => some id
  | .poll id => some id
  | .drop id => some id
  | _ => none

def cancels? : Step → Option Status
  | .cancel st => some st
  | _ => none

def unfinished (s : Session) (id : String) : Bool :=
  match s.desk.find? id with
  | some h => !h.finished
  | none => false

/-! Where the waits stand. -/

def placed (d : Desk Wait) (id : String) : Option (Wait × Bool) :=
  (d.find? id).map fun h => (h.op, h.finished)

@[simp] theorem placed_erase_self (d : Desk Wait) (id : String) : placed (d.erase id) id = none := by
  simp [placed, Desk.find?_erase_self]

theorem placed_erase_of_ne (hne : other ≠ id) : placed (d.erase id) other = placed d other := by
  rw [placed, Desk.find?_erase_of_ne _ hne, placed]

@[simp] theorem placed_put_self (d : Desk Wait) (id : String) (h : Held Wait) :
    placed (d.put id h) id = some (h.op, h.finished) := by
  simp [placed, Desk.find?_put_self]

theorem placed_put_of_ne {h : Held Wait} (hne : other ≠ id) :
    placed (d.put id h) other = placed d other := by
  rw [placed, Desk.find?_put_of_ne _ _ hne, placed]

/-- A wait that is woken stays where it stands. -/
theorem placed_callWaits (s : Session) (id : String) :
    placed s.callWaits.desk id = placed s.desk id := by
  simp only [placed, callWaits, Desk.find?_wake, Option.map_map]
  congr 1
  funext h
  simp only [Function.comp, Desk.roused]
  split
  · rfl
  · split
    · next w hw =>
      split at hw <;> cases hw
      rfl
    · rfl

theorem unfinished_iff : s.unfinished id = true ↔ ∃ w, placed s.desk id = some (w, false) := by
  unfold unfinished placed
  cases s.desk.find? id with
  | none => simp
  | some h => cases hf : h.finished <;> simp [hf]

def Stands (s : Session) (id : String) (observed : Bool) : Prop :=
  placed s.desk id = some (.inLine observed, false)

/-- A wait that goes leaves the line if it stands there. -/
theorem remove_cases (s : Session) (id : String) :
    (∃ b, s.Stands id b ∧ (s.remove id).1.ready = s.ready.leave id) ∨
      (∀ b, ¬s.Stands id b) ∧ (s.remove id).1.ready = s.ready := by
  unfold remove Stands placed
  cases s.desk.find? id with
  | none => exact .inr ⟨nofun, rfl⟩
  | some h =>
    obtain ⟨w, finished, woken⟩ := h
    cases w with
    | fresh => exact .inr ⟨by simp, rfl⟩
    | inLine b =>
      cases finished with
      | false => exact .inl ⟨b, rfl, rfl⟩
      | true => exact .inr ⟨by simp, rfl⟩

theorem placed_remove_self (s : Session) (id : String) : placed (s.remove id).1.desk id = none := by
  unfold remove
  split
  · next hnone => simp [placed, hnone]
  · simp

theorem placed_remove_of_ne (s : Session) (hne : other ≠ id) :
    placed (s.remove id).1.desk other = placed s.desk other := by
  unfold remove
  split
  · rfl
  · exact placed_erase_of_ne hne

theorem control_remove (s : Session) (id : String) : (s.remove id).1.control = s.control := by
  unfold remove
  split <;> rfl

/-- What no waiter changes that goes away. -/
theorem remove_keeps {β : Type} {f : Readiness String → β} (hf : ∀ r, f (r.leave id) = f r)
    (s : Session) : f (s.remove id).1.ready = f s.ready := by
  obtain ⟨b, _, hready⟩ | ⟨_, hready⟩ := s.remove_cases id
  · rw [hready, hf]
  · rw [hready]

/-- Only a wait that is not finished is looked at. -/
theorem poll_of_finished (h : s.unfinished id = false) :
    (s.poll id).1.ready = s.ready ∧ (s.poll id).1.control = s.control ∧
      (∀ other, placed (s.poll id).1.desk other = placed s.desk other) ∧
      ((s.poll id).2 = .missing ∨ (s.poll id).2 = .finished) := by
  cases hfound : s.desk.find? id with
  | none => simp [poll, hfound]
  | some k =>
    have hover : k.finished = true := by simpa [unfinished, hfound] using h
    have hpoll : s.poll id =
        ({ s with desk := s.desk.put id { k with woken := false } }, .finished) := by
      simp [poll, hfound, hover]
    rw [hpoll]
    refine ⟨rfl, rfl, fun other => ?_, .inr rfl⟩
    by_cases hne : other = id
    · subst hne
      simp [placed, Desk.find?_put_self, hfound]
    · exact placed_put_of_ne hne

theorem poll_of_placed (h : placed s.desk id = some (w, false)) :
    s.poll id =
      ({ s with
          ready := (s.ready.poll id s.control w).1
          desk := s.desk.put id
            { op := (s.ready.poll id s.control w).2.1
              finished := (s.ready.poll id s.control w).2.2.isSome } },
        match (s.ready.poll id s.control w).2.2 with
        | some r => .done r
        | none => .pending) := by
  unfold placed at h
  obtain ⟨k, hk, hw⟩ := Option.map_eq_some_iff.mp h
  obtain ⟨rfl, hlive⟩ := Prod.mk.inj hw
  simp only [poll, hk, hlive]
  rfl

/-- Whoever is looked at and answers with a result had a wait that was not finished. -/
theorem placed_of_poll {l : Look (Except Status Unit)} (h : (s.poll id).2 = l)
    (hl : l ≠ .missing ∧ l ≠ .finished) : ∃ w, placed s.desk id = some (w, false) := by
  rw [← unfinished_iff]
  cases hlive : s.unfinished id with
  | true => rfl
  | false =>
    obtain ⟨_, _, _, hnone⟩ := poll_of_finished hlive
    rw [h] at hnone
    exact absurd hnone (not_or.mpr hl)

theorem ready_step (s : Session) (a : Step) : (s.step a).1.ready = (s.apply a).1.ready := rfl

theorem ready_poll (s : Session) (id : String) :
    (s.poll id).1.ready = s.ready ∨
      ∃ w, placed s.desk id = some (w, false) ∧
        (s.poll id).1.ready = (s.ready.poll id s.control w).1 := by
  cases hlive : s.unfinished id with
  | false => exact .inl (poll_of_finished hlive).1
  | true =>
    obtain ⟨w, hw⟩ := unfinished_iff.mp hlive
    exact .inr ⟨w, hw, by rw [poll_of_placed hw]⟩

/-- A step does not move the waits that it does not deal with. -/
theorem placed_step_of_ne (hne : name? a ≠ some id) :
    placed (s.step a).1.desk id = placed s.desk id := by
  refine (placed_callWaits _ id).trans ?_
  have hother : ∀ other, name? a = some other → id ≠ other := by
    rintro other hname rfl
    exact hne hname
  cases a with
  | wait other =>
    have hne := hother other rfl
    exact (placed_put_of_ne hne).trans (placed_remove_of_ne s hne)
  | drop other => exact placed_remove_of_ne s (hother other rfl)
  | poll other =>
    have hne := hother other rfl
    show placed (s.poll other).1.desk id = _
    cases hlive : s.unfinished other with
    | false => exact (poll_of_finished hlive).2.2.1 id
    | true =>
      obtain ⟨w, hw⟩ := unfinished_iff.mp hlive
      rw [poll_of_placed hw]
      exact placed_put_of_ne hne
  | _ => rfl

/-- Whoever stands in line after a step stood there before and was not dealt with, or was just looked
at in vain. -/
theorem stands_step (h : (s.step a).1.Stands id b) :
    name? a ≠ some id ∧ s.Stands id b ∨
      a = .poll id ∧ ∃ w, placed s.desk id = some (w, false) ∧
        (s.ready.poll id s.control w).2 = (.inLine b, none) := by
  by_cases hname : name? a = some id
  · have hplaced : placed (s.apply a).1.desk id = some (.inLine b, false) :=
      (placed_callWaits _ id).symm.trans h
    cases a with
    | wait other =>
      cases hname
      rw [show placed (s.apply (.wait id)).1.desk id = some (.fresh, false) from placed_put_self ..]
        at hplaced
      cases hplaced
    | drop other =>
      cases hname
      rw [show placed (s.apply (.drop id)).1.desk id = none from placed_remove_self s id] at hplaced
      cases hplaced
    | poll other =>
      cases hname
      replace hplaced : placed (s.poll id).1.desk id = some (.inLine b, false) := hplaced
      cases hlive : s.unfinished id with
      | false =>
        rw [(poll_of_finished hlive).2.2.1 id] at hplaced
        rw [unfinished_iff.mpr ⟨_, hplaced⟩] at hlive
        cases hlive
      | true =>
        obtain ⟨w, hw⟩ := unfinished_iff.mp hlive
        rw [poll_of_placed hw, placed_put_self] at hplaced
        obtain ⟨hop, hout⟩ := Prod.mk.inj (Option.some.inj hplaced)
        exact .inr ⟨rfl, w, hw, Prod.ext hop (by simpa using hout)⟩
    | _ => cases hname
  · exact .inl ⟨hname, (placed_step_of_ne hname).symm.trans h⟩

/-! What a script did to all waits. -/

theorem cause_step (s : Session) (a : Step) :
    (s.step a).1.ready.cause = s.ready.cause.or (cancels? a) := by
  cases a with
  | signal => exact signal_cause.trans (Option.or_none).symm
  | cancel st =>
    show some (s.ready.cause.getD st) = s.ready.cause.or (some st)
    cases s.ready.cause <;> rfl
  | wait id => exact (remove_keeps (fun _ => leave_cause) s).trans (Option.or_none).symm
  | drop id => exact (remove_keeps (fun _ => leave_cause) s).trans (Option.or_none).symm
  | poll id =>
    refine Eq.trans ?_ (Option.or_none).symm
    show (s.poll id).1.ready.cause = s.ready.cause
    obtain hready | ⟨w, _, hready⟩ := s.ready_poll id
    · rw [hready]
    · rw [hready, poll_cause]
  | _ => exact (Option.or_none).symm

theorem cause_after (s : Session) (as : List Step) :
    (s.after as).ready.cause = s.ready.cause.or (as.findSome? cancels?) := by
  induction as generalizing s with
  | nil => exact (Option.or_none).symm
  | cons a as ih =>
    have hrest := ih (s.step a).1
    rw [cause_step, Option.or_assoc] at hrest
    refine hrest.trans ?_
    rw [List.findSome?_cons]
    cases cancels? a <;> rfl

def Sincere (s : Session) : Prop := ∀ id, s.Stands id true → s.ready.observed = true

theorem observed_step (h : s.ready.observed = true) : (s.step a).1.ready.observed = true := by
  cases a with
  | signal => exact observed_signal.trans h
  | wait id => exact (remove_keeps (fun _ => observed_leave) s).trans h
  | drop id => exact (remove_keeps (fun _ => observed_leave) s).trans h
  | poll id =>
    show (s.poll id).1.ready.observed = true
    obtain hready | ⟨w, _, hready⟩ := s.ready_poll id
    · rw [hready, h]
    · rw [hready, observed_poll_of_observed h]
  | _ => exact h

theorem Sincere.step (h : s.Sincere) (a : Step) : (s.step a).1.Sincere := by
  intro id hstands
  obtain ⟨_, hstands⟩ | ⟨rfl, w, hw, hlook⟩ := stands_step hstands
  · exact observed_step (h id hstands)
  · show (s.poll id).1.ready.observed = true
    rw [poll_of_placed hw]
    exact observed_poll (by rintro rfl; exact h id hw) (congrArg Prod.fst hlook)

theorem heard_step (h : s.Sincere) (a : Step) :
    (s.step a).1.ready.heard = true ↔ s.ready.heard = true ∨ a = .signal := by
  cases a with
  | signal => simp [Session.step, Session.apply, callWaits]
  | wait id =>
    rw [show (s.step (.wait id)).1.ready.heard = s.ready.heard from
      remove_keeps (fun _ => heard_leave) s]
    simp
  | drop id =>
    rw [show (s.step (.drop id)).1.ready.heard = s.ready.heard from
      remove_keeps (fun _ => heard_leave) s]
    simp
  | poll id =>
    show (s.poll id).1.ready.heard = true ↔ _
    obtain hready | ⟨w, hw, hready⟩ := s.ready_poll id
    · simp [hready]
    · rw [hready]
      refine ⟨fun hlook => .inl (heard_of_poll hlook), fun hheard => ?_⟩
      exact heard_poll (by rintro rfl; exact h id hw) (hheard.resolve_right nofun)
  | _ => simp [Session.step, Session.apply, callWaits, heard, Readiness.cancel]

theorem sincere_after (h : s.Sincere) (as : List Step) :
    (s.after as).Sincere ∧
      ((s.after as).ready.heard = true ↔ s.ready.heard = true ∨ .signal ∈ as) := by
  induction as generalizing s with
  | nil => exact ⟨h, by simp [after]⟩
  | cons a as ih =>
    obtain ⟨hrest, hheard⟩ := ih (h.step a)
    refine ⟨hrest, hheard.trans ?_⟩
    rw [heard_step h, List.mem_cons, or_assoc, eq_comm (a := a)]

/-! One wait at a time. -/

def admits (s : Session) : Step → Bool
  | .poll id =>
    !s.unfinished id || s.desk.all fun e => e.1 == id || e.2.finished || !waiting e.2.op
  | _ => true

/-- Waits are taken one at a time: each is finished or dropped before the next one is looked at. -/
def turns : Session → List Step → Bool
  | _, [] => true
  | s, a :: as => s.admits a && turns (s.step a).1 as

theorem eq_of_admits {observed : Bool} (h : s.admits (.poll id) = true)
    (hlive : s.unfinished id = true) (hother : s.Stands other observed) : other = id := by
  obtain ⟨k, hk, hplace⟩ := Option.map_eq_some_iff.mp hother
  obtain ⟨hop, hfinished⟩ := Prod.mk.inj hplace
  obtain ⟨before, after, hd, _⟩ := List.lookup_eq_some_iff.mp hk
  simp only [admits, hlive, Bool.not_true, Bool.false_or] at h
  have hmem : (other, k) ∈ s.desk := by simp [hd]
  have hentry := List.all_eq_true.mp h _ hmem
  simpa [hop, hfinished, waiting] using hentry

structure Vacant (s : Session) : Prop where
  nobody : ∀ id b, ¬s.Stands id b
  line : s.ready.line = []
  called : s.ready.called = []

structure Occupied (s : Session) (id : String) : Prop where
  stands : s.Stands id s.ready.observed
  alone : ∀ other b, s.Stands other b → other = id
  place : s.ready.line = [id] ∧ s.ready.called = [] ∧ s.ready.permit = false ∨
    s.ready.line = [] ∧ s.ready.called = [id]

def Single (s : Session) : Prop := s.Vacant ∨ ∃ id, s.Occupied id

/-- The tracker was touched by nothing that a single wait would notice. -/
theorem Occupied.congr {t : Session} (h : s.Occupied id)
    (hplaced : ∀ other b, t.Stands other b ↔ s.Stands other b)
    (hready : t.ready.line = s.ready.line ∧ t.ready.called = s.ready.called ∧
      t.ready.permit = s.ready.permit ∧ t.ready.observed = s.ready.observed) : t.Occupied id := by
  obtain ⟨hline, hcalled, hpermit, hobserved⟩ := hready
  refine { stands := ?_, alone := ?_, place := ?_ }
  · rw [hobserved, hplaced]
    exact h.stands
  · exact fun other b hother => h.alone other b ((hplaced other b).mp hother)
  · rw [hline, hcalled, hpermit]
    exact h.place

theorem single_of_clears (hw : placed s.desk id = some (w, false))
    (halone : ∀ other b, s.Stands other b → other = id)
    (hclears : Clears id (s.ready.poll id s.control w)) : (s.step (.poll id)).1.Single := by
  have hready : (s.step (.poll id)).1.ready = (s.ready.poll id s.control w).1 := by
    show (s.poll id).1.ready = _
    rw [poll_of_placed hw]
  have hplaced : placed (s.step (.poll id)).1.desk id =
      some ((s.ready.poll id s.control w).2.1, (s.ready.poll id s.control w).2.2.isSome) := by
    refine (placed_callWaits _ id).trans ?_
    show placed (s.poll id).1.desk id = _
    rw [poll_of_placed hw, placed_put_self]
  have hstill : ∀ other b, (s.step (.poll id)).1.Stands other b → other = id := by
    intro other b hother
    obtain ⟨_, hother⟩ | ⟨hpoll, _⟩ := stands_step hother
    · exact halone other b hother
    · exact (Step.poll.inj hpoll).symm
  obtain ⟨hcalled, ⟨hdone, hline⟩ | ⟨hlook, hline, hpermit⟩⟩ := hclears
  · refine .inl { nobody := ?_, line := by rw [hready, hline], called := by rw [hready, hcalled] }
    intro other b hother
    obtain rfl := hstill other b hother
    simp [Stands, hplaced, hdone] at hother
  · refine .inr ⟨id, { stands := ?_, alone := hstill, place := ?_ }⟩
    · rw [Stands, hplaced, hready, hlook]
      rfl
    · rw [hready]
      exact .inl ⟨hline, hcalled, hpermit⟩

theorem Vacant.step (h : s.Vacant) (a : Step) : (s.step a).1.Single := by
  by_cases hpoll : ∃ id w, a = .poll id ∧ placed s.desk id = some (w, false)
  · obtain ⟨id, w, rfl, hw⟩ := hpoll
    refine single_of_clears hw (fun other b hother => absurd hother (h.nobody other b)) ?_
    cases w with
    | fresh => exact clears_poll_fresh h.line h.called
    | inLine b => exact absurd hw (h.nobody id b)
  · have hnobody : ∀ id b, ¬(s.step a).1.Stands id b := by
      intro id b hstands
      obtain ⟨_, hstands⟩ | ⟨hlook, w, hw, _⟩ := stands_step hstands
      · exact h.nobody id b hstands
      · exact hpoll ⟨id, w, hlook, hw⟩
    have hremove : ∀ id, (s.remove id).1.ready = s.ready := by
      intro id
      obtain ⟨b, hstands, _⟩ | ⟨_, hready⟩ := s.remove_cases id
      · exact absurd hstands (h.nobody id b)
      · exact hready
    refine .inl { nobody := hnobody, line := ?_, called := ?_ }
    all_goals
      cases a with
      | signal => simp [Session.step, Session.apply, callWaits, signal, h.line, h.called]
      | wait id => simp [Session.step, Session.apply, callWaits, hremove, h.line, h.called]
      | drop id => simp [Session.step, Session.apply, callWaits, hremove, h.line, h.called]
      | poll id =>
        obtain hready | ⟨w, hw, _⟩ := s.ready_poll id
        · simp [Session.step, Session.apply, callWaits, hready, h.line, h.called]
        · exact absurd ⟨id, w, rfl, hw⟩ hpoll
      | _ => simp [Session.step, Session.apply, callWaits, Readiness.cancel, h.line, h.called]

/-- While one wait is in line, nothing is done to the others but to start and to drop them. -/
theorem Occupied.step_of_ne (h : s.Occupied id) (ha : s.admits a = true)
    (hne : name? a ≠ some id) : (s.step a).1.Occupied id := by
  have hidle : ∀ other w, a = .poll other → placed s.desk other ≠ some (w, false) := by
    rintro other w rfl hw
    obtain rfl := eq_of_admits ha (unfinished_iff.mpr ⟨w, hw⟩) h.stands
    exact hne rfl
  have hstands : ∀ other b, (s.step a).1.Stands other b ↔ s.Stands other b := by
    intro other b
    constructor
    · intro hother
      obtain ⟨_, hother⟩ | ⟨hpoll, w, hw, _⟩ := stands_step hother
      · exact hother
      · exact absurd hw (hidle other w hpoll)
    · intro hother
      obtain rfl := h.alone other b hother
      rwa [Stands, placed_step_of_ne hne]
  have hremove : ∀ other, name? a = some other → (s.remove other).1.ready = s.ready := by
    intro other hname
    obtain ⟨b, hother, _⟩ | ⟨_, hready⟩ := s.remove_cases other
    · obtain rfl := h.alone other b hother
      exact absurd hname hne
    · exact hready
  cases a with
  | signal =>
    refine { stands := ?_, alone := ?_, place := .inr ?_ }
    · rw [hstands, ready_step]
      exact observed_signal (r := s.ready) ▸ h.stands
    · exact fun other b hother => h.alone other b ((hstands other b).mp hother)
    · rw [ready_step]
      obtain ⟨hline, hcalled, _⟩ | ⟨hline, hcalled⟩ := h.place
      · simp [Session.apply, signal, hline, hcalled]
      · simp [Session.apply, signal, hline, hcalled]
  | wait other =>
    refine h.congr hstands ?_
    rw [ready_step, show (s.apply (.wait other)).1.ready = s.ready from hremove other rfl]
    exact ⟨rfl, rfl, rfl, rfl⟩
  | drop other =>
    refine h.congr hstands ?_
    rw [ready_step, show (s.apply (.drop other)).1.ready = s.ready from hremove other rfl]
    exact ⟨rfl, rfl, rfl, rfl⟩
  | poll other =>
    refine h.congr hstands ?_
    obtain hready | ⟨w, hw, _⟩ := s.ready_poll other
    · rw [ready_step, show (s.apply (.poll other)).1.ready = s.ready from hready]
      exact ⟨rfl, rfl, rfl, rfl⟩
    · exact absurd hw (hidle other w rfl)
  | _ => exact h.congr hstands ⟨rfl, rfl, rfl, rfl⟩

theorem Occupied.step (h : s.Occupied id) (ha : s.admits a = true) : (s.step a).1.Single := by
  by_cases hname : name? a = some id
  · have hleave : (s.remove id).1.ready = s.ready.leave id := by
      obtain ⟨b, _, hready⟩ | ⟨hnone, _⟩ := s.remove_cases id
      · exact hready
      · exact absurd h.stands (hnone _)
    obtain ⟨hline, hcalled⟩ := leave_of_alone (h.place.imp_left fun h => ⟨h.1, h.2.1⟩)
    have hnobody : (∀ other, a ≠ .poll other) → ∀ other b, ¬(s.step a).1.Stands other b := by
      intro hpoll other b hother
      obtain ⟨hne, hother⟩ | ⟨hlook, _⟩ := stands_step hother
      · exact hne (h.alone other b hother ▸ hname)
      · exact hpoll other hlook
    cases a with
    | wait other =>
      cases hname
      refine .inl { nobody := hnobody nofun, line := ?_, called := ?_ }
      · rw [ready_step, ← hline, ← hleave]
        rfl
      · rw [ready_step, ← hcalled, ← hleave]
        rfl
    | drop other =>
      cases hname
      refine .inl { nobody := hnobody nofun, line := ?_, called := ?_ }
      · rw [ready_step, ← hline, ← hleave]
        rfl
      · rw [ready_step, ← hcalled, ← hleave]
        rfl
    | poll other =>
      cases hname
      exact single_of_clears h.stands h.alone (clears_poll_inLine h.place)
    | _ => cases hname
  · exact .inr ⟨id, h.step_of_ne ha hname⟩

theorem Single.step (h : s.Single) (ha : s.admits a = true) : (s.step a).1.Single := by
  obtain hvacant | ⟨id, hoccupied⟩ := h
  · exact hvacant.step a
  · exact hoccupied.step ha

theorem Single.occupied (h : s.Single) (hstands : s.Stands id b) : s.Occupied id := by
  obtain hvacant | ⟨other, hoccupied⟩ := h
  · exact absurd hstands (hvacant.nobody id b)
  · obtain rfl := hoccupied.alone id b hstands
    exact hoccupied

theorem Single.clears (h : s.Single) (ha : s.admits (.poll id) = true)
    (hw : placed s.desk id = some (w, false)) : Clears id (s.ready.poll id s.control w) := by
  obtain hvacant | ⟨other, hoccupied⟩ := h
  · cases w with
    | fresh => exact clears_poll_fresh hvacant.line hvacant.called
    | inLine b => exact absurd hw (hvacant.nobody id b)
  · obtain rfl := eq_of_admits ha (unfinished_iff.mpr ⟨w, hw⟩) hoccupied.stands
    obtain ⟨rfl, _⟩ := Prod.mk.inj (Option.some.inj (hw.symm.trans hoccupied.stands))
    exact clears_poll_inLine hoccupied.place

/-! A wait that was called, and one that was not. -/

def Told (s : Session) : Prop :=
  ∀ id h, s.desk.find? id = some h → h.finished = false → waiting h.op = true →
    (id ∈ s.ready.called ∨ s.ready.cause.isSome = true) → h.woken = true

/-- Every step ends by waking those who were called. -/
theorem told_step (s : Session) (a : Step) : (s.step a).1.Told := by
  intro id g hg hlive hwaits hcalled
  have hfound := Desk.find?_wake (s.apply a).1.desk (fun id w =>
    if waiting w && (decide (id ∈ (s.apply a).1.ready.called) || (s.apply a).1.ready.cause.isSome)
    then some w else none) id
  obtain ⟨h, hh, rfl⟩ := Option.map_eq_some_iff.mp (hfound.symm.trans hg)
  replace hcalled : id ∈ (s.apply a).1.ready.called ∨ (s.apply a).1.ready.cause.isSome = true :=
    hcalled
  unfold Desk.roused at hlive hwaits ⊢
  by_cases hfinished : h.finished = true
  · simp [hfinished] at hlive
  · by_cases hwait : waiting h.op = true
    · simp [hfinished, hwait, hcalled]
    · simp [hfinished, hwait] at hwaits

theorem called_step (hcalled : id ∈ s.ready.called) (hne : name? a ≠ some id) :
    id ∈ (s.step a).1.ready.called := by
  have hother : ∀ other, name? a = some other → id ≠ other := by
    rintro other hname rfl
    exact hne hname
  have hremove : ∀ other, id ≠ other → id ∈ (s.remove other).1.ready.called := by
    intro other hne
    obtain ⟨b, _, hready⟩ | ⟨_, hready⟩ := s.remove_cases other
    · rw [hready]
      exact called_leave hne hcalled
    · rwa [hready]
  cases a with
  | signal =>
    rw [ready_step]
    simp only [Session.apply, signal]
    split
    · exact hcalled
    · exact List.mem_append_left _ hcalled
  | wait other => exact hremove other (hother other rfl)
  | drop other => exact hremove other (hother other rfl)
  | poll other =>
    show id ∈ (s.poll other).1.ready.called
    obtain hready | ⟨w, _, hready⟩ := s.ready_poll other
    · rwa [hready]
    · rw [hready]
      exact called_poll (hother other rfl) hcalled
  | _ => exact hcalled

/-- A signal calls the wait in line, if it was not called before. -/
theorem Occupied.called_signal (h : s.Occupied id) : id ∈ (s.step .signal).1.ready.called := by
  rw [ready_step]
  obtain ⟨hline, hcalled, _⟩ | ⟨hline, hcalled⟩ := h.place
  · simp [Session.apply, signal, hline, hcalled]
  · simp [Session.apply, signal, hline, hcalled]

/-- Whoever stands in line and is dealt with no more has the signal that came meanwhile. -/
theorem called_after (h : s.Occupied id) {as : List Step} (hturns : turns s as = true)
    (hspared : ∀ a ∈ as, name? a ≠ some id) (hsignal : .signal ∈ as) :
    id ∈ (s.after as).ready.called := by
  have hkept : ∀ (bs : List Step) (t : Session), (∀ a ∈ bs, name? a ≠ some id) →
      id ∈ t.ready.called → id ∈ (t.after bs).ready.called := by
    intro bs
    induction bs with
    | nil => exact fun _ _ hcalled => hcalled
    | cons b bs ih =>
      intro t hbs hcalled
      obtain ⟨hb, hbs⟩ := List.forall_mem_cons.mp hbs
      exact ih (t.step b).1 hbs (called_step hcalled hb)
  induction as generalizing s with
  | nil => cases hsignal
  | cons a as ih =>
    simp only [turns, Bool.and_eq_true] at hturns
    obtain ⟨ha, hrest⟩ := List.forall_mem_cons.mp hspared
    obtain rfl | hlater := List.mem_cons.mp hsignal
    · exact hkept as _ hrest h.called_signal
    · exact ih (h.step_of_ne hturns.1 ha) hturns.2 hrest hlater

/-! What the wait in line saw of the call. -/

/-- The call became ready in the course of a script, and no signal came after it. -/
def Unheralded (s : Session) (as : List Step) : Prop :=
  ∃ before rest, as = before ++ .setReady true :: rest ∧
    (s.after before).control = some false ∧ .signal ∉ rest

theorem Unheralded.concat {as : List Step} (h : s.Unheralded as) (ha : a ≠ .signal) :
    s.Unheralded (as ++ [a]) := by
  obtain ⟨before, rest, rfl, hcontrol, hnone⟩ := h
  refine ⟨before, rest ++ [a], by simp, hcontrol, ?_⟩
  simp [hnone, ha.symm]

/-- A wait that has seen a signal is in line on a call that is not ready, unless the call became ready
since and nobody said so. -/
def Current (s : Session) (as : List Step) : Prop :=
  ∀ id, (s.after as).ready.line = [id] → (s.after as).ready.observed = true →
    (s.after as).control = some true → s.Unheralded as

/-- A poll in a line without others leaves nobody in line who has seen that the call is ready. -/
theorem line_poll (h : s.Single) (ha : s.admits (.poll other) = true)
    (hw : placed s.desk other = some (w, false)) (hcontrol : s.control = some true)
    (hline : (s.ready.poll other s.control w).1.line = [id])
    (hobserved : (s.ready.poll other s.control w).1.observed = true) :
    s.ready.line = [id] ∧ s.ready.observed = true := by
  obtain ⟨_, ⟨_, hnone⟩ | ⟨hlook, _⟩⟩ := h.clears ha hw
  · rw [hnone] at hline
    cases hline
  · rw [hcontrol] at hlook hline hobserved
    obtain ⟨hsame, hfresh⟩ := linger_of_ready (congrArg Prod.snd hlook)
    rw [hsame] at hline hobserved
    cases w with
    | fresh =>
      have hseen : s.ready.observed = true := hobserved
      rw [hfresh rfl] at hseen
      cases hseen
    | inLine b => exact ⟨hline, hobserved⟩

theorem control_step (s : Session) (a : Step) :
    (s.step a).1.control = match a with
      | .setReady b => s.control.map fun _ => b
      | .release => none
      | _ => s.control := by
  cases a with
  | wait id => exact control_remove s id
  | drop id => exact control_remove s id
  | poll id =>
    show (s.poll id).1.control = s.control
    cases hlive : s.unfinished id with
    | false => exact (poll_of_finished hlive).2.1
    | true =>
      obtain ⟨w, hw⟩ := unfinished_iff.mp hlive
      rw [poll_of_placed hw]
  | _ => rfl

theorem after_concat (s : Session) (as : List Step) (a : Step) :
    s.after (as ++ [a]) = ((s.after as).step a).1 := by
  simp [after]

theorem after_append (s : Session) (as bs : List Step) :
    s.after (as ++ bs) = (s.after as).after bs := List.foldl_append

/-- Nobody is in line after a single wait got a signal or went away. -/
theorem Single.line_signal (h : s.Single) : (s.step .signal).1.ready.line = [] := by
  rw [ready_step]
  obtain hvacant | ⟨id, hoccupied⟩ := h
  · simp [Session.apply, signal, hvacant.line]
  · obtain ⟨hline, _, _⟩ | ⟨hline, _⟩ := hoccupied.place <;> simp [Session.apply, signal, hline]

theorem Single.ready_remove (h : s.Single) (id : String) :
    (s.remove id).1.ready = s.ready ∨ (s.remove id).1.ready.line = [] := by
  obtain ⟨b, hstands, hready⟩ | ⟨_, hready⟩ := s.remove_cases id
  · have hplace := (h.occupied hstands).place
    rw [hready]
    exact .inr (leave_of_alone (hplace.imp_left fun h => ⟨h.1, h.2.1⟩)).1
  · exact .inl hready

theorem Current.step {as : List Step} (h : s.Current as) (hsingle : (s.after as).Single)
    (ha : (s.after as).admits a = true) : s.Current (as ++ [a]) := by
  intro id hline hobserved hready
  rw [after_concat] at hline hobserved hready
  rw [control_step] at hready
  have hremove : ∀ other, ((s.after as).remove other).1.ready.line = [id] →
      ((s.after as).remove other).1.ready.observed = true → (s.after as).control = some true →
      s.Unheralded as := by
    intro other hline hobserved hready
    obtain hsame | hnone := hsingle.ready_remove other
    · rw [hsame] at hline hobserved
      exact h id hline hobserved hready
    · rw [hnone] at hline
      cases hline
  cases a with
  | signal =>
    rw [hsingle.line_signal] at hline
    cases hline
  | setReady b =>
    obtain ⟨was, hwas, rfl⟩ := Option.map_eq_some_iff.mp hready
    cases was with
    | true => exact (h id hline hobserved hwas).concat nofun
    | false => exact ⟨as, [], rfl, hwas, List.not_mem_nil⟩
  | release => cases hready
  | cancel st => exact (h id hline hobserved hready).concat nofun
  | unknown => exact (h id hline hobserved hready).concat nofun
  | wait other => exact (hremove other hline hobserved hready).concat nofun
  | drop other => exact (hremove other hline hobserved hready).concat nofun
  | poll other =>
    refine Unheralded.concat ?_ nofun
    rw [ready_step] at hline hobserved
    obtain hsame | ⟨w, hw, hlook⟩ := (s.after as).ready_poll other
    · rw [show ((s.after as).apply (.poll other)).1.ready = _ from hsame] at hline hobserved
      exact h id hline hobserved hready
    · rw [show ((s.after as).apply (.poll other)).1.ready = _ from hlook] at hline hobserved
      obtain ⟨hline, hobserved⟩ := line_poll hsingle ha hw hready hline hobserved
      exact h id hline hobserved hready

theorem turns_append (s : Session) (as bs : List Step) :
    turns s (as ++ bs) = (turns s as && turns (s.after as) bs) := by
  induction as generalizing s with
  | nil => simp [turns, after]
  | cons a as ih =>
    rw [List.cons_append, turns, ih, turns, Bool.and_assoc]
    rfl

theorem single_after (control : Option Bool) {as : List Step}
    (hturns : turns (opened control) as = true) :
    ((opened control).after as).Single ∧ (opened control).Current as := by
  induction as using List.reverseRecOn with
  | nil => exact ⟨.inl ⟨nofun, rfl, rfl⟩, nofun⟩
  | append_singleton as a ih =>
    rw [turns_append, Bool.and_eq_true] at hturns
    obtain ⟨hbefore, hlast⟩ := hturns
    have ha : ((opened control).after as).admits a = true := by simpa [turns] using hlast
    obtain ⟨hsingle, hcurrent⟩ := ih hbefore
    rw [after_concat]
    exact ⟨hsingle.step ha, hcurrent.step hsingle ha⟩

theorem told_after (control : Option Bool) (as : List Step) : ((opened control).after as).Told := by
  induction as using List.reverseRecOn with
  | nil => exact nofun
  | append_singleton as a ih =>
    rw [after_concat]
    exact told_step _ a

/-- Whoever was looked at in vain stands in line. -/
theorem stands_of_pending (hlook : (s.step (.poll id)).2 = .look .pending) :
    ∃ b, (s.step (.poll id)).1.Stands id b := by
  have hpending : (s.poll id).2 = .pending := Answer.look.inj hlook
  obtain ⟨w, hw⟩ := placed_of_poll hpending ⟨nofun, nofun⟩
  rw [poll_of_placed hw] at hpending
  have hout : (s.ready.poll id s.control w).2.2 = none := by
    cases hres : (s.ready.poll id s.control w).2.2 with
    | none => rfl
    | some r => simp [hres] at hpending
  obtain ⟨b, hb⟩ := inLine_of_poll hout
  refine ⟨b, (placed_callWaits _ id).trans ?_⟩
  show placed (s.poll id).1.desk id = _
  rw [poll_of_placed hw, placed_put_self, hb]
  rfl

theorem placed_after {as : List Step} (hspared : ∀ a ∈ as, name? a ≠ some id) :
    placed (s.after as).desk id = placed s.desk id := by
  induction as generalizing s with
  | nil => rfl
  | cons a as ih =>
    obtain ⟨ha, hrest⟩ := List.forall_mem_cons.mp hspared
    exact (ih hrest).trans (placed_step_of_ne ha)

/-- A wait that stands in line and was not woken was not called. -/
theorem not_called_of_unwoken (h : s.Told) (hstands : s.Stands id b) (hunwoken : id ∉ s.desk.woken) :
    id ∉ s.ready.called := by
  intro hcalled
  obtain ⟨k, hk, hplace⟩ := Option.map_eq_some_iff.mp hstands
  obtain ⟨hop, hlive⟩ := Prod.mk.inj hplace
  have hwoken := h id k hk hlive (by rw [hop]; rfl) (.inl hcalled)
  rw [Desk.woken_of_not_mem hk hunwoken] at hwoken
  cases hwoken

/-- A look at a wait that is not finished, once all waits were cancelled. -/
theorem poll_cancelled {st : Status} (hend : s.ready.cause = some st)
    (hlive : s.unfinished id = true) : (s.poll id).2 = .done (.error st) := by
  obtain ⟨w, hw⟩ := unfinished_iff.mp hlive
  simp [poll_of_placed hw, error_of_cause hend]

/-- A look that succeeds. -/
theorem poll_done (hlook : (s.poll id).2 = .done (.ok ())) :
    s.ready.cause = none ∧ s.control = some true ∧ s.ready.heard = true := by
  obtain ⟨w, hw⟩ := placed_of_poll hlook ⟨nofun, nofun⟩
  rw [poll_of_placed hw] at hlook
  have hout : (s.ready.poll id s.control w).2.2 = some (.ok ()) := by
    cases hres : (s.ready.poll id s.control w).2.2 with
    | none => simp [hres] at hlook
    | some r => simpa [hres] using hlook
  exact poll_ok hout

/-- A wait succeeds only after a signal, before any cancellation, and on a call that is there and
ready; and once the waits were cancelled, each fails with the status of the first cancellation, even
if the call is gone or a signal is kept. While waits are taken one at a time, one that was looked at in
vain and was not woken has missed no signal since; and if a signal came after each time that the call
became ready, the call is not ready now, or there never was a signal. -/
theorem wait_faithful (control : Option Bool) (as : List Step) :
    let o := opened control
    let s := o.after as
    (∀ id, (s.step (.poll id)).2 = .look (.done (.ok ())) →
      .signal ∈ as ∧ (∀ st, .cancel st ∉ as) ∧ s.control = some true) ∧
    (∀ st id, as.findSome? cancels? = some st → s.unfinished id = true →
      (s.step (.poll id)).2 = .look (.done (.error st))) ∧
    (turns o as = true →
      ∀ before id rest, as = before ++ .poll id :: rest →
        ((o.after before).step (.poll id)).2 = .look .pending →
        (∀ a ∈ rest, name? a ≠ some id) →
        id ∉ s.desk.woken →
        .signal ∉ rest ∧
          ((∀ xs ys, as = xs ++ .setReady true :: ys → (o.after xs).control = some false →
              .signal ∈ ys) →
            s.control ≠ some true ∨ .signal ∉ as)) := by
  intro o s
  have hsincere : o.Sincere := nofun
  obtain ⟨_, hheard⟩ := sincere_after hsincere as
  have hcause : s.ready.cause = as.findSome? cancels? := (cause_after o as).trans Option.none_or
  refine ⟨fun id hlook => ?_, fun st id hfirst hlive => ?_, fun hturns => ?_⟩
  · obtain ⟨hnone, hready, hkept⟩ := poll_done (Answer.look.inj hlook)
    refine ⟨(hheard.mp hkept).resolve_left nofun, fun st hcancel => ?_, hready⟩
    have hopen := List.findSome?_eq_none_iff.mp (hcause.symm.trans hnone) _ hcancel
    cases hopen
  · exact congrArg Answer.look (poll_cancelled (hcause.trans hfirst) hlive)
  · rintro before id rest rfl hlook hspared hunwoken
    obtain ⟨hone, hcurrent⟩ := single_after control hturns
    rw [turns_append, Bool.and_eq_true, turns, Bool.and_eq_true] at hturns
    obtain ⟨hbefore, hpoll, hrest⟩ := hturns
    obtain ⟨hsingle, _⟩ := single_after control hbefore
    obtain ⟨b, hstands⟩ := stands_of_pending hlook
    have hs : s = ((o.after before).step (.poll id)).1.after rest := by
      simp [s, after_append]
      rfl
    have hstill : s.Stands id b := by
      rw [hs, Stands, placed_after hspared]
      exact hstands
    have hmissed : id ∉ s.ready.called :=
      not_called_of_unwoken (told_after control _) hstill hunwoken
    refine ⟨fun hsignal => hmissed ?_, fun hheralded => ?_⟩
    · rw [hs]
      exact called_after ((hsingle.step hpoll).occupied hstands) hrest hspared hsignal
    · -- It has no signal: either it saw the call once, or nobody ever had a signal.
      obtain ⟨hline, hcalled, hpermit⟩ | ⟨_, hcalled⟩ := (hone.occupied hstill).place
      · by_cases hseen : s.ready.observed = true
        · refine .inl fun hready => ?_
          obtain ⟨xs, ys, hsplit, hturned, hnone⟩ := hcurrent id hline hseen hready
          exact hnone (hheralded xs ys hsplit hturned)
        · refine .inr fun hsignal => ?_
          have hkept : s.ready.heard = true := hheard.mpr (.inr hsignal)
          simp only [Bool.not_eq_true] at hseen
          rw [heard, hseen, hpermit, hcalled] at hkept
          cases hkept
      · exact absurd (hcalled ▸ List.mem_singleton_self id) hmissed

/-- A wait is in line while the call becomes ready and unready again, before the only signal comes: it
looks and waits on. Another one succeeds on a call that is ready; and a third fails after a
cancellation, with a signal kept and the call gone. -/
theorem wait_faithful_unready :
    let st : Status := { code := .cancelled, message := "gone" }
    let as : List Step :=
      [.wait "a", .poll "a", .setReady true, .setReady false, .signal, .poll "a", .setReady false]
    let bs : List Step := [.setReady true, .signal, .wait "b"]
    let cs : List Step := [.signal, .cancel st, .release, .wait "c"]
    (((opened (some false)).after as).control ≠ some true ∨ .signal ∉ as) ∧
      ((opened (some false)).after bs).control = some true ∧
      (((opened (some false)).after cs).step (.poll "c")).2 = .look (.done (.error st)) := by
  intro st as bs cs
  have hunready := (wait_faithful (some false) as).2.2 (by decide)
    [.wait "a", .poll "a", .setReady true, .setReady false, .signal] "a" [.setReady false] rfl rfl
    (by simp [name?])
  refine ⟨(hunready ?_).2 ?_, ((wait_faithful (some false) bs).1 "b" rfl).2.2,
    (wait_faithful (some false) cs).2.1 st "c" rfl rfl⟩
  · rw [Desk.woken, List.mem_mergeSort]
    decide
  · intro xs ys hsplit hturned
    have hrest : ys = [.setReady false, .signal, .poll "a", .setReady false] := by
      simp [as, List.cons_eq_append_iff] at hsplit
      exact hsplit.2
    simp [hrest]

end Session
end Readiness
end PacedCall
