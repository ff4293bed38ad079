import PacedCall.Proofs.Queue.Fifo
import PacedCall.Proofs.Queue.Lasting

/-!
No operation on a queue sleeps through what it waits for. Whoever is in line for a call has found
nothing, and whatever would let it find something calls it: a value that comes into an empty buffer,
the first close, every cancellation. A value that moves up into the buffer calls no reader, but then
the buffer was not empty before, and no reader was in line. A sender is woken with its fate, at the
end of the step that decides it.
-/
namespace PacedCall
namespace Queue

def Op.enqueue? : Op → Option Enqueue
  | .send e _ => some e
  | _ => none

def Dry {α : Type} (q : Queue α) : Prop := q.buffer = [] ∧ q.termination = none

def Open {α : Type} (q : Queue α) : Prop := q.termination = none

namespace Session
open Desk (woken_of_not_mem)
variable {α : Type} {s : Session α} {capacity : Nat} {id : String} {h g k : Held Op} {d e f : Desk Op}

/-! What is under a name, while nobody deals with it. -/

def concerns (s : Session α) (id : String) (a : Step α) : Bool :=
  (s.held || !needsQueue a) && decide (name? a = some id)

def spares (id : String) : Session α → List (Step α) → Bool
  | _, [] => true
  | s, a :: as => !s.concerns id a && spares id (s.step a).1 as

structure Rouses (h g : Held Op) : Prop where
  finished : g.finished = h.finished
  sender : g.op.enqueue? = h.op.enqueue?
  same : g = h ∨ g.woken = true

def Keeps (id : String) (d e : Desk Op) : Prop :=
  ∀ h, d.find? id = some h → ∃ g, e.find? id = some g ∧ Rouses h g

namespace Keeps

theorem of_eq (he : e.find? id = d.find? id) : Keeps id d e :=
  fun h hh => ⟨h, he.trans hh, rfl, rfl, .inl rfl⟩

theorem trans (hde : Keeps id d e) (hef : Keeps id e f) : Keeps id d f := by
  intro h hh
  obtain ⟨g, hg, hhg⟩ := hde h hh
  obtain ⟨k, hk, hgk⟩ := hef g hg
  refine ⟨k, hk, hgk.finished.trans hhg.finished, hgk.sender.trans hhg.sender, ?_⟩
  obtain rfl | hwoken := hgk.same
  · exact hhg.same
  · exact .inr hwoken

theorem wake (d : Desk Op) {moved : String → Op → Option Op}
    (hm : ∀ id op op', moved id op = some op' → op'.enqueue? = op.enqueue?) (id : String) :
    Keeps id d (d.wake moved) := by
  intro h hh
  refine ⟨Desk.roused moved id h, by rw [Desk.find?_wake, hh, Option.map_some], ?_⟩
  rw [Desk.roused]
  split
  · exact ⟨rfl, rfl, .inl rfl⟩
  · split
    · next op' hmoved => exact ⟨rfl, hm id _ op' hmoved, .inr rfl⟩
    · exact ⟨rfl, rfl, .inl rfl⟩

theorem callReaders (s : Session α) (id : String) : Keeps id s.desk s.callReaders.desk := by
  simp only [Session.callReaders]
  refine wake s.desk ?_ id
  intro _ op op' h
  cases op with
  | recv p => cases p <;> cases h; rfl
  | readable p => cases p <;> cases h; rfl
  | _ => cases h

theorem callWatchers (s : Session α) (id : String) : Keeps id s.desk s.callWatchers.desk := by
  simp only [Session.callWatchers]
  refine wake s.desk ?_ id
  intro _ op op' h
  cases op with
  | closed p => cases p <;> cases h; rfl
  | _ => cases h

theorem callSenders (s : Session α) (id : String) : Keeps id s.desk s.callSenders.desk := by
  simp only [Session.callSenders]
  refine wake s.desk ?_ id
  intro _ op op' h
  split at h
  · split at h <;> cases h
    rfl
  · cases h

theorem remove (s : Session α) {other : String} (hne : id ≠ other) :
    Keeps id s.desk (s.remove other).1.desk := by
  refine of_eq ?_
  unfold Session.remove
  split
  · rfl
  · exact Desk.find?_erase_of_ne _ hne

theorem start (s : Session α) (op : Op) {other : String} (hne : id ≠ other) :
    Keeps id s.desk (s.start other op).desk :=
  (remove s hne).trans (of_eq (Desk.find?_put_of_ne _ _ hne))

theorem poll (s : Session α) {other : String} (hne : id ≠ other) :
    Keeps id s.desk (s.poll other).1.desk := by
  refine of_eq ?_
  unfold Session.poll
  split
  · rfl
  · split <;> exact Desk.find?_put_of_ne _ _ hne

theorem apply (s : Session α) {a : Step α} (hne : name? a ≠ some id) :
    Keeps id s.desk (s.apply a).1.desk := by
  have hname : ∀ other, name? a = some other → id ≠ other := by
    rintro other hother rfl
    exact hne hother
  cases a with
  | trySend v =>
    simp only [Session.apply]
    split
    · exact callReaders { s with queue := (s.queue.trySend v).1 } id
    · exact of_eq rfl
  | send other v =>
    have hstart : Keeps id s.desk (Session.start { s with queue := (s.queue.send v).1 } other
        (.send (s.queue.send v).2 false)).desk :=
      start { s with queue := (s.queue.send v).1 } _ (hname other rfl)
    simp only [Session.apply]
    split
    · exact hstart.trans (callReaders _ id)
    · exact hstart
  | recv other => exact start s _ (hname other rfl)
  | readable other => exact start s _ (hname other rfl)
  | closed other => exact start s _ (hname other rfl)
  | close t =>
    have hcalled := callReaders { s with queue := (s.queue.close t).1 } id
    simp only [Session.apply]
    split
    · exact hcalled.trans (callWatchers _ id)
    · exact of_eq rfl
  | cancel st =>
    have hcalled := callReaders { s with queue := (s.queue.cancel st).1 } id
    simp only [Session.apply]
    split
    · exact hcalled.trans (callWatchers _ id)
    · exact hcalled
  | poll other => exact poll s (hname other rfl)
  | drop other => exact remove s (hname other rfl)
  | tryRecv => exact of_eq rfl
  | drain => exact of_eq rfl
  | letGo => exact of_eq rfl
  | unknown => exact of_eq rfl

theorem tidy (s : Session α) (id : String) : Keeps id s.desk s.tidy.desk := by
  unfold Session.tidy
  split
  · exact callSenders s id
  · exact callSenders { s with queue := s.queue.release } id

end Keeps

theorem keeps_step {a : Step α} (ha : s.concerns id a = false) :
    Keeps id s.desk (s.step a).1.desk := by
  rw [step]
  split
  · exact .of_eq rfl
  · next hrefused =>
    have hne : name? a ≠ some id := by
      intro hname
      cases hheld : s.held <;> cases hneeds : needsQueue a <;>
        simp [concerns, hname, hheld, hneeds] at ha hrefused
    exact (Keeps.apply s hne).trans (.tidy _ id)

theorem keeps_after {as : List (Step α)} (has : spares id s as = true) :
    Keeps id s.desk (s.after as).desk := by
  induction as generalizing s with
  | nil => exact .of_eq rfl
  | cons a as ih =>
    simp only [spares, Bool.and_eq_true, Bool.not_eq_true'] at has
    exact (keeps_step has.1).trans (ih has.2)

/-! Whoever is in line for a call waits for something that is not there. -/

/-- Of every unfinished operation that such a call would reach, the queue is as it is while there
is no call. -/
def Rests (call : Op → Option Op) (calm : Queue α → Prop) (s : Session α) : Prop :=
  ∀ id h, s.desk.find? id = some h → h.finished = false → (call h.op).isSome = true → calm s.queue

variable {call : Op → Option Op} {calm : Queue α → Prop}

namespace Rests

theorem queue (hs : s.Rests call calm) {q : Queue α} (hq : calm s.queue → calm q) :
    Rests call calm { s with queue := q } :=
  fun id h hh hlive hcall => hq (hs id h hh hlive hcall)

/-- A desk on which nobody new is in line. -/
theorem desk (hs : s.Rests call calm)
    (hd : ∀ id g, d.find? id = some g → g.finished = false → (call g.op).isSome = true →
      ∃ h, s.desk.find? id = some h ∧ h.finished = false ∧ (call h.op).isSome = true) :
    Rests call calm { s with desk := d } := by
  intro id g hg hlive hcall
  obtain ⟨h, hh, hlive, hcall⟩ := hd id g hg hlive hcall
  exact hs id h hh hlive hcall

/-- Whoever is woken is in line no more. -/
theorem wake (hs : s.Rests call calm) {moved : String → Op → Option Op}
    (hm : ∀ id op op', moved id op = some op' → call op' = none) :
    Rests call calm { s with desk := s.desk.wake moved } := by
  refine hs.desk ?_
  intro id g hg hlive hcall
  rw [Desk.find?_wake] at hg
  obtain ⟨h, hh, rfl⟩ := Option.map_eq_some_iff.mp hg
  rw [Desk.roused] at hlive hcall
  split at hlive
  · next hfinished =>
    rw [if_pos hfinished] at hcall
    exact ⟨h, hh, hlive, hcall⟩
  · next hfinished =>
    rw [if_neg hfinished] at hcall
    split at hcall
    · next op' hmoved =>
      rw [hm id _ op' hmoved] at hcall
      cases hcall
    · exact ⟨h, hh, by simpa using hfinished, hcall⟩

/-- Once everybody in line was called, nobody is. -/
theorem of_call (s : Session α) (calm : Queue α → Prop)
    (hm : ∀ op op', call op = some op' → call op' = none) :
    Rests call calm { s with desk := s.desk.wake fun _ op => call op } := by
  intro id g hg hlive hcall
  simp only [Desk.find?_wake] at hg
  obtain ⟨h, hh, rfl⟩ := Option.map_eq_some_iff.mp hg
  rw [Desk.roused] at hlive hcall
  split at hlive
  · next hfinished => cases hfinished.symm.trans hlive
  · next hfinished =>
    rw [if_neg hfinished] at hcall
    split at hcall
    · next op' hmoved =>
      rw [hm _ op' hmoved] at hcall
      cases hcall
    · next hnone =>
      rw [hnone] at hcall
      cases hcall

theorem put (hs : s.Rests call calm) {q : Queue α} (hq : calm s.queue → calm q)
    (hg : g.finished = false → (call g.op).isSome = true → calm q) :
    Rests call calm { s with queue := q, desk := s.desk.put id g } := by
  intro other k hk hlive hcall
  by_cases hne : other = id
  · subst hne
    rw [show ({ s with queue := q, desk := s.desk.put other g } : Session α).desk.find? other = _
      from Desk.find?_put_self _ _ _] at hk
    cases hk
    exact hg hlive hcall
  · rw [show ({ s with queue := q, desk := s.desk.put id g } : Session α).desk.find? other = _
      from Desk.find?_put_of_ne _ _ hne] at hk
    exact hq (hs other k hk hlive hcall)

theorem remove (hs : s.Rests call calm) (id : String)
    (hq : calm s.queue → calm (s.without id)) : (s.remove id).1.Rests call calm := by
  have hqueue := queue_remove s id
  intro other k hk hlive hcall
  rw [hqueue]
  refine hq (hs other k ?_ hlive hcall)
  revert hk
  unfold Session.remove
  split
  · exact fun hk => hk
  · by_cases hne : other = id
    · subst hne
      simp only [Desk.find?_erase_self]
      exact nofun
    · simp only [Desk.find?_erase_of_ne _ hne]
      exact fun hk => hk

end Rests

theorem uncallable_callReader {op op' : Op} (h : op.callReader = some op') :
    op'.callReader = none ∧ op'.callWatcher = none := by
  cases op with
  | recv p => cases p <;> cases h; exact ⟨rfl, rfl⟩
  | readable p => cases p <;> cases h; exact ⟨rfl, rfl⟩
  | _ => cases h

theorem uncallable_callWatcher {op op' : Op} (h : op.callWatcher = some op') :
    op'.callReader = none ∧ op'.callWatcher = none := by
  cases op with
  | closed p => cases p <;> cases h; exact ⟨rfl, rfl⟩
  | _ => cases h

structure Waits (s : Session α) : Prop where
  readers : s.Rests Op.callReader Dry
  watchers : s.Rests Op.callWatcher Open

namespace Waits

theorem queue (hs : s.Waits) {q : Queue α} (hdry : Dry s.queue → Dry q)
    (hopen : Open s.queue → Open q) : Waits { s with queue := q } :=
  ⟨hs.readers.queue hdry, hs.watchers.queue hopen⟩

/-- Readers may be called at any time. -/
theorem callReaders (hs : s.Rests Op.callWatcher Open) : s.callReaders.Waits :=
  { readers := .of_call s Dry fun _ _ h => (uncallable_callReader h).1
    watchers := hs.wake fun _ _ _ h => (uncallable_callReader h).2 }

/-- When everybody is called, it does not matter what the queue has come to. -/
theorem callAll (s : Session α) : s.callReaders.callWatchers.Waits := by
  have hreaders : s.callReaders.Rests Op.callReader Dry :=
    .of_call s Dry fun _ _ h => (uncallable_callReader h).1
  exact
    { readers := hreaders.wake fun _ _ _ h => (uncallable_callWatcher h).1
      watchers := .of_call s.callReaders Open fun _ _ h => (uncallable_callWatcher h).2 }

theorem callSenders (hs : s.Waits) : s.callSenders.Waits := by
  refine ⟨hs.readers.wake ?_, hs.watchers.wake ?_⟩
  all_goals
    intro _ op op' h
    split at h
    · split at h <;> cases h
      rfl
    · cases h

theorem tidy (hs : s.Waits) : s.tidy.Waits := by
  unfold Session.tidy
  split
  · exact hs.callSenders
  · have hreleased : Waits { s with queue := s.queue.release } :=
      hs.queue (fun hdry => ⟨rfl, hdry.2⟩) fun hopen => hopen
    exact hreleased.callSenders

end Waits

theorem dry_tryRecv {q : Queue α} (hq : Dry q) : Dry q.tryRecv.1 := by
  rw [tryRecv, hq.1, hq.2]
  exact hq

theorem dry_drainWith {q : Queue α} (fuel : Nat) (hq : Dry q) : Dry (q.drainWith fuel).1 :=
  drainWith_of_tryRecv (fun _ => dry_tryRecv) hq fuel

theorem termination_drainWith (fuel : Nat) (q : Queue α) :
    (q.drainWith fuel).1.termination = q.termination :=
  drainWith_of_tryRecv (P := fun p => p.termination = q.termination)
    (fun p => p.termination_tryRecv.trans) rfl fuel

/-- Nothing is received from a queue that is still to bring more. -/
theorem dry_of_unsettled {q : Queue α} (hq : q.tryRecv.2.settled? = none) : Dry q.tryRecv.1 := by
  cases hb : q.buffer with
  | cons v rest =>
    rw [tryRecv, hb] at hq
    cases hq
  | nil =>
    cases ht : q.termination with
    | none => exact dry_tryRecv ⟨hb, ht⟩
    | some t =>
      rw [tryRecv, hb, ht] at hq
      cases t <;> cases hq

/-- Giving up what goes by a name leaves the buffer and the end of the queue alone. -/
theorem exists_without (s : Session α) (id : String) :
    ∃ waiting fates, s.without id = { s.queue with waiting := waiting, fates := fates } := by
  rw [without]
  split
  · exact ⟨_, _, rfl⟩
  · exact ⟨s.queue.waiting, s.queue.fates, rfl⟩

theorem dry_without (id : String) (hq : Dry s.queue) : Dry (s.without id) := by
  obtain ⟨waiting, fates, hsame⟩ := s.exists_without id
  exact hsame ▸ hq

theorem open_without (id : String) (hq : Open s.queue) : Open (s.without id) := by
  obtain ⟨waiting, fates, hsame⟩ := s.exists_without id
  exact hsame ▸ hq

theorem Waits.remove (hs : s.Waits) (id : String) : (s.remove id).1.Waits :=
  ⟨hs.readers.remove id (dry_without id), hs.watchers.remove id (open_without id)⟩

/-- What begins under a name is not in line yet. -/
theorem Rests.start (hs : s.Rests call calm) (id : String)
    (hq : calm s.queue → calm (s.without id)) {op : Op} (hop : call op = none) :
    (s.start id op).Rests call calm := by
  refine (hs.remove id hq).put (fun hq => hq) fun _ hcall => ?_
  rw [show call op = none from hop] at hcall
  cases hcall

theorem Waits.start (hs : s.Waits) (id : String) {op : Op}
    (hop : op.callReader = none ∧ op.callWatcher = none) : (s.start id op).Waits :=
  ⟨hs.readers.start id (dry_without id) hop.1, hs.watchers.start id (open_without id) hop.2⟩

/-- An operation that was looked at in vain, and is in line for a call, found nothing. -/
theorem lookAt_waits (q : Queue α) {op : Op} (hreader : op.callReader.isSome = true → Dry q)
    (hwatcher : op.callWatcher.isSome = true → Open q) {r : Queue α} {op' : Op}
    {out : Option (Outcome α)} (hl : lookAt q op = (r, op', out)) :
    (Dry q → Dry r) ∧ (Open q → Open r) ∧
      ((out.isSome && finishes op') = false →
        (op'.callReader.isSome = true → Dry r) ∧ (op'.callWatcher.isSome = true → Open r)) := by
  have hnone : ∀ {x : Prop}, (none : Option Op).isSome = true → x := fun h => by cases h
  cases op with
  | send e w =>
    obtain ⟨fates, hq⟩ := exists_pollSend q e
    simp only [lookAt, Prod.mk.injEq] at hl
    obtain ⟨rfl, rfl, rfl⟩ := hl
    rw [hq]
    exact ⟨fun hd => hd, fun ho => ho, fun _ => ⟨hnone, hnone⟩⟩
  | recv p =>
    have htaken : (Dry q → Dry q.tryRecv.1) ∧ (Open q → Open q.tryRecv.1) ∧
        (q.tryRecv.2.settled?.isSome = false → Dry q.tryRecv.1) :=
      ⟨dry_tryRecv, q.termination_tryRecv.trans, fun hnone => dry_of_unsettled (by simpa using hnone)⟩
    cases p with
    | parked =>
      simp only [lookAt, Prod.mk.injEq] at hl
      obtain ⟨rfl, rfl, rfl⟩ := hl
      exact ⟨fun hd => hd, fun ho => ho, fun _ => ⟨hreader, hnone⟩⟩
    | _ =>
      simp only [lookAt, Prod.mk.injEq] at hl
      obtain ⟨rfl, rfl, rfl⟩ := hl
      refine ⟨htaken.1, htaken.2.1, fun hvain => ⟨fun _ => htaken.2.2 ?_, hnone⟩⟩
      simpa [finishes] using hvain
  | readable p =>
    cases p with
    | parked =>
      simp only [lookAt, Prod.mk.injEq] at hl
      obtain ⟨rfl, rfl, rfl⟩ := hl
      exact ⟨fun hd => hd, fun ho => ho, fun _ => ⟨hreader, hnone⟩⟩
    | _ =>
      simp only [lookAt, Prod.mk.injEq] at hl
      obtain ⟨rfl, rfl, rfl⟩ := hl
      refine ⟨fun hd => hd, fun ho => ho, fun hvain => ⟨fun _ => ?_, hnone⟩⟩
      simpa [finishes, readable, Dry] using hvain
  | closed p =>
    cases p with
    | parked =>
      simp only [lookAt, Prod.mk.injEq] at hl
      obtain ⟨rfl, rfl, rfl⟩ := hl
      exact ⟨fun hd => hd, fun ho => ho, fun _ => ⟨hnone, hwatcher⟩⟩
    | _ =>
      simp only [lookAt, Prod.mk.injEq] at hl
      obtain ⟨rfl, rfl, rfl⟩ := hl
      refine ⟨fun hd => hd, fun ho => ho, fun hvain => ⟨hnone, fun _ => ?_⟩⟩
      simpa [finishes, Open] using hvain

theorem Waits.poll (hs : s.Waits) (id : String) : (s.poll id).1.Waits := by
  rw [Session.poll]
  cases hh : s.desk.find? id with
  | none => exact hs
  | some h =>
    by_cases hfinished : h.finished = true
    · simp only [hfinished, if_true]
      exact ⟨hs.readers.put (fun hq => hq) (by simp), hs.watchers.put (fun hq => hq) (by simp)⟩
    · have hlive : h.finished = false := by simpa using hfinished
      obtain ⟨⟨r, op', out⟩, hl⟩ : ∃ x, lookAt s.queue h.op = x := ⟨_, rfl⟩
      obtain ⟨hdry, hopen, hvain⟩ :=
        lookAt_waits s.queue (hs.readers id h hh hlive) (hs.watchers id h hh hlive) hl
      simp only [hlive, Bool.false_eq_true, if_false, hl]
      exact ⟨hs.readers.put hdry fun hnone => (hvain hnone).1,
        hs.watchers.put hopen fun hnone => (hvain hnone).2⟩

/-- A send that did not find a place at once puts nothing in the buffer. -/
theorem dry_send {q : Queue α} {v : α} (hwaits : (q.send v).2.immediate = false) (hq : Dry q) :
    Dry (q.send v).1 := by
  rw [send, hq.2] at hwaits ⊢
  simp only at hwaits ⊢
  split at hwaits
  · cases hwaits
  · next hr =>
    rw [if_neg hr]
    exact ⟨hq.1, rfl⟩

theorem trySend_of_refused {q : Queue α} {v : α} {x : Refusal}
    (hrefused : (q.trySend v).2 = .error x) : (q.trySend v).1 = q := by
  rw [trySend] at hrefused ⊢
  split
  · rfl
  · next ho =>
    rw [if_neg ho] at hrefused
    split
    · next hr =>
      rw [if_pos hr] at hrefused
      cases hrefused
    · rfl

/-- Closing once more changes nothing. -/
theorem close_of_late {q : Queue α} {t : Termination} (hlate : (q.close t).2 = false) :
    (q.close t).1 = q := by
  rw [close] at hlate ⊢
  split
  · rfl
  · next hnone =>
    rw [hnone] at hlate
    cases hlate

theorem Waits.apply (hs : s.Waits) (a : Step α) : (s.apply a).1.Waits := by
  cases a with
  | trySend v =>
    simp only [Session.apply]
    split
    · exact .callReaders (hs.watchers.queue (termination_trySend s.queue v).trans)
    · next hrefused =>
      rw [trySend_of_refused hrefused]
      exact hs
  | send id v =>
    have hopen : Open s.queue → Open (s.queue.send v).1 := (termination_send s.queue v).trans
    simp only [Session.apply]
    split
    · have hwatchers : Session.Rests Op.callWatcher Open { s with queue := (s.queue.send v).1 } :=
        hs.watchers.queue hopen
      exact .callReaders (hwatchers.start id (open_without id) rfl)
    · next hwaits =>
      have hqueued : Waits { s with queue := (s.queue.send v).1 } :=
        hs.queue (dry_send (by simpa using hwaits)) hopen
      exact hqueued.start id ⟨rfl, rfl⟩
  | recv id => exact hs.start id ⟨rfl, rfl⟩
  | readable id => exact hs.start id ⟨rfl, rfl⟩
  | closed id => exact hs.start id ⟨rfl, rfl⟩
  | tryRecv => exact hs.queue dry_tryRecv s.queue.termination_tryRecv.trans
  | drain =>
    have hdrained : Waits { s with queue := s.queue.drain.1 } :=
      hs.queue (dry_drainWith _) (termination_drainWith _ s.queue).trans
    exact hdrained
  | close t =>
    simp only [Session.apply]
    split
    · exact .callAll _
    · next hlate =>
      rw [close_of_late (by simpa using hlate)]
      exact hs
  | cancel st =>
    simp only [Session.apply]
    split
    · exact .callAll _
    · next hlate =>
      -- A queue that was closed before has nobody in line for its end.
      refine .callReaders (hs.watchers.queue fun hopen => ?_)
      simp [cancel, close, show s.queue.termination = none from hopen] at hlate
  | letGo => exact ⟨hs.readers, hs.watchers⟩
  | poll id => exact hs.poll id
  | drop id => exact hs.remove id
  | unknown => exact hs

theorem Waits.step (hs : s.Waits) (a : Step α) : (s.step a).1.Waits := by
  rw [Session.step]
  split
  · exact hs
  · exact (hs.apply a).tidy

def Tells (s : Session α) : Prop :=
  ∀ id h t, s.desk.find? id = some h → h.finished = false → h.op = .send (.inLine t) true →
    h.woken = false → s.queue.fate? t = none

/-- Every step ends by waking the senders whose fate is known. -/
theorem tells_tidy (s : Session α) : s.tidy.Tells := by
  have hcalled : ∀ r : Session α, r.callSenders.Tells := by
    intro r id g t hg hlive hop hwoken
    simp only [callSenders, Desk.find?_wake] at hg ⊢
    obtain ⟨h, hh, rfl⟩ := Option.map_eq_some_iff.mp hg
    rw [Desk.roused] at hlive hop hwoken
    split at hlive
    · next hfinished => cases hfinished.symm.trans hlive
    · next hfinished =>
      rw [if_neg hfinished] at hop hwoken
      split at hwoken
      · cases hwoken
      · next hnone =>
        rw [hnone] at hop
        simp only [hop] at hnone
        simpa using hnone
  exact hcalled _

theorem tells_step (hs : s.Tells) (a : Step α) : (s.step a).1.Tells := by
  rw [step]
  split
  · exact hs
  · exact tells_tidy _

theorem waits_after (capacity : Nat) (as : List (Step α)) :
    ((opened capacity : Session α).after as).Waits ∧
      ((opened capacity : Session α).after as).Tells := by
  induction as using List.reverseRecOn with
  | nil => exact ⟨⟨nofun, nofun⟩, nofun⟩
  | append_singleton as a ih =>
    rw [after, List.foldl_append]
    exact ⟨ih.1.step a, tells_step ih.2 a⟩

/-- A look in vain leaves the operation where only a change of the queue moves it on. -/
theorem poll_pending (hp : (s.poll id).2 = .pending) :
    ∃ h, (s.poll id).1.desk.find? id = some h ∧ h.finished = false ∧ h.woken = false ∧
      ((∃ t, h.op = .send (.inLine t) true) ∨ h.op = .recv .parked ∨ h.op = .readable .parked ∨
        h.op = .closed .parked) := by
  unfold poll at hp ⊢
  cases hh : s.desk.find? id with
  | none => simp [hh] at hp
  | some h =>
    simp only [hh] at hp ⊢
    cases hfinished : h.finished with
    | true => simp [hfinished] at hp
    | false =>
      simp only [hfinished, Bool.false_eq_true, if_false] at hp ⊢
      rcases hl : lookAt s.queue h.op with ⟨r, op', _ | out⟩
      · simp only [hl] at hp ⊢
        refine ⟨_, Desk.find?_put_self _ _ _, rfl, rfl, ?_⟩
        cases hop : h.op with
        | send e w =>
          simp only [hop, lookAt, Prod.mk.injEq, Option.map_eq_none_iff] at hl
          obtain ⟨_, rfl, hnone⟩ := hl
          have hlook : s.queue.pollSend e = ((s.queue.pollSend e).1, (s.queue.pollSend e).2.1, none) :=
            Prod.ext rfl (Prod.ext rfl hnone)
          obtain ⟨_, hf, t, ht, _⟩ := pollSend_pending hlook
          exact .inl ⟨t, by rw [hf, ht]⟩
        | recv p =>
          cases p <;> simp only [hop, lookAt, Prod.mk.injEq] at hl <;> exact .inr (.inl hl.2.1.symm)
        | readable p =>
          cases p <;> simp only [hop, lookAt, Prod.mk.injEq] at hl <;>
            exact .inr (.inr (.inl hl.2.1.symm))
        | closed p =>
          cases p <;> simp only [hop, lookAt, Prod.mk.injEq] at hl <;>
            exact .inr (.inr (.inr hl.2.1.symm))
      · simp [hl] at hp

theorem poll_of_vain (hh : s.desk.find? id = some h) (hlive : h.finished = false)
    (hvain : (lookAt s.queue h.op).2.2 = none) : (s.poll id).2 = .pending := by
  unfold poll
  simp only [hh, hlive, Bool.false_eq_true, if_false, hvain]

theorem step_poll (s : Session α) (id : String) :
    s.step (.poll id) = ((s.poll id).1.tidy, .look (s.poll id).2) := by
  rw [step, if_neg (by simp [needsQueue])]
  rfl

def Lacks (q : Queue α) : Op → Prop
  | .send e _ => ∃ t, e = .inLine t ∧ t ∈ q.tickets ∧ q.fate? t = none
  | .recv _ => Dry q
  | .readable _ => Dry q
  | .closed _ => Open q

/-- An operation that was looked at in vain, and was not woken since, would be looked at in vain
again, whatever was done to the queue and to the other operations meanwhile. A receive or a wait for
values has found the queue open and with an empty buffer, and it still is; a wait for the end has
missed none; and a send still has its value in line. -/
theorem unwoken_pending (capacity : Nat) (as bs : List (Step α)) (id : String) :
    let s := (opened capacity : Session α).after as
    let r := (s.step (.poll id)).1.after bs
    (s.step (.poll id)).2 = .look .pending →
    spares id (s.step (.poll id)).1 bs = true →
    id ∉ r.desk.woken →
    (r.step (.poll id)).2 = .look .pending ∧
      ∃ h, r.desk.find? id = some h ∧ h.finished = false ∧ Lacks r.queue h.op := by
  intro s r hlook hspares hid
  have hr : r = (opened capacity : Session α).after (as ++ .poll id :: bs) := by
    simp [r, s, after]
  obtain ⟨hwaits, htells⟩ := waits_after (α := α) capacity (as ++ .poll id :: bs)
  have hsound := sound_after (α := α) capacity (as ++ .poll id :: bs)
  rw [← hr] at hwaits htells hsound
  rw [step_poll] at hlook hspares
  obtain ⟨h, hh, hlive, hwoken, hop⟩ := poll_pending (Answer.look.inj hlook)
  -- Nobody dealt with it, so all that can have happened to it is to be woken.
  have hkeeps : Keeps id (s.poll id).1.desk r.desk := by
    simp only [r, step_poll]
    exact (Keeps.tidy _ id).trans (keeps_after hspares)
  obtain ⟨g, hg, hroused⟩ := hkeeps h hh
  have hunwoken := woken_of_not_mem hg hid
  obtain rfl : g = h := hroused.same.resolve_right (by simp [hunwoken])
  rw [step_poll]
  obtain ⟨t, ht⟩ | hrecv | hreadable | hclosed := hop
  · have hfate := htells id g t hg hlive ht hwoken
    have hknown := hsound.known id t (by rw [ticket?, hg, Option.bind_some, ht, Op.ticket?])
    have hline : t ∈ r.queue.tickets := hknown.resolve_right (fate?_eq_none_iff.mp hfate)
    refine ⟨congrArg Answer.look (poll_of_vain hg hlive ?_), g, hg, hlive, ?_⟩
    · simp [ht, lookAt, pollSend, hfate]
    · rw [ht]
      exact ⟨t, rfl, hline, hfate⟩
  · have hdry := hwaits.readers id g hg hlive (by rw [hrecv]; rfl)
    refine ⟨congrArg Answer.look (poll_of_vain hg hlive (by rw [hrecv]; rfl)), g, hg, hlive, ?_⟩
    rw [hrecv]
    exact hdry
  · have hdry := hwaits.readers id g hg hlive (by rw [hreadable]; rfl)
    refine ⟨congrArg Answer.look (poll_of_vain hg hlive (by rw [hreadable]; rfl)), g, hg, hlive, ?_⟩
    rw [hreadable]
    exact hdry
  · have hopen := hwaits.watchers id g hg hlive (by rw [hclosed]; rfl)
    refine ⟨congrArg Answer.look (poll_of_vain hg hlive (by rw [hclosed]; rfl)), g, hg, hlive, ?_⟩
    rw [hclosed]
    exact hopen

/-- A value wakes two receivers and the first one takes it. The second looks in vain, and sleeps on
while others come and go and the queue is let go of. -/
theorem unwoken_pending_receiver :
    let s : Session Nat :=
      (opened 1).after [.recv "a", .recv "b", .poll "a", .poll "b", .trySend 1, .poll "a"]
    let r := (s.step (.poll "b")).1.after [.readable "c", .poll "c", .drop "a", .letGo]
    (s.step (.poll "b")).2 = .look .pending ∧ (r.step (.poll "b")).2 = .look .pending := by
  intro s r
  have hpending : (s.step (.poll "b")).2 = .look .pending := rfl
  have hasleep : "b" ∉ r.desk.woken := by
    rw [Desk.woken, List.mem_mergeSort]
    decide
  have h := unwoken_pending 1 [.recv "a", .recv "b", .poll "a", .poll "b", .trySend 1, .poll "a"]
    [.readable "c", .poll "c", .drop "a", .letGo] "b" hpending (by decide) hasleep
  exact ⟨hpending, h.1⟩

end Session
end Queue
end PacedCall
