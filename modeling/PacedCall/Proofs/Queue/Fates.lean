import PacedCall.Proofs.Queue.Labels
import PacedCall.Proofs.Queue.Marks

/-!
What a sender hears is what became of its value. That its value was taken means that the value came
into the buffer, once, and went on from there; that it failed means that nobody ever receives it, and
the error says whether the queue had been closed, was cancelled or went away; and while a sender
hears nothing its value waits in line. This holds for each value of a script, also where several
sends carry the same: the values can be told apart by labels that the queue does not notice.
-/

namespace PacedCall
namespace Queue

def Answer.pends {α : Type} : Answer α → Bool
  | .look .pending => true
  | _ => false

namespace Session
variable {α : Type} {s : Session α} {p : α → Bool} {e : Enqueue} {n capacity : Nat} {id : String}
  {v : α} {a : Step α} {as bs : List (Step α)}

def Plain (p : α → Bool) (a : Step α) : Prop := ∀ v, a.value? = some v → p v = false

theorem apart_givesUp (hother : ∀ t, s.ticket? id = some t → e.ticket? ≠ some t) :
    ∀ d ∈ s.givesUp id, d.Apart p e := by
  unfold givesUp
  cases ht : s.ticket? id with
  | none => simp
  | some t => simpa [Deed.Apart] using hother t ht

theorem apart_looks (hother : ∀ t, s.ticket? id = some t → e.ticket? ≠ some t) :
    ∀ d ∈ s.looks id, d.Apart p e := by
  unfold looks
  split
  · simp [Deed.Apart]
  · cases ht : s.ticket? id with
    | none => simp
    | some t =>
      have ht := hother t ht
      simp only
      split
      · simpa [Deed.Apart] using ht
      · simp

theorem apart_acts (ha : Plain p a)
    (hother : ∀ id t, name? a = some id → s.ticket? id = some t → e.ticket? ≠ some t) :
    ∀ d ∈ s.acts a, d.Apart p e := by
  cases a with
  | trySend v => simpa [acts, Deed.Apart] using ha v rfl
  | send id v =>
    exact List.forall_mem_cons.mpr ⟨ha v rfl, apart_givesUp fun t => hother id t rfl⟩
  | recv id => exact apart_givesUp fun t => hother id t rfl
  | readable id => exact apart_givesUp fun t => hother id t rfl
  | closed id => exact apart_givesUp fun t => hother id t rfl
  | drop id => exact apart_givesUp fun t => hother id t rfl
  | poll id => exact apart_looks fun t => hother id t rfl
  | drain =>
    intro d hd
    rw [List.eq_of_mem_replicate hd]
    trivial
  | _ => simp [acts, Deed.Apart]

/-- The end of the queue is about everybody. -/
theorem apart_release (lapses : Bool) :
    ∀ d ∈ if lapses then [(.release : Deed α)] else [], d.Apart p e := by
  cases lapses <;> simp [Deed.Apart]

theorem apart_deeds (hacts : s.refuses a = false → ∀ d ∈ s.acts a, d.Apart p e) :
    ∀ d ∈ s.deeds a, d.Apart p e := by
  refine List.forall_mem_append.mpr ⟨?_, apart_release _⟩
  cases ha : s.refuses a with
  | true => simp
  | false => simpa using hacts ha

theorem apart_of_deeds (ha : s.refuses a = false) (hd : ∀ d ∈ s.deeds a, d.Apart p e) :
    ∀ d ∈ s.acts a, d.Apart p e := fun d hm => hd d (by simp [deeds, ha, hm])

theorem traced_step (hs : s.Sound capacity) (ht : Traced p e n s.queue)
    (hd : ∀ d ∈ s.deeds a, d.Apart p e) :
    Traced p e (n + (s.enters a).countP p) (s.step a).1.queue := by
  rw [queue_deeds hs]
  exact ht.actAll hd

/-- No step is about a sender that was told, or that is no more. -/
theorem traced_after (hs : s.Sound capacity) (ht : Traced p e n s.queue) (he : e.ticket? = none)
    (has : ∀ a ∈ as, Plain p a) :
    Traced p e (n + (s.entered as).countP p) (s.after as).queue := by
  induction as generalizing s n with
  | nil => exact ht
  | cons a as ih =>
    obtain ⟨ha, has⟩ := List.forall_mem_cons.mp has
    have hd : ∀ d ∈ s.deeds a, d.Apart p e :=
      apart_deeds fun _ => apart_acts ha fun _ _ _ _ => by simp [he]
    rw [entered, outputs, List.countP_append, ← Nat.add_assoc]
    exact ih (hs.step a) (traced_step hs ht hd) has

def Sends (id : String) (e : Enqueue) (d : Desk Op) : Prop :=
  ∃ h w, d.find? id = some h ∧ h.finished = false ∧ h.op = .send e w

theorem Sends.keeps {d d' : Desk Op} (hd : Sends id e d) (hk : Keeps id d d') : Sends id e d' := by
  obtain ⟨h, w, hh, hlive, hop⟩ := hd
  obtain ⟨g, hg, hrouses⟩ := hk h hh
  have hsender : g.op.enqueue? = some e := by rw [hrouses.sender, hop, Op.enqueue?]
  obtain ⟨w', hw'⟩ : ∃ w', g.op = .send e w' := by
    cases hgop : g.op <;> simp_all [Op.enqueue?]
  exact ⟨g, w', hg, hrouses.finished.trans hlive, hw'⟩

structure Follows (p : α → Bool) (capacity : Nat) (id : String) (e : Enqueue) (n : Nat)
    (s : Session α) : Prop where
  sound : s.Sound capacity
  sender : Sends id e s.desk
  traced : Traced p e n s.queue

def leaves (s : Session α) (id : String) (a : Step α) : Bool :=
  !s.concerns id a || (s.step a).2.pends

def awaits (id : String) : Session α → List (Step α) → Bool
  | _, [] => true
  | s, a :: as => s.leaves id a && awaits id (s.step a).1 as

theorem awaits_append :
    awaits id s (as ++ bs) = (awaits id s as && awaits id (s.after as) bs) := by
  induction as generalizing s with
  | nil => rfl
  | cons a as ih =>
    rw [List.cons_append, awaits, awaits, ih, Bool.and_assoc]
    rfl

namespace Follows

theorem ticket? (h : s.Follows p capacity id e n) : s.ticket? id = e.ticket? := by
  obtain ⟨g, w, hg, _, hop⟩ := h.sender
  rw [Session.ticket?, hg, Option.bind_some, hop]
  cases e <;> rfl

/-- A look at a sender tells it what it would hear. -/
theorem poll (h : s.Follows p capacity id e n) :
    (s.poll id).2 = match s.queue.result? e with
      | some r => .done (.sent r)
      | none => .pending := by
  obtain ⟨g, w, hg, hlive, hop⟩ := h.sender
  simp only [Session.poll, hg, hlive, hop, lookAt, result?, Bool.false_eq_true, if_false]
  cases (s.queue.pollSend e).2.2 <;> rfl

theorem result?_of_pends (h : s.Follows p capacity id e n)
    (hpends : (s.step (.poll id)).2.pends = true) : s.queue.result? e = none := by
  rw [step_poll, h.poll] at hpends
  cases hr : s.queue.result? e with
  | none => rfl
  | some r => simp [hr, Answer.pends] at hpends

theorem concerns_iff : s.concerns id a = true ↔ s.refuses a = false ∧ name? a = some id := by
  cases hheld : s.held <;> cases hneeds : needsQueue a <;> simp [concerns, refuses, hheld, hneeds]

/-- Only looks may be in vain. -/
theorem eq_poll_of_pends (hname : name? a = some id) (hpends : (s.step a).2.pends = true) :
    a = .poll id := by
  cases a with
  | poll other => rw [show other = id from Option.some.inj hname]
  | _ =>
    rw [step] at hpends
    split at hpends <;> cases hpends

/-- A sender that would hear nothing is there, and stands in line. -/
theorem waiting (h : s.Follows p capacity id e n) (hnone : s.queue.result? e = none) :
    ∃ t w woken, e = .inLine t ∧ s.queue.fate? t = none ∧
      s.desk.find? id = some { op := .send (.inLine t) w, woken := woken } := by
  obtain ⟨t, rfl⟩ := ticket?_of_result?_none hnone
  obtain ⟨⟨op, finished, woken⟩, w, hg, hlive, hop⟩ := h.sender
  cases hlive
  cases hop
  exact ⟨t, w, woken, rfl, (result?_of_ticket rfl).symm.trans hnone, hg⟩

/-- A look in vain, or a step that is about others, leaves a sender alone. -/
theorem apart (h : s.Follows p capacity id e n) (ha : Plain p a) (hs : s.leaves id a = true) :
    ∀ d ∈ s.deeds a, d.Apart p e := by
  by_cases hmine : name? a = some id ∧ (s.step a).2.pends = true
  · obtain rfl := eq_poll_of_pends hmine.1 hmine.2
    obtain ⟨t, w, woken, rfl, hfate, hg⟩ := h.waiting (h.result?_of_pends hmine.2)
    have hacts : s.acts (.poll id) = [] := by
      have hreceives : s.receives id = false := by simp [receives, hg]
      simp [acts, looks, hreceives, h.ticket?, Enqueue.ticket?, hfate]
    exact apart_deeds fun _ d hd => absurd (hacts ▸ hd) List.not_mem_nil
  · refine apart_deeds fun haccepted => apart_acts ha ?_
    intro other t hname ht he
    obtain rfl := h.sound.apart id other t (h.ticket?.trans he) ht
    have hconcerns : s.concerns id a = true := concerns_iff.mpr ⟨haccepted, hname⟩
    exact hmine ⟨hname, by simpa [leaves, hconcerns] using hs⟩

theorem step (h : s.Follows p capacity id e n) (ha : Plain p a) (hs : s.leaves id a = true) :
    (s.step a).1.Follows p capacity id e (n + (s.enters a).countP p) := by
  refine { sound := h.sound.step a, sender := ?_,
           traced := traced_step h.sound h.traced (h.apart ha hs) }
  cases hmine : s.concerns id a with
  | false => exact h.sender.keeps (keeps_step hmine)
  | true =>
    have hpends : (s.step a).2.pends = true := by simpa [leaves, hmine] using hs
    obtain rfl := eq_poll_of_pends (concerns_iff.mp hmine).2 hpends
    obtain ⟨t, w, woken, rfl, hfate, hg⟩ := h.waiting (h.result?_of_pends hpends)
    have hput : (s.poll id).1.desk = s.desk.put id { op := .send (.inLine t) true } := by
      simp [Session.poll, hg, lookAt, pollSend, hfate, finishes]
    have hlooked : Sends id (.inLine t) (s.poll id).1.desk :=
      ⟨_, true, hput ▸ Desk.find?_put_self _ _ _, rfl, rfl⟩
    rw [step_poll]
    exact hlooked.keeps (.tidy _ id)

theorem after (h : s.Follows p capacity id e n) (has : ∀ a ∈ as, Plain p a)
    (hs : awaits id s as = true) :
    (s.after as).Follows p capacity id e (n + (s.entered as).countP p) := by
  induction as generalizing s n with
  | nil => exact h
  | cons a as ih =>
    obtain ⟨ha, has⟩ := List.forall_mem_cons.mp has
    obtain ⟨hleaves, hs⟩ := Bool.and_eq_true_iff.mp hs
    rw [entered, outputs, List.countP_append, ← Nat.add_assoc]
    exact ih (h.step ha hleaves) has hs

theorem result?_step (h : s.Follows p capacity id e n) {r : SendResult}
    (hr : s.queue.result? e = some r) (hd : ∀ d ∈ s.deeds a, d.Apart p e) :
    (s.step a).1.queue.result? e = some r := by
  rw [queue_deeds h.sound]
  exact h.traced.result?_actAll hr hd

/-- What a sender would hear it hears whenever it looks. -/
theorem result?_after (h : s.Follows p capacity id e n) {r : SendResult}
    (hr : s.queue.result? e = some r) (has : ∀ a ∈ as, Plain p a) (hs : awaits id s as = true) :
    (s.after as).queue.result? e = some r := by
  induction as generalizing s n with
  | nil => exact hr
  | cons a as ih =>
    obtain ⟨ha, has⟩ := List.forall_mem_cons.mp has
    obtain ⟨hleaves, hs⟩ := Bool.and_eq_true_iff.mp hs
    exact ih (h.step ha hleaves) (h.result?_step hr (h.apart ha hleaves)) has hs

/-- The mark before the queue may go away at the end of a step. -/
theorem traced_apply (h : s.Follows p capacity id e n) (hd : ∀ d ∈ s.acts a, d.Apart p e) :
    Traced p e (n + (outputs Deed.act Deed.brings s.queue (s.acts a)).countP p)
      (s.apply a).1.queue := by
  rw [queue_apply h.sound]
  exact h.traced.actAll hd

/-- A value that waits when the queue goes away has waited before. -/
theorem result?_of_left (h : s.Follows p capacity id e n) (hd : ∀ d ∈ s.acts a, d.Apart p e)
    (hline : (s.apply a).1.queue.inLine p = true) : s.queue.result? e = none := by
  have hleft := (h.traced_apply hd).inLine_iff.mp hline
  cases hr : s.queue.result? e with
  | none => rfl
  | some r =>
    rw [queue_apply h.sound, h.traced.result?_actAll hr hd] at hleft
    cases hleft

/-- Who gives up a sender while its value waits takes the value out of the line. -/
theorem givenUp (h : s.Follows p capacity id e n) (hnone : s.queue.result? e = none)
    (ha : Plain p a) (hmine : s.concerns id a = true) (hpoll : a ≠ .poll id) :
    Traced p .spent (n + (s.enters a).countP p) (s.step a).1.queue := by
  obtain ⟨t, rfl⟩ := ticket?_of_result?_none hnone
  obtain ⟨haccepted, hname⟩ := concerns_iff.mp hmine
  have hgives : s.givesUp id = [.withdraw t, .forget t] := by
    simp [givesUp, h.ticket?, Enqueue.ticket?]
  -- Nothing comes before it but another send under this name.
  have hacts : s.acts a = [.withdraw t, .forget t] ∨
      ∃ v, p v = false ∧ s.acts a = [.send v, .withdraw t, .forget t] := by
    cases a with
    | send other v =>
      cases hname
      exact .inr ⟨v, ha v rfl, by simp [acts, hgives]⟩
    | poll other =>
      cases hname
      exact absurd rfl hpoll
    | recv other | readable other | closed other | drop other =>
      cases hname
      exact .inl hgives
    | _ => cases hname
  have hgone : Traced p .spent (n + (outputs Deed.act Deed.brings s.queue (s.acts a)).countP p)
      (s.queue.actAll (s.acts a)) := by
    obtain hacts | ⟨v, hv, hacts⟩ := hacts
    · rw [hacts]
      exact h.traced.givenUp rfl hnone
    · have hsend : Deed.Apart p (.inLine t) (.send v) := hv
      have hstill : (Deed.act s.queue (.send v)).result? (.inLine t) = none := by
        rw [h.traced.result?_act hsend, hnone]
        rfl
      rw [hacts, outputs, List.countP_append, ← Nat.add_assoc]
      exact (h.traced.act hsend).givenUp rfl hstill
  rw [queue_deeds h.sound, enters, deeds, haccepted, if_neg Bool.false_ne_true, outputs_append,
    List.countP_append, ← Nat.add_assoc, actAll_append]
  exact hgone.actAll (apart_release _)

/-- A cancel tells every sender in line its own status. -/
theorem result?_of_cancel (h : s.Follows p capacity id e n) (hnone : s.queue.result? e = none)
    (st : Status) :
    (s.apply (.cancel st)).1.queue.result? e = some (.error (.terminated st)) := by
  obtain ⟨t, rfl⟩ := ticket?_of_result?_none hnone
  rw [queue_apply h.sound]
  exact (h.traced.result?_act (d := .cancel st) trivial).trans (by rw [hnone]; rfl)

/-- Who still waits when the step leaves the queue to nobody is told that the queue is closed. -/
theorem result?_of_accepted (h : s.Follows p capacity id e n) (ha : s.refuses a = false)
    (hacts : ∀ d ∈ s.acts a, d.Apart p e) (hnone : s.queue.result? e = none) :
    (s.step a).1.queue.result? e =
      if s.lapses a then ((s.apply a).1.queue.result? e).or (some (.error .closed))
      else (s.apply a).1.queue.result? e := by
  obtain ⟨t, rfl⟩ := ticket?_of_result?_none hnone
  rw [queue_deeds h.sound, deeds, ha, if_neg Bool.false_ne_true, actAll_append,
    ← queue_apply h.sound]
  split
  · exact (h.traced_apply hacts).result?_act (d := .release) trivial
  · rfl

/-- In one step a sender that waits fails only with the cancel that removes its value, or when the
step leaves the queue to nobody. -/
theorem fails_step (h : s.Follows p capacity id e n) (hd : ∀ d ∈ s.deeds a, d.Apart p e)
    (hnone : s.queue.result? e = none) (x : QueueError) :
    (s.step a).1.queue.result? e = some (.error x) ↔
      (∃ st, a = .cancel st ∧ s.held = true ∧ x = .terminated st) ∨
        s.lapses a = true ∧ (s.apply a).1.queue.inLine p = true ∧ x = .closed := by
  cases ha : s.refuses a with
  | true =>
    have hkept : s.lapses a = false := by simp [lapses, ha]
    rw [step_of_refused ha, hnone, hkept]
    refine iff_of_false (by simp) ?_
    rintro (⟨st, rfl, hheld, _⟩ | ⟨hlapses, _⟩)
    · simp [refuses, hheld] at ha
    · cases hlapses
  | false =>
    have hacts := apart_of_deeds ha hd
    have htraced := h.traced_apply hacts
    have hend := h.result?_of_accepted ha hacts hnone
    by_cases hcancel : ∃ st, a = .cancel st
    · obtain ⟨st, rfl⟩ := hcancel
      have hheld : s.held = true := by simpa [refuses, needsQueue] using ha
      have htold := h.result?_of_cancel hnone st
      have hgone : (s.apply (.cancel st)).1.queue.inLine p = false := by
        rw [Bool.eq_false_iff, ne_eq, htraced.inLine_iff, htold]
        exact Option.some_ne_none _
      rw [hend, htold, Option.some_or, ite_self]
      constructor
      · intro hx
        obtain rfl : QueueError.terminated st = x := by simpa using hx
        exact .inl ⟨st, rfl, hheld, rfl⟩
      · rintro (⟨_, hsame, _, rfl⟩ | ⟨_, hline, _⟩)
        · cases hsame
          rfl
        · cases hgone.symm.trans hline
    · have hnever : ¬ ∃ st, a = .cancel st ∧ s.held = true ∧ x = .terminated st := by
        rintro ⟨st, hst, _⟩
        exact hcancel ⟨st, hst⟩
      have hkind := h.traced.result?_of_mild hnone hacts
        (mild_acts fun st hst => hcancel ⟨st, hst⟩)
      rw [← queue_apply h.sound] at hkind
      rw [or_iff_right hnever, hend, htraced.inLine_iff]
      obtain hq | hq := hkind <;> cases s.lapses a <;> simp [hq, @eq_comm _ QueueError.closed x]

end Follows

structure Calls (p : α → Bool) (capacity : Nat) (v : α) (n : Nat) (s : Session α) : Prop where
  sound : s.Sound capacity
  traced : Traced p .spent n s.queue
  held : s.held = true
  marked : p v = true

namespace Calls

theorem accepted (h : s.Calls p capacity v n) (id : String) : s.refuses (.send id v) = false := by
  simp [refuses, h.held]

theorem deeds_send (h : s.Calls p capacity v n) (id : String) :
    s.deeds (.send id v) = .send v :: s.givesUp id := by
  have halive : (s.apply (.send id v)).1.alive = true := by
    simp [alive, (apply_eq s (.send id v) (by simp)).2, h.held]
  simp [deeds, lapses, h.accepted id, halive, acts]

/-- The ticket that is given up is older than the one that is given out. -/
theorem apart_givesUp (h : s.Calls p capacity v n) (id : String) :
    ∀ d ∈ s.givesUp id, d.Apart p (s.queue.send v).2 := by
  refine Session.apart_givesUp ?_
  intro t ht he
  have hold := h.sound.orderly.lt_of_knows (h.sound.known id t ht)
  cases hsent : (s.queue.send v).2 with
  | inLine u =>
    rw [hsent] at he
    cases he
    exact Nat.ne_of_lt hold (send_inLine hsent).1
  | _ =>
    rw [hsent] at he
    cases he

/-- The value of the new sender is the marked one. -/
theorem follows (h : s.Calls p capacity v n) (id : String) :
    (s.step (.send id v)).1.Follows p capacity id (s.queue.send v).2
      (n + (s.enters (.send id v)).countP p) := by
  refine { sound := h.sound.step _, sender := ?_, traced := ?_ }
  · have hstart : Sends id (s.queue.send v).2
        (start { s with queue := (s.queue.send v).1 } id (.send (s.queue.send v).2 false)).desk :=
      ⟨_, false, Desk.find?_put_self _ _ _, rfl, rfl⟩
    rw [step_of_accepted (h.accepted id)]
    refine Sends.keeps ?_ (.tidy _ id)
    simp only [apply]
    split
    · exact hstart.keeps (.callReaders _ id)
    · exact hstart
  · rw [queue_deeds h.sound, enters, h.deeds_send, outputs, List.countP_append, ← Nat.add_assoc]
    exact (h.traced.send h.marked).actAll (h.apart_givesUp id)

/-- The call itself fails only where the queue was closed. -/
theorem failed_at_once (h : s.Calls p capacity v n) {x : QueueError}
    (hx : (s.step (.send id v)).1.queue.result? (s.queue.send v).2 = some (.error x)) :
    ∃ how, s.queue.termination = some how ∧ x = how.error := by
  have htraced := h.traced.send h.marked
  have hafter : ((s.queue.send v).1.actAll (s.givesUp id)).result? (s.queue.send v).2 =
      some (.error x) := by
    rw [queue_deeds h.sound, h.deeds_send] at hx
    exact hx
  cases hr : (s.queue.send v).1.result? (s.queue.send v).2 with
  | none =>
    -- Nothing that gives up a name fails a sender.
    obtain hnone | hok :=
      htraced.result?_of_mild hr (h.apart_givesUp id) (mild_givesUp s id)
    · cases hnone.symm.trans hafter
    · cases hok.symm.trans hafter
  | some r =>
    have hsame := (htraced.result?_actAll hr (h.apart_givesUp id)).symm.trans hafter
    exact closed_of_result?_send h.sound.orderly (hr.trans hsame)

end Calls

/-- Why the value that is sent here fails. The queue was closed before; or it was cancelled, or
went away, while the value waited in it. -/
inductive Fails (p : α → Bool) (s : Session α) (id : String) (v : α) (mid : List (Step α)) :
    QueueError → Prop
  | ended (how : Termination) : s.queue.termination = some how → Fails p s id v mid how.error
  | cancelled (as : List (Step α)) (st : Status) (bs : List (Step α)) :
    mid = as ++ .cancel st :: bs →
    (s.after (.send id v :: as)).held = true →
    (s.after (.send id v :: as)).queue.inLine p = true →
    Fails p s id v mid (.terminated st)
  | released (as : List (Step α)) (a : Step α) (bs : List (Step α)) :
    mid = as ++ a :: bs →
    (s.after (.send id v :: as)).lapses a = true →
    ((s.after (.send id v :: as)).apply a).1.queue.inLine p = true →
    Fails p s id v mid .closed

theorem Fails.append {mid : List (Step α)} {x : QueueError} (h : Fails p s id v mid x)
    (more : List (Step α)) : Fails p s id v (mid ++ more) x := by
  cases h with
  | ended how hend => exact .ended how hend
  | cancelled as st bs hmid hheld hline =>
    exact .cancelled as st (bs ++ more) (by simp [hmid]) hheld hline
  | released as a bs hmid hlapses hline =>
    exact .released as a (bs ++ more) (by simp [hmid]) hlapses hline

namespace Calls
variable {mid : List (Step α)} {x : QueueError}

theorem follows_after (h : s.Calls p capacity v n) (hplain : ∀ a ∈ mid, Plain p a)
    (hawaits : awaits id (s.step (.send id v)).1 mid = true) :
    (s.after (.send id v :: mid)).Follows p capacity id (s.queue.send v).2
      (n + (s.entered (.send id v :: mid)).countP p) := by
  rw [entered, outputs, List.countP_append, ← Nat.add_assoc]
  exact (h.follows id).after hplain hawaits

/-- Before each step the sender stands as it should, the step leaves it alone, and what it would
hear afterwards it would hear at the end. -/
theorem at_step (h : s.Calls p capacity v n) (hplain : ∀ b ∈ as ++ a :: bs, Plain p b)
    (hawaits : awaits id (s.step (.send id v)).1 (as ++ a :: bs) = true) :
    let r := s.after (.send id v :: as)
    r.Follows p capacity id (s.queue.send v).2 (n + (s.entered (.send id v :: as)).countP p) ∧
      (∀ d ∈ r.deeds a, d.Apart p (s.queue.send v).2) ∧
      ∀ x, (r.step a).1.queue.result? (s.queue.send v).2 = some x →
        (s.after (.send id v :: (as ++ a :: bs))).queue.result? (s.queue.send v).2 = some x := by
  obtain ⟨has, hrest⟩ := List.forall_mem_append.mp hplain
  obtain ⟨ha, hbs⟩ := List.forall_mem_cons.mp hrest
  rw [awaits_append, awaits, Bool.and_eq_true_iff, Bool.and_eq_true_iff] at hawaits
  have hf := h.follows_after has hawaits.1
  refine ⟨hf, hf.apart ha hawaits.2.1, fun x hx => ?_⟩
  rw [← List.cons_append, after_append]
  exact (hf.step ha hawaits.2.1).result?_after hx hbs hawaits.2.2

/-- A sender that hears of a failure hears it for one of the reasons. -/
theorem fails_of_result? (h : s.Calls p capacity v n) (hplain : ∀ a ∈ mid, Plain p a)
    (hawaits : awaits id (s.step (.send id v)).1 mid = true)
    (hx : (s.after (.send id v :: mid)).queue.result? (s.queue.send v).2 = some (.error x)) :
    Fails p s id v mid x := by
  induction mid using List.reverseRecOn with
  | nil =>
    obtain ⟨how, hend, rfl⟩ := h.failed_at_once hx
    exact .ended how hend
  | append_singleton mid a ih =>
    obtain ⟨hf, hapart, _⟩ := h.at_step hplain hawaits
    rw [awaits_append, Bool.and_eq_true_iff] at hawaits
    rw [← List.cons_append, after_append] at hx
    cases hr : (s.after (.send id v :: mid)).queue.result? (s.queue.send v).2 with
    | some r =>
      have hsame := (hf.result?_step hr hapart).symm.trans hx
      have hmid := (List.forall_mem_append.mp hplain).1
      exact (ih hmid hawaits.1 (hr.trans hsame)).append [a]
    | none =>
      have hline := hf.traced.inLine_iff.mpr hr
      obtain ⟨st, rfl, hheld, rfl⟩ | ⟨hlapses, hleft, rfl⟩ :=
        (hf.fails_step hapart hr x).mp hx
      · exact .cancelled mid st [] rfl hheld hline
      · exact .released mid a [] rfl hlapses hleft

/-- Each of the reasons is heard of. -/
theorem result?_of_fails (h : s.Calls p capacity v n) (hplain : ∀ a ∈ mid, Plain p a)
    (hawaits : awaits id (s.step (.send id v)).1 mid = true) (hx : Fails p s id v mid x) :
    (s.after (.send id v :: mid)).queue.result? (s.queue.send v).2 = some (.error x) := by
  cases hx with
  | ended how hend =>
    have hsent := send_of_ended hend v
    have hnow : (s.step (.send id v)).1.queue.result? (s.queue.send v).2 =
        some (.error how.error) := by
      rw [hsent]
      rfl
    exact (h.follows id).result?_after hnow hplain hawaits
  | cancelled as st bs hmid hheld hline =>
    subst hmid
    obtain ⟨hf, hapart, hend⟩ := h.at_step hplain hawaits
    have hnone := hf.traced.inLine_iff.mp hline
    exact hend _ ((hf.fails_step hapart hnone _).mpr (.inl ⟨st, rfl, hheld, rfl⟩))
  | released as a bs hmid hlapses hline =>
    subst hmid
    obtain ⟨hf, hapart, hend⟩ := h.at_step hplain hawaits
    have haccepted : (s.after (.send id v :: as)).refuses a = false := by
      simpa using (Bool.and_eq_true_iff.mp hlapses).1
    have hnone := hf.result?_of_left (apart_of_deeds haccepted hapart) hline
    exact hend _ ((hf.fails_step hapart hnone _).mpr (.inr ⟨hlapses, hline, rfl⟩))

end Calls

/-- What a look at the sender of the marked value says about it. Before the look come the steps
`before`, the call and the steps `mid`; after it come the steps `rest`. -/
def Says (p : α → Bool) (o : Session α) (before : List (Step α)) (id : String) (v : α)
    (mid rest : List (Step α)) : Look (Outcome α) → Prop
  -- The value waits in line, and was not received so far.
  | .pending =>
    let ran := before ++ .send id v :: mid
    (o.after ran).queue.inLine p = true ∧ (o.received ran).countP p = 0
  -- It has come into the buffer once, and once it leaves the buffer or is still there. It leaves
  -- with a receive, with a cancel, or with the queue itself.
  | .done (.sent (.ok _)) =>
    let script := before ++ .send id v :: (mid ++ .poll id :: rest)
    (o.entered script).countP p = 1 ∧
      (o.received script).countP p + (o.discarded script).countP p +
        (o.abandoned script).countP p + (o.after script).queue.buffer.countP p = 1 ∧
      ((o.after script).alive = true → o.abandoned script = [])
  -- It is never received.
  | .done (.sent (.error x)) =>
    let script := before ++ .send id v :: (mid ++ .poll id :: rest)
    Fails p (o.after before) id v mid x ∧ (o.received script).countP p = 0
  | _ => False

section
variable {before mid rest : List (Step α)}

/-- The script up to the call has no marked value in it. -/
theorem calls_after (hbefore : ∀ a ∈ before, Plain p a) (hv : p v = true)
    (hheld : ((opened capacity : Session α).after before).held = true) :
    ((opened capacity).after before).Calls p capacity v
      (((opened capacity).entered before).countP p) := by
  have hnew : Traced p .spent 0 (opened capacity : Session α).queue :=
    { orderly := orderly_new capacity, known := nofun, marks := nofun, entered := rfl }
  have htraced := traced_after (sound_opened capacity) hnew rfl hbefore
  rw [Nat.zero_add] at htraced
  exact ⟨sound_after capacity before, htraced, hheld, hv⟩

/-- As many marked values as have come into the buffer have left it or are still there. -/
theorem balance (capacity : Nat) (script : List (Step α)) (p : α → Bool) :
    (((opened capacity).entered script).countP p) =
      ((opened capacity).received script).countP p +
        ((opened capacity).discarded script).countP p +
        ((opened capacity).abandoned script).countP p +
        ((opened capacity).after script).queue.buffer.countP p := by
  rw [← entered_balance (sound_opened capacity) script p]
  exact (Nat.zero_add _).symm

/-- Once it does not matter any more whether the sender looks, the rest of the script does not
matter either. -/
theorem entered_of_resolved {ran : List (Step α)}
    (ht : Traced p e (((opened capacity).entered ran).countP p +
      (((opened capacity).after ran).enters a).countP p)
      (((opened capacity).after ran).step a).1.queue)
    (he : e.ticket? = none) (hrest : ∀ a ∈ rest, Plain p a) :
    ((opened capacity).entered (ran ++ a :: rest)).countP p =
      places (((opened capacity).after (ran ++ a :: rest)).queue.result? e) := by
  have hall := (traced_after ((sound_after capacity ran).step a) ht he hrest).entered
  rw [entered_append, entered_cons, List.countP_append, List.countP_append, ← Nat.add_assoc,
    after_append]
  exact hall

variable (hbefore : ∀ a ∈ before, Plain p a) (hv : p v = true) (hmid : ∀ a ∈ mid, Plain p a)
  (hheld : ((opened capacity : Session α).after before).held = true)
  (hawaits : awaits id (((opened capacity).after before).step (.send id v)).1 mid = true)

include hbefore hv hmid hheld hawaits

/-- The sender, up to the moment somebody deals with it. -/
theorem follows_opened :
    ((opened capacity).after (before ++ .send id v :: mid)).Follows p capacity id
      (((opened capacity).after before).queue.send v).2
      (((opened capacity).entered (before ++ .send id v :: mid)).countP p) := by
  have hf := (calls_after hbefore hv hheld).follows_after hmid hawaits
  rw [entered_append, List.countP_append, after_append]
  exact hf

/-- A sender that hears its fate hears it for good. -/
theorem heard (hrest : ∀ a ∈ rest, Plain p a) :
    ∃ l, (((opened capacity).after (before ++ .send id v :: mid)).step (.poll id)).2 = .look l ∧
      Says p (opened capacity) before id v mid rest l := by
  have hf := follows_opened hbefore hv hmid hheld hawaits
  refine ⟨_, by rw [step_poll], ?_⟩
  rw [hf.poll]
  cases hr : ((opened capacity).after (before ++ .send id v :: mid)).queue.result?
      (((opened capacity).after before).queue.send v).2 with
  | none =>
    have hnone := hf.traced.entered
    rw [hr] at hnone
    have hbalance := balance capacity (before ++ .send id v :: mid) p
    refine ⟨hf.traced.inLine_iff.mpr hr, ?_⟩
    have hzero : places none = 0 := rfl
    omega
  | some r =>
    have hdone : Traced p (.settled r) _ _ :=
      traced_step (a := .poll id) hf.sound (hf.traced.settled hr)
        (apart_deeds fun _ => apart_acts nofun nofun)
    have hentered : ((opened capacity).entered
        (before ++ .send id v :: (mid ++ .poll id :: rest))).countP p = places (some r) := by
      have hsplit : before ++ .send id v :: (mid ++ .poll id :: rest) =
          before ++ .send id v :: mid ++ .poll id :: rest := by simp
      rw [hsplit]
      exact entered_of_resolved hdone rfl hrest
    have hbalance := balance capacity (before ++ .send id v :: (mid ++ .poll id :: rest)) p
    cases r with
    | ok u =>
      have hone : places (some (.ok u)) = 1 := rfl
      exact ⟨hentered, by omega, abandoned_eq_nil⟩
    | error x =>
      have hzero : places (some (.error x)) = 0 := rfl
      rw [after_append] at hr
      exact ⟨(calls_after hbefore hv hheld).fails_of_result? hmid hawaits hr, by omega⟩

/-- A sender whose value was refused, cancelled or left behind hears so. -/
theorem heard_of_fails {x : QueueError}
    (hx : Fails p ((opened capacity).after before) id v mid x) :
    (((opened capacity).after (before ++ .send id v :: mid)).step (.poll id)).2 =
      .look (.done (.sent (.error x))) := by
  have hf := follows_opened hbefore hv hmid hheld hawaits
  have hr := (calls_after hbefore hv hheld).result?_of_fails hmid hawaits hx
  rw [← after_append] at hr
  rw [step_poll, hf.poll, hr]

/-- A value that is given up while it waits is never received. -/
theorem received_of_givenUp (ha : Plain p a) (hrest : ∀ a ∈ rest, Plain p a) (hpoll : a ≠ .poll id)
    (hmine : ((opened capacity).after (before ++ .send id v :: mid)).concerns id a = true)
    (hline : ((opened capacity).after (before ++ .send id v :: mid)).queue.inLine p = true) :
    ((opened capacity).received (before ++ .send id v :: (mid ++ a :: rest))).countP p = 0 := by
  have hf := follows_opened hbefore hv hmid hheld hawaits
  have hgone := hf.givenUp (hf.traced.inLine_iff.mp hline) ha hmine hpoll
  have hentered := entered_of_resolved hgone rfl hrest
  have hsplit : before ++ .send id v :: (mid ++ a :: rest) =
      before ++ .send id v :: mid ++ a :: rest := by simp
  have hbalance := balance capacity (before ++ .send id v :: mid ++ a :: rest) p
  have hzero : places (some (.error .closed)) = 0 := rfl
  rw [hsplit]
  rw [show Queue.result? _ .spent = some (.error .closed) from rfl, hzero] at hentered
  omega

end

/-- The steps of a labelled script but one are not about the value of that one. -/
theorem plain_labelled {k n : Nat} {as : List (Step α)} (h : n < k ∨ k + as.length ≤ n) :
    ∀ a ∈ labelled k as, Plain (fun x : Nat × α => x.1 == n) a := by
  intro a ha x hx
  obtain ⟨hlow, hhigh⟩ := label_bounds ha hx
  have hne : x.1 ≠ n := by omega
  simpa using hne

/-- What became of the value of a send, whatever was done before the call, between the call and the
step `a`, and after it, as long as nobody dealt with the sender between the call and `a` but to look
at it in vain. The labels change nothing (first part). If `a` looks at the sender, the answer says
what became of the value, and it is an error exactly when one of the reasons for it is there; if `a`
gives up the sender while its value waits, nobody ever receives the value. -/
theorem send_tells_fate (capacity : Nat) (before mid rest : List (Step α)) (id : String) (v : α)
    (a : Step α) :
    let n := before.length
    let o : Session (Nat × α) := opened capacity
    let b := labelled 0 before
    let m := labelled (n + 1) mid
    let c := a.map (Prod.mk (n + 1 + mid.length))
    let r := labelled (n + 1 + mid.length + 1) rest
    let ours : Nat × α → Bool := fun x => x.1 == n
    let call : Step (Nat × α) := .send id (n, v)
    let seen := o.after (b ++ call :: m)
    let script := before ++ .send id v :: (mid ++ a :: rest)
    (labelled 0 script = b ++ call :: (m ++ c :: r) ∧
      (opened capacity).answers script = (o.answers (labelled 0 script)).map (Answer.map Prod.snd) ∧
      (opened capacity).after script = (o.after (labelled 0 script)).map Prod.snd) ∧
    ((o.after b).held = true → awaits id (o.after (b ++ [call])) m = true →
      (a = .poll id →
        (∃ l, (seen.step c).2 = .look l ∧ Says ours o b id (n, v) m r l) ∧
        ∀ x, Fails ours (o.after b) id (n, v) m x →
          (seen.step c).2 = .look (.done (.sent (.error x)))) ∧
      (a ≠ .poll id → seen.concerns id c = true → seen.queue.inLine ours = true →
        (o.received (b ++ call :: (m ++ c :: r))).countP ours = 0)) := by
  intro n o b m c r ours call seen script
  have hlabels : labelled 0 script = b ++ call :: (m ++ c :: r) := by
    simp [script, labelled_append, labelled_cons, Step.map, b, call, m, c, r, n]
  refine ⟨⟨hlabels, ?_, ?_⟩, fun hheld hawaits => ?_⟩
  · rw [← answers_map, labelled_snd]
    rfl
  · rw [← after_map, labelled_snd]
    rfl
  have hbefore : ∀ a ∈ b, Plain ours a := plain_labelled (by omega)
  have hmid : ∀ a ∈ m, Plain ours a := plain_labelled (by omega)
  have hrest : ∀ a ∈ r, Plain ours a := plain_labelled (by omega)
  have hours : ours (n, v) = true := beq_self_eq_true n
  rw [after_append] at hawaits
  refine ⟨?_, fun hpoll hmine hline => ?_⟩
  · rintro rfl
    exact ⟨heard hbefore hours hmid hheld hawaits hrest,
      fun x hx => heard_of_fails hbefore hours hmid hheld hawaits hx⟩
  · have hstep : ∀ d ∈ labelled (n + 1 + mid.length) [a], Plain ours d := plain_labelled (by omega)
    have hc : Plain ours c := hstep c (by simp [labelled_cons, c])
    exact received_of_givenUp hbefore hours hmid hheld hawaits hc hrest
      (fun h => hpoll (eq_poll_of_map h)) hmine hline

/-- The same value is sent twice to a queue with room for one, and the second send waits. It is told
that its value was taken once the first value is received, and a cancel after that discards the
value. A cancel while it waits fails it, also where the queue was closed before. And the value of a
send that is given up while it waits is not received. -/
theorem send_tells_fate_twice :
    let ours : Nat × Nat → Bool := fun x => x.1 == 1
    let o : Session (Nat × Nat) := opened 1
    let waiting : List (Step (Nat × Nat)) := [.trySend (0, 7), .send "a" (1, 7), .poll "a"]
    let taken := waiting ++ [.tryRecv]
    let script := taken ++ [.poll "a", .cancel .localCancelled]
    let failed := waiting ++ [.close .completed, .cancel .localCancelled]
    ((o.after taken).step (.poll "a")).2 = .look (.done (.sent (.ok ()))) ∧
      (o.entered script).countP ours = 1 ∧ (o.discarded script).countP ours = 1 ∧
      ((o.after failed).step (.poll "a")).2 =
        .look (.done (.sent (.error (.terminated .localCancelled)))) ∧
      (o.received (waiting ++ [.drop "a", .drain])).countP ours = 0 := by
  have htaken := (send_tells_fate 1 [.trySend 7] [.poll "a", .tryRecv] [.cancel .localCancelled] "a"
    7 (.poll "a")).2 rfl rfl
  have hfailed := (send_tells_fate 1 [.trySend 7]
    [.poll "a", .close .completed, .cancel .localCancelled] [] "a" 7 (.poll "a")).2 rfl rfl
  have hdropped := (send_tells_fate 1 [.trySend 7] [.poll "a"] [.drain] "a" 7 (.drop "a")).2 rfl rfl
  obtain ⟨⟨l, hl, hsays⟩, _⟩ := htaken.1 rfl
  cases hl
  have herror := (hfailed.1 rfl).2 (.terminated .localCancelled)
    (.cancelled [.poll "a", .close .completed] .localCancelled [] rfl rfl rfl)
  exact ⟨rfl, hsays.1, by decide, herror, hdropped.2 nofun rfl rfl⟩

end Session
end Queue
end PacedCall
