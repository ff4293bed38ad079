import PacedCall.Proofs.Desk
import PacedCall.Proofs.Loopback.Violations
import Mathlib.Data.Int.Order.Basic
import Mathlib.Data.List.Induction
import Mathlib.Order.Bounds.Basic

/-!
Waits on a transport, looked at in any order. Every change that can end a wait wakes all of them, so
one that is still asleep would find nothing new. However many wait for the same credit, the one that
is looked at first takes it, and the others find it gone; so as long as credit decides about them,
they deliver no more than was requested.
-/
namespace PacedCall
namespace Loopback
namespace Session
variable {α : Type} {s : Session α} {t : Loopback α} {d : Desk (Wait α × Park)} {id : String}
  {a : Step α} {w : Wait α} {v : α}

def name? : Step α → Option String
  | .wait id _ => some id
  | .poll id => some id
  | .drop id => some id
  | _ => none

theorem after_append (s : Session α) (as bs : List (Step α)) :
    s.after (as ++ bs) = (s.after as).after bs := List.foldl_append

@[simp] theorem after_concat (s : Session α) (as : List (Step α)) (a : Step α) :
    s.after (as ++ [a]) = ((s.after as).step a).1 := by
  simp [after]

@[simp] theorem desk_note (s : Session α) (n : Option (Notice α)) : (s.note n).desk = s.desk := by
  cases n with
  | none => rfl
  | some n => cases n <;> rfl

theorem peer_eq (s : Session α) (b : PeerAct α) :
    s.peer b =
      if b.moves then (note { s with wire := (s.wire.peer b).1 } (s.wire.peer b).2).touch
      else note { s with wire := (s.wire.peer b).1 } (s.wire.peer b).2 := rfl

def roused : Held (Wait α × Park) → Held (Wait α × Park) :=
  Desk.roused (fun _ w => if w.2 == .parked then some (w.1, .called) else none) ""

theorem find?_touch (s : Session α) (id : String) :
    s.touch.desk.find? id = (s.desk.find? id).map roused := by
  rw [touch, Desk.find?_wake]
  rfl

theorem roused_of_live {h : Held (Wait α × Park)} (hlive : h.finished = false) :
    roused h = if h.op.2 = .parked then { op := (h.op.1, .called), woken := true } else h := by
  obtain ⟨⟨w, p⟩, finished, woken⟩ := h
  cases hlive
  cases p <;> rfl

theorem roused_of_finished {h : Held (Wait α × Park)} (hdone : h.finished = true) :
    roused h = h := if_pos hdone

/-- What the peer does unnoticed ends no wait. -/
theorem settles_peer {b : PeerAct α} (hb : b.moves = false) (w : Wait α) :
    (t.peer b).1.settles w = t.settles w := by
  cases b with
  | setReady | fireReady | rejectWrites => cases w <;> rfl
  | deliver | complete | fail | cancel => cases hb

theorem op_roused (h : Held (Wait α × Park)) : (roused h).op.1 = h.op.1 := by
  cases hdone : h.finished with
  | true => rw [roused_of_finished hdone]
  | false =>
    rw [roused_of_live hdone]
    split <;> rfl

def look (s : Session α) (id : String) (w : Wait α) (settled : Bool) : Session α :=
  { s with desk := s.desk.put id { op := (w, .parked), finished := settled } }

inductive Looks (s : Session α) (id : String) : Session α → Look (Wait α) → Prop where
  | missing (hnone : s.desk.find? id = none) : Looks s id s .missing
  | finished {k : Held (Wait α × Park)} (hk : s.desk.find? id = some k) (hover : k.finished = true) :
      Looks s id { s with desk := s.desk.put id { k with woken := false } } .finished
  | pending {k : Held (Wait α × Park)} (hk : s.desk.find? id = some k) (hlive : k.finished = false)
      (hwaits : k.op.2 = .parked ∨ s.wire.settles k.op.1 = false) :
      Looks s id (s.look id k.op.1 false) .pending
  | done {k : Held (Wait α × Park)} (hk : s.desk.find? id = some k) (hlive : k.finished = false)
      (hawake : k.op.2 ≠ .parked) (hsettled : s.wire.settles k.op.1 = true)
      (hother : ∀ v, k.op.1 ≠ .deliver v) : Looks s id (s.look id k.op.1 true) (.done k.op.1)
  | delivered {v : α} {k : Held (Wait α × Park)} (hk : s.desk.find? id = some k)
      (hlive : k.finished = false) (hv : k.op.1 = .deliver v) (hawake : k.op.2 ≠ .parked)
      (hsettled : s.wire.settles (.deliver v) = true) :
      Looks s id ((s.look id (.deliver v) true).peer (.deliver v)) (.done (.deliver v))

theorem looks_poll (s : Session α) (id : String) : s.Looks id (s.poll id).1 (s.poll id).2 := by
  rw [poll]
  split
  · next hnone => exact .missing hnone
  · next k hk =>
    split
    · next hover => exact .finished hk hover
    · next hlive =>
      have hlive : k.finished = false := by simpa using hlive
      obtain ⟨⟨w, p⟩, finished, woken⟩ := k
      simp only
      cases hs : p != .parked && s.wire.settles w with
      | false =>
        simp only [Bool.and_eq_false_iff, bne_eq_false_iff_eq] at hs
        exact .pending hk hlive hs
      | true =>
        simp only [Bool.and_eq_true, bne_iff_ne] at hs
        cases w with
        | deliver v => exact .delivered hk hlive rfl hs.1 hs.2
        | credit | finished | sent => exact .done hk hlive hs.1 hs.2 (by simp)

/-! Who sleeps. -/

/-- A wait that is not finished sleeps only on what is not so, and whoever was called was woken. -/
def Attends (t : Loopback α) (h : Held (Wait α × Park)) : Prop :=
  h.finished = false →
    (h.op.2 = .parked → t.settles h.op.1 = false) ∧ (h.op.2 = .called → h.woken = true)

def Attentive (d : Desk (Wait α × Park)) (t : Loopback α) : Prop :=
  ∀ id h, d.find? id = some h → Attends t h

namespace Attentive

/-- Nothing changed that anybody waits for. -/
theorem congr (h : Attentive d s.wire) (ht : ∀ w, t.settles w = s.wire.settles w) :
    Attentive d t := by
  intro id k hk hlive
  rw [ht]
  exact h id k hk hlive

theorem put (h : Attentive d t) {k : Held (Wait α × Park)} (hk : Attends t k) :
    Attentive (d.put id k) t := by
  intro other g hg
  by_cases hne : other = id
  · rw [hne, Desk.find?_put_self] at hg
    exact Option.some.inj hg ▸ hk
  · rw [Desk.find?_put_of_ne _ _ hne] at hg
    exact h other g hg

theorem erase (h : Attentive d t) : Attentive (d.erase id) t := by
  intro other g hg
  by_cases hne : other = id
  · rw [hne, Desk.find?_erase_self] at hg
    cases hg
  · rw [Desk.find?_erase_of_ne _ hne] at hg
    exact h other g hg

/-- Once everybody is woken, nobody sleeps on anything, whatever changed. -/
theorem touch (h : Attentive s.desk t) : Attentive s.touch.desk s.wire := by
  intro id g hg hlive
  rw [find?_touch] at hg
  obtain ⟨k, hk, rfl⟩ := Option.map_eq_some_iff.mp hg
  cases hdone : k.finished with
  | true =>
    rw [roused_of_finished hdone, hdone] at hlive
    cases hlive
  | false =>
    rw [roused_of_live hdone]
    split
    · exact ⟨nofun, fun _ => rfl⟩
    · next hawake => exact ⟨fun hparked => absurd hparked hawake, (h id k hk hdone).2⟩

theorem change (h : Attentive s.desk t) (n : Option (Notice α)) :
    Attentive (s.note n).touch.desk (s.note n).touch.wire :=
  touch (t := t) ((desk_note s n).symm ▸ h)

theorem peer (h : Attentive s.desk s.wire) (b : PeerAct α) :
    Attentive (s.peer b).desk (s.peer b).wire := by
  rw [peer_eq]
  split
  · exact change (s := { s with wire := (s.wire.peer b).1 }) h _
  · next hm =>
    rw [desk_note, wire_note]
    exact h.congr fun w => settles_peer (by simpa using hm) w

/-- A wait that is looked at sleeps on only if it found that it has to. -/
theorem poll (h : Attentive s.desk s.wire) (id : String) :
    Attentive (s.poll id).1.desk (s.poll id).1.wire := by
  have hlooks := s.looks_poll id
  generalize (s.poll id).1 = u, (s.poll id).2 = l at hlooks ⊢
  have hover : ∀ w, Attentive (s.look id w true).desk (s.look id w true).wire :=
    fun w => h.put fun hlive => by cases hlive
  cases hlooks with
  | missing => exact h
  | finished hk hover => exact h.put fun hlive => absurd hlive (by simp [hover])
  | @pending k hk hlive hwaits =>
    refine h.put fun _ => ⟨fun _ => hwaits.elim ?_ fun hno => hno, nofun⟩
    exact fun hparked => (h id k hk hlive).1 hparked
  | done => exact hover _
  | delivered => exact (hover _).peer _

theorem step (h : Attentive s.desk s.wire) (a : Step α) :
    Attentive (s.step a).1.desk (s.step a).1.wire := by
  rw [Session.step]
  generalize hs : ({ s with notices := [] } : Session α) = s'
  have h' : Attentive s'.desk s'.wire := by rw [← hs]; exact h
  cases a with
  | peer b => exact h'.peer b
  | start => exact change (s := { s' with wire := s'.wire.start.1 }) h' _
  | watch => exact h'.congr fun w => by cases w <;> rfl
  | disableAutomaticCredit => exact h'.congr fun w => by cases w <;> rfl
  | requestCredit n => exact touch (s := { s' with wire := s'.wire.requestCredit n }) h'
  | sendMessage v =>
    simp only [apply, Loopback.sendMessage]
    cases s'.wire.rejecting with
    | some st => exact h'
    | none =>
      cases s'.wire.finished with
      | true => exact h'
      | false => exact touch (s := { s' with wire := { s'.wire with sent := _ } }) h'
  | halfClose => exact touch (s := { s' with wire := s'.wire.halfClose }) h'
  | closeWithError st => exact touch (s := { s' with wire := s'.wire.closeWithError st }) h'
  | cancel st => exact touch (s := { s' with wire := s'.wire.cancel st }) h'
  | wait id w => exact h'.put fun _ => ⟨by simp, by simp⟩
  | poll id => exact h'.poll id
  | drop id => exact h'.erase
  | unknown => exact h'

theorem after (ready : Bool) (as : List (Step α)) :
    let s : Session α := (opened ready).after as
    Attentive s.desk s.wire := by
  induction as using List.reverseRecOn with
  | nil => exact fun id h hfound => by cases hfound
  | append_singleton as a ih =>
    rw [after_concat]
    exact ih.step a

end Attentive

/-! Who waits for what. -/

theorem find?_look (s : Session α) (id : String) (w : Wait α) (settled : Bool) :
    (s.look id w settled).desk.find? id = some { op := (w, .parked), finished := settled } :=
  Desk.find?_put_self _ _ _

theorem find?_peer (s : Session α) (b : PeerAct α) (id : String) :
    (s.peer b).desk.find? id = s.desk.find? id ∨
      (s.peer b).desk.find? id = (s.desk.find? id).map roused := by
  rw [peer_eq]
  split
  · exact .inr (by rw [find?_touch, desk_note])
  · exact .inl (by rw [desk_note])

/-- A step calls the waits that it does not deal with, or leaves them alone. -/
theorem find?_step_of_ne (s : Session α) (hne : name? a ≠ some id) :
    (s.step a).1.desk.find? id = s.desk.find? id ∨
      (s.step a).1.desk.find? id = (s.desk.find? id).map roused := by
  have hother : ∀ other, name? a = some other → id ≠ other := by
    rintro other hname rfl
    exact hne hname
  rw [step]
  generalize hs : ({ s with notices := [] } : Session α) = s'
  have hdesk : s.desk = s'.desk := by rw [← hs]
  rw [hdesk]
  cases a with
  | peer b => exact s'.find?_peer b id
  | start => exact .inr ((find?_touch _ _).trans (by rw [desk_note]))
  | requestCredit | halfClose | closeWithError | cancel => exact .inr (find?_touch _ _)
  | sendMessage v =>
    simp only [apply]
    split
    · exact .inr (find?_touch _ _)
    · exact .inl rfl
  | wait other w => exact .inl (Desk.find?_put_of_ne _ _ (hother other rfl))
  | drop other => exact .inl (Desk.find?_erase_of_ne _ (hother other rfl))
  | poll other =>
    have hput : ∀ k, (s'.desk.put other k).find? id = s'.desk.find? id :=
      fun k => Desk.find?_put_of_ne _ _ (hother other rfl)
    have hlooks := s'.looks_poll other
    rw [apply]
    generalize (s'.poll other).1 = u, (s'.poll other).2 = l at hlooks ⊢
    cases hlooks with
    | missing => exact .inl rfl
    | finished | pending | done => exact .inl (hput _)
    | @delivered v =>
      rw [← hput { op := (.deliver v, .parked), finished := true }]
      exact (s'.look other (.deliver v) true).find?_peer _ id
  | watch | disableAutomaticCredit | unknown => exact .inl rfl

def Awaits (s : Session α) (id : String) (w : Wait α) : Prop :=
  ∃ h, s.desk.find? id = some h ∧ h.op.1 = w

def Pending (s : Session α) (id : String) (w : Wait α) : Prop :=
  ∃ h, s.desk.find? id = some h ∧ h.op.1 = w ∧ h.finished = false ∧ h.op.2 ≠ .idle

theorem awaits_wait (s : Session α) (id : String) (w : Wait α) :
    (s.step (.wait id w)).1.Awaits id w := ⟨_, Desk.find?_put_self _ _ _, rfl⟩

theorem Looks.awaits {u : Session α} {l : Look (Wait α)} (h : s.Looks id u l)
    (hw : s.Awaits id w) : u.Awaits id w := by
  obtain ⟨g, hg, rfl⟩ := hw
  cases h with
  | missing => exact ⟨g, hg, rfl⟩
  | finished hk =>
    obtain rfl := Option.some.inj (hk.symm.trans hg)
    exact ⟨_, Desk.find?_put_self _ _ _, rfl⟩
  | pending hk | done hk =>
    obtain rfl := Option.some.inj (hk.symm.trans hg)
    exact ⟨_, find?_look _ _ _ _, rfl⟩
  | @delivered v k hk hlive hv =>
    obtain rfl := Option.some.inj (hk.symm.trans hg)
    have hfound := (s.look id (.deliver v) true).find?_peer (.deliver v) id
    rw [find?_look, Option.map_some, roused_of_finished rfl, or_self] at hfound
    exact ⟨_, hfound, hv.symm⟩

/-- It is the same wait as long as it is only looked at. -/
theorem Awaits.step (h : s.Awaits id w) (ha : name? a = some id → a = .poll id) :
    (s.step a).1.Awaits id w := by
  by_cases hname : name? a = some id
  · obtain rfl := ha hname
    exact (looks_poll { s with notices := [] } id).awaits h
  · obtain ⟨k, hk, hw⟩ := h
    obtain hsame | hcalled := s.find?_step_of_ne hname
    · exact ⟨k, hsame.trans hk, hw⟩
    · rw [hk, Option.map_some] at hcalled
      exact ⟨_, hcalled, (op_roused k).trans hw⟩

theorem Awaits.after (h : s.Awaits id w) {as : List (Step α)}
    (hlooked : ∀ a ∈ as, name? a = some id → a = .poll id) : (s.after as).Awaits id w := by
  induction as generalizing s with
  | nil => exact h
  | cons a as ih =>
    obtain ⟨ha, hrest⟩ := List.forall_mem_cons.mp hlooked
    exact ih (h.step ha) hrest

theorem pending_of_poll (h : s.Awaits id w) (hlook : (s.step (.poll id)).2 = .look .pending) :
    (s.step (.poll id)).1.Pending id w := by
  obtain ⟨g, hg, rfl⟩ := h
  have hlooks := looks_poll { s with notices := [] } id
  rw [show (Session.poll { s with notices := [] } id).2 = .pending from Answer.look.inj hlook]
    at hlooks
  show Pending (Session.poll { s with notices := [] } id).1 id _
  generalize (Session.poll { s with notices := [] } id).1 = u at hlooks ⊢
  cases hlooks with
  | pending hk =>
    obtain rfl := Option.some.inj (hk.symm.trans hg)
    exact ⟨_, find?_look _ _ _ _, rfl, rfl, nofun⟩

/-- It stays so until it is dealt with again. -/
theorem Pending.step (h : s.Pending id w) (hne : name? a ≠ some id) :
    (s.step a).1.Pending id w := by
  obtain ⟨k, hk, hw, hlive, hplace⟩ := h
  obtain hsame | hcalled := s.find?_step_of_ne hne
  · exact ⟨k, hsame.trans hk, hw, hlive, hplace⟩
  · rw [hk, Option.map_some, roused_of_live hlive] at hcalled
    split at hcalled
    · exact ⟨_, hcalled, hw, rfl, nofun⟩
    · exact ⟨k, hcalled, hw, hlive, hplace⟩

theorem Pending.after (h : s.Pending id w) {as : List (Step α)}
    (hspared : ∀ a ∈ as, name? a ≠ some id) : (s.after as).Pending id w := by
  induction as generalizing s with
  | nil => exact h
  | cons a as ih =>
    obtain ⟨ha, hrest⟩ := List.forall_mem_cons.mp hspared
    exact ih (h.step ha) hrest

/-- Whoever was not woken sleeps on what is not so. -/
theorem Pending.unsettled (h : s.Pending id w) (hattends : Attentive s.desk s.wire)
    (hunwoken : id ∉ s.desk.woken) : s.wire.settles w = false := by
  obtain ⟨k, hk, rfl, hlive, hplace⟩ := h
  obtain ⟨hparked, hcalled⟩ := hattends id k hk hlive
  have hsleeps := Desk.woken_of_not_mem hk hunwoken
  rcases hp : k.op.2 with _ | _ | _
  · exact absurd hp hplace
  · exact hparked hp
  · cases (hcalled hp).symm.trans hsleeps

/-! What a delivery takes. -/

theorem wire_of_delivered (hlook : (s.step (.poll id)).2 = .look (.done (.deliver v))) :
    s.wire.settles (.deliver v) = true ∧
      (s.step (.poll id)).1.wire = { s.wire with delivered := s.wire.delivered + 1 } := by
  have hlooks := looks_poll { s with notices := [] } id
  rw [show (Session.poll { s with notices := [] } id).2 = .done (.deliver v) from
    Answer.look.inj hlook] at hlooks
  show _ ∧ (Session.poll { s with notices := [] } id).1.wire = _
  generalize (Session.poll { s with notices := [] } id).1 = u,
    hl : Look.done (Wait.deliver v) = l at hlooks ⊢
  cases hlooks with
  | done _ _ _ _ hother => exact absurd (Look.done.inj hl).symm (hother v)
  | delivered _ _ _ _ hsettled =>
    cases hl
    exact ⟨hsettled, wire_peer _ _⟩
  | _ => cases hl

/-- Whoever waits for credit to deliver finds some, or a call that was terminated. -/
theorem settled_of_delivers (hd : s.delivers a = true) (ha : ∀ v, a ≠ .peer (.deliver v)) :
    0 < s.wire.outstanding ∨ s.wire.terminated = true := by
  cases a with
  | peer b =>
    cases b with
    | deliver v => exact absurd rfl (ha v)
    | _ => cases hd
  | poll id =>
    simp only [delivers] at hd
    split at hd
    · simpa [settles] using (Bool.and_eq_true_iff.mp hd).2
    · cases hd
  | _ => cases hd

/-- A call that was terminated stays so. -/
theorem terminated_step (h : (s.step a).1.wire.terminated = false) : s.wire.terminated = false := by
  rw [wire_step] at h
  cases a with
  | peer b => cases b <;> exact h
  | sendMessage v =>
    obtain ⟨sent, hsent⟩ := s.wire.exists_sendMessage v
    simp only [hsent] at h
    exact h
  | poll id =>
    simp only at h
    split at h <;> exact h
  | closeWithError st => cases h
  | cancel st => simp [terminated, Loopback.cancel] at h
  | _ => exact h

/-- As long as all who deliver wait for credit, and nobody terminates the call, there was credit for
all that was delivered. -/
theorem covered_after (ready : Bool) {as : List (Step α)} (has : ∀ v, .peer (.deliver v) ∉ as) :
    let s : Session α := (opened ready).after as
    s.wire.terminated = false → s.wire.delivered ≤ s.wire.requested := by
  induction as using List.reverseRecOn with
  | nil => exact fun _ => le_rfl
  | append_singleton as a ih =>
    rw [after_concat]
    intro s hgoes
    have hbefore := terminated_step hgoes
    have hcovered := ih (fun v hv => has v (List.mem_append_left _ hv)) hbefore
    have ha : ∀ v, a ≠ .peer (.deliver v) := by
      rintro v rfl
      exact has v (by simp)
    have htotals := totals_step ((opened ready).after as) a
    simp only [totals, Prod.mk.injEq] at htotals
    simp only [s, htotals]
    split
    · next hd =>
      have hcredit := (settled_of_delivers hd ha).resolve_right (by simp [hbefore])
      simp only [outstanding] at hcredit
      omega
    · omega

/-! How much credit was outstanding. -/

theorem maxOutstanding_of_no_grant (ha : ∀ n, a ≠ .requestCredit n) :
    (s.step a).1.wire.maxOutstanding = s.wire.maxOutstanding := by
  rw [wire_step]
  cases a with
  | requestCredit n => exact absurd rfl (ha n)
  | peer b => cases b <;> rfl
  | sendMessage v =>
    obtain ⟨sent, hsent⟩ := s.wire.exists_sendMessage v
    simp only [hsent]
  | poll id =>
    simp only
    split <;> rfl
  | _ => rfl

theorem maxOutstanding_step (h : s.wire.outstanding ≤ s.wire.maxOutstanding) (a : Step α) :
    (s.step a).1.wire.maxOutstanding =
      max s.wire.maxOutstanding (s.step a).1.wire.outstanding := by
  have hfalls : grants a = 0 → (s.step a).1.wire.outstanding ≤ s.wire.outstanding := by
    intro hnone
    have htotals := totals_step s a
    simp only [totals, Prod.mk.injEq, hnone] at htotals
    simp only [outstanding, htotals]
    omega
  cases a with
  | requestCredit n => rfl
  | _ => exact (maxOutstanding_of_no_grant (by simp)).trans (max_eq_left ((hfalls rfl).trans h)).symm

def margin (s : Session α) : Int := s.wire.requested - s.wire.delivered

/-- The largest margin that there ever was is kept. -/
theorem isGreatest_margin (ready : Bool) (as : List (Step α)) :
    let o : Session α := opened ready
    (o.after as).wire.outstanding ≤ (o.after as).wire.maxOutstanding ∧
      IsGreatest {m | ∃ before, before <+: as ∧ m = (o.after before).margin}
        ((o.after as).wire.maxOutstanding : Int) := by
  intro o
  induction as using List.reverseRecOn with
  | nil =>
    refine ⟨le_rfl, ⟨[], List.prefix_rfl, rfl⟩, ?_⟩
    rintro m ⟨before, hbefore, rfl⟩
    rw [List.prefix_nil.mp hbefore]
    exact le_rfl
  | append_singleton as a ih =>
    obtain ⟨hle, ⟨first, hfirst, hreached⟩, hbound⟩ := ih
    have hmax := maxOutstanding_step hle a
    rw [after_concat]
    set s := o.after as with hs
    have hmargin : (s.step a).1.margin ≤ ((s.step a).1.wire.outstanding : Int) := by
      rw [margin, outstanding]
      omega
    refine ⟨hmax ▸ le_max_right _ _, ?_, ?_⟩
    · by_cases hnew : s.wire.maxOutstanding < (s.step a).1.wire.outstanding
      · refine ⟨as ++ [a], List.prefix_rfl, ?_⟩
        rw [after_concat, ← hs, hmax, margin]
        simp only [outstanding] at hnew ⊢
        omega
      · refine ⟨first, hfirst.trans (List.prefix_append _ _), ?_⟩
        rw [← hreached, hmax, max_eq_left (by omega)]
    · rintro m ⟨before, hbefore, rfl⟩
      obtain rfl | hbefore := List.prefix_concat_iff.mp hbefore
      · rw [after_concat, ← hs, hmax]
        omega
      · have hold := hbound ⟨before, hbefore, rfl⟩
        rw [hmax]
        omega

/-- Waits on a transport. One that ends with a delivery, while the call is not terminated, takes
one credit that was outstanding, and leaves all else as it is; so if nothing is delivered otherwise,
there was credit for all that was delivered. The largest margin of credit ever is kept. And one that
was looked at in vain and was not woken since waits for what is not so. -/
theorem waits_exact (ready : Bool) (as : List (Step α)) :
    let o : Session α := opened ready
    let s := o.after as
    (∀ id v, (s.step (.poll id)).2 = .look (.done (.deliver v)) → s.wire.terminated = false →
      0 < s.wire.outstanding ∧
        (s.step (.poll id)).1.wire = { s.wire with delivered := s.wire.delivered + 1 }) ∧
    ((∀ v, .peer (.deliver v) ∉ as) → s.wire.terminated = false →
      s.wire.delivered ≤ s.wire.requested) ∧
    IsGreatest {m | ∃ before, before <+: as ∧ m = (o.after before).margin}
      (s.wire.maxOutstanding : Int) ∧
    ∀ before id w looks rest, as = before ++ .wait id w :: (looks ++ .poll id :: rest) →
      (∀ a ∈ looks, name? a = some id → a = .poll id) →
      ((o.after (before ++ .wait id w :: looks)).step (.poll id)).2 = .look .pending →
      (∀ a ∈ rest, name? a ≠ some id) → id ∉ s.desk.woken → s.wire.settles w = false := by
  intro o s
  refine ⟨fun id v hlook hgoes => ?_, covered_after ready, (isGreatest_margin ready as).2, ?_⟩
  · obtain ⟨hsettled, hwire⟩ := wire_of_delivered hlook
    exact ⟨by simpa [settles, hgoes] using hsettled, hwire⟩
  · rintro before id w looks rest has hlooks hpending hspared hunwoken
    have hawaits : (o.after (before ++ .wait id w :: looks)).Awaits id w := by
      rw [after_append]
      exact (awaits_wait _ id w).after hlooks
    have hlast : s = ((o.after (before ++ .wait id w :: looks)).step (.poll id)).1.after rest := by
      simp only [s, has]
      rw [← List.cons_append, ← List.append_assoc, after_append]
      rfl
    have hwaits : s.Pending id w := hlast ▸ (pending_of_poll hawaits hpending).after hspared
    exact hwaits.unsettled (Attentive.after ready as) hunwoken

/-- Two wait to deliver, and there is credit for one: the first that is looked at delivers, and the
other looks again and sleeps on. -/
theorem waits_exact_contested :
    let as : List (Step Nat) := [.wait "a" (.deliver 1), .poll "a", .wait "b" (.deliver 2),
      .poll "b", .requestCredit 1, .poll "a", .poll "b"]
    let o : Session Nat := opened true
    let granted := o.after (as.take 5)
    let s := o.after as
    0 < granted.wire.outstanding ∧ s.wire.delivered ≤ s.wire.requested ∧
      s.wire.maxOutstanding = 1 ∧
      IsGreatest {m | ∃ before, before <+: as ∧ m = (o.after before).margin}
        (s.wire.maxOutstanding : Int) ∧
      s.wire.settles (.deliver 2) = false := by
  intro as o granted s
  have hnone : ∀ v, .peer (.deliver v) ∉ as := by simp [as]
  have hgoes : s.wire.terminated = false := by decide
  have hmax : s.wire.maxOutstanding = 1 := by decide
  have hunwoken : "b" ∉ s.desk.woken := by
    rw [Desk.woken, List.mem_mergeSort]
    decide
  obtain ⟨htakes, _⟩ := waits_exact true (as.take 5)
  have hcredit : 0 < granted.wire.outstanding := (htakes "a" 1 rfl (by decide)).1
  obtain ⟨_, hcovered, hgreatest, hsleeps⟩ := waits_exact true as
  have hasleep := hsleeps [.wait "a" (.deliver 1), .poll "a"] "b" (.deliver 2)
    [.poll "b", .requestCredit 1, .poll "a"] [] rfl (by simp [name?]) rfl (by simp) hunwoken
  have hall := hcovered hnone hgoes
  with_reducible exact ⟨hcredit, hall, hmax, hgreatest, hasleep⟩

end Session
end Loopback
end PacedCall
