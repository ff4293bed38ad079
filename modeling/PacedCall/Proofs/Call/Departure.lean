import PacedCall.Proofs.Call.Ending

/-!
A consumer that leaves while the tasks of its call run elsewhere. Giving up what comes in takes two
steps: the queue is emptied and closed, and then the scope is cancelled. A supervisor that looks in
between, after the pump has ended, takes the call for one that both sides have ended, and returns;
the scope is then cancelled to no avail, and the peer goes on sending to nobody. This is the only
way in which a consumer can leave without its peer hearing of it.
-/
namespace PacedCall

namespace Call
variable {α : Type} {c : Call α}

def settles (c : Call α) (now : Nat) : Bool :=
  match c.supervisor with
  | .finished => false
  | .watching e => !c.scope.cancelled && !(e.arm now).due now && c.settled

theorem pollSupervisor_of_settles {now : Nat} (h : c.settles now = true) :
    c.supervisor.done = false ∧ c.pollSupervisor now = { c with supervisor := .finished } := by
  unfold settles at h
  rw [pollSupervisor]
  split at h
  · cases h
  · next e he =>
    simp only [Bool.and_eq_true, Bool.not_eq_true'] at h
    obtain ⟨⟨hs, hdue⟩, hsettled⟩ := h
    simp [he, hs, hdue, hsettled, Supervisor.done]

theorem pollSupervisor_of_done {now : Nat} (hd : c.supervisor.done = true) :
    c.pollSupervisor now = c := by
  cases hsup : c.supervisor with
  | finished => rw [pollSupervisor, hsup]
  | watching e =>
    rw [hsup] at hd
    cases hd

/-- A supervisor that returns from a call that goes on has found it settled. -/
theorem settles_of_returns {now : Nat} (hw : c.supervisor.done = false)
    (hd : (c.pollSupervisor now).supervisor.done = true)
    (hs : (c.pollSupervisor now).scope.cancelled = false) : c.settles now = true := by
  have htorn : ∀ d : Call α, d.tearDown.scope = d.scope := fun _ => rfl
  unfold settles
  rw [pollSupervisor] at hd hs
  cases hsup : c.supervisor with
  | finished =>
    rw [hsup] at hw
    cases hw
  | watching e =>
    simp only [hsup] at hd hs
    split at hd
    · next hc =>
      rw [if_pos hc, htorn] at hs
      cases hs.symm.trans hc
    · next hc =>
      rw [if_neg hc] at hs
      split at hd
      · next hdue =>
        rw [if_pos hdue, htorn] at hs
        cases hs.symm.trans (Scope.cancelled_cancelWith _ _ _)
      · next hdue =>
        split at hd
        · next hsettled => simp [hc, hdue, hsettled]
        · cases hd

end Call

/-- A call and its consumer, who is `leaving` between the two steps of giving up what comes in. -/
structure Departure (α : Type) where
  course : Course α
  leaving : Bool := false

namespace Departure
variable {α : Type}

inductive Move (α : Type) where
  | act (m : PacedCall.Move α)
  | letGo
  | giveUp

def step (s : Departure α) : Move α → Departure α
  | .act m => { s with course := s.course.step m }
  | .letGo =>
    { course := s.course.withCall s.course.call.discardInbound
      leaving := s.leaving || !s.course.call.inbound.queue.closedForSend }
  | .giveUp =>
    if s.leaving then
      { course := s.course.withCall (s.course.call.cancelScope .here .inboundAbandoned) }
    else s

def run (s : Departure α) (ms : List (Move α)) : Departure α := ms.foldl step s

@[simp] theorem run_nil (s : Departure α) : s.run [] = s := rfl

@[simp] theorem run_concat (s : Departure α) (ms : List (Move α)) (m : Move α) :
    s.run (ms ++ [m]) = (s.run ms).step m := by
  rw [run, List.foldl_append]
  rfl

theorem run_append (s : Departure α) (ms ns : List (Move α)) :
    s.run (ms ++ ns) = (s.run ms).run ns := List.foldl_append

def opened (o : Opening α) (p : CallPlan) (ready : Bool) (acts : List (PeerAct α)) :
    Departure α := { course := .opened o p ready acts }

/-- With nothing in between, the two steps are the one of a consumer that gives up. -/
theorem step_letGo_giveUp (s : Departure α) (hs : s.leaving = false) :
    ((s.step .letGo).step .giveUp).course = s.course.step .cancelInbound := by
  simp only [step, hs, Bool.false_or, Course.step, Call.cancelInbound]
  cases hc : s.course.call.inbound.queue.closedForSend with
  | true => simp
  | false => simp [Course.withCall]

/-- A client whose receiving half goes away gives up what comes in. -/
theorem step_dropInbound_of_client (s : Course α) (hr : s.call.handle.role = .client) :
    s.step .dropInbound = s.step .cancelInbound := by
  simp only [Course.step, Call.dropInbound, hr]
  split
  · next hread =>
    -- Nothing is left of a queue that was read to its end, so nothing is discarded.
    obtain ⟨⟨hterm, hb⟩, hw⟩ : (s.call.inbound.queue.termination.isSome = true ∧
        s.call.inbound.queue.buffer = []) ∧ s.call.inbound.queue.waiting = [] := by
      simpa [Call.readAll, Queue.closedForReceive, and_assoc] using hread
    have hsame : ∀ st, (s.call.inbound.queue.cancel st).1 = s.call.inbound.queue := by
      intro st
      obtain ⟨how, hhow⟩ := Option.isSome_iff_exists.mp hterm
      generalize s.call.inbound.queue = q at hhow hb hw
      obtain ⟨_, buffer, waiting, _, _, _⟩ := q
      simp_all [Queue.cancel, Queue.close, Queue.dismiss]
    have hclosed : s.call.inbound.queue.closedForSend = true := hterm
    simp [Call.cancelInbound, Call.discardInbound, Call.withInbound, hsame, hclosed]
  · rfl

structure Quiet (s : Departure α) : Prop where
  tasks : s.course.Quiet
  stays : s.leaving = false

def misses (s : Departure α) : Move α → Bool
  | .act .supervise => s.leaving && s.course.call.settles s.course.now
  | _ => false

def missed : Departure α → List (Move α) → Bool
  | _, [] => false
  | s, m :: ms => s.misses m || missed (s.step m) ms

theorem missed_concat (s : Departure α) (ms : List (Move α)) (m : Move α) :
    s.missed (ms ++ [m]) = (s.missed ms || (s.run ms).misses m) := by
  induction ms generalizing s with
  | nil => simp [missed]
  | cons m' ms ih =>
    rw [List.cons_append, missed, missed, ih, Bool.or_assoc]
    rfl

theorem missed_concat_iff {s : Departure α} {ms : List (Move α)} {m : Move α} :
    s.missed (ms ++ [m]) = true ↔ s.missed ms = true ∨ (s.run ms).misses m = true := by
  rw [missed_concat, Bool.or_eq_true]

/-! Every step, in between or not. -/

theorem later_step (s : Departure α) (m : Move α) :
    s.course.call.Later (s.step m).course.call := by
  cases m with
  | act m => exact Course.later_step s.course m
  | letGo => exact { Call.Later.refl s.course.call with }
  | giveUp =>
    rw [step]
    split
    · exact (Call.outward_cancelScope _ _ _).toBeside.toLater
    · exact .refl _

theorem later_run (s : Departure α) (ms : List (Move α)) :
    s.course.call.Later (s.run ms).course.call := by
  induction ms using List.reverseRecOn with
  | nil => exact .refl _
  | append_singleton ms m ih =>
    rw [run_concat]
    exact ih.trans (later_step _ m)

theorem role_run (o : Opening α) (p : CallPlan) (ready : Bool) (acts : List (PeerAct α))
    (ms : List (Move α)) : ((opened o p ready acts).run ms).course.call.handle.role = p.role :=
  (later_run _ ms).role.trans (Course.role_started_opened o p ready acts).1

theorem exists_conducts_step (s : Departure α) (m : Move α) :
    ∃ l, s.course.call.Conducts True (s.step m).course.call l := by
  cases m with
  | act m =>
    obtain ⟨l, h⟩ := Course.exists_conducts_step s.course m
    exact ⟨l, { h with scope := h.scope.imp fun _ => trivial }⟩
  | letGo => exact ⟨_, .of_handle rfl .same id⟩
  | giveUp =>
    rw [step]
    split
    · exact ⟨_, Call.conducts_cancelScope _ _ _⟩
    · exact ⟨_, .refl _⟩

theorem recorded_run (o : Opening α) (p : CallPlan) (ready : Bool) (acts : List (PeerAct α))
    (ms : List (Move α)) :
    ((opened o p ready acts).run ms).course.call.handle.Recorded := by
  induction ms using List.reverseRecOn with
  | nil => exact Course.recorded_opened o p ready acts []
  | append_singleton ms m ih =>
    rw [run_concat]
    obtain ⟨l, hconducts⟩ := exists_conducts_step ((opened o p ready acts).run ms) m
    exact hconducts.uses.recorded ih

theorem local_step {s : Departure α} {missed : Prop}
    (h : s.course.call.Local (s.leaving = true) missed) (m : Move α)
    (hpeer : ∀ a, m = .act (.peer a) → a.ends s.course.call.handle.role = false) :
    (s.step m).course.call.Local ((s.step m).leaving = true)
      (missed ∨ s.misses m = true) := by
  cases m with
  | act m =>
    refine Course.local_step (h.imp id .inl) m (fun a ha => hpeer a (by rw [ha])) ?_
    rintro rfl hw hd hs hleaving
    refine .inr ?_
    have hleaving' : s.leaving = true := hleaving
    simp only [misses, hleaving', Call.settles_of_returns hw hd hs, Bool.and_self]
  | letGo =>
    cases hc : s.course.call.inbound.queue.closedForSend with
    | true =>
      simp only [step, hc, Bool.not_true, Bool.or_false]
      exact (h.imp id .inl).discardInbound fun _ => hc
    | false =>
      simp only [step, hc, Bool.not_false, Bool.or_true]
      exact { h.imp id .inl with inbound := fun _ => .inr (.inr trivial) }
  | giveUp =>
    rw [step]
    split
    · exact (h.imp id .inl).cancelScope _
    · exact h.imp id .inl

theorem local_run (o : Opening α) (p : CallPlan) (ready : Bool) (acts : List (PeerAct α))
    {ms : List (Move α)} (hpeer : ∀ a, .act (.peer a) ∈ ms → a.ends p.role = false) :
    ((opened o p ready acts).run ms).course.call.Local
      (((opened o p ready acts).run ms).leaving = true)
      ((opened o p ready acts).missed ms = true) := by
  induction ms using List.reverseRecOn with
  | nil => exact (Call.local_call o p _).imp False.elim False.elim
  | append_singleton ms m ih =>
    rw [run_concat]
    refine (local_step (ih fun a ha => hpeer a (List.mem_append_left _ ha)) m ?_).imp id
      missed_concat_iff.mpr
    rintro a rfl
    rw [role_run o p ready acts ms]
    exact hpeer a (by simp)

/-- Whoever is leaving has cancelled the scope by the time they are gone. -/
theorem leaving_or_cancelled {s : Departure α}
    (h : s.leaving = true ∨ s.course.call.scope.cancelled = true) (ms : List (Move α)) :
    (s.run ms).leaving = true ∨ (s.run ms).course.call.scope.cancelled = true := by
  induction ms using List.reverseRecOn with
  | nil => exact h
  | append_singleton ms m ih =>
    rw [run_concat]
    obtain hleaving | hs := ih
    · cases m with
      | act m => exact .inl hleaving
      | letGo => exact .inl (by simp [step, hleaving])
      | giveUp =>
        rw [step, if_pos hleaving]
        exact .inr (Scope.cancelled_cancelWith _ _ _)
    · exact .inr ((later_step _ m).scope hs)

/-- So a consumer who let go of an open queue, and is gone, has cancelled the scope. -/
theorem cancelled_of_letGo {s : Departure α}
    (hopen : s.course.call.inbound.queue.closedForSend = false) {ms : List (Move α)}
    (hgone : ((s.step .letGo).run ms).leaving = false) :
    ((s.step .letGo).run ms).course.call.scope.cancelled = true := by
  have hleaving : (s.step .letGo).leaving = true := by simp [step, hopen]
  exact (leaving_or_cancelled (.inl hleaving) ms).resolve_left (by simp [hgone])

/-- A supervisor that has returned tells nothing any more, and one that has not has told nothing. -/
structure Over (c : Call α) (missed : Prop) : Prop where
  late : c.handle.cancelled = true → c.supervisor.done = true
  silent : missed → c.supervisor.done = true ∧ c.handle.cancelled = false

theorem over_unwatched {c d : Call α} {missed : Prop} (h : Over c missed)
    (hu : c.Unwatched d) : Over d missed :=
  { late := by
      rw [hu.supervisor, hu.cancelled]
      exact h.late
    silent := by
      rw [hu.supervisor, hu.cancelled]
      exact h.silent }

theorem over_supervise {s : Departure α} {missed : Prop} (h : Over s.course.call missed) :
    Over (s.course.call.pollSupervisor s.course.now)
      (missed ∨ s.misses (.act .supervise) = true) := by
  have hdone : s.misses (.act .supervise) = true → s.course.call.settles s.course.now = true :=
    fun hm => (Bool.and_eq_true_iff.mp hm).2
  cases hw : s.course.call.supervisor.done with
  | true =>
    rw [Call.pollSupervisor_of_done hw]
    refine { h with silent := fun hm => ?_ }
    obtain hm | hm := hm
    · exact h.silent hm
    · cases hw.symm.trans (Call.pollSupervisor_of_settles (hdone hm)).1
  | false =>
    have hopen : s.course.call.handle.cancelled = false := by
      by_contra hc
      cases hw.symm.trans (h.late (by simpa using hc))
    refine ⟨?_, ?_⟩
    · have hwatch := Call.pollSupervisor_watch s.course.call s.course.now
      generalize s.course.call.pollSupervisor s.course.now = d at hwatch ⊢
      cases hwatch with
      | rest => exact h.late
      | watching e => exact fun hc => absurd hc (by simp [hopen])
      | _ => exact fun _ => rfl
    · rintro (hm | hm)
      · cases hw.symm.trans (h.silent hm).1
      · rw [(Call.pollSupervisor_of_settles (hdone hm)).2]
        exact ⟨rfl, hopen⟩

theorem over_step {s : Departure α} {missed : Prop} (h : Over s.course.call missed) (m : Move α) :
    Over (s.step m).course.call (missed ∨ s.misses m = true) := by
  have hother : ∀ {d : Call α}, s.course.call.Unwatched d → s.misses m = false →
      Over d (missed ∨ s.misses m = true) := by
    intro d hu hm
    simpa [hm] using over_unwatched h hu
  cases m with
  | act m =>
    by_cases hm : m = .supervise
    · subst hm
      exact over_supervise h
    · refine hother (Course.unwatched_step s.course hm) ?_
      cases m with
      | supervise => exact absurd rfl hm
      | _ => rfl
  | letGo => exact hother ⟨rfl, rfl⟩ rfl
  | giveUp =>
    refine hother ?_ rfl
    rw [step]
    split <;> exact ⟨rfl, rfl⟩

theorem over_run (o : Opening α) (p : CallPlan) (ready : Bool) (acts : List (PeerAct α))
    (ms : List (Move α)) :
    Over ((opened o p ready acts).run ms).course.call
      ((opened o p ready acts).missed ms = true) := by
  induction ms using List.reverseRecOn with
  | nil =>
    have hopen : (o.call p (.before ready acts)).handle.cancelled = false := by
      rw [(o.unwatched_call p _).cancelled]
      cases o <;> rfl
    exact ⟨fun hc => absurd hc (by simp [opened, Course.opened, hopen]), nofun⟩
  | append_singleton ms m ih =>
    rw [run_concat]
    have hstep := over_step ih m
    exact { hstep with silent := fun hm => hstep.silent (missed_concat_iff.mp hm) }

/-- A client whose consumer left in two steps, while more could still come in. Once nothing moves
any more, the peer was told of it once, unless the supervisor found the call settled in between:
then it is never told. -/
theorem departure_told (o : Opening α) (p : CallPlan) (ready : Bool) (acts : List (PeerAct α))
    (ms : List (Move α)) :
    let s₀ := opened o p ready acts
    let s := s₀.run ms
    p.role = .client → s.Quiet →
    (∃ before after, ms = before ++ .letGo :: after ∧
      (s₀.run before).course.call.inbound.queue.closedForSend = false) →
    (∀ a, .act (.peer a) ∈ ms → a.ends p.role = false) →
    (s₀.missed ms = false → s.course.call.wire.cancellations.length = 1) ∧
      (s₀.missed ms = true → s.course.call.wire.cancellations = []) := by
  intro s₀ s hclient hquiet habandoned hpeer
  have hrecorded : s.course.call.handle.Recorded := recorded_run o p ready acts ms
  have hrole : s.course.call.handle.role = .client := (role_run o p ready acts ms).trans hclient
  refine ⟨?_, ?_⟩
  · intro hseen
    obtain ⟨before, after, hms, hopen⟩ := habandoned
    have hrun : ((s₀.run before).step .letGo).run after = s := by
      rw [← run_concat, ← run_append]
      simp [s, hms]
    have hs : s.course.call.scope.cancelled = true := by
      rw [← hrun]
      exact cancelled_of_letGo hopen (hrun ▸ hquiet.stays)
    have hlocal := local_run o p ready acts hpeer
    have hheard :=
      (hlocal.ended (hquiet.tasks.supervisor_done hs)).resolve_right (by simp [s₀, hseen])
    have hcancelled : s.course.call.handle.cancelled = true := by
      rw [Call.heard, hrole] at hheard
      exact hheard
    rw [Call.wire, hrecorded.cancellations, hcancelled]
    rfl
  · intro hmissed
    have hsilent := ((over_run o p ready acts ms).silent hmissed).2
    rw [← List.length_eq_zero_iff, Call.wire, hrecorded.cancellations, hsilent]
    rfl

/-- The supervisor looks while the pump still runs: it sees nothing, and the call is cancelled. -/
theorem departure_told_running :
    let s := (opened .bidi { role := .client } true ([] : List (PeerAct Nat))).run
      [.letGo, .act .supervise, .giveUp, .act .supervise, .act .pump]
    s.Quiet ∧ s.course.call.wire.cancellations.length = 1 := by
  intro s
  have hquiet : s.Quiet := ⟨⟨rfl, rfl, fun _ => rfl⟩, rfl⟩
  have h := departure_told .bidi { role := .client } true ([] : List (PeerAct Nat))
    [.letGo, .act .supervise, .giveUp, .act .supervise, .act .pump] rfl hquiet
    ⟨[], _, rfl, rfl⟩ (by simp)
  exact ⟨hquiet, h.1 rfl⟩

/-- The request is written and half-closed, the consumer gives up the open queue, the supervisor
looks, and the scope is cancelled. Nothing moves any more, and the peer was never told. -/
theorem departure_untold :
    let s₀ := opened (.responses 7) { role := .client } true ([] : List (PeerAct Nat))
    let s := s₀.run [.act .pump, .letGo, .act .supervise, .giveUp]
    (s₀.run [.act .pump]).course.call.inbound.queue.closedForSend = false ∧ s.Quiet ∧
      s.course.call.scope.cancelled = true ∧ s.course.call.handle.remoteClosed = false ∧
      s.course.call.wire.cancellations = [] := by
  intro s₀ s
  exact ⟨rfl, ⟨⟨rfl, rfl, fun _ => rfl⟩, rfl⟩, rfl, rfl, rfl⟩

end Departure
end PacedCall
