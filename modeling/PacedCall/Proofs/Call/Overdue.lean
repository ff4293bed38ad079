import PacedCall.Proofs.Call.Attention
import PacedCall.Proofs.Call.Lasting

/-!
Who still waits on a call that its peer has ended. A failure and a cancellation release everybody:
they end the readiness of the call or its scope. A completion, which to a client ends the call just
as well, does neither; a pump that waits for a transport to become ready goes on waiting, and with
it everybody who waits for room behind it.
-/
namespace PacedCall

/-- Nobody waits for room on a queue with nothing to receive. -/
theorem Queue.Orderly.tickets_eq_nil {α : Type} {q : Queue α} (h : q.Orderly)
    (hq : q.readable = false ∨ q.closedForReceive = true) : q.tickets = [] := by
  have hbuffer : q.buffer = [] := by
    obtain hread | hclosed := hq
    · simp_all [readable]
    · simp_all [closedForReceive]
  rw [tickets, h.waiting_eq_nil hbuffer, List.map_nil]

namespace Call
variable {α : Type} {c d : Call α}

def Waits (c : Call α) (sd : Send α) : Prop :=
  ∃ t, sd = .placed (.inLine t) ∧ c.outbound.fate? t = none

/-- A sender that is not called was told nothing meanwhile. -/
theorem waits_of_quiet {sd : Send α} (h : c.Waits sd) (hquiet : c.callsSend d sd = false) :
    d.Waits sd := by
  obtain ⟨t, rfl, hfate⟩ := h
  refine ⟨t, rfl, ?_⟩
  simpa [callsSend, hfate] using (Bool.or_eq_false_iff.mp hquiet).2

theorem waits_of_queue {q : Queue α} {e f : Enqueue}
    (hpoll : c.outbound.pollSend e = (q, f, none)) :
    Waits { c with outbound := q } (.placed f) := by
  obtain ⟨rfl, rfl, t, rfl, hnone⟩ := Queue.pollSend_pending hpoll
  exact ⟨t, rfl, hnone⟩

/-- A sender that looks and gets no answer is in line. -/
theorem waits_of_pollSend {sd sd' : Send α} (hpoll : c.pollSend sd = (d, sd', none)) :
    d.Waits sd' := by
  unfold pollSend at hpoll
  cases hs : c.scope.status with
  | some st => simp [hs] at hpoll
  | none =>
    cases sd with
    | placed e =>
      rcases hq : c.outbound.pollSend e with ⟨q, f, r⟩
      simp only [hs, hq, Prod.mk.injEq] at hpoll
      obtain ⟨rfl, rfl, rfl⟩ := hpoll
      exact waits_of_queue hq
    | fresh v =>
      rcases hq : (c.outbound.send v).1.pollSend (c.outbound.send v).2 with ⟨q, f, r⟩
      simp only [hs, hq, Prod.mk.injEq] at hpoll
      obtain ⟨rfl, rfl, rfl⟩ := hpoll
      exact waits_of_queue (c := { c with outbound := (c.outbound.send v).1 }) hq

end Call

namespace Course
variable {α : Type} {s : Course α}

/-- What the transport reported to a call that is still there was heard. -/
theorem heard_of_reported (hstarted : s.call.wire.started = true) {ms : List (Move α)}
    {a : PeerAct α} (ha : .peer a ∈ ms) (halive : (s.run ms).call.alive = true) :
    (∀ st, a = .fail st → (s.run ms).call.readiness.cause.isSome = true) ∧
      (a = .cancel → (s.run ms).call.scope.cancelled = true) := by
  obtain ⟨before, after, rfl⟩ := List.append_of_mem ha
  rw [run_append] at halive ⊢
  have hlater : ((s.run before).step (.peer a)).call.Later
      ((s.run before).run (.peer a :: after)).call := later_run _ after
  have hthere : (s.run before).call.alive = true :=
    ((later_step _ _).trans hlater).alive halive
  have hlistens : (s.run before).call.wire.started = true :=
    (later_run s before).started.trans hstarted
  refine ⟨?_, ?_⟩
  · rintro st rfl
    obtain ⟨l, hconducts⟩ := exists_conducts_run ((s.run before).step (.peer (.fail st))) after
    refine hconducts.unready ?_
    have hhears : (s.run before).call.hear (.failed st) = (s.run before).call.onFailed st :=
      if_pos hthere
    rw [step, withCall, Call.peer_fail hlistens, hhears]
    rfl
  · rintro rfl
    refine hlater.scope ?_
    have hhears : (s.run before).call.hear .cancelled = (s.run before).call.onCancelled :=
      if_pos hthere
    rw [step, withCall, Call.peer_cancel hlistens, hhears]
    exact Scope.cancelled_cancelWith _ _ _

/-- A call that goes on has heard of no end but that its peer has completed. -/
theorem complete_of_ends (hstarted : s.call.wire.started = true) {ms : List (Move α)}
    {a : PeerAct α} (ha : .peer a ∈ ms) {role : Role} (hends : a.ends role = true)
    (halive : (s.run ms).call.alive = true) (hcause : (s.run ms).call.readiness.cause = none)
    (hgoes : (s.run ms).call.scope.cancelled = false) : a = .complete := by
  have hheard := heard_of_reported hstarted ha halive
  cases a with
  | complete => rfl
  | fail st =>
    have hfailed := hheard.1 st rfl
    rw [hcause] at hfailed
    cases hfailed
  | cancel => cases hgoes.symm.trans (hheard.2 rfl)
  | _ => cases hends

end Course

namespace Lookout
variable {α : Type} {s : Lookout α} {m : PacedCall.Move α}

structure Patient (s : Lookout α) : Prop where
  pump : s.pump = false → s.course.call.Asleep
  sends : ∀ (i : Nat) (sd : Send α), s.course.sends[i]? = some sd → s.sends[i]? = some false →
    s.course.call.Waits sd

namespace Patient

/-- A send that a move does not call waits on. -/
theorem waits_of_called (h : s.Patient) {i : Nat} {sd : Send α}
    (hsd : s.course.sends[i]? = some sd) (hb : (s.called m)[i]? = some false) :
    (s.course.step m).call.Waits sd := by
  rw [Lookout.called, List.getElem?_map, Option.map_eq_some_iff] at hb
  obtain ⟨⟨sd', b⟩, hzip, hb⟩ := hb
  obtain ⟨hsd', hflag⟩ := List.getElem?_zip_eq_some.mp hzip
  obtain rfl := Option.some.inj (hsd.symm.trans hsd')
  obtain ⟨rfl, hquiet⟩ := Bool.or_eq_false_iff.mp hb
  exact Call.waits_of_quiet (h.sends i sd hsd hflag) hquiet

/-- The others wait on when one of them is over. -/
theorem waits_of_erased (h : s.Patient) {i j : Nat} {sd : Send α}
    (hsd : (s.course.sends.eraseIdx j)[i]? = some sd)
    (hb : ((s.called m).eraseIdx j)[i]? = some false) : (s.course.step m).call.Waits sd := by
  rw [List.getElem?_eraseIdx] at hsd hb
  split at hsd
  · next hij =>
    rw [if_pos hij] at hb
    exact h.waits_of_called hsd hb
  · next hij =>
    rw [if_neg hij] at hb
    exact h.waits_of_called hsd hb

/-- Whoever has looked and got no answer waits, like the others. -/
theorem waits_of_looked (h : s.Patient) {i j : Nat} {sd sd₀ : Send α}
    (hj : s.course.sends[j]? = some sd₀)
    (hsd : (s.course.step (.pollSend j)).sends[i]? = some sd)
    (hb : (s.sendsAfter (.pollSend j))[i]? = some false) :
    (s.course.step (.pollSend j)).call.Waits sd := by
  have hlen := (List.getElem?_eq_some_iff.mp hj).1
  simp only [Lookout.sendsAfter, hj] at hb
  simp only [Course.step, Course.pollSend, hj] at hsd
  rcases hpoll : s.course.call.pollSend sd₀ with ⟨d, sd', _ | r⟩
  · simp only [hpoll, Option.isSome_none, Bool.false_eq_true, if_false] at hsd hb
    by_cases hij : j = i
    · subst hij
      rw [List.getElem?_set_self hlen, Option.some.injEq] at hsd
      simp only [Course.step, Course.pollSend, hj, hpoll]
      exact hsd ▸ Call.waits_of_pollSend hpoll
    · rw [List.getElem?_set_ne hij] at hsd hb
      exact h.waits_of_called hsd hb
  · simp only [hpoll, Option.isSome_some, if_true] at hsd hb
    exact h.waits_of_erased hsd hb

theorem sendsAfter (h : s.Patient) (hattended : s.Attended) (m : PacedCall.Move α)
    (i : Nat) (sd : Send α) (hsd : (s.course.step m).sends[i]? = some sd)
    (hb : (s.sendsAfter m)[i]? = some false) : (s.course.step m).call.Waits sd := by
  cases m with
  | openSend v =>
    have hcalled := hattended.length_called (.openSend v)
    simp only [Lookout.sendsAfter, Course.step] at hsd hb
    by_cases hi : i < s.course.sends.length
    · rw [List.getElem?_append_left hi] at hsd
      rw [List.getElem?_append_left (hcalled ▸ hi)] at hb
      exact h.waits_of_called hsd hb
    · rw [List.getElem?_append_right (by omega), List.getElem?_singleton] at hb
      split at hb <;> cases hb
  | pollSend j =>
    cases hj : s.course.sends[j]? with
    | none =>
      simp only [Lookout.sendsAfter, Course.step, Course.pollSend, hj] at hsd hb
      exact h.waits_of_called hsd hb
    | some sd₀ => exact h.waits_of_looked hj hsd hb
  | dropSend j =>
    have hsends : (s.course.step (.dropSend j)).sends = s.course.sends.eraseIdx j := by
      rw [Course.step, Course.dropSend]
      cases hj : s.course.sends[j]? with
      | none => exact (List.eraseIdx_of_length_le (List.getElem?_eq_none_iff.mp hj)).symm
      | some sd₀ => rfl
    exact h.waits_of_erased (hsends ▸ hsd) hb
  | _ => exact h.waits_of_called hsd hb

theorem pumpAfter (h : s.Patient) (hattends : s.course.call.Attentive) (m : PacedCall.Move α)
    (hp : (s.step (.act m)).pump = false) : (s.course.step m).call.Asleep := by
  by_cases hm : m = .pump
  · subst hm
    exact (Call.attentive_pollPump hattends).2
  · obtain ⟨hbefore, hquiet⟩ := quiet_of_pump hm hp
    exact Call.asleep_of_quiet (h.pump hbefore) (Course.beside_step _ hm).samePump hquiet

end Patient

theorem patient_run (o : Opening α) (p : CallPlan) (ready : Bool) (acts : List (PeerAct α))
    (ms : List (Move α)) : ((opened o p ready acts).run ms).Patient := by
  induction ms using List.reverseRecOn with
  | nil => exact ⟨nofun, by simp [opened, Course.opened]⟩
  | append_singleton ms m ih =>
    have hattended := attended_run (attended_opened o p ready acts) ms
    have hattends : ((opened o p ready acts).run ms).course.call.Attentive := by
      rw [course_run]
      exact Course.attentive_run o p ready acts (Lookout.acts ms)
    rw [run_concat]
    cases m with
    | act m => exact ⟨ih.pumpAfter hattends m, ih.sendsAfter hattended m⟩
    | dropRecv => exact { ih with }

/-- Whoever waits for room has a value in line. -/
theorem sends_of_idle (h : s.Patient) (hattended : s.Attended) (hidle : s.Idle)
    (hknows : ∀ k ∈ s.course.waiters, s.course.call.outbound.Knows k)
    (hnone : s.course.call.outbound.tickets = []) : s.course.sends = [] := by
  rw [List.eq_nil_iff_forall_not_mem]
  intro sd hsd
  obtain ⟨i, hi, rfl⟩ := List.getElem_of_mem hsd
  have hflag : s.sends[i]? = some false := by
    rw [List.getElem?_eq_getElem (hattended.length ▸ hi), Option.some.injEq]
    by_contra hb
    exact hidle.sends ((Bool.not_eq_false _).mp hb ▸ List.getElem_mem _)
  obtain ⟨t, ht, hfate⟩ := h.sends i _ (List.getElem?_eq_getElem hi) hflag
  have hwaits : t ∈ s.course.waiters := List.mem_filterMap.mpr ⟨_, hsd, by rw [ht]; rfl⟩
  obtain hline | htold := hknows t hwaits
  · rw [hnone] at hline
    cases hline
  · exact Queue.fate?_eq_none_iff.mp hfate htold

/-- Once nobody who was called is left to be looked at, nobody waits for room and the pump does not
wait for readiness; unless the transport is not ready, nobody has cancelled the scope, and of the
end of the call the transport has reported at most that the peer has completed. -/
theorem waits_unready (o : Opening α) (p : CallPlan) (ready : Bool) (acts : List (PeerAct α))
    (ms : List (Move α)) :
    let s := (opened o p ready acts).run ms
    s.Idle →
    (s.course.sends = [] ∧ ∀ w, s.course.call.pump ≠ .readying w) ∨
      ((∃ w, s.course.call.pump = .readying w) ∧ s.course.call.handle.ready = false ∧
        s.course.call.scope.cancelled = false ∧
        ∀ a, .act (.peer a) ∈ ms → a.ends p.role = true → a = .complete) := by
  intro s hidle
  have hcourse : (Course.opened o p ready acts).run (Lookout.acts ms) = s.course :=
    (course_run (opened o p ready acts) ms).symm
  have hattended : s.Attended := attended_run (attended_opened o p ready acts) ms
  have hpatient : s.Patient := patient_run o p ready acts ms
  have hsound := Course.sound_opened o p ready acts (Lookout.acts ms)
  have hattends := Course.attentive_run o p ready acts (Lookout.acts ms)
  have hknows := Course.knows_run o p ready acts (Lookout.acts ms)
  simp only [hcourse] at hsound hattends hknows
  have hempty : s.course.call.outbound.readable = false ∨
      s.course.call.outbound.closedForReceive = true → s.course.sends = [] := fun hq =>
    sends_of_idle hpatient hattended hidle hknows (hsound.orderly.tickets_eq_nil hq)
  cases hp : s.course.call.pump with
  | finished =>
    have hstopped : s.course.call.outgoing.stopped = true := by
      rw [Call.outgoing, hp]
      rfl
    exact .inl ⟨hempty (.inr (hsound.stopped hstopped)), by simp⟩
  | reading =>
    have hasleep := hpatient.pump hidle.pump
    simp only [Call.Asleep, hp] at hasleep
    exact .inl ⟨hempty (.inl hasleep), by simp⟩
  | readying w =>
    -- A pump that goes on keeps the call there, so every report of the transport was heard.
    have hruns : s.course.call.pump.done = false := by rw [hp]; rfl
    have hrests := hattended.pump hidle.pump
    simp only [Call.Rests, hp] at hrests
    have hgoes : s.course.call.scope.cancelled = false := by
      by_contra hs
      have hreleased := released_of_idle hattended hidle (by simpa using hs)
        (fun hcause => (hsound.orderly.closedForReceive_iff.mp (hsound.unready hcause)).1)
      cases hruns.symm.trans hreleased.2.2.1
    refine .inr ⟨⟨w, rfl⟩, Call.unready_of_asleep hattends (hpatient.pump hidle.pump) hp, hgoes, ?_⟩
    intro a ha hends
    have hmem : .peer a ∈ Lookout.acts ms := List.mem_filterMap.mpr ⟨_, ha, rfl⟩
    exact Course.complete_of_ends (Course.role_started_opened o p ready acts).2 hmem hends
      (by rw [hcourse]; exact Call.alive_of_pump hruns) (by rw [hcourse]; exact hrests)
      (by rw [hcourse]; exact hgoes)

/-- The transport fails while a send waits for room and the pump for readiness. Both are called, and
neither waits any more. -/
theorem waits_unready_failed :
    let s := (opened .bidi { role := .client } false ([] : List (PeerAct Nat))).run
      [.act (.openSend 1), .act (.pollSend 0), .act (.openSend 2), .act (.pollSend 0), .act .pump,
        .act .supervise, .act (.peer (.fail .localCancelled)), .act (.pollSend 0), .act .pump,
        .act .supervise]
    s.Idle ∧ s.course.sends = [] ∧ ∀ w, s.course.call.pump ≠ .readying w := by
  intro s
  have hidle : s.Idle := ⟨by decide, by decide, rfl, rfl⟩
  have h := waits_unready .bidi { role := .client } false ([] : List (PeerAct Nat))
    [.act (.openSend 1), .act (.pollSend 0), .act (.openSend 2), .act (.pollSend 0), .act .pump,
      .act .supervise, .act (.peer (.fail .localCancelled)), .act (.pollSend 0), .act .pump,
      .act .supervise] hidle
  refine ⟨hidle, h.resolve_right ?_⟩
  rintro ⟨-, -, -, hends⟩
  cases hends (.fail .localCancelled) (by simp) rfl

/-- The peer completes instead. The supervisor is called and finds that the pump still runs; nobody
else is called, and the send and the pump go on waiting on a call that is over. -/
theorem completed_waits_on :
    let s := (opened .bidi { role := .client } false ([] : List (PeerAct Nat))).run
      [.act (.openSend 1), .act (.pollSend 0), .act (.openSend 2), .act (.pollSend 0), .act .pump,
        .act .supervise, .act (.peer .complete), .act .supervise]
    s.Idle ∧ s.course.call.handle.remoteClosed = true ∧ s.course.sends.length = 1 ∧
      ∃ w, s.course.call.pump = .readying w :=
  ⟨⟨by decide, by decide, rfl, rfl⟩, rfl, rfl, _, rfl⟩

end Lookout
end PacedCall
