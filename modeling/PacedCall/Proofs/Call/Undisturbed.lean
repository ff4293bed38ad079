import PacedCall.Proofs.Call.Conduct
import PacedCall.Proofs.Call.Outbound

/-!
A call that its own side leaves alone. It runs in no other scope and for as long as it takes, nobody
cancels or fails it, and its transport refuses no write. Then only the peer can cancel its scope, and
only as long as the call is there to hear of it.
-/
namespace PacedCall

def Move.harmless {α : Type} : Move α → Bool
  | .peer (.rejectWrites _) => false
  | .close (.failed _) => false
  | .cancelInbound => false
  | .dropInbound => false
  | .cancel _ => false
  | .endParent => false
  | _ => true

namespace Call
variable {α : Type} {c d : Call α} {R : List (Entry α)} {D : List Nat}

structure Undisturbed (c : Call α) : Prop where
  goes : c.scope.cancelled = false
  accepts : c.wire.rejecting = none
  sends : ∀ st, c.outbound.termination = some (.failed st) → c.handle.remoteClosed = true
  timeless : c.supervisor = .watching .never ∨ c.supervisor = .finished

namespace Undisturbed

/-- Nothing happens to what goes out. -/
theorem of_outgoing (h : c.Undisturbed) (ho : d.outgoing = c.outgoing)
    (hr : d.wire.rejecting = c.wire.rejecting) (hs : d.supervisor = c.supervisor) :
    d.Undisturbed := by
  have hscope : d.scope = c.scope := congrArg Outgoing.scope ho
  have hqueue : d.outbound = c.outbound := congrArg Outgoing.queue ho
  have hremote : d.handle.remoteClosed = c.handle.remoteClosed :=
    congrArg Outgoing.remoteClosed ho
  exact
    { goes := hscope ▸ h.goes
      accepts := hr.trans h.accepts
      sends := by
        rw [hqueue, hremote]
        exact h.sends
      timeless := hs ▸ h.timeless }

theorem ask (h : c.Undisturbed) (wanted : Bool) : (c.ask wanted).Undisturbed := by
  refine h.of_outgoing (outgoing_ask c wanted) ?_ (supervisor_ask c wanted)
  rw [Call.ask]
  split
  · rw [Handle.requestCredit]
    split <;> rfl
  · rfl

theorem hear (h : c.Undisturbed) {n : Notice α} (hn : n = .cancelled → c.alive = false) :
    (c.hear n).Undisturbed := by
  have hremote : Undisturbed { c with handle := c.handle.markRemoteClosed } :=
    { h with sends := fun _ _ => rfl }
  have hx := hear_hears c n
  generalize c.hear n = d at hx ⊢
  cases hx with
  | message | ready =>
    refine Undisturbed.ask ?_ _
    exact { h with }
  | late => exact { h with }
  | gone => exact h
  | failed _ st => exact { hremote with sends := fun _ _ => rfl }
  | completed =>
    rw [onCompleted]
    split
    · exact { hremote with }
    · exact { h with }
  | cancelled halive => cases halive.symm.trans (hn rfl)

theorem peer (h : c.Undisturbed) {a : PeerAct α} (ha : ∀ st, a ≠ .rejectWrites st)
    (hn : a = .cancel → c.alive = false) : (c.peer a).Undisturbed := by
  have hwire : (c.withWire (c.wire.peer a).1).Undisturbed := by
    cases a with
    | rejectWrites st => exact absurd rfl (ha st)
    | _ => exact { h with }
  rw [peer_eq]
  cases hnotice : (c.wire.peer a).2 with
  | none => exact hwire
  | some n =>
    refine hwire.hear ?_
    rintro rfl
    have hheard := Loopback.notice_of_peer hnotice
    cases a with
    | cancel => exact hn rfl
    | _ => cases hheard

/-! The two tasks. -/

theorem stopPump (h : c.Undisturbed) : c.stopPump.Undisturbed := { h with }

/-- A write is refused only after the peer has ended the call, and then cancels nothing. -/
theorem next (h : c.Undisturbed) (hsound : c.outgoing.Sound R D) (hp : c.pump.done = false)
    {b : Bool} (hx : Next c (d, b)) : d.Undisturbed := by
  have hterm := c.outbound.termination_tryRecv
  cases hx with
  | wrote hq hs =>
    obtain ⟨_, _, _, rfl⟩ := Handle.sendMessage_ok hs
    rw [hq] at hterm
    exact { h with sends := fun st ht => h.sends st (hterm ▸ ht) }
  | @refused q v st hq hs =>
    have hremote : c.handle.remoteClosed = true := by
      by_contra hthere
      have hrejects := rejecting_of_error hsound hp h.goes (by simpa using hthere) hs
      cases h.accepts.symm.trans hrejects
    rw [failOutbound, if_pos hremote]
    exact { h with sends := fun _ _ => hremote }
  | empty hq => exact { h with }
  | completed hq =>
    rw [if_neg (by simp [h.goes])]
    refine stopPump ?_
    rw [Handle.halfClose]
    split
    · exact h
    · exact { h with }
  | @failed st hq =>
    obtain ⟨_, ht⟩ := Queue.closed_of_tryRecv hsound.orderly hq
    rw [failOutbound, if_pos (h.sends st ht)]
    exact h.stopPump

theorem turn (h : c.Undisturbed) (hsound : c.outgoing.Sound R D) {b : Bool}
    (ht : Turn c (d, b)) : d.Undisturbed := by
  cases ht with
  | rest => exact h
  | waits hp hr => exact { h with }
  | unready hp hr hend => exact { h with }
  | @next r _ hp hr hx =>
    have hrest : Undisturbed { c with readiness := r } := { h with }
    exact hrest.next (outgoing_readiness hr ▸ hsound) hp hx

theorem pollPump (h : c.Undisturbed) (hsound : c.outgoing.Sound R D) :
    c.pollPump.Undisturbed :=
  (pollPump_of_turn (P := fun c => c.Undisturbed ∧ c.outgoing.Sound R D)
    (fun _ _ _ hc ht => ⟨hc.1.turn hc.2 ht, sound_turn hc.2 ht⟩) ⟨h, hsound⟩).1

theorem pollSupervisor (h : c.Undisturbed) (now : Nat) : (c.pollSupervisor now).Undisturbed := by
  obtain hs | hs := h.timeless
  · simp only [Call.pollSupervisor, hs, h.goes, Expiry.arm, Expiry.due, Bool.false_eq_true,
      if_false]
    split
    · exact { h with timeless := .inr rfl }
    · exact { h with timeless := .inl rfl }
  · rw [Call.pollSupervisor, hs]
    exact h

/-! The halves of the call. -/

theorem pollDeferred (h : c.Undisturbed) (i : Nat) : (c.pollDeferred i).1.Undisturbed := by
  rw [pollDeferred_eq]
  refine Undisturbed.ask ?_ _
  exact { h with }

theorem recv (h : c.Undisturbed) : c.recv.1.Undisturbed := by
  rw [Call.recv]
  split
  · exact h
  · exact { h with }

/-- The queue is used in a way that does not fail it. -/
theorem withOutbound (h : c.Undisturbed) {q : Queue α} (sinks : Nat)
    (hq : q.termination = c.outbound.termination ∨ q.termination = some .completed) :
    Undisturbed { c with outbound := q, sinks := sinks } :=
  { h with
    sends := by
      intro st ht
      obtain hsame | hdone := hq
      · exact h.sends st (hsame ▸ ht)
      · cases hdone.symm.trans ht }

theorem complete (h : c.Undisturbed) (sinks : Nat) :
    Undisturbed { c with outbound := (c.outbound.close .completed).1, sinks := sinks } := by
  refine h.withOutbound sinks ?_
  rw [Queue.termination_close]
  cases c.outbound.termination with
  | none => exact .inr rfl
  | some how => exact .inl rfl

theorem trySend (h : c.Undisturbed) (v : α) : (c.trySend v).1.Undisturbed := by
  rw [Call.trySend]
  split
  · exact h
  · refine h.withOutbound c.sinks (.inl ?_)
    rw [Queue.trySend]
    split
    · rfl
    · split <;> rfl

theorem dropSend (h : c.Undisturbed) (sd : Send α) : (c.dropSend sd).Undisturbed := by
  cases sd with
  | fresh v => exact h
  | placed e => cases e <;> exact h.withOutbound c.sinks (.inl rfl)

theorem pollSend (h : c.Undisturbed) (sd : Send α) : (c.pollSend sd).1.Undisturbed := by
  unfold Call.pollSend
  rw [Scope.status_eq_none h.goes]
  cases sd with
  | fresh v =>
    refine h.withOutbound c.sinks (.inl ?_)
    exact (Queue.termination_pollSend _ _).trans (Queue.termination_send _ v)
  | placed e => exact h.withOutbound c.sinks (.inl (Queue.termination_pollSend _ e))

theorem dropSink (h : c.Undisturbed) : c.dropSink.Undisturbed := by
  rw [Call.dropSink]
  simp only
  split
  · exact h.complete _
  · exact { h with }

end Undisturbed
end Call

namespace Course
variable {α : Type} {s : Course α}

theorem undisturbed_step (h : s.call.Undisturbed) {R : List (Entry α)} {D : List Nat}
    (hsound : s.call.outgoing.Sound R D) {m : Move α} (hm : m.harmless = true)
    (hcancel : m = .peer .cancel → s.call.alive = false) : (s.step m).call.Undisturbed := by
  cases m with
  | peer a =>
    refine h.peer ?_ fun ha => hcancel (ha ▸ rfl)
    rintro st rfl
    cases hm
  | pump => exact h.pollPump hsound
  | supervise => exact h.pollSupervisor s.now
  | enqueue i => exact h.pollDeferred i
  | recv => exact h.recv
  | advance ticks => exact h
  | trySend v => exact h.trySend v
  | openSend v => exact h
  | pollSend i =>
    rw [step, call_pollSend]
    cases s.sends[i]? with
    | none => exact h
    | some sd => exact h.pollSend sd
  | dropSend i =>
    rw [step, call_dropSend]
    cases s.sends[i]? with
    | none => exact h
    | some sd => exact h.dropSend sd
  | close how =>
    cases how with
    | completed => exact h.complete s.call.sinks
    | failed st => cases hm
  | cloneSink => exact { h with }
  | dropSink => exact h.dropSink
  | _ => cases hm

theorem undisturbed_opened {p : CallPlan} (hdeadline : p.deadline = none)
    (hparent : p.parentCancelled = false) (ready : Bool) {acts : List (PeerAct α)}
    (hacts : ∀ a ∈ acts, ∀ st, a ≠ .rejectWrites st) :
    (opened .bidi p ready acts).call.Undisturbed := by
  have haccepts : (Loopback.before ready acts).rejecting = none := by
    refine List.foldlRecOn (motive := fun t : Loopback α => t.rejecting = none) acts _ rfl
      fun t ht a ha => ?_
    cases a with
    | rejectWrites st => exact absurd rfl (hacts _ ha st)
    | _ => exact ht
  refine Opening.bidi.call_of_idle (P := Call.Undisturbed) p _ ?_ (fun c h => h.hear (by simp))
    (fun c h => h.ask true) fun c n h => { h with }
  exact
    { goes := hparent
      accepts := haccepts
      sends := by simp [Opening.idle, CallPlan.idle, Queue.new]
      timeless := .inl (by simp [Opening.idle, CallPlan.idle, CallPlan.expiry, hdeadline]) }

def CancelHeard (s : Course α) (ms : List (Move α)) : Prop :=
  ∃ before after, ms = before ++ .peer .cancel :: after ∧ (s.run before).call.alive = true

theorem cancelHeard_concat {ms : List (Move α)} {m : Move α} :
    s.CancelHeard (ms ++ [m]) ↔
      s.CancelHeard ms ∨ m = .peer .cancel ∧ (s.run ms).call.alive = true :=
  exists_split_concat

/-- A call that its own side leaves alone goes on until it hears that its peer cancels it, and then
everybody in its scope is told that. -/
theorem undisturbed_run {p : CallPlan} (hdeadline : p.deadline = none)
    (hparent : p.parentCancelled = false) (ready : Bool) {acts : List (PeerAct α)}
    (hacts : ∀ a ∈ acts, ∀ st, a ≠ .rejectWrites st) {ms : List (Move α)}
    (hms : ∀ m ∈ ms, m.harmless = true) :
    let s₀ := opened .bidi p ready acts
    (s₀.run ms).call.Undisturbed ∧ ¬ s₀.CancelHeard ms ∨
      (s₀.run ms).call.scope.status = some .peerCancelled ∧ s₀.CancelHeard ms := by
  intro s₀
  induction ms using List.reverseRecOn with
  | nil =>
    refine .inl ⟨undisturbed_opened hdeadline hparent ready hacts, ?_⟩
    rintro ⟨before, after, hsplit, _⟩
    cases before <;> cases hsplit
  | append_singleton ms m ih =>
    have hm := hms m (List.mem_append_right _ (List.mem_singleton.mpr rfl))
    have hsound := sound_opened .bidi p ready acts ms
    rw [run_concat, cancelHeard_concat]
    obtain ⟨h, hunheard⟩ | ⟨hstatus, hheard⟩ := ih fun n hn => hms n (List.mem_append_left _ hn)
    · by_cases hnow : m = .peer .cancel ∧ (s₀.run ms).call.alive = true
      · refine .inr ⟨?_, .inr hnow⟩
        obtain ⟨rfl, halive⟩ := hnow
        have hstarted := (later_run s₀ ms).started.trans (role_started_opened .bidi p ready acts).2
        rw [step, withCall, Call.peer_cancel hstarted, Call.hear, if_pos halive]
        exact Call.status_cancelScope hsound h.goes .peer .peerCancelled
      · refine .inl ⟨undisturbed_step h hsound hm fun hc => ?_, fun hor => ?_⟩
        · by_contra halive
          exact hnow ⟨hc, by simpa using halive⟩
        · exact hor.elim hunheard hnow
    · refine .inr ⟨?_, .inl hheard⟩
      obtain ⟨l, hconducts⟩ := exists_conducts_step (s₀.run ms) m
      have hcancelled : (s₀.run ms).call.scope.cancelled = true := by
        rw [← Scope.isSome_status, hstatus]
        rfl
      rw [hconducts.scope.frozen hcancelled, hstatus]

/-- As long as its peer does not end it either, such a call goes on. -/
theorem goes_of_there {p : CallPlan} (hdeadline : p.deadline = none)
    (hparent : p.parentCancelled = false) (ready : Bool) {acts : List (PeerAct α)}
    (hacts : ∀ a ∈ acts, ∀ st, a ≠ .rejectWrites st) {ms : List (Move α)}
    (hms : ∀ m ∈ ms, m.harmless = true)
    (hthere : ∀ a, .peer a ∈ ms → a.ends .client = false) :
    ((opened .bidi p ready acts).run ms).call.scope.cancelled = false := by
  obtain ⟨h, _⟩ | ⟨_, before, after, hsplit, _⟩ :=
    undisturbed_run hdeadline hparent ready hacts hms
  · exact h.goes
  · have hcancel := hthere .cancel (by simp [hsplit])
    cases hcancel

end Course
end PacedCall
