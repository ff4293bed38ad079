import PacedCall.Proofs.Call.Course
import PacedCall.Proofs.Call.Turn

/-!
What a call never takes back. A scope that was cancelled stays so, and so does an end that the
transport reported; a task that has ended does not run again; and the role and the listener are
those the call began with. What each move leaves alone besides is said here too: the pump, the
inbound direction, or both.
-/
namespace PacedCall

def PeerAct.notice? {α : Type} : PeerAct α → Option (Notice α)
  | .deliver v => some (.message v)
  | .complete => some .completed
  | .fail st => some (.failed st)
  | .cancel => some .cancelled
  | .setReady _ => some .ready
  | .fireReady => some .ready
  | .rejectWrites _ => none

theorem Loopback.notice_of_peer {α : Type} {t : Loopback α} {a : PeerAct α} {n : Notice α}
    (h : (t.peer a).2 = some n) : a.notice? = some n := by
  have hheard : ∀ k, t.heard k = some n → k = n := by
    intro k hk
    unfold heard at hk
    split at hk
    · exact Option.some.inj hk
    · cases hk
  have hready : t.readyNotice = some n → n = .ready := by
    intro hk
    unfold readyNotice at hk
    split at hk
    · exact (Option.some.inj hk).symm
    · cases hk
  cases a with
  | deliver v => exact congrArg some (hheard _ h)
  | complete => exact congrArg some (hheard _ h)
  | fail st => exact congrArg some (hheard _ h)
  | cancel => exact congrArg some (hheard _ h)
  | setReady b => exact congrArg some (hready h).symm
  | fireReady => exact congrArg some (hready h).symm
  | rejectWrites st => cases h

/-- Only a delivery is heard as a message. -/
theorem Loopback.not_message_of_peer {α : Type} {t : Loopback α} {a : PeerAct α} {n : Notice α}
    (h : (t.peer a).2 = some n) (ha : ∀ v, a ≠ .deliver v) (v : α) : n ≠ .message v := by
  rintro rfl
  have hnotice := notice_of_peer h
  cases a with
  | deliver w => exact ha w rfl
  | _ => cases hnotice

theorem Loopback.notice_of_start {α : Type} {t : Loopback α} {n : Notice α}
    (h : t.start.2 = some n) : n = .ready := by
  simp only [start, readyNotice] at h
  split at h
  · split at h
    · exact (Option.some.inj h).symm
    · cases h
  · cases h

namespace Call
variable {α : Type} {c d e : Call α}

structure Later (c d : Call α) : Prop where
  role : d.handle.role = c.handle.role
  started : d.wire.started = c.wire.started
  watched : d.wire.watched = c.wire.watched
  remote : c.handle.remoteClosed = true → d.handle.remoteClosed = true
  scope : c.scope.cancelled = true → d.scope.cancelled = true
  pump : c.pump.done = true → d.pump.done = true
  supervisor : c.supervisor.done = true → d.supervisor.done = true

namespace Later

theorem refl (c : Call α) : Later c c := ⟨rfl, rfl, rfl, id, id, id, id⟩

theorem trans (h : Later c d) (g : Later d e) : Later c e :=
  { role := g.role.trans h.role
    started := g.started.trans h.started
    watched := g.watched.trans h.watched
    remote := fun hr => g.remote (h.remote hr)
    scope := fun hs => g.scope (h.scope hs)
    pump := fun hp => g.pump (h.pump hp)
    supervisor := fun hs => g.supervisor (h.supervisor hs) }

/-- A scope that goes on has gone on until then. -/
theorem goes (h : Later c d) (hd : d.scope.cancelled = false) : c.scope.cancelled = false := by
  by_contra hs
  cases hd.symm.trans (h.scope (by simpa using hs))

/-- A call that has gone does not come back. -/
theorem alive (h : Later c d) (hd : d.alive = true) : c.alive = true := by
  simp only [Call.alive, Bool.or_eq_true, Bool.not_eq_true'] at hd ⊢
  obtain hd | hd := hd
  · refine Or.inl ?_
    cases hp : c.pump.done with
    | false => rfl
    | true => simp [h.pump hp] at hd
  · refine Or.inr ?_
    cases hs : c.supervisor.done with
    | false => rfl
    | true => simp [h.supervisor hs] at hd

end Later

/-- What happens beside the pump leaves the pump where it stands, and writes and half-closes
nothing. -/
structure Beside (c d : Call α) : Prop extends Later c d where
  samePump : d.pump = c.pump
  sent : d.wire.sent = c.wire.sent
  halfClosed : d.wire.halfClosed = c.wire.halfClosed

namespace Beside

theorem refl (c : Call α) : Beside c c :=
  { Later.refl c with samePump := rfl, sent := rfl, halfClosed := rfl }

theorem trans (h : Beside c d) (g : Beside d e) : Beside c e :=
  { h.toLater.trans g.toLater with
    samePump := g.samePump.trans h.samePump
    sent := g.sent.trans h.sent
    halfClosed := g.halfClosed.trans h.halfClosed }

end Beside

/-- What happens aside from the inbound direction leaves it as it is, with its credit and with
what the transport was told and has reported. -/
structure Aside (c d : Call α) : Prop extends Later c d where
  inbound : d.inbound = c.inbound
  sameSupervisor : d.supervisor = c.supervisor
  requested : d.wire.requested = c.wire.requested
  delivered : d.wire.delivered = c.wire.delivered
  maxOutstanding : d.wire.maxOutstanding = c.wire.maxOutstanding
  cancelled : d.handle.cancelled = c.handle.cancelled
  remoteClosed : d.handle.remoteClosed = c.handle.remoteClosed

namespace Aside

theorem refl (c : Call α) : Aside c c :=
  { Later.refl c with
    inbound := rfl
    sameSupervisor := rfl
    requested := rfl
    delivered := rfl
    maxOutstanding := rfl
    cancelled := rfl
    remoteClosed := rfl }

theorem trans (h : Aside c d) (g : Aside d e) : Aside c e :=
  { h.toLater.trans g.toLater with
    inbound := g.inbound.trans h.inbound
    sameSupervisor := g.sameSupervisor.trans h.sameSupervisor
    requested := g.requested.trans h.requested
    delivered := g.delivered.trans h.delivered
    maxOutstanding := g.maxOutstanding.trans h.maxOutstanding
    cancelled := g.cancelled.trans h.cancelled
    remoteClosed := g.remoteClosed.trans h.remoteClosed }

end Aside

structure Outward (c d : Call α) : Prop extends Beside c d, Aside c d

theorem Outward.refl (c : Call α) : Outward c c := { Beside.refl c, Aside.refl c with }

theorem beside_ask (c : Call α) (wanted : Bool) : Beside c (c.ask wanted) := by
  rw [ask]
  split
  · rw [Handle.requestCredit]
    split
    · exact .refl c
    · exact { Beside.refl c with }
  · exact .refl c

theorem inbound_ask (c : Call α) (wanted : Bool) : (c.ask wanted).inbound = c.inbound := by
  rw [ask]
  split <;> rfl

theorem supervisor_ask (c : Call α) (wanted : Bool) :
    (c.ask wanted).supervisor = c.supervisor := by
  rw [ask]
  split <;> rfl

theorem scope_ask (c : Call α) (wanted : Bool) : (c.ask wanted).scope = c.scope := by
  rw [ask]
  split <;> rfl

theorem outward_cancelScope (c : Call α) (origin : Origin) (st : Status) :
    Outward c (c.cancelScope origin st) :=
  { Outward.refl c with scope := fun _ => Scope.cancelled_cancelWith _ _ _ }

/-! Hearing from the transport. A call that takes something in asks for more only as the very last
thing. -/

theorem onMessage_eq (halive : c.alive = true) (v : α) :
    c.onMessage v = ask { c with
      inbound := (c.inbound.onValue v).1
      handle := { c.handle with
        stats := c.handle.stats.received.delivery (c.inbound.onValue v).2.1 } }
      (c.inbound.onValue v).2.2 := by
  simp [onMessage, halive]

theorem onReady_eq (c : Call α) :
    c.onReady = ask { c with
      readiness := c.readiness.signal
      inbound := (c.inbound.onReady c.control).1 } (c.inbound.onReady c.control).2 := rfl

theorem pollDeferred_eq (c : Call α) (i : Nat) :
    (c.pollDeferred i).1 = ask { c with inbound := (c.inbound.pollDeferred i).1 }
      (c.inbound.pollDeferred i).2.1 := rfl

/-- What it comes to that the call hears something. A call that has gone counts messages only. -/
inductive Hears (c : Call α) : Notice α → Call α → Prop where
  | message (halive : c.alive = true) (v : α) :
      Hears c (.message v) (ask { c with
        inbound := (c.inbound.onValue v).1
        handle := { c.handle with
          stats := c.handle.stats.received.delivery (c.inbound.onValue v).2.1 } }
        (c.inbound.onValue v).2.2)
  | late (hgone : c.alive = false) (v : α) :
      Hears c (.message v)
        { c with handle := { c.handle with stats := c.handle.stats.received.late } }
  | gone {n : Notice α} (hgone : c.alive = false) (hn : ∀ v, n ≠ .message v) : Hears c n c
  | failed (halive : c.alive = true) (st : Status) : Hears c (.failed st) (c.onFailed st)
  | completed (halive : c.alive = true) : Hears c .completed c.onCompleted
  | cancelled (halive : c.alive = true) : Hears c .cancelled c.onCancelled
  | ready (halive : c.alive = true) :
      Hears c .ready (ask { c with
        readiness := c.readiness.signal
        inbound := (c.inbound.onReady c.control).1 } (c.inbound.onReady c.control).2)

theorem hear_hears (c : Call α) (n : Notice α) : Hears c n (c.hear n) := by
  cases halive : c.alive with
  | true =>
    cases n with
    | message v =>
      rw [hear, onMessage_eq halive]
      exact .message halive v
    | failed st =>
      rw [hear, if_pos halive]
      exact .failed halive st
    | completed =>
      rw [hear, if_pos halive]
      exact .completed halive
    | cancelled =>
      rw [hear, if_pos halive]
      exact .cancelled halive
    | ready =>
      rw [hear, if_pos halive, onReady_eq]
      exact .ready halive
  | false =>
    cases n with
    | message v =>
      rw [hear, onMessage, if_neg (by simp [halive])]
      exact .late halive v
    | _ =>
      rw [hear, if_neg (by simp [halive])]
      exact .gone halive (by simp)

theorem beside_onReady (c : Call α) : Beside c c.onReady := by
  rw [onReady_eq]
  refine Beside.trans ?_ (beside_ask _ _)
  exact { Beside.refl c with }

theorem beside_hear (c : Call α) (n : Notice α) : Beside c (c.hear n) := by
  have hx := hear_hears c n
  generalize c.hear n = d at hx ⊢
  have hremote : Beside c { c with handle := c.handle.markRemoteClosed } :=
    { Beside.refl c with remote := fun _ => rfl }
  cases hx with
  | message _ v =>
    refine Beside.trans ?_ (beside_ask _ _)
    exact { Beside.refl c with }
  | late _ v => exact { Beside.refl c with }
  | gone => exact .refl c
  | failed _ st => exact { hremote with }
  | completed =>
    rw [onCompleted]
    split
    · exact { hremote with }
    · exact { Beside.refl c with }
  | cancelled => exact hremote.trans (outward_cancelScope _ _ _).toBeside
  | ready => exact beside_onReady c

theorem beside_hear? (c : Call α) (n : Option (Notice α)) : Beside c (c.hear? n) := by
  cases n with
  | none => exact .refl c
  | some n => exact beside_hear c n

def withWire (c : Call α) (t : Loopback α) : Call α :=
  { c with handle := { c.handle with transport := t } }

theorem peer_eq (c : Call α) (a : PeerAct α) :
    c.peer a = (c.withWire (c.wire.peer a).1).hear? (c.wire.peer a).2 := rfl

theorem peer_deliver (hs : c.wire.started = true) (v : α) :
    c.peer (.deliver v) =
      (c.withWire { c.wire with delivered := c.wire.delivered + 1 }).hear (.message v) := by
  simp only [peer_eq, Loopback.peer, Loopback.heard, hs, if_true]
  rfl

theorem peer_complete (hs : c.wire.started = true) : c.peer .complete = c.hear .completed := by
  simp only [peer_eq, Loopback.peer, Loopback.heard, hs, if_true]
  rfl

theorem peer_fail (hs : c.wire.started = true) (st : Status) :
    c.peer (.fail st) = c.hear (.failed st) := by
  simp only [peer_eq, Loopback.peer, Loopback.heard, hs, if_true]
  rfl

theorem peer_cancel (hs : c.wire.started = true) : c.peer .cancel = c.hear .cancelled := by
  simp only [peer_eq, Loopback.peer, Loopback.heard, hs, if_true]
  rfl

theorem beside_peer (c : Call α) (a : PeerAct α) : Beside c (c.peer a) := by
  have hwire : Beside c (c.withWire (c.wire.peer a).1) := by
    cases a <;> exact { Beside.refl c with }
  exact hwire.trans (beside_hear? _ _)

/-! The two tasks. -/

theorem aside_failOutbound (c : Call α) (st : Status) : Aside c (c.failOutbound st) := by
  rw [failOutbound]
  split
  · exact .refl c
  · exact (outward_cancelScope c .here st).toAside

theorem aside_stopPump (c : Call α) : Aside c c.stopPump :=
  { Aside.refl c with pump := fun _ => rfl }

theorem aside_next {b : Bool} (hp : c.pump.done = false) (hx : Next c (d, b)) : Aside c d := by
  have hruns : ∀ p : Pump, c.pump.done = true → p.done = true :=
    fun _ hd => absurd hd (by simp [hp])
  cases hx with
  | wrote hq hs =>
    obtain ⟨_, _, _, rfl⟩ := Handle.sendMessage_ok hs
    exact { Aside.refl c with pump := hruns _ }
  | @refused q v st hq hs =>
    have hrest : Aside c { c with outbound := (q.cancel st).1 } := { Aside.refl c with }
    exact (hrest.trans (aside_failOutbound _ st)).trans (aside_stopPump _)
  | empty hq => exact { Aside.refl c with pump := hruns _ }
  | completed hq =>
    split
    · exact aside_stopPump c
    · refine Aside.trans ?_ (aside_stopPump _)
      rw [Handle.halfClose]
      split
      · exact .refl c
      · exact { Aside.refl c with }
  | @failed st hq => exact (aside_failOutbound c st).trans (aside_stopPump _)

theorem aside_turn {b : Bool} (ht : Turn c (d, b)) : Aside c d := by
  cases ht with
  | rest => exact .refl c
  | waits hp hr => exact { Aside.refl c with pump := fun hd => absurd hd (by simp [hp]) }
  | @unready r hp hr hend =>
    have hrest : Aside c { c with readiness := r } := { Aside.refl c with }
    exact hrest.trans (aside_stopPump _)
  | @next r _ hp hr hx =>
    have hrest : Aside c { c with readiness := r } := { Aside.refl c with }
    exact hrest.trans (aside_next hp hx)

theorem aside_pollPump (c : Call α) : Aside c c.pollPump :=
  pollPump_of_turn (P := Aside c) (fun _ _ _ hd ht => hd.trans (aside_turn ht)) (.refl c)

theorem beside_fail (c : Call α) (st : Status) :
    Beside c { c with handle := (c.handle.fail st).1 } := by
  rw [Handle.fail]
  split
  · rw [Handle.cancel]
    split
    · exact .refl c
    · exact { Beside.refl c with }
  · rw [Handle.closeWithError]
    split
    · exact .refl c
    · exact { Beside.refl c with }

theorem beside_tearDown (c : Call α) : Beside c c.tearDown := by
  rw [tearDown]
  obtain ⟨origin, st⟩ := c.scope.cause.getD (.here, .localCancelled)
  simp only
  split
  · have hfail := beside_fail c st
    exact { hfail with supervisor := fun _ => rfl }
  · exact { Beside.refl c with supervisor := fun _ => rfl }

theorem beside_watch {now : Nat} (hw : Watch c now d) : Beside c d := by
  cases hw with
  | rest => exact .refl c
  | tornDown hs => exact beside_tearDown c
  | expired => exact (outward_cancelScope c _ _).toBeside.trans (beside_tearDown _)
  | settled hin hp hs => exact { Beside.refl c with supervisor := fun _ => rfl }
  | watching e hs =>
    exact { Beside.refl c with supervisor := fun hd => absurd hd (by simp [hs]) }

/-! The halves of the call. -/

theorem beside_pollDeferred (c : Call α) (i : Nat) : Beside c (c.pollDeferred i).1 := by
  rw [pollDeferred_eq]
  refine Beside.trans ?_ (beside_ask _ _)
  exact { Beside.refl c with }

theorem beside_recv (c : Call α) : Beside c c.recv.1 := by
  rw [recv]
  split
  · exact .refl c
  · exact { Beside.refl c with }

theorem beside_cancelInbound (c : Call α) : Beside c c.cancelInbound := by
  have hdiscard : Beside c c.discardInbound := { Beside.refl c with }
  unfold cancelInbound
  simp only
  split
  · exact hdiscard.trans (outward_cancelScope _ _ _).toBeside
  · exact hdiscard

theorem beside_dropInbound (c : Call α) : Beside c c.dropInbound := by
  rw [dropInbound]
  split
  · exact .refl c
  · split
    · exact beside_cancelInbound c
    · exact { Beside.refl c with }

/-! The sending half. -/

theorem outward_trySend (c : Call α) (v : α) : Outward c (c.trySend v).1 := by
  rw [trySend]
  split
  · exact .refl c
  · exact { Outward.refl c with }

theorem outward_dropSend (c : Call α) (sd : Send α) : Outward c (c.dropSend sd) := by
  cases sd with
  | fresh v => exact .refl c
  | placed e => exact { Outward.refl c with }

theorem outward_pollSend (c : Call α) (sd : Send α) : Outward c (c.pollSend sd).1 := by
  unfold pollSend
  split
  · exact outward_dropSend c sd
  · cases sd <;> exact { Outward.refl c with }

theorem outward_dropSink (c : Call α) : Outward c c.dropSink := by
  rw [dropSink]
  simp only
  split <;> exact { Outward.refl c with }

end Call

def Move.outward {α : Type} : Move α → Bool
  | .peer _ => false
  | .pump => false
  | .supervise => false
  | .enqueue _ => false
  | .recv => false
  | .cancelInbound => false
  | .dropInbound => false
  | _ => true

def Move.aside {α : Type} : Move α → Bool
  | .pump => true
  | m => m.outward

namespace Course
variable {α : Type}

theorem call_pollSend (s : Course α) (i : Nat) :
    (s.pollSend i).call = (s.sends[i]?).elim s.call fun sd => (s.call.pollSend sd).1 := by
  rw [Course.pollSend]
  cases s.sends[i]? with
  | none => rfl
  | some sd =>
    simp only [Option.elim_some]
    split
    · next heq => rw [heq]
    · next heq => rw [heq]

theorem call_dropSend (s : Course α) (i : Nat) :
    (s.dropSend i).call = (s.sends[i]?).elim s.call s.call.dropSend := by
  rw [Course.dropSend]
  cases s.sends[i]? <;> rfl

/-- A move of the sending half, or one that is nothing to a single call. -/
theorem outward_step (s : Course α) {m : Move α} (hm : m.outward = true) :
    s.call.Outward (s.step m).call := by
  cases m with
  | advance ticks => exact .refl _
  | trySend v => exact Call.outward_trySend _ v
  | openSend v => exact .refl _
  | pollSend i =>
    rw [step, call_pollSend]
    cases s.sends[i]? with
    | none => exact .refl _
    | some sd => exact Call.outward_pollSend _ sd
  | dropSend i =>
    rw [step, call_dropSend]
    cases s.sends[i]? with
    | none => exact .refl _
    | some sd => exact Call.outward_dropSend _ sd
  | close how => exact { Call.Outward.refl s.call with }
  | cloneSink => exact { Call.Outward.refl s.call with }
  | dropSink => exact Call.outward_dropSink _
  | cancel st => exact Call.outward_cancelScope _ .here st
  | endParent => exact { Call.Outward.refl s.call with scope := fun _ => rfl }
  | _ => cases hm

theorem beside_step (s : Course α) {m : Move α} (hm : m ≠ .pump) :
    s.call.Beside (s.step m).call := by
  by_cases hout : m.outward = true
  · exact (outward_step s hout).toBeside
  · cases m with
    | pump => exact absurd rfl hm
    | peer a => exact Call.beside_peer _ a
    | supervise => exact Call.beside_watch (Call.pollSupervisor_watch _ _)
    | enqueue i => exact Call.beside_pollDeferred _ i
    | recv => exact Call.beside_recv _
    | cancelInbound => exact Call.beside_cancelInbound _
    | dropInbound => exact Call.beside_dropInbound _
    | _ => exact absurd rfl hout

theorem aside_step (s : Course α) {m : Move α} (hm : m.aside = true) :
    s.call.Aside (s.step m).call := by
  by_cases hout : m.outward = true
  · exact (outward_step s hout).toAside
  · cases m with
    | pump => exact Call.aside_pollPump _
    | _ => first | exact absurd rfl hout | cases hm

theorem later_step (s : Course α) (m : Move α) : s.call.Later (s.step m).call := by
  by_cases hm : m = .pump
  · subst hm
    exact (Call.aside_pollPump _).toLater
  · exact (beside_step s hm).toLater

theorem later_run (s : Course α) (ms : List (Move α)) : s.call.Later (s.run ms).call := by
  induction ms using List.reverseRecOn with
  | nil => exact .refl _
  | append_singleton ms m ih =>
    rw [run_concat]
    exact ih.trans (later_step _ m)

theorem role_started_opened (o : Opening α) (p : CallPlan) (ready : Bool)
    (acts : List (PeerAct α)) :
    (opened o p ready acts).call.handle.role = p.role ∧
      (opened o p ready acts).call.wire.started = true := by
  have hstart : ∀ inbound outbound sinks,
      (p.start (.before ready acts) inbound outbound sinks).handle.role = p.role ∧
        (p.start (.before ready acts) inbound outbound sinks).wire.started = true := by
    intro inbound outbound sinks
    rw [CallPlan.start_eq]
    have hb := Call.beside_hear? (p.idle (.before ready acts) inbound outbound sinks)
      (Loopback.before ready acts).disableAutomaticCredit.watch.start.2
    exact ⟨hb.role, hb.started⟩
  have hbidi : (p.bidi (.before ready acts)).handle.role = p.role ∧
      (p.bidi (.before ready acts)).wire.started = true := by
    have hs := hstart (.counting p.inboundCapacity) (.new p.outboundCapacity) 1
    have hb := Call.beside_ask
      (p.start (.before ready acts) (.counting p.inboundCapacity) (.new p.outboundCapacity) 1) true
    exact ⟨hb.role.trans hs.1, hb.started.trans hs.2⟩
  cases o with
  | bidi => exact hbidi
  | serve => exact hbidi
  | responses request => exact hstart _ _ _

end Course
end PacedCall
