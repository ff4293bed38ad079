import PacedCall.Proofs.Call.Later
import PacedCall.Proofs.Call.Outgoing
import PacedCall.Proofs.Scope

/-!
The outbound direction over a whole course. Every move keeps what was registered, and the pump ends
the direction only when nothing of it is left: it half-closes a call that goes on, or fails one
whose sink was failed, after the last message was written.
-/
namespace PacedCall
namespace Call
variable {α : Type} {c d : Call α} {R : List (Entry α)} {D : List Nat}

/-! The pump. -/

theorem sound_stopPump (h : c.outgoing.Sound R D) (hc : c.outbound.closedForReceive = true) :
    c.stopPump.outgoing.Sound R D := h.stop hc

theorem sound_failOutbound (h : c.outgoing.Sound R D) (st : Status) :
    (c.failOutbound st).outgoing.Sound R D := by
  rw [failOutbound]
  split
  · exact h
  · exact sound_cancelScope h .here st

theorem ended_failOutbound (c : Call α) (st : Status) :
    (c.failOutbound st).handle.remoteClosed = true ∨
      (c.failOutbound st).scope.cancelled = true := by
  unfold failOutbound
  split
  · next hr => exact Or.inl hr
  · exact Or.inr (Scope.cancelled_cancelWith _ _ _)

/-- A refused write is the end of the call, and of the queue. -/
theorem sound_refused (h : c.outgoing.Sound R D) {q : Queue α} {v : α} {st : Status}
    (hq : c.outbound.tryRecv = (q, .item v)) :
    (failOutbound { c with outbound := (q.cancel st).1 } st).outgoing.Sound R D := by
  have hfst : q = c.outbound.tryRecv.1 := by rw [hq]
  have ho : (q.cancel st).1.Orderly := hfst ▸ h.orderly.tryRecv.cancel st
  have hnext : (q.cancel st).1.nextTicket = c.outbound.nextTicket := by
    rw [Queue.nextTicket_cancel, hfst, Queue.nextTicket_tryRecv]
  have hlost := (sound_failOutbound h st).lose ho
    (by rw [hnext]; unfold failOutbound; split <;> rfl)
    (Queue.closedForReceive_cancel q st) (ended_failOutbound c st)
  have hout : (failOutbound { c with outbound := (q.cancel st).1 } st).outgoing =
      { (c.failOutbound st).outgoing with queue := (q.cancel st).1 } := by
    unfold failOutbound
    split <;> rfl
  rw [hout]
  exact hlost

theorem outgoing_halfClose (c : Call α) :
    ({ c with handle := c.handle.halfClose.1 } : Call α).outgoing = c.outgoing ∨
      ({ c with handle := c.handle.halfClose.1 } : Call α).outgoing =
        { c.outgoing with outboundDone := true, halfClosed := true, finished := true } := by
  rw [Handle.halfClose]
  split
  · exact Or.inl rfl
  · exact Or.inr rfl

theorem drained (h : c.outgoing.Sound R D) {how : Termination}
    (hq : c.outbound.tryRecv.2 = .closed how) : c.outbound.closedForReceive = true := by
  obtain ⟨hl, ht⟩ := Queue.closed_of_tryRecv h.orderly hq
  exact h.orderly.closedForReceive_iff.mpr ⟨Option.isSome_of_eq_some ht, hl⟩

theorem outbound_failOutbound (c : Call α) (st : Status) :
    (c.failOutbound st).outbound = c.outbound := by
  rw [failOutbound]
  split <;> rfl

/-- Where a pump stands that still runs is its own affair. -/
theorem outgoing_running (hp : c.pump.done = false) {p : Pump} (hp' : p.done = false) :
    ({ c with pump := p } : Call α).outgoing = c.outgoing := by
  simp [outgoing, hp, hp', wire]

theorem sound_next (h : c.outgoing.Sound R D) (hp : c.pump.done = false) {b : Bool}
    (hx : Next c (d, b)) : d.outgoing.Sound R D := by
  cases hx with
  | @wrote q v g hq hs =>
    obtain ⟨_, _, _, rfl⟩ := Handle.sendMessage_ok hs
    have hw := h.write hq
    simpa [outgoing, hp, wire, Loopback.finished, Loopback.terminated] using hw
  | @refused q v st hq hs =>
    refine sound_stopPump (sound_refused h hq) ?_
    rw [outbound_failOutbound]
    exact Queue.closedForReceive_cancel q st
  | empty hq => exact outgoing_running hp Pump.done_reading ▸ h
  | completed hq =>
    have hc := drained h hq
    split
    · exact h.stop hc
    · obtain hsame | hdone := outgoing_halfClose c
      · exact sound_stopPump (hsame ▸ h) hc
      · have hout : (stopPump { c with handle := c.handle.halfClose.1 }).outgoing =
            { c.outgoing with
              stopped := true, outboundDone := true, halfClosed := true, finished := true } :=
          congrArg (fun o : Outgoing α => { o with stopped := true }) hdone
        exact hout ▸ h.halfClose hc
  | failed hq =>
    have hc := drained h hq
    exact sound_stopPump (sound_failOutbound h _) (outbound_failOutbound c _ ▸ hc)

theorem outgoing_readiness {r : Readiness Unit} (hr : r.cause = c.readiness.cause) :
    ({ c with readiness := r } : Call α).outgoing = c.outgoing := by
  simp [outgoing, hr, wire]

theorem sound_turn (h : c.outgoing.Sound R D) {b : Bool} (ht : Turn c (d, b)) :
    d.outgoing.Sound R D := by
  cases ht with
  | rest => exact h
  | @waits r w hp hr =>
    have hout := outgoing_running (c := { c with readiness := r }) hp (Pump.done_readying w)
    exact (hout.trans (outgoing_readiness hr)) ▸ h
  | @unready r hp hr hend =>
    exact sound_stopPump (c := { c with readiness := r }) (outgoing_readiness hr ▸ h)
      (h.unready hend)
  | @next r _ hp hr hx =>
    exact sound_next (c := { c with readiness := r }) (outgoing_readiness hr ▸ h) hp hx

theorem sound_pollPump (h : c.outgoing.Sound R D) : c.pollPump.outgoing.Sound R D :=
  pollPump_of_turn (P := fun c => c.outgoing.Sound R D) (fun _ _ _ hc ht => sound_turn hc ht) h

/-! The supervisor. -/

theorem sound_fail (h : c.outgoing.Sound R D) (hs : c.scope.cancelled = true) (st : Status) :
    ({ c with handle := (c.handle.fail st).1 } : Call α).outgoing.Sound R D := by
  rw [Handle.fail]
  cases c.handle.role with
  | client =>
    simp only [Handle.cancel]
    split
    · exact h
    · have hout : ({ c with handle :=
          { c.handle with cancelled := true, transport := c.wire.cancel st } } : Call α).outgoing =
            { c.outgoing with cancelled := true, finished := true } := by
        simp [outgoing, wire, Loopback.cancel, Loopback.finished, Loopback.terminated]
      exact hout ▸ h.tellCancelled hs
  | server =>
    simp only [Handle.closeWithError]
    split
    · exact h
    · have hout : ({ c with handle :=
          { c.handle with
            outboundDone := true
            transport := c.wire.closeWithError st } } : Call α).outgoing =
            { c.outgoing with outboundDone := true, finished := true } := by
        simp [outgoing, wire, Loopback.closeWithError, Loopback.finished, Loopback.terminated]
      exact hout ▸ h.tellClosed hs

theorem sound_tearDown (h : c.outgoing.Sound R D) (hs : c.scope.cancelled = true) :
    c.tearDown.outgoing.Sound R D := by
  rw [tearDown]
  obtain ⟨origin, st⟩ := c.scope.cause.getD (.here, .localCancelled)
  have hlost := (h.cancel st (Or.inr hs)).unreadied (Queue.closedForReceive_cancel _ _)
    (some (c.readiness.cause.getD st))
  have hrest : ({ c with
      readiness := c.readiness.cancel st
      outbound := (c.outbound.cancel st).1 } : Call α).outgoing.Sound R D := hlost
  simp only
  split
  · exact sound_fail hrest hs st
  · exact hrest

theorem sound_watch (h : c.outgoing.Sound R D) {now : Nat} (hw : Watch c now d) :
    d.outgoing.Sound R D := by
  cases hw with
  | rest => exact h
  | tornDown hs => exact sound_tearDown h hs
  | expired =>
    exact sound_tearDown (sound_cancelScope h .here .deadlineElapsed)
      (Scope.cancelled_cancelWith _ _ _)
  | settled hin hp hs => exact h
  | watching e hs => exact h

/-! What the call hears, and what its halves do. -/

theorem sound_hear (h : c.outgoing.Sound R D) (n : Notice α) : (c.hear n).outgoing.Sound R D := by
  have hx := hear_hears c n
  generalize c.hear n = d at hx ⊢
  cases hx with
  | message =>
    rw [outgoing_ask]
    exact h
  | late | gone => exact h
  | failed _ st => exact sound_onFailed h st
  | completed => exact sound_onCompleted h
  | cancelled => exact sound_onCancelled h
  | ready =>
    have hready := outgoing_onReady c
    rw [onReady_eq] at hready
    exact hready ▸ h

theorem sound_hear? (h : c.outgoing.Sound R D) (n : Option (Notice α)) :
    (c.hear? n).outgoing.Sound R D := by
  cases n with
  | none => exact h
  | some n => exact sound_hear h n

theorem sound_peer (h : c.outgoing.Sound R D) (a : PeerAct α) : (c.peer a).outgoing.Sound R D :=
  sound_hear? (outgoing_transport c a ▸ h) _

theorem sound_cancelInbound (h : c.outgoing.Sound R D) : c.cancelInbound.outgoing.Sound R D := by
  unfold cancelInbound
  simp only
  split
  · exact sound_cancelScope (c := c.discardInbound) h _ _
  · exact h

theorem sound_dropInbound (h : c.outgoing.Sound R D) : c.dropInbound.outgoing.Sound R D := by
  rw [dropInbound]
  split
  · exact h
  · split
    · exact sound_cancelInbound h
    · exact h

theorem sound_closeOutbound (h : c.outgoing.Sound R D) (how : Termination) :
    (c.closeOutbound how).1.outgoing.Sound R D := h.close how

theorem sound_dropSink (h : c.outgoing.Sound R D) : c.dropSink.outgoing.Sound R D := by
  rw [dropSink]
  simp only
  split
  · exact sound_closeOutbound (c := { c with sinks := c.sinks - 1 }) h .completed
  · exact h

def registers (c : Call α) (sd : Send α) : List (Entry α) :=
  match c.scope.status, sd with
  | none, .fresh v => c.outbound.admits v
  | _, _ => []

/-- What one look at a send withdraws: a send ends with its scope, and gives up its value if it
still waits. -/
def withdraws (c : Call α) (sd : Send α) : List Nat :=
  match c.scope.status with
  | some _ => c.outbound.withdraws sd
  | none => []

theorem sound_dropSend (h : c.outgoing.Sound R D) (sd : Send α) :
    (c.dropSend sd).outgoing.Sound R (D ++ c.outbound.withdraws sd) := by
  cases sd with
  | fresh v => simpa [dropSend, Queue.withdraws] using h
  | placed e => exact h.dropSend e

theorem sound_pollSend (h : c.outgoing.Sound R D) (sd : Send α) :
    (c.pollSend sd).1.outgoing.Sound (R ++ c.registers sd) (D ++ c.withdraws sd) := by
  unfold pollSend registers withdraws
  cases hs : c.scope.status with
  | some st => simpa using sound_dropSend h sd
  | none =>
    cases sd with
    | fresh v =>
      rw [List.append_nil]
      exact (h.send v).pollSend (c.outbound.send v).2
    | placed e =>
      rw [List.append_nil, List.append_nil]
      exact h.pollSend e

theorem sound_trySend (h : c.outgoing.Sound R D) (v : α) :
    (c.trySend v).1.outgoing.Sound
      (R ++ if c.scope.cancelled then [] else c.outbound.accepts v) D := by
  rw [trySend]
  split
  · exact h.same
  · exact h.trySend v

end Call

def Move.enlists {α : Type} : Move α → Bool
  | .trySend _ => true
  | .pollSend _ => true
  | .dropSend _ => true
  | _ => false

namespace Course
variable {α : Type} {s : Course α} {R : List (Entry α)} {D : List Nat}

def registers (s : Course α) : Move α → List (Entry α)
  | .trySend v => if s.call.scope.cancelled then [] else s.call.outbound.accepts v
  | .pollSend i => (s.sends[i]?).elim [] s.call.registers
  | _ => []

def withdraws (s : Course α) : Move α → List Nat
  | .pollSend i => (s.sends[i]?).elim [] s.call.withdraws
  | .dropSend i => (s.sends[i]?).elim [] s.call.outbound.withdraws
  | _ => []

theorem sound_step (h : s.call.outgoing.Sound R D) (m : Move α) :
    (s.step m).call.outgoing.Sound (R ++ s.registers m) (D ++ s.withdraws m) := by
  have hstay : ∀ {c : Call α}, c.outgoing.Sound R D → c.outgoing.Sound (R ++ []) (D ++ []) := by
    intro c hc
    simpa using hc
  cases m with
  | peer a => exact hstay (Call.sound_peer h a)
  | pump => exact hstay (Call.sound_pollPump h)
  | supervise => exact hstay (Call.sound_watch h (Call.pollSupervisor_watch _ _))
  | enqueue i => exact hstay (Call.outgoing_pollDeferred s.call i ▸ h)
  | advance ticks => exact hstay h
  | recv => exact hstay (Call.outgoing_recv s.call ▸ h)
  | cancelInbound => exact hstay (Call.sound_cancelInbound h)
  | dropInbound => exact hstay (Call.sound_dropInbound h)
  | trySend v =>
    simp only [withdraws, List.append_nil]
    exact Call.sound_trySend h v
  | openSend v => exact hstay h
  | pollSend i =>
    have hcall := call_pollSend s i
    simp only [step, registers, withdraws]
    cases hi : s.sends[i]? with
    | none =>
      rw [hi] at hcall
      exact hcall ▸ hstay h
    | some sd =>
      rw [hi] at hcall
      exact hcall ▸ Call.sound_pollSend h sd
  | dropSend i =>
    simp only [step, dropSend, registers, withdraws]
    cases hi : s.sends[i]? with
    | none => exact hstay h
    | some sd => simpa using Call.sound_dropSend h sd
  | close how => exact hstay (Call.sound_closeOutbound h how)
  | cloneSink => exact hstay h
  | dropSink => exact hstay (Call.sound_dropSink h)
  | cancel st => exact hstay (Call.sound_cancelScope h .here st)
  | endParent => exact hstay (Call.sound_trip h)

theorem sound_run (h : s.call.outgoing.Sound R D) (ms : List (Move α)) :
    (s.run ms).call.outgoing.Sound (R ++ collect registers s ms) (D ++ collect withdraws s ms) := by
  induction ms using List.reverseRecOn with
  | nil => simpa using h
  | append_singleton ms m ih =>
    rw [run_concat, collect_concat, collect_concat, ← List.append_assoc, ← List.append_assoc]
    exact sound_step ih m

end Course

/-! The beginning. -/

namespace Outgoing
variable {α : Type}

def fresh (q : Queue α) (parentCancelled : Bool) : Outgoing α :=
  { queue := q
    sent := []
    halfClosed := false
    finished := false
    outboundDone := false
    cancelled := false
    remoteClosed := false
    scope := { cancelled := parentCancelled }
    cause := none
    stopped := false }

theorem sound_fresh (capacity : Nat) (parentCancelled : Bool) :
    (fresh (.new capacity) parentCancelled : Outgoing α).Sound [] [] :=
  { orderly := Queue.orderly_new capacity
    sorted := .nil
    fresh := by simp [Entry.kept]
    past := by simp
    ledger := Or.inl ⟨[], rfl, rfl⟩
    stopped := by simp [fresh]
    unready := by simp [fresh]
    cancelled := by simp [fresh]
    done := by simp [fresh]
    finished := by simp [fresh]
    recorded := by simp [fresh] }

end Outgoing

namespace CallPlan
variable {α : Type} {wire : Loopback α} {R : List (Entry α)} {D : List Nat}

theorem outgoing_idle (p : CallPlan) (hwire : wire.Unused) (inbound : Inbound α) (q : Queue α)
    (sinks : Nat) :
    (p.idle wire inbound q sinks).outgoing = Outgoing.fresh q p.parentCancelled := by
  simp [idle, Call.outgoing, Outgoing.fresh, Call.wire, Loopback.start, Loopback.watch,
    Loopback.disableAutomaticCredit, Loopback.finished, Loopback.terminated, hwire.sent,
    hwire.halfClosed, hwire.closedWith, hwire.cancellations]

theorem sound_start (p : CallPlan) (hwire : wire.Unused) (inbound : Inbound α) {q : Queue α}
    (hq : (Outgoing.fresh q p.parentCancelled).Sound R D) (sinks : Nat) :
    (p.start wire inbound q sinks).outgoing.Sound R D := by
  rw [start_eq]
  exact Call.sound_hear? (p.outgoing_idle hwire inbound q sinks ▸ hq) _

theorem sound_bidi (p : CallPlan) (hwire : wire.Unused) :
    (p.bidi wire).outgoing.Sound [] [] := by
  rw [bidi, Call.outgoing_ask]
  exact p.sound_start hwire _ (Outgoing.sound_fresh _ _) 1

theorem sound_responses (p : CallPlan) (hwire : wire.Unused) (request : α) :
    (p.responses wire request).outgoing.Sound [⟨none, request⟩] [] := by
  have hfresh : (Outgoing.fresh (.new 1) p.parentCancelled : Outgoing α).Sound [] [] :=
    Outgoing.sound_fresh 1 _
  exact p.sound_start hwire _ ((hfresh.trySend request).close .completed) 0

end CallPlan

namespace Opening
variable {α : Type}

def registers : Opening α → List (Entry α)
  | responses request => [⟨none, request⟩]
  | _ => []

theorem sound_call (o : Opening α) (p : CallPlan) {wire : Loopback α} (hwire : wire.Unused) :
    (o.call p wire).outgoing.Sound o.registers [] := by
  cases o with
  | bidi => exact p.sound_bidi hwire
  | serve => exact p.sound_bidi hwire
  | responses request => exact p.sound_responses hwire request

end Opening

/-! How the pump ends the direction. Only its last round can: the rounds before it leave the scope,
the end of the queue and the ends of the call as they were. -/

namespace Call
variable {α : Type} {c d : Call α} {R : List (Entry α)} {D : List Nat}

theorem wire_failOutbound (c : Call α) (st : Status) : (c.failOutbound st).wire = c.wire := by
  unfold failOutbound
  split <;> rfl

/-- A round that leaves the transport as it was has not half-closed it. -/
theorem wire_ne_of_halfCloses (hc : c.wire.halfClosed = false) (hd : d.wire.halfClosed = true) :
    d.wire ≠ c.wire := by
  intro hw
  rw [hw, hc] at hd
  cases hd

theorem halfCloses_next {b : Bool} (h : c.outgoing.Sound R D) (hx : Next c (d, b))
    (hc : c.wire.halfClosed = false) (hd : d.wire.halfClosed = true) :
    c.outbound.termination = some .completed ∧ c.outbound.line = [] ∧
      c.scope.cancelled = false ∧ c.handle.remoteClosed = false ∧ d.wire.sent = c.wire.sent := by
  have hmoved := wire_ne_of_halfCloses hc hd
  cases hx with
  | wrote hq hs =>
    obtain ⟨_, _, _, rfl⟩ := Handle.sendMessage_ok hs
    simp only [wire] at hc hd
    rw [hc] at hd
    cases hd
  | @refused q v st hq hs => exact absurd (wire_failOutbound _ st) hmoved
  | empty hq => exact absurd rfl hmoved
  | completed hq =>
    obtain ⟨hl, ht⟩ := Queue.closed_of_tryRecv h.orderly hq
    by_cases hs : c.scope.cancelled = true
    · rw [if_pos hs] at hmoved
      exact absurd rfl hmoved
    · rw [if_neg hs] at hmoved ⊢
      unfold Handle.halfClose at hmoved ⊢
      by_cases hg : (c.handle.cancelled || c.handle.remoteClosed || c.handle.outboundDone) = true
      · rw [if_pos hg] at hmoved
        exact absurd rfl hmoved
      · rw [if_neg hg]
        have hremote : c.handle.remoteClosed = false := by
          cases hr : c.handle.remoteClosed with
          | false => rfl
          | true => simp [hr] at hg
        exact ⟨ht, hl, by simpa using hs, hremote, rfl⟩
  | @failed st hq => exact absurd (wire_failOutbound c st) hmoved

theorem halfCloses_turn {b : Bool} (h : c.outgoing.Sound R D) (ht : Turn c (d, b))
    (hc : c.wire.halfClosed = false) (hd : d.wire.halfClosed = true) :
    c.outbound.termination = some .completed ∧ c.outbound.line = [] ∧
      c.scope.cancelled = false ∧ c.handle.remoteClosed = false ∧ d.wire.sent = c.wire.sent := by
  have hmoved := wire_ne_of_halfCloses hc hd
  cases ht with
  | rest => exact absurd rfl hmoved
  | waits hp hr => exact absurd rfl hmoved
  | unready hp hr hend => exact absurd rfl hmoved
  | @next r _ hp hr hx =>
    exact halfCloses_next (c := { c with readiness := r }) (outgoing_readiness hr ▸ h) hx hc hd

/-- Why the pump ended the call: its sink was failed and all is written, or a write was refused. -/
def CancelledBy (c : Call α) (st : Status) : Prop :=
  c.outbound.termination = some (.failed st) ∧ c.outbound.line = [] ∨
    c.wire.rejecting = some st ∧ c.outbound.line ≠ []

theorem cause_cancelScope (h : c.outgoing.Sound R D) (hc : c.scope.cancelled = false)
    (origin : Origin) (st : Status) :
    (c.cancelScope origin st).scope.cause = some (origin, st) := by
  have hrecorded : c.scope.Recorded := h.recorded
  rw [cancelScope, Scope.cancelWith, hrecorded.cancel, hc]
  rfl

/-- Everybody in a scope that goes on is told the status that it is cancelled with. -/
theorem status_cancelScope (h : c.outgoing.Sound R D) (hc : c.scope.cancelled = false)
    (origin : Origin) (st : Status) : (c.cancelScope origin st).scope.status = some st := by
  have hrecorded : c.scope.Recorded := h.recorded
  rw [cancelScope, hrecorded.status_cancelWith, Scope.status_eq_none hc]
  rfl

/-- On a call that goes on, a write fails because the transport was told to refuse it. -/
theorem rejecting_of_error (h : c.outgoing.Sound R D) (hp : c.pump.done = false)
    (hc : c.scope.cancelled = false) (hr : c.handle.remoteClosed = false) {v : α} {st : Status}
    (hs : c.handle.sendMessage v = (c.handle, .error st)) : c.wire.rejecting = some st := by
  have hcancelled : c.handle.cancelled = false := by
    cases hh : c.handle.cancelled with
    | false => rfl
    | true =>
      have hsc : c.scope.cancelled = true := h.cancelled hh
      simp [hc] at hsc
  have hdone : c.handle.outboundDone = false := by
    cases hh : c.handle.outboundDone with
    | false => rfl
    | true =>
      obtain hstop | hsc := h.done hh
      · have hstop' : c.pump.done = true := hstop
        simp [hp] at hstop'
      · have hsc' : c.scope.cancelled = true := hsc
        simp [hc] at hsc'
  obtain ⟨_, hterm | hfin | hrej⟩ := Handle.sendMessage_error hs
  · simp [Handle.terminated, hcancelled, hdone, hr] at hterm
  · obtain hh | hh := h.finished hfin
    · have hh' : c.handle.cancelled = true := hh
      simp [hcancelled] at hh'
    · have hh' : c.handle.outboundDone = true := hh
      simp [hdone] at hh'
  · exact hrej

/-- The pump fails a call that goes on, and with this status. -/
theorem failOutbound_cancels (h : c.outgoing.Sound R D) (hc : c.scope.cancelled = false)
    {st : Status} (hd : (c.failOutbound st).scope.cancelled = true) :
    c.handle.remoteClosed = false ∧ (c.failOutbound st).scope.cause = some (.here, st) := by
  by_cases hr : c.handle.remoteClosed = true
  · rw [failOutbound, if_pos hr, hc] at hd
    cases hd
  · refine ⟨by simpa using hr, ?_⟩
    rw [failOutbound, if_neg hr]
    exact cause_cancelScope h hc .here st

theorem scope_failOutbound (c : Call α) (q : Queue α) (st : Status) :
    (failOutbound { c with outbound := q } st).scope = (c.failOutbound st).scope := by
  unfold failOutbound
  split <;> rfl

theorem cancels_next {b : Bool} (h : c.outgoing.Sound R D) (hp : c.pump.done = false)
    (hx : Next c (d, b)) (hc : c.scope.cancelled = false) (hd : d.scope.cancelled = true) :
    ∃ st, d.scope.cause = some (.here, st) ∧ c.CancelledBy st ∧
      c.handle.remoteClosed = false ∧ d.wire.sent = c.wire.sent := by
  cases hx with
  | wrote hq hs => exact absurd (hc.symm.trans hd) (by simp)
  | @refused q v st hq hs =>
    have hitem : c.outbound.line ≠ [] := by
      rw [Queue.line_of_tryRecv_item hq]
      exact List.cons_ne_nil _ _
    have hscope := scope_failOutbound c (q.cancel st).1 st
    obtain ⟨hremote, hcause⟩ := failOutbound_cancels h hc (hscope ▸ hd)
    refine ⟨st, ?_, Or.inr ⟨rejecting_of_error h hp hc hremote hs, hitem⟩, hremote, ?_⟩
    · exact (congrArg Scope.cause hscope).trans hcause
    · exact congrArg Loopback.sent (wire_failOutbound _ st)
  | empty hq => exact absurd (hc.symm.trans hd) (by simp)
  | completed hq =>
    rw [if_neg (by simp [hc])] at hd
    exact absurd (hc.symm.trans hd) (by simp)
  | @failed st hq =>
    obtain ⟨hl, ht⟩ := Queue.closed_of_tryRecv h.orderly hq
    obtain ⟨hremote, hcause⟩ := failOutbound_cancels h hc hd
    exact ⟨st, hcause, Or.inl ⟨ht, hl⟩, hremote, congrArg Loopback.sent (wire_failOutbound c st)⟩

theorem cancels_turn {b : Bool} (h : c.outgoing.Sound R D) (ht : Turn c (d, b))
    (hc : c.scope.cancelled = false) (hd : d.scope.cancelled = true) :
    ∃ st, d.scope.cause = some (.here, st) ∧ c.CancelledBy st ∧
      c.handle.remoteClosed = false ∧ d.wire.sent = c.wire.sent := by
  cases ht with
  | rest => exact absurd (hc.symm.trans hd) (by simp)
  | waits hp hr => exact absurd (hc.symm.trans hd) (by simp)
  | unready hp hr hend => exact absurd (hc.symm.trans hd) (by simp)
  | @next r _ hp hr hx =>
    exact cancels_next (c := { c with readiness := r }) (outgoing_readiness hr ▸ h) hp hx hc hd

/-- A pump that has ended half-closes nothing. -/
theorem running_of_halfCloses (hc : c.wire.halfClosed = false)
    (hd : c.pollPump.wire.halfClosed = true) : c.pump.done = false := by
  by_contra hdone
  have hrest : c.pollPump = c := pollPump_of_done (by simpa using hdone)
  exact wire_ne_of_halfCloses hc hd (congrArg wire hrest)

theorem halfCloses_pollPump (h : c.outgoing.Sound R D) (hc : c.wire.halfClosed = false)
    (hd : c.pollPump.wire.halfClosed = true) :
    c.outbound.termination = some .completed ∧ c.scope.cancelled = false ∧
      c.handle.remoteClosed = false ∧
      c.pollPump.wire.sent.toList = (Entry.kept R D).map Entry.value := by
  obtain ⟨e, he, hgo, hlast⟩ := pollPump_last (P := fun c => c.outgoing.Sound R D)
    (fun _ _ hc ht => sound_turn hc ht) h
  obtain ⟨sent, stats, hhandle⟩ := hgo.handle
  have hopen : e.wire.halfClosed = false := by rw [wire, hhandle, ← hc]
  obtain hsame | hturn := hlast
  · rw [hsame, hopen] at hd
    cases hd
  · obtain ⟨hterm, hline, hscope, hremote, hsent⟩ := halfCloses_turn he hturn hopen hd
    have hall := he.written_line hremote hscope
    refine ⟨hgo.termination ▸ hterm, hgo.scope ▸ hscope, ?_, ?_⟩
    · rw [← hremote, hhandle]
    · have hnil : e.outgoing.queue.line = [] := hline
      rw [hnil, List.append_nil] at hall
      rw [hsent, hall]
      rfl

theorem cancels_pollPump (h : c.outgoing.Sound R D) (hc : c.scope.cancelled = false)
    (hd : c.pollPump.scope.cancelled = true) :
    ∃ st, c.pollPump.scope.cause = some (.here, st) ∧
      (c.outbound.termination = some (.failed st) ∧
          c.pollPump.wire.sent.toList = (Entry.kept R D).map Entry.value ∨
        c.wire.rejecting = some st ∧ ∃ v rest,
          (Entry.kept R D).map Entry.value = c.pollPump.wire.sent.toList ++ v :: rest) := by
  obtain ⟨e, he, hgo, hlast⟩ := pollPump_last (P := fun c => c.outgoing.Sound R D)
    (fun _ _ hc ht => sound_turn hc ht) h
  obtain ⟨sent, stats, hhandle⟩ := hgo.handle
  have hscope : e.scope.cancelled = false := by rw [hgo.scope, hc]
  obtain hsame | hturn := hlast
  · rw [hsame, hscope] at hd
    cases hd
  · obtain ⟨st, hcause, hby, hremote, hsent⟩ := cancels_turn he hturn hscope hd
    have hall : (Entry.kept R D).map Entry.value = e.wire.sent.toList ++ e.outbound.line :=
      he.written_line hremote hscope
    refine ⟨st, hcause, ?_⟩
    rw [hsent]
    obtain ⟨hterm, hline⟩ | ⟨hrej, hline⟩ := hby
    · rw [hline, List.append_nil] at hall
      exact Or.inl ⟨hgo.termination ▸ hterm, hall.symm⟩
    · obtain ⟨v, rest, hv⟩ := List.exists_cons_of_ne_nil hline
      refine Or.inr ⟨?_, v, rest, by rw [hall, hv]⟩
      rw [← hrej, wire, wire, hhandle]
      rfl

end Call

/-- Reports after which nothing more reaches the peer. A server may still answer a peer that has
finished sending. -/
def PeerAct.ends {α : Type} (role : Role) : PeerAct α → Bool
  | .fail _ => true
  | .cancel => true
  | .complete => role == .client
  | _ => false

namespace Call
variable {α : Type} {c : Call α}

theorem remoteClosed_of_ends (hstarted : c.wire.started = true) (halive : c.alive = true)
    {a : PeerAct α} (ha : a.ends c.handle.role = true) :
    (c.peer a).handle.remoteClosed = true := by
  cases a with
  | fail st =>
    rw [peer_fail hstarted, hear, if_pos halive]
    rfl
  | cancel =>
    rw [peer_cancel hstarted, hear, if_pos halive]
    rfl
  | complete =>
    have hrole : (c.handle.role == .client) = true := ha
    rw [peer_complete hstarted, hear, if_pos halive, onCompleted, if_pos hrole]
    rfl
  | _ => cases ha

end Call

namespace Course
variable {α : Type}

/-- As long as the call is there, it knows of every end that the transport reported. -/
theorem remoteClosed_of_reported (s : Course α) (hstarted : s.call.wire.started = true)
    (ms : List (Move α)) (halive : (s.run ms).call.alive = true) {a : PeerAct α}
    (ha : .peer a ∈ ms) (hends : a.ends s.call.handle.role = true) :
    (s.run ms).call.handle.remoteClosed = true := by
  induction ms using List.reverseRecOn with
  | nil => cases ha
  | append_singleton ms m ih =>
    rw [run_concat] at halive ⊢
    have hlater := later_step (s.run ms) m
    have hbefore := hlater.alive halive
    obtain hm | hm := List.mem_append.mp ha
    · exact hlater.remote (ih hbefore hm)
    · have hrun := later_run s ms
      rw [← List.mem_singleton.mp hm]
      exact Call.remoteClosed_of_ends (hrun.started.trans hstarted) hbefore (hrun.role ▸ hends)

/-- A call that goes on and knows of no end has had none reported since it began. -/
theorem ends_of_reported (o : Opening α) (p : CallPlan) (ready : Bool) (acts : List (PeerAct α))
    {ms : List (Move α)} {a : PeerAct α} (ha : .peer a ∈ ms)
    (halive : ((opened o p ready acts).run ms).call.alive = true)
    (hremote : ((opened o p ready acts).run ms).call.handle.remoteClosed = false) :
    a.ends p.role = false := by
  by_contra hends
  obtain ⟨hrole, hstarted⟩ := role_started_opened o p ready acts
  have hclosed := remoteClosed_of_reported (opened o p ready acts) hstarted ms halive ha
    (hrole.symm ▸ (by simpa using hends))
  rw [hremote] at hclosed
  cases hclosed

def toWrite (o : Opening α) (s : Course α) (ms : List (Move α)) : List α :=
  (Entry.kept (o.registers ++ collect registers s ms) (collect withdraws s ms)).map Entry.value

def written (s : Course α) : List α := s.call.wire.sent.toList

theorem sound_opened (o : Opening α) (p : CallPlan) (ready : Bool) (acts : List (PeerAct α))
    (ms : List (Move α)) :
    ((opened o p ready acts).run ms).call.outgoing.Sound
      (o.registers ++ collect registers (opened o p ready acts) ms)
      (collect withdraws (opened o p ready acts) ms) := by
  have hstart := o.sound_call p (Loopback.unused_before ready acts)
  have hrun := sound_run (s := opened o p ready acts) hstart ms
  simpa using hrun

/-- Nothing else changes what is to be written. -/
theorem toWrite_concat (o : Opening α) (s : Course α) (ms : List (Move α)) {m : Move α}
    (hm : m.enlists = false) : toWrite o s (ms ++ [m]) = toWrite o s ms := by
  have hnone : (s.run ms).registers m = [] ∧ (s.run ms).withdraws m = [] := by
    cases m <;> first | exact ⟨rfl, rfl⟩ | cases hm
  simp [toWrite, hnone]

/-- The outbound direction of a call, whoever moves and in whatever order. -/
theorem outbound_exact (o : Opening α) (p : CallPlan) (ready : Bool) (acts : List (PeerAct α))
    (ms : List (Move α)) :
    let s₀ := opened o p ready acts
    let s := s₀.run ms
    s.written <+: toWrite o s₀ ms ∧
    (s.call.pump.done = true →
      s.call.outbound.closedForReceive = true ∧ s.call.outbound.line = []) ∧
    (∀ m, s.call.wire.halfClosed = false → (s.step m).call.wire.halfClosed = true →
      m = .pump ∧ s.call.outbound.termination = some .completed ∧
        s.call.scope.cancelled = false ∧
        (∀ a, .peer a ∈ ms → a.ends p.role = false) ∧
        (s.step m).written = toWrite o s₀ (ms ++ [m])) ∧
    (s.call.scope.cancelled = false → (s.step .pump).call.scope.cancelled = true →
      ∃ st, (s.step .pump).call.scope.cause = some (.here, st) ∧
        (s.call.outbound.termination = some (.failed st) ∧
            (s.step .pump).written = toWrite o s₀ (ms ++ [.pump]) ∨
          s.call.wire.rejecting = some st ∧
            ∃ v rest, toWrite o s₀ (ms ++ [.pump]) = (s.step .pump).written ++ v :: rest)) := by
  intro s₀ s
  have h := sound_opened o p ready acts ms
  refine ⟨h.written, ?_, ?_, ?_⟩
  · intro hdone
    have hc := h.stopped hdone
    exact ⟨hc, (h.orderly.closedForReceive_iff.mp hc).2⟩
  · intro m hopen hhalf
    have hm : m = .pump := by
      by_contra hm
      rw [(beside_step s hm).halfClosed, hopen] at hhalf
      cases hhalf
    subst hm
    obtain ⟨hterm, hscope, hremote, hall⟩ := Call.halfCloses_pollPump h hopen hhalf
    refine ⟨rfl, hterm, hscope, ?_, ?_⟩
    · intro a ha
      have halive : s.call.alive = true :=
        Call.alive_of_pump (Call.running_of_halfCloses hopen hhalf)
      exact ends_of_reported o p ready acts ha halive hremote
    · rw [toWrite_concat _ _ _ rfl]
      exact hall
  · intro hscope hcancelled
    rw [toWrite_concat _ _ _ rfl]
    exact Call.cancels_pollPump h hscope hcancelled

/-- A message is sent and the sink closed; the next look at the pump writes the one and half-closes
the call. -/
theorem outbound_exact_half_closed :
    let s₀ := opened .bidi { role := .client } true ([] : List (PeerAct Nat))
    let ms : List (Move Nat) := [.openSend 7, .pollSend 0, .close .completed]
    ((s₀.run ms).step .pump).call.wire.halfClosed = true ∧
      ((s₀.run ms).step .pump).written = toWrite .bidi s₀ (ms ++ [.pump]) := by
  intro s₀ ms
  have hhalf : ((s₀.run ms).step .pump).call.wire.halfClosed = true := by decide
  have h := (outbound_exact .bidi { role := .client } true [] ms).2.2.1 .pump (by decide) hhalf
  exact ⟨hhalf, h.2.2.2.2⟩

end Course
end PacedCall
