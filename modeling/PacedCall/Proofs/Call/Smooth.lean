import PacedCall.Proofs.Call.Credit
import PacedCall.Proofs.Call.Lookout
import PacedCall.Call.Handler
import PacedCall.Proofs.Inbound.Steady

/-!
A served call that nothing disturbs: its peer delivers, completes and takes what is written, its
scope goes on, its transport stays ready. Then no task ever waits for readiness or fails, and every
value delivered is at one place of a line that leads from the inbound queue over the handler and the
outbound queue to the transport.
-/
namespace PacedCall
namespace Call
variable {α : Type} {c d : Call α} {completed closed : Bool} {given held : List α} {capacity : Nat}

structure Unharmed (c : Call α) : Prop where
  role : c.handle.role = .server
  uncancelled : c.handle.cancelled = false
  there : c.handle.remoteClosed = false
  goes : c.scope.cancelled = false
  ready : c.wire.ready = true
  started : c.wire.started = true
  accepts : c.wire.rejecting = none
  unclosed : c.wire.closedWith = none
  unended : c.wire.cancellations = []
  half : c.wire.halfClosed = c.handle.outboundDone
  cause : c.readiness.cause = none
  signalled : c.readiness.observed = true ∨ c.readiness.permit = true

structure Booked (c : Call α) : Prop where
  requested : c.handle.stats.creditsRequested = c.wire.requested
  received : c.handle.stats.messagesReceived = c.wire.delivered
  sent : c.handle.stats.messagesSent = c.wire.sent.size
  late : c.handle.stats.lateDeliveries = 0
  asked : 1 ≤ c.wire.maxOutstanding

/-- The values `given` so far are written, or on their way out, or `held` by the handler, or on
their way in. The peer has `completed` or not, and the sending half is `closed` or not. -/
structure Smooth (completed closed : Bool) (given held : List α) (c : Call α) : Prop
    extends Unharmed c, Booked c where
  delivered : c.wire.delivered = given.length
  inbound : c.inbound.Steady completed
  orderly : c.outbound.Orderly
  placed : ∀ f ∈ c.outbound.fates, f.2 = .ok ()
  ended : c.outbound.termination = if closed then some .completed else none
  pump : c.pump = .reading ∧ c.handle.outboundDone = false ∨
    c.pump = .finished ∧ c.handle.outboundDone = true ∧ c.outbound.closedForReceive = true
  supervisor : c.supervisor = .watching .never ∨ c.supervisor = .finished ∧ c.pump.done = true
  chain : c.wire.sent.toList ++ (c.outbound.line ++ (held ++ c.inbound.queue.line)) = given

namespace Smooth

theorem opened {p : CallPlan} (hrole : p.role = .server) (hdeadline : p.deadline = none)
    (hparent : p.parentCancelled = false) :
    (Opening.serve.call p {}).Smooth false false ([] : List α) [] := by
  cases p
  cases hrole
  cases hdeadline
  cases hparent
  exact
    { role := rfl
      uncancelled := rfl
      there := rfl
      goes := rfl
      ready := rfl
      started := rfl
      accepts := rfl
      unclosed := rfl
      unended := rfl
      half := rfl
      cause := rfl
      signalled := .inr rfl
      requested := rfl
      received := rfl
      sent := rfl
      late := rfl
      asked := Nat.le_refl 1
      delivered := rfl
      inbound := .new _
      orderly := Queue.orderly_new _
      placed := nofun
      ended := rfl
      pump := .inl ⟨rfl, rfl⟩
      supervisor := .inl rfl
      chain := rfl }

theorem ask (h : c.Smooth completed closed given held) (wanted : Bool) :
    (c.ask wanted).Smooth completed closed given held := by
  rw [Call.ask]
  split
  · rw [Handle.requestCredit, if_neg (by simp [h.uncancelled, h.there])]
    exact
      { h with
        requested := congrArg (· + 1) h.requested
        asked := Nat.le_trans h.asked (Nat.le_max_left _ _) }
  · exact h

theorem alive (h : c.Smooth false closed given held) (ho : c.Owes capacity 0 True) :
    c.alive = true := by
  by_contra hgone
  have hclosed := ho.gone (supervisor_of_not_alive hgone)
  rw [h.inbound.isOpen] at hclosed
  cases hclosed

/-- The next value joins the end of the line. -/
theorem deliver (h : c.Smooth false closed given held) (ho : c.Owes capacity 0 True) (v : α) :
    (c.peer (.deliver v)).Smooth false closed (given ++ [v]) held := by
  have hopen := h.inbound.isOpen
  have hline := Inbound.line_onValue hopen v
  have hlate : (c.inbound.onValue v).2.1 ≠ .late := by
    obtain ⟨f, hp, _⟩ := ho.counted.flight
    cases hr : c.inbound.queue.hasRoom with
    | true => simp [Inbound.onValue_counting_room hopen hr hp]
    | false => simp [Inbound.onValue_counting_full hopen hr hp]
  have hstats : ∀ what, what ≠ Delivery.late →
      (c.handle.stats.received.delivery what).creditsRequested = c.handle.stats.creditsRequested ∧
      (c.handle.stats.received.delivery what).messagesReceived =
        c.handle.stats.messagesReceived + 1 ∧
      (c.handle.stats.received.delivery what).messagesSent = c.handle.stats.messagesSent ∧
      (c.handle.stats.received.delivery what).lateDeliveries = c.handle.stats.lateDeliveries := by
    intro what hwhat
    cases what with
    | late => exact absurd rfl hwhat
    | _ => exact ⟨rfl, rfl, rfl, rfl⟩
  obtain ⟨hrequested, hreceived, hsent, hlates⟩ := hstats _ hlate
  have halive : (c.withWire { c.wire with delivered := c.wire.delivered + 1 }).alive = true :=
    h.alive ho
  rw [peer_deliver h.started, hear, onMessage_eq halive]
  refine Smooth.ask ?_ _
  exact
    { h with
      requested := hrequested.trans h.requested
      received := hreceived.trans (congrArg (· + 1) h.received)
      sent := hsent.trans h.sent
      late := hlates.trans h.late
      delivered := by
        rw [List.length_append, List.length_singleton, ← h.delivered]
        rfl
      inbound := h.inbound.onValue ho.counted v
      chain := by
        have hchain := h.chain
        simp only [← hchain, List.append_assoc]
        exact congrArg (fun l => c.wire.sent.toList ++ (c.outbound.line ++ (held ++ l))) hline }

/-- The peer sends no more. -/
theorem complete (h : c.Smooth false closed given held) (ho : c.Owes capacity 0 True) :
    (c.peer .complete).Smooth true closed given held := by
  rw [peer_complete h.started, hear, if_pos (h.alive ho), onCompleted, if_neg (by simp [h.role])]
  exact
    { h with
      inbound := h.inbound.onCompleted ho.counted
      chain := by
        rw [Inbound.line_onCompleted]
        exact h.chain }

/-- At most one value waits for room. -/
theorem deferred_le (ho : c.Owes capacity 0 True) : c.inbound.deferred.length ≤ 1 := by
  have hmost := ho.atMost
  have hwithin := ho.within trivial
  omega

theorem pollDeferred (h : c.Smooth completed closed given held) (ho : c.Owes capacity 0 True)
    (i : Nat) : (c.pollDeferred i).1.Smooth completed closed given held := by
  rw [pollDeferred_eq]
  refine Smooth.ask ?_ _
  exact
    { h with
      inbound := h.inbound.pollDeferred ho.counted (deferred_le ho) i
      chain := by
        rw [Inbound.line_pollDeferred]
        exact h.chain }

/-- The supervisor only waits for the call to settle. -/
theorem pollSupervisor (h : c.Smooth completed closed given held) (now : Nat) :
    ∃ sup, c.pollSupervisor now = { c with supervisor := sup } ∧
      Smooth completed closed given held { c with supervisor := sup } := by
  obtain hs | ⟨hs, _⟩ := h.supervisor
  · simp only [Call.pollSupervisor, hs, h.goes, Expiry.arm, Expiry.due, Bool.false_eq_true,
      if_false]
    split
    · next hset =>
      exact ⟨_, rfl, { h with supervisor := .inr ⟨rfl, (Bool.and_eq_true_iff.mp hset).2⟩ }⟩
    · exact ⟨_, rfl, { h with supervisor := .inl rfl }⟩
  · have hsame : c.pollSupervisor now = c := by rw [Call.pollSupervisor, hs]
    exact ⟨c.supervisor, hsame, h⟩

/-! The pump. -/

/-- The transport is ready, so the pump never waits for that. -/
theorem pumpTurn (h : c.Smooth completed closed given held) :
    c.pumpTurn = (c, false) ∧ (c.pump.done = true ∨ c.outbound.readable = false) ∨
      ∃ r, c.pumpTurn = Call.pumpNext { c with readiness := r } ∧ c.pump = .reading ∧
        Smooth completed closed given held { c with readiness := r } := by
  obtain ⟨hp, hdone⟩ | ⟨hp, _⟩ := h.pump
  · have hcontrol : c.control = some true := by
      have halive : c.alive = true := by simp [Call.alive, hp]
      rw [control, if_pos halive, Handle.ready]
      exact congrArg some h.ready
    have hready : ∃ r, c.readiness.poll () c.control .fresh = (r, .fresh, some (.ok ())) ∧
        r.cause = none ∧ r.observed = true := by
      have hcause := h.cause
      cases ho : c.readiness.observed with
      | true =>
        exact ⟨c.readiness, by simp [Readiness.poll, Readiness.check, hcontrol, ho, hcause],
          hcause, ho⟩
      | false =>
        have hpermit := h.signalled.resolve_left (by simp [ho])
        refine ⟨{ c.readiness with permit := false, observed := true }, ?_, hcause, rfl⟩
        simp [Readiness.poll, Readiness.afterSignal, Readiness.check, hcontrol, ho, hcause, hpermit]
    obtain ⟨r, hpoll, hcause, hobserved⟩ := hready
    have hturn : c.pumpTurn =
        if !c.outbound.readable then (c, false)
        else if c.outbound.closedForReceive then c.pumpNext
        else c.pumpReady .fresh := by
      rw [Call.pumpTurn, hp]
    cases hread : c.outbound.readable with
    | false => exact .inl ⟨by rw [hturn, hread]; rfl, .inr rfl⟩
    | true =>
      rw [hread] at hturn
      cases hc : c.outbound.closedForReceive with
      | true => exact .inr ⟨c.readiness, by rw [hturn, hc]; rfl, hp, h⟩
      | false =>
        refine .inr ⟨r, ?_, hp, { h with cause := hcause, signalled := .inl hobserved }⟩
        rw [hturn, hc, pumpReady, hpoll]
        rfl
  · exact .inl ⟨by simp [Call.pumpTurn, hp], .inl (by rw [hp]; rfl)⟩

theorem undone (h : c.Smooth completed closed given held) (hp : c.pump = .reading) :
    c.handle.outboundDone = false := by
  obtain ⟨_, hdone⟩ | ⟨hfin, _⟩ := h.pump
  · exact hdone
  · cases hp.symm.trans hfin

theorem watched (h : c.Smooth completed closed given held) (hp : c.pump = .reading) :
    c.supervisor = .watching .never := by
  obtain hs | ⟨_, hdone⟩ := h.supervisor
  · exact hs
  · rw [hp] at hdone
    cases hdone

theorem takes (h : c.Smooth completed closed given held) (hp : c.pump = .reading) {v : α}
    {g : Handle α} {st : Status} : c.handle.sendMessage v ≠ (g, .error st) := by
  intro hs
  have hundone := h.undone hp
  have hhalf := h.half
  have hclosed := h.unclosed
  have hcancels := h.unended
  simp only [wire] at hhalf hclosed hcancels
  have hfinished : c.handle.transport.finished = false := by
    simp [Loopback.finished, Loopback.terminated, hhalf, hundone, hclosed, hcancels]
  obtain ⟨_, hterminated | hfin | hreject⟩ := Handle.sendMessage_error hs
  · simp [Handle.terminated, h.uncancelled, h.there, hundone] at hterminated
  · cases hfinished.symm.trans hfin
  · cases h.accepts.symm.trans hreject

/-- A value passes from the outbound queue to the transport. -/
theorem wrote (h : c.Smooth completed closed given held) (hp : c.pump = .reading) {q : Queue α}
    {v : α} {g : Handle α} (hq : c.outbound.tryRecv = (q, .item v))
    (hs : c.handle.sendMessage v = (g, .ok ())) :
    Smooth completed closed given held
      { c with outbound := q, handle := g, pump := .reading } := by
  obtain ⟨_, _, _, rfl⟩ := Handle.sendMessage_ok hs
  have hterm := c.outbound.termination_tryRecv
  have hord := h.orderly.tryRecv
  have hplaced := Inbound.placed_tryRecv h.placed
  rw [hq] at hterm hord hplaced
  exact
    { h with
      sent := by
        simp only [Stats.sent, wire, Array.size_push]
        exact congrArg (· + 1) h.sent
      orderly := hord
      placed := hplaced
      ended := hterm.trans h.ended
      pump := .inl ⟨rfl, h.undone hp⟩
      supervisor := .inl (h.watched hp)
      chain := by
        have hchain := h.chain
        rw [Queue.line_of_tryRecv_item hq] at hchain
        simpa [wire] using hchain }

/-- When all is written the outbound direction is ended. -/
theorem halfCloses (h : c.Smooth completed closed given held) (hp : c.pump = .reading)
    (hq : c.outbound.tryRecv.2 = .closed .completed) :
    Smooth completed closed given held (stopPump { c with handle := c.handle.halfClose.1 }) := by
  obtain ⟨hline, hclosed⟩ := Queue.closed_of_tryRecv h.orderly hq
  have hdrained : c.outbound.closedForReceive = true := by
    rw [h.orderly.closedForReceive_iff, hclosed]
    exact ⟨rfl, hline⟩
  have hhalf : c.handle.halfClose.1 =
      { c.handle with outboundDone := true, transport := c.wire.halfClose } := by
    rw [Handle.halfClose, if_neg (by simp [h.uncancelled, h.there, h.undone hp])]
    rfl
  rw [hhalf]
  exact
    { h with
      half := rfl
      pump := .inr ⟨rfl, rfl, hdrained⟩
      supervisor := .inl (h.watched hp) }

theorem next (h : c.Smooth completed closed given held) (hp : c.pump = .reading) {b : Bool}
    (hx : Next c (d, b)) :
    d.Smooth completed closed given held ∧ ∀ t, c.outbound.Knows t → d.outbound.Knows t := by
  cases hx with
  | @wrote q v g hq hs =>
    refine ⟨h.wrote hp hq hs, fun t ht => ?_⟩
    have hkept := ht.tryRecv
    rw [hq] at hkept
    exact hkept
  | refused hq hs => exact absurd hs (h.takes hp)
  | empty hq =>
    exact ⟨{ h with pump := .inl ⟨rfl, h.undone hp⟩, supervisor := .inl (h.watched hp) },
      fun _ => id⟩
  | completed hq =>
    rw [h.goes, if_neg Bool.false_ne_true]
    exact ⟨h.halfCloses hp hq, fun _ => id⟩
  | failed hq =>
    obtain ⟨_, hclosed⟩ := Queue.closed_of_tryRecv h.orderly hq
    rw [h.ended] at hclosed
    split at hclosed <;> cases hclosed

theorem turn (h : c.Smooth completed closed given held) :
    c.pumpTurn.1.Smooth completed closed given held ∧
      (∀ t, c.outbound.Knows t → c.pumpTurn.1.outbound.Knows t) ∧
      (c.pumpTurn.2 = false →
        c.pumpTurn.1.pump.done = true ∨ c.pumpTurn.1.outbound.readable = false) := by
  obtain ⟨hturn, hrest⟩ | ⟨r, hturn, hp, hr⟩ := h.pumpTurn
  · rw [hturn]
    exact ⟨h, fun _ => id, fun _ => hrest⟩
  · rw [hturn]
    have hnext := pumpNext_next { c with readiness := r }
    obtain ⟨hd, hknows⟩ := hr.next hp hnext
    refine ⟨hd, hknows, fun hstops => .inl ?_⟩
    generalize Call.pumpNext { c with readiness := r } = x at hnext hstops
    cases hnext with
    | wrote | empty => cases hstops
    | refused | completed | failed => rfl

/-- A look at the pump leaves nothing for it to do, and forgets no sender. -/
theorem pollPump (h : c.Smooth completed closed given held) :
    c.pollPump.Smooth completed closed given held ∧
      (∀ t, c.outbound.Knows t → c.pollPump.outbound.Knows t) ∧
      (c.pollPump.pump.done = true ∨ c.pollPump.outbound.readable = false) := by
  rw [← and_assoc]
  refine pollPump_of_turns
    (P := fun d => d.Smooth completed closed given held ∧
      ∀ t, c.outbound.Knows t → d.outbound.Knows t)
    (Q := fun d => d.pump.done = true ∨ d.outbound.readable = false) ?_ ⟨h, fun _ => id⟩
  rintro d ⟨hd, hknows⟩
  obtain ⟨hround, hkept, hrest⟩ := hd.turn
  exact ⟨⟨hround, fun t ht => hkept t (hknows t ht)⟩, hrest⟩

/-! The handler. -/

theorem status (h : c.Smooth completed closed given held) : c.scope.status = none :=
  Scope.status_eq_none h.goes

/-- The next value passes from the queue into the hands of the handler. -/
theorem recv (h : c.Smooth completed closed given []) {q : Queue α} {v : α}
    (hq : c.inbound.queue.tryRecv = (q, .item v)) :
    (c.withInbound q).Smooth completed closed given [v] :=
  { h with
    inbound := by
      have hrecv := h.inbound.recv
      rw [hq] at hrecv
      exact hrecv
    chain := by
      have hchain := h.chain
      rw [Queue.line_of_tryRecv_item hq] at hchain
      exact hchain }

/-- A pump that has ended has closed what the handler could still send on. -/
theorem reading (h : c.Smooth completed false given held) :
    c.pump = .reading ∧ c.handle.outboundDone = false := by
  obtain hp | ⟨_, _, hc⟩ := h.pump
  · exact hp
  · simp [Queue.closedForReceive, h.ended] at hc

/-- The value passes into the outbound queue, or into the line before it. -/
theorem sendFresh {v : α} (h : c.Smooth completed false given [v]) :
    ∃ d, d.Smooth completed false given [] ∧
      ((∃ e, c.pollSend (.fresh v) = (d, .placed e, some (.ok ()))) ∨
        ∃ t, c.pollSend (.fresh v) = (d, .placed (.inLine t), none) ∧ d.outbound.Knows t) := by
  have hnone : c.outbound.termination = none := h.ended
  have hopen : c.outbound.closedForSend = false := by simp [Queue.closedForSend, hnone]
  have hord := h.orderly.send v
  have hfates := Queue.fates_send c.outbound v
  have hended := Queue.termination_send c.outbound v
  have hline := Queue.line_send c.outbound v
  have hsent : Smooth completed false given [] { c with outbound := (c.outbound.send v).1 } :=
    { h with
      orderly := hord
      placed := hfates.symm ▸ h.placed
      ended := hended.trans h.ended
      pump := .inl h.reading
      chain := by
        rw [hopen, if_neg Bool.false_ne_true] at hline
        have hchain := h.chain
        rw [← List.append_assoc c.outbound.line, ← hline] at hchain
        exact hchain }
  refine ⟨_, hsent, ?_⟩
  cases hroom : c.outbound.hasRoom with
  | true =>
    refine .inl ⟨.spent, ?_⟩
    simp [Call.pollSend, h.status, Queue.send, hnone, hroom, Queue.pollSend]
  | false =>
    have hfull := Queue.send_of_full hopen hroom v
    have hwaits : c.outbound.nextTicket ∈ (c.outbound.send v).1.tickets := by
      rw [hfull]
      simp [Queue.tickets]
    have hfate := hord.fate?_eq_none hwaits
    rw [hfull] at hwaits hfate
    refine .inr ⟨c.outbound.nextTicket, ?_, ?_⟩
    · simp only [Call.pollSend, h.status, hfull, Queue.pollSend, hfate]
    · simp only [hfull]
      exact .inl hwaits

/-- A sender in line waits on, or is told that its value found its place. -/
theorem sendPlaced (h : c.Smooth completed closed given held) {t : Nat}
    (ht : c.outbound.Knows t) :
    c.pollSend (.placed (.inLine t)) = (c, .placed (.inLine t), none) ∧ t ∈ c.outbound.tickets ∨
      ∃ d e, c.pollSend (.placed (.inLine t)) = (d, .placed e, some (.ok ())) ∧
        d.Smooth completed closed given held ∧ d.inbound = c.inbound := by
  cases hfate : c.outbound.fate? t with
  | none =>
    refine .inl ⟨by simp only [Call.pollSend, h.status, Queue.pollSend, hfate], ?_⟩
    exact ht.resolve_right (Queue.fate?_eq_none_iff.mp hfate)
  | some r =>
    have hpoll : c.outbound.pollSend (.inLine t) = (c.outbound.forget t, .spent, some r) := by
      simp only [Queue.pollSend, hfate]
    obtain rfl : r = .ok () :=
      Inbound.told_of_placed h.placed (t := t) (by rw [hpoll])
    refine .inr ⟨{ c with outbound := c.outbound.forget t }, .spent, ?_, ?_, rfl⟩
    · simp only [Call.pollSend, h.status, hpoll]
    · exact
        { h with
          orderly := h.orderly.forget t
          placed := fun f hf => h.placed f (List.mem_of_mem_filter hf)
          pump := h.pump }

/-- The handler has returned, and its sending half is closed. -/
theorem close (h : c.Smooth completed closed given held) :
    Smooth completed true given held
      { c with outbound := (c.outbound.close .completed).1 } :=
  { h with
    orderly := h.orderly.close _
    placed := (Queue.fates_close c.outbound _).symm ▸ h.placed
    ended := by
      rw [Queue.termination_close, h.ended]
      cases closed <;> rfl
    pump := by
      refine h.pump.imp id fun ⟨hp, hdone, hc⟩ => ⟨hp, hdone, ?_⟩
      rw [h.orderly.closedForReceive_iff] at hc
      rw [(h.orderly.close _).closedForReceive_iff, Queue.line_close]
      exact ⟨Queue.isSome_close _ _, hc.2⟩
    chain := by
      rw [Queue.line_close]
      exact h.chain }

theorem dropSink (h : c.Smooth completed closed given held) :
    ∃ closed', (closed = true → closed' = true) ∧
      c.dropSink.Smooth completed closed' given held := by
  rw [Call.dropSink]
  simp only
  split
  · exact ⟨true, fun _ => rfl, Smooth.close (c := { c with sinks := c.sinks - 1 }) { h with }⟩
  · exact ⟨closed, id, { h with }⟩

/-- How the call of a handler that has read everything goes on after it has returned. -/
theorem finish (h : c.Smooth completed closed given [])
    (hread : c.inbound.queue.closedForReceive = true) {hd : Handler α} (hin : hd.inbound = true)
    (hsink : hd.sink = true) :
    ∃ d, Handler.finish c hd (.ok ()) =
        (d, { hd with inbound := false, sink := false, phase := .returned }) ∧
      d.Smooth completed true given [] ∧ Aside c d := by
  have hkeep : c.dropInbound = c := by rw [Call.dropInbound, readAll, if_pos hread]
  simp only [Handler.finish, Handler.dropInbound, hin, Handler.dropSink, hsink, if_true, hkeep,
    closeSink, closeOutbound]
  obtain ⟨_, _, hfirst⟩ := h.dropSink
  obtain ⟨closed', htrue, hlast⟩ := hfirst.close.dropSink
  obtain rfl := htrue rfl
  have hclose : Aside c.dropSink
      { c.dropSink with outbound := (c.dropSink.outbound.close .completed).1 } :=
    { Aside.refl c.dropSink with }
  exact ⟨_, rfl, hlast, ((outward_dropSink c).toAside.trans hclose).trans
    (outward_dropSink _).toAside⟩

end Smooth
end Call
end PacedCall
