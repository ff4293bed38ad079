import PacedCall.Proofs.Call.Conduct
import PacedCall.Proofs.Call.Credit
import PacedCall.Proofs.Call.Intake

/-!
The statistics of a call. Writes and credit are counted where they reach the transport, so those
counts are the transport's own. A delivery is counted whatever becomes of it: it is in the queue
until it is returned or until the queue is emptied, or it is counted as late; and only one that is
not late can have waited for room.
-/
namespace PacedCall

namespace Inbound
variable {α : Type} {b : Inbound α}

/-- What an open side takes in is not late. -/
theorem delivery_of_open (ho : b.queue.closedForSend = false) (v : α) :
    (b.onValue v).2.1 = .taken ∨ (b.onValue v).2.1 = .deferred := by
  cases hr : b.queue.hasRoom with
  | true =>
    cases hp : b.pacing with
    | counting f => exact .inl (by rw [onValue_counting_room ho hr hp])
    | latching l => exact .inl (by rw [onValue_latching_room ho hr hp])
  | false =>
    cases hp : b.pacing with
    | counting f => exact .inr (by rw [onValue_counting_full ho hr hp])
    | latching l => exact .inr (by rw [onValue_latching_full ho hr hp])

end Inbound

namespace Call
variable {α : Type} {c d e : Call α} {given returned discarded : Nat}

def tearsDown (c : Call α) (now : Nat) : Bool :=
  match c.supervisor with
  | .finished => false
  | .watching e => c.scope.cancelled || (e.arm now).due now

/-- Nothing is delivered from one state of a call to the next, and credit and writes are counted
as they reach the transport. -/
structure Level (c d : Call α) : Prop where
  received : d.handle.stats.messagesReceived = c.handle.stats.messagesReceived
  late : d.handle.stats.lateDeliveries = c.handle.stats.lateDeliveries
  deferred : d.handle.stats.deferredEnqueues = c.handle.stats.deferredEnqueues
  delivered : d.wire.delivered = c.wire.delivered
  requested : d.handle.stats.creditsRequested + c.wire.requested =
    c.handle.stats.creditsRequested + d.wire.requested
  sent : d.handle.stats.messagesSent + c.wire.sent.size =
    c.handle.stats.messagesSent + d.wire.sent.size

namespace Level

theorem of_handle (hh : d.handle = c.handle) : Level c d := by
  constructor <;> simp only [wire, hh]

theorem refl (c : Call α) : Level c c := of_handle rfl

theorem trans (h : Level c d) (g : Level d e) : Level c e :=
  { received := g.received.trans h.received
    late := g.late.trans h.late
    deferred := g.deferred.trans h.deferred
    delivered := g.delivered.trans h.delivered
    requested := by
      have hr := h.requested
      have gr := g.requested
      omega
    sent := by
      have hs := h.sent
      have gs := g.sent
      omega }

theorem ask (c : Call α) (wanted : Bool) : Level c (c.ask wanted) := by
  rw [Call.ask]
  split
  · rw [Handle.requestCredit]
    split
    · exact .refl c
    · refine { Level.refl c with requested := ?_ }
      simp only [Stats.requested, wire, Loopback.requestCredit]
      omega
  · exact .refl c

theorem markRemoteClosed (c : Call α) :
    Level c { c with handle := c.handle.markRemoteClosed } := { Level.refl c with }

/-- Whatever is heard but a message. -/
theorem hear (c : Call α) {n : Notice α} (hn : ∀ v, n ≠ .message v) : Level c (c.hear n) := by
  have hx := hear_hears c n
  generalize c.hear n = d at hx ⊢
  cases hx with
  | message _ v => exact absurd rfl (hn v)
  | late _ v => exact absurd rfl (hn v)
  | gone => exact .refl c
  | failed | cancelled => exact (markRemoteClosed c).trans (.of_handle rfl)
  | completed =>
    rw [onCompleted]
    split
    · exact (markRemoteClosed c).trans (.of_handle rfl)
    · exact .of_handle rfl
  | ready =>
    have hside : Level c { c with
        readiness := c.readiness.signal
        inbound := (c.inbound.onReady c.control).1 } := .of_handle rfl
    exact hside.trans (.ask _ _)

/-- Whatever the peer does but deliver. -/
theorem peer (c : Call α) {a : PeerAct α} (ha : ∀ v, a ≠ .deliver v) : Level c (c.peer a) := by
  have hwire : Level c (c.withWire (c.wire.peer a).1) := by
    cases a with
    | deliver v => exact absurd rfl (ha v)
    | _ => exact { Level.refl c with }
  rw [peer_eq]
  cases hn : (c.wire.peer a).2 with
  | none => exact hwire
  | some n => exact hwire.trans (.hear _ (Loopback.not_message_of_peer hn ha))

theorem failOutbound (c : Call α) (st : Status) : Level c (c.failOutbound st) := by
  rw [Call.failOutbound]
  split <;> exact .of_handle rfl

theorem next {b : Bool} (hx : Next c (d, b)) : Level c d := by
  cases hx with
  | wrote hq hs =>
    obtain ⟨_, _, _, rfl⟩ := Handle.sendMessage_ok hs
    refine { Level.refl c with sent := ?_ }
    simp only [Stats.sent, wire, Array.size_push]
    omega
  | @refused q v st hq hs =>
    have hrest : Level c { c with outbound := (q.cancel st).1 } := .of_handle rfl
    exact (hrest.trans (.failOutbound _ st)).trans (.of_handle rfl)
  | empty hq => exact .of_handle rfl
  | completed hq =>
    split
    · exact .of_handle rfl
    · refine Level.trans (d := { c with handle := c.handle.halfClose.1 }) ?_ (.of_handle rfl)
      rw [Handle.halfClose]
      split
      · exact .refl c
      · exact { Level.refl c with }
  | @failed st hq => exact (Level.failOutbound c st).trans (.of_handle rfl)

theorem turn {b : Bool} (ht : Turn c (d, b)) : Level c d := by
  cases ht with
  | rest => exact .refl c
  | waits hp hr => exact .of_handle rfl
  | unready hp hr hend => exact .of_handle rfl
  | @next r _ hp hr hx =>
    have hrest : Level c { c with readiness := r } := .of_handle rfl
    exact hrest.trans (.next hx)

theorem pollPump (c : Call α) : Level c c.pollPump :=
  pollPump_of_turn (P := Level c) (fun _ _ _ hd ht => hd.trans (turn ht)) (.refl c)

theorem fail (c : Call α) (st : Status) : Level c { c with handle := (c.handle.fail st).1 } := by
  rw [Handle.fail]
  split
  · rw [Handle.cancel]
    split
    · exact .refl c
    · exact { Level.refl c with }
  · rw [Handle.closeWithError]
    split
    · exact .refl c
    · exact { Level.refl c with }

theorem tearDown (c : Call α) : Level c c.tearDown := by
  rw [Call.tearDown]
  obtain ⟨origin, st⟩ := c.scope.cause.getD (.here, .localCancelled)
  simp only
  split
  · exact (Level.fail c st).trans (.of_handle rfl)
  · exact .of_handle rfl

theorem watch {now : Nat} (hw : Watch c now d) : Level c d := by
  cases hw with
  | tornDown hs => exact .tearDown c
  | expired =>
    have hscope : Level c (c.cancelScope .here .deadlineElapsed) := .of_handle rfl
    exact hscope.trans (.tearDown _)
  | _ => exact .of_handle rfl

theorem pollDeferred (c : Call α) (i : Nat) : Level c (c.pollDeferred i).1 := by
  rw [pollDeferred_eq]
  have hside : Level c { c with inbound := (c.inbound.pollDeferred i).1 } := .of_handle rfl
  exact hside.trans (.ask _ _)

theorem outlet {ended : Prop} (ho : Outlet ended c d) : Level c d := by
  cases ho <;> exact .of_handle rfl

theorem recv (c : Call α) : Level c c.recv.1 := by
  rw [Call.recv]
  split <;> exact .of_handle rfl

theorem cancelInbound (c : Call α) : Level c c.cancelInbound := by
  unfold Call.cancelInbound
  simp only
  split <;> exact .of_handle rfl

theorem dropInbound (c : Call α) : Level c c.dropInbound := by
  rw [Call.dropInbound]
  split
  · exact .refl c
  · split
    · exact .cancelInbound c
    · exact .of_handle rfl

end Level

/-- The books of a call to which so many messages were delivered; so many of them were returned to
the consumer, and so many discarded with the queue. -/
structure Audited (c : Call α) (given returned discarded : Nat) : Prop where
  requested : c.handle.stats.creditsRequested = c.wire.requested
  sent : c.handle.stats.messagesSent = c.wire.sent.size
  delivered : c.wire.delivered = given
  received : c.handle.stats.messagesReceived = given
  balanced : returned + c.inbound.queue.line.length + c.handle.stats.lateDeliveries + discarded =
    given
  deferred : c.handle.stats.deferredEnqueues + c.handle.stats.lateDeliveries ≤ given

namespace Audited

/-- Nothing is delivered, and what leaves the line is returned or discarded. -/
theorem level (h : c.Audited given returned discarded) (hl : Level c d) {more lost : Nat}
    (hline : more + d.inbound.queue.line.length + lost = c.inbound.queue.line.length) :
    d.Audited given (returned + more) (discarded + lost) := by
  have hrequested := hl.requested
  have hsent := hl.sent
  have hbalanced := h.balanced
  exact
    { requested := by
        have hr := h.requested
        omega
      sent := by
        have hs := h.sent
        omega
      delivered := hl.delivered.trans h.delivered
      received := hl.received.trans h.received
      balanced := by
        rw [hl.late]
        omega
      deferred := by
        rw [hl.deferred, hl.late]
        exact h.deferred }

/-- The same, where nothing leaves the line. -/
theorem still (h : c.Audited given returned discarded) (hl : Level c d)
    (hline : d.inbound.queue.line = c.inbound.queue.line) :
    d.Audited given returned discarded := by
  have hsame : 0 + d.inbound.queue.line.length + 0 = c.inbound.queue.line.length := by
    rw [hline, Nat.zero_add, Nat.add_zero]
  exact h.level hl hsame

/-- A message is counted with what becomes of it: it joins the line, or it is late. -/
theorem message (h : c.Audited given returned discarded) {b : Inbound α} {stats : Stats}
    (hrequested : stats.creditsRequested = c.handle.stats.creditsRequested)
    (hsent : stats.messagesSent = c.handle.stats.messagesSent)
    (hreceived : stats.messagesReceived = c.handle.stats.messagesReceived + 1)
    (hplace : b.queue.line.length + stats.lateDeliveries =
      c.inbound.queue.line.length + c.handle.stats.lateDeliveries + 1)
    (hdeferred : stats.deferredEnqueues + stats.lateDeliveries ≤
      c.handle.stats.deferredEnqueues + c.handle.stats.lateDeliveries + 1) :
    Audited { c with
      inbound := b
      handle := { c.handle with
        transport := { c.wire with delivered := c.wire.delivered + 1 }
        stats := stats } } (given + 1) returned discarded :=
  { requested := hrequested.trans h.requested
    sent := hsent.trans h.sent
    delivered := congrArg (· + 1) h.delivered
    received := hreceived.trans (congrArg (· + 1) h.received)
    balanced := by
      have hbalanced := h.balanced
      simp only
      omega
    deferred := Nat.le_trans hdeferred (Nat.succ_le_succ h.deferred) }

theorem deliver (h : c.Audited given returned discarded) (v : α) :
    ((c.withWire { c.wire with delivered := c.wire.delivered + 1 }).onMessage v).Audited
      (given + 1) returned discarded := by
  set d := c.withWire { c.wire with delivered := c.wire.delivered + 1 } with hd
  by_cases halive : d.alive = true
  · rw [onMessage_eq halive]
    refine Audited.still ?_ (.ask _ _) (by rw [inbound_ask])
    cases ho : c.inbound.queue.closedForSend with
    | true =>
      rw [show d.inbound.onValue v = _ from Inbound.onValue_of_closed ho v]
      exact h.message rfl rfl rfl rfl (Nat.le_refl _)
    | false =>
      have hline : (d.inbound.onValue v).1.queue.line.length =
          c.inbound.queue.line.length + 1 := by
        rw [show d.inbound.onValue v = c.inbound.onValue v from rfl, Inbound.line_onValue ho,
          List.length_append, List.length_singleton]
      obtain hwhat | hwhat := Inbound.delivery_of_open ho v
      · rw [show (d.inbound.onValue v).2.1 = _ from hwhat]
        refine h.message rfl rfl rfl ?_ (Nat.le_succ _)
        rw [hline]
        exact Nat.add_right_comm _ 1 _
      · rw [show (d.inbound.onValue v).2.1 = _ from hwhat]
        refine h.message rfl rfl rfl ?_ (Nat.le_of_eq (Nat.add_right_comm _ 1 _))
        rw [hline]
        exact Nat.add_right_comm _ 1 _
  · rw [onMessage, if_neg halive]
    exact h.message rfl rfl rfl rfl (Nat.le_refl _)

end Audited

/-- A look at the supervisor empties the line if it tears the call down, and leaves it otherwise. -/
theorem line_pollSupervisor (c : Call α) (now : Nat) :
    (c.pollSupervisor now).inbound.queue.line =
      if c.tearsDown now then [] else c.inbound.queue.line := by
  rw [pollSupervisor, tearsDown]
  cases c.supervisor with
  | finished => rfl
  | watching e =>
    simp only
    by_cases hs : c.scope.cancelled = true
    · simp only [hs, Bool.true_or, if_true]
      rfl
    · by_cases hd : (e.arm now).due now = true
      · simp only [hs, hd, Bool.or_true, Bool.false_eq_true, if_true, if_false]
        rfl
      · simp only [hs, hd, Bool.or_self, Bool.false_eq_true, if_false]
        split <;> rfl

theorem line_cancelInbound (c : Call α) : c.cancelInbound.inbound.queue.line = [] := by
  unfold cancelInbound
  simp only
  split <;> rfl

/-- A stream that is let go has nothing in line, whether it was read to its end or not. -/
theorem line_dropInbound (c : Call α) : c.dropInbound.inbound.queue.line = [] := by
  rw [dropInbound]
  split
  · next hread =>
    simp only [readAll, Queue.closedForReceive, Bool.and_eq_true, List.isEmpty_iff] at hread
    simp [Queue.line, hread.1.2, hread.2]
  · split
    · exact line_cancelInbound c
    · rfl

end Call

namespace Course
variable {α : Type} {s : Course α} {given returned discarded : Nat}

def discards (s : Course α) : Move α → List α
  | .supervise => if s.call.tearsDown s.now then s.call.inbound.queue.line else []
  | .cancelInbound => s.call.inbound.queue.line
  | .dropInbound => s.call.inbound.queue.line
  | _ => []

theorem audited_step (h : s.call.Audited given returned discarded)
    (hs : s.call.wire.started = true) (m : Move α) :
    (s.step m).call.Audited (given + m.delivers.length) (returned + (s.returns m).length)
      (discarded + (s.discards m).length) := by
  by_cases hout : m.outward = true
  · have hv : m.delivers = [] := by
      cases m <;> first | rfl | cases hout
    have hr : s.returns m = [] := by
      cases m <;> first | rfl | cases hout
    have hd : s.discards m = [] := by
      cases m <;> first | rfl | cases hout
    rw [hv, hr, hd]
    exact h.still (.outlet (outlet_step s hout)) (by rw [(outward_step s hout).inbound])
  · cases m with
    | pump => exact h.still (.pollPump _) (by rw [(aside_step s (m := .pump) rfl).inbound])
    | peer a =>
      by_cases ha : ∃ v, a = .deliver v
      · obtain ⟨v, rfl⟩ := ha
        have hd := h.deliver v
        rw [← Call.hear, ← Call.peer_deliver hs] at hd
        exact hd
      · have hsilent : ∀ v, a ≠ .deliver v := fun v hv => ha ⟨v, hv⟩
        have hv : (Move.peer a).delivers = [] := by
          cases a <;> first | rfl | exact absurd rfl (hsilent _)
        rw [hv]
        exact h.still (.peer _ hsilent) (Call.line_peer _ hsilent)
    | supervise =>
      refine h.level (.watch (Call.pollSupervisor_watch _ _)) ?_
      simp only [Call.line_pollSupervisor, returns, discards]
      split <;> simp
    | enqueue i =>
      refine h.still (.pollDeferred _ i) ?_
      rw [step, withCall, Call.pollDeferred_eq, Call.inbound_ask]
      exact Inbound.line_pollDeferred _ i
    | recv =>
      refine h.level (.recv _) ?_
      have hline := congrArg List.length (line_recv s)
      rw [List.length_append] at hline
      exact hline
    | cancelInbound =>
      refine h.level (.cancelInbound _) ?_
      simp [Call.line_cancelInbound, returns, discards]
    | dropInbound =>
      refine h.level (.dropInbound _) ?_
      simp [Call.line_dropInbound, returns, discards]
    | _ => exact absurd rfl hout

theorem audited_run (h : s.call.Audited 0 0 0) (hs : s.call.wire.started = true)
    (ms : List (Move α)) :
    (s.run ms).call.Audited (delivered ms).length (collect returns s ms).length
      (collect discards s ms).length := by
  induction ms using List.reverseRecOn with
  | nil => exact h
  | append_singleton ms m ih =>
    have hmore : (delivered (ms ++ [m])).length = (delivered ms).length + m.delivers.length := by
      simp [delivered]
    rw [run_concat, collect_concat, collect_concat, hmore, List.length_append, List.length_append]
    exact audited_step ih ((later_run s ms).started.trans hs) m

theorem audited_opened (o : Opening α) (p : CallPlan) (ready : Bool) {acts : List (PeerAct α)}
    (hacts : ∀ a ∈ acts, ∀ v, a ≠ .deliver v) : (opened o p ready acts).call.Audited 0 0 0 := by
  have hunused := Loopback.unused_before ready acts
  have hdelivered := Loopback.delivered_before ready hacts
  have hlevel : (o.idle p (.before ready acts)).Level (opened o p ready acts).call :=
    o.call_of_idle (P := (o.idle p (.before ready acts)).Level) p _ (.refl _)
      (fun c h => h.trans (.hear c (by simp))) (fun c h => h.trans (.ask c true))
      fun _ _ h => h.trans (.of_handle rfl)
  have hsent : (Loopback.before ready acts).sent.size = 0 := by rw [hunused.sent, Array.size_empty]
  have hidle : (o.idle p (.before ready acts)).Audited 0 0 0 := by
    cases o <;> exact ⟨hunused.requested.symm, hsent.symm, hdelivered, rfl, rfl, Nat.le_refl _⟩
  have hfirst := (ordered_opened o p ready acts).first
  rw [List.nil_append, List.prefix_nil] at hfirst
  refine hidle.still hlevel ?_
  rw [hfirst]
  cases o <;> rfl

/-- The statistics of a call at any time agree with its transport, and account for each message
that was delivered since the call began: it was returned, is in the queue, was discarded with it, or
came too late, perhaps to a call that was over. -/
theorem stats_exact (o : Opening α) (p : CallPlan) (ready : Bool) (acts : List (PeerAct α))
    (hacts : ∀ a ∈ acts, ∀ v, a ≠ .deliver v) (ms : List (Move α)) :
    let s₀ := opened o p ready acts
    let c := (s₀.run ms).call
    let stats := c.handle.stats
    stats.creditsRequested = c.wire.requested ∧
    stats.messagesSent = c.wire.sent.size ∧
    stats.messagesReceived = c.wire.delivered ∧
    stats.messagesReceived = (delivered ms).length ∧
    stats.messagesReceived = (collect returns s₀ ms).length + c.inbound.queue.length +
      stats.lateDeliveries + (collect discards s₀ ms).length ∧
    stats.deferredEnqueues + stats.lateDeliveries ≤ stats.messagesReceived := by
  intro s₀ c stats
  have h := audited_run (audited_opened o p ready hacts) (role_started_opened o p ready acts).2 ms
  have hbalanced := h.balanced
  rw [Queue.length_line] at hbalanced
  exact ⟨h.requested, h.sent, h.received.trans h.delivered.symm, h.received,
    h.received.trans hbalanced.symm, h.received.symm ▸ h.deferred⟩

/-- One value is read, one is in the buffer and one in line when the consumer gives up; the call is
torn down and released, and a fourth value comes too late. -/
theorem stats_exact_discarded :
    let s₀ := opened .bidi { role := .client } true ([] : List (PeerAct Nat))
    let ms : List (Move Nat) :=
      [.peer (.deliver 1), .recv, .trySend 7, .pump, .peer (.deliver 2), .peer (.deliver 3),
        .cancelInbound, .supervise, .pump, .peer (.deliver 4)]
    let c := (s₀.run ms).call
    c.alive = false ∧ c.handle.stats.messagesReceived = 4 ∧ c.handle.stats.lateDeliveries = 1 ∧
      (collect returns s₀ ms).length = 1 ∧ (collect discards s₀ ms).length = 2 ∧
      c.wire.sent.size = 1 ∧ c.handle.stats.creditsRequested = c.wire.requested := by
  have h := stats_exact .bidi { role := .client } true ([] : List (PeerAct Nat)) (by simp)
    [.peer (.deliver 1), .recv, .trySend 7, .pump, .peer (.deliver 2), .peer (.deliver 3),
      .cancelInbound, .supervise, .pump, .peer (.deliver 4)]
  dsimp only at h ⊢
  obtain ⟨hrequested, _, _, hreceived, _⟩ := h
  exact ⟨by decide, hreceived, by decide, by decide, by decide, by decide, hrequested⟩

end Course
end PacedCall
