import PacedCall.Proofs.Call.Conduct
import PacedCall.Proofs.Call.Outbound
import PacedCall.Proofs.Inbound.Going

/-!
How a call ends from this side. As long as the peer has ended nothing, a client's queue for what
comes in stays open until the scope is cancelled, so a client's supervisor never finds the call
settled; and a pump that has ended has half-closed the call or cancelled its scope. So a
supervisor that has returned leaves a transport that has heard of the end, once.
-/
namespace PacedCall

namespace Scope
variable {s : Scope}

theorem byPeer_cancelWith_here (h : s.byPeer = false) (st : Status) :
    (s.cancelWith .here st).byPeer = false := by
  rw [cancelWith, cancel]
  split
  · exact h
  · split
    · exact h
    · rfl

end Scope

namespace Call
variable {α : Type} {c d : Call α} {parting missed ended : Prop}

/-- The transport knows from this side that the call is over: a client has cancelled it, a server
has closed it. -/
def heard (c : Call α) : Bool :=
  match c.handle.role with
  | .client => c.handle.cancelled
  | .server => c.handle.outboundDone

/-- What holds of a call whose peer has ended nothing. A client that is `parting` has given up what
comes in, and is about to cancel the scope for it; the end of a call is `missed` when its
supervisor returns meanwhile. -/
structure Local (c : Call α) (parting missed : Prop) : Prop where
  there : c.handle.remoteClosed = false
  closes : c.handle.role = .server → c.handle.cancelled = false
  origin : c.scope.byPeer = false
  cancelled : c.handle.cancelled = true → c.scope.cancelled = true
  unready : c.readiness.cause.isSome = true → c.scope.cancelled = true
  pump : c.pump.done = true → c.scope.cancelled = true ∨ c.handle.outboundDone = true
  inbound : c.handle.role = .client → c.inbound.Going ∨ c.scope.cancelled = true ∨ parting
  ended : c.supervisor.done = true → c.heard = true ∨ missed

namespace Local

theorem imp (h : c.Local parting missed) {parting' missed' : Prop} (hp : parting → parting')
    (hm : missed → missed') : c.Local parting' missed' :=
  { h with
    inbound := fun hr => (h.inbound hr).imp id (Or.imp id hp)
    ended := fun hd => (h.ended hd).imp id hm }

/-- Not much has to hold of a call whose scope was cancelled. -/
theorem of_cancelled (hs : c.scope.cancelled = true) (hthere : c.handle.remoteClosed = false)
    (hcloses : c.handle.role = .server → c.handle.cancelled = false)
    (horigin : c.scope.byPeer = false)
    (hended : c.supervisor.done = true → c.heard = true ∨ missed) : c.Local parting missed :=
  { there := hthere
    closes := hcloses
    origin := horigin
    cancelled := fun _ => hs
    unready := fun _ => hs
    pump := fun _ => .inl hs
    inbound := fun _ => .inr (.inl hs)
    ended := hended }

theorem cancelScope (h : c.Local parting missed) (st : Status) {parting' : Prop} :
    (c.cancelScope .here st).Local parting' missed :=
  .of_cancelled (Scope.cancelled_cancelWith _ _ _) h.there h.closes
    (Scope.byPeer_cancelWith_here h.origin st) h.ended

theorem withInbound (h : c.Local parting missed) {b : Inbound α} (hb : c.inbound.Going → b.Going) :
    Local { c with inbound := b } parting missed :=
  { h with inbound := fun hr => (h.inbound hr).imp hb id }

theorem ask (h : c.Local parting missed) (wanted : Bool) : (c.ask wanted).Local parting missed := by
  rw [Call.ask]
  split
  · rw [Handle.requestCredit]
    split
    · exact h
    · exact { h with }
  · exact h

/-! Hearing from a peer that does not end the call. -/

theorem onMessage (h : c.Local parting missed) (v : α) : (c.onMessage v).Local parting missed := by
  by_cases halive : c.alive = true
  · rw [onMessage_eq halive]
    refine Local.ask ?_ _
    have hin := h.withInbound (b := (c.inbound.onValue v).1) fun hb => hb.onValue v
    exact { hin with }
  · rw [Call.onMessage, if_neg halive]
    exact { h with }

theorem onReady (h : c.Local parting missed) : c.onReady.Local parting missed := by
  rw [onReady_eq]
  refine Local.ask ?_ _
  have hin := h.withInbound (b := (c.inbound.onReady c.control).1) fun hb => hb.onReady _
  exact
    { hin with
      unready := by
        rw [Readiness.signal_cause]
        exact h.unready }

theorem hear (h : c.Local parting missed) {a : PeerAct α} {n : Notice α} (hn : a.notice? = some n)
    (ha : a.ends c.handle.role = false) : (c.hear n).Local parting missed := by
  cases a with
  | deliver v =>
    obtain rfl := Option.some.inj hn
    exact h.onMessage v
  | complete =>
    obtain rfl := Option.some.inj hn
    have hserver : c.handle.role ≠ .client := by simpa [PeerAct.ends] using ha
    simp only [Call.hear, onCompleted]
    split
    · rw [if_neg (by simpa using hserver)]
      exact { h with inbound := fun hr => absurd hr hserver }
    · exact h
  | fail st => cases ha
  | cancel => cases ha
  | rejectWrites st => cases hn
  | _ =>
    obtain rfl := Option.some.inj hn
    simp only [Call.hear]
    split
    · exact h.onReady
    · exact h

theorem peer (h : c.Local parting missed) {a : PeerAct α} (ha : a.ends c.handle.role = false) :
    (c.peer a).Local parting missed := by
  have hwire : (c.withWire (c.wire.peer a).1).Local parting missed := { h with }
  rw [peer_eq]
  cases hn : (c.wire.peer a).2 with
  | none => exact hwire
  | some n => exact hwire.hear (Loopback.notice_of_peer hn) ha

/-! The two tasks. -/

theorem failOutbound (h : c.Local parting missed) (st : Status) :
    (c.failOutbound st).Local parting missed ∧ (c.failOutbound st).scope.cancelled = true := by
  rw [Call.failOutbound, if_neg (by simp [h.there])]
  exact ⟨h.cancelScope st, Scope.cancelled_cancelWith _ _ _⟩

theorem stopPump (h : c.Local parting missed)
    (hend : c.scope.cancelled = true ∨ c.handle.outboundDone = true) :
    c.stopPump.Local parting missed := { h with pump := fun _ => hend }

/-- A pump that comes to the end of its queue has half-closed the call, unless it is cancelled. -/
theorem halfClose (h : c.Local parting missed) (hs : ¬ c.scope.cancelled = true) :
    Local { c with handle := c.handle.halfClose.1 } parting missed ∧
      c.handle.halfClose.1.outboundDone = true := by
  have hopen : c.handle.cancelled = false := by
    by_contra hc
    exact hs (h.cancelled (by simpa using hc))
  rw [Handle.halfClose]
  split
  · next hover =>
    simp only [hopen, h.there, Bool.or_self, Bool.false_or] at hover
    exact ⟨h, hover⟩
  · have hended : c.supervisor.done = true →
        heard { c with handle := { c.handle with outboundDone := true } } = true ∨ missed := by
      intro hd
      have hknown := h.ended hd
      unfold heard at hknown ⊢
      cases hr : c.handle.role with
      | client => simpa [hr] using hknown
      | server => exact .inl rfl
    exact ⟨{ h with pump := fun _ => .inr rfl, ended := hended }, rfl⟩

theorem next (h : c.Local parting missed) {b : Bool} (hx : Next c (d, b)) :
    d.Local parting missed := by
  cases hx with
  | wrote hq hs =>
    obtain ⟨_, _, _, rfl⟩ := Handle.sendMessage_ok hs
    exact { h with pump := nofun }
  | @refused q v st hq hs =>
    have hrest : Local { c with outbound := (q.cancel st).1 } parting missed := { h with }
    obtain ⟨hl, hs⟩ := hrest.failOutbound st
    exact hl.stopPump (.inl hs)
  | empty hq => exact { h with pump := nofun }
  | completed hq =>
    split
    · next hs => exact h.stopPump (.inl hs)
    · next hs =>
      obtain ⟨hl, hdone⟩ := h.halfClose hs
      exact hl.stopPump (.inr hdone)
  | @failed st hq =>
    obtain ⟨hl, hs⟩ := h.failOutbound st
    exact hl.stopPump (.inl hs)

theorem turn (h : c.Local parting missed) {b : Bool} (ht : Turn c (d, b)) :
    d.Local parting missed := by
  have hready : ∀ r : Readiness Unit, r.cause = c.readiness.cause →
      Local { c with readiness := r } parting missed :=
    fun r hr => { h with unready := fun hc => h.unready (hr ▸ hc) }
  cases ht with
  | rest => exact h
  | waits hp hr => exact { hready _ hr with pump := nofun }
  | unready hp hr hend => exact (hready _ hr).stopPump (.inl (h.unready hend))
  | next hp hr hx => exact (hready _ hr).next hx

theorem pollPump (h : c.Local parting missed) : c.pollPump.Local parting missed :=
  pollPump_of_turn (P := fun d => d.Local parting missed) (fun _ _ _ hc ht => hc.turn ht) h

/-- A call that fails is told to its transport, if that does not know yet. -/
theorem fail (h : c.Local parting missed) (st : Status) :
    (c.handle.fail st).1.remoteClosed = false ∧ (c.handle.fail st).1.role = c.handle.role ∧
      (c.handle.role = .server → (c.handle.fail st).1.cancelled = false) ∧
      heard { c with handle := (c.handle.fail st).1 } = true := by
  unfold heard
  cases hr : c.handle.role with
  | client =>
    simp only [Handle.fail, hr, Handle.cancel]
    split
    · next hover =>
      have hc : c.handle.cancelled = true := by simpa [h.there, hr] using hover
      simp [h.there, hr, hc]
    · simp [h.there]
  | server =>
    have hopen := h.closes hr
    simp only [Handle.fail, hr, Handle.closeWithError]
    split
    · next hover =>
      have hdone : c.handle.outboundDone = true := by simpa [h.there, hopen] using hover
      simp [h.there, hr, hopen, hdone]
    · simp [h.there, hopen]

theorem tearDown (h : c.Local parting missed) (hs : c.scope.cancelled = true) :
    c.tearDown.Local parting missed := by
  have hhere : (c.scope.cause.getD (.here, .localCancelled)).1 = .here := by
    have horigin := h.origin
    unfold Scope.byPeer at horigin
    cases hc : c.scope.cause with
    | none => rfl
    | some cause =>
      obtain ⟨origin, st⟩ := cause
      cases origin with
      | peer => simp [hc] at horigin
      | here => rfl
  rw [Call.tearDown]
  generalize c.scope.cause.getD (.here, .localCancelled) = cause at hhere ⊢
  obtain ⟨origin, st⟩ := cause
  obtain rfl : origin = .here := hhere
  obtain ⟨hthere, hrole, hcloses, hheard⟩ := h.fail st
  exact .of_cancelled hs hthere (fun hr => hcloses (hrole ▸ hr)) h.origin fun _ => .inl hheard

/-- A client finds its call settled only while it is parting, a server only once it has closed. -/
theorem settled (h : c.Local parting missed) (hin : c.inbound.queue.closedForSend = true)
    (hp : c.pump.done = true) (hs : c.scope.cancelled = false) : c.heard = true ∨ parting := by
  unfold heard
  cases hr : c.handle.role with
  | client =>
    refine .inr ?_
    obtain hgoing | hc | hparting := h.inbound hr
    · cases hgoing.goes.symm.trans hin
    · cases hs.symm.trans hc
    · exact hparting
  | server =>
    refine .inl ?_
    exact (h.pump hp).resolve_left (by simp [hs])

theorem watch (h : c.Local parting missed) {now : Nat} (hw : Watch c now d)
    (hmiss : c.supervisor.done = false → d.supervisor.done = true → d.scope.cancelled = false →
      parting → missed) : d.Local parting missed := by
  cases hw with
  | rest => exact h
  | tornDown hs => exact h.tearDown hs
  | expired => exact (h.cancelScope _).tearDown (Scope.cancelled_cancelWith _ _ _)
  | settled hin hp hs =>
    refine { h with ended := fun _ => ?_ }
    cases hd : c.supervisor.done with
    | true => exact h.ended hd
    | false => exact (h.settled hin hp hs).imp id (hmiss hd rfl hs)
  | watching e hs => exact { h with ended := nofun }

/-! The halves of the call. -/

theorem pollDeferred (h : c.Local parting missed) (i : Nat) :
    (c.pollDeferred i).1.Local parting missed := by
  rw [pollDeferred_eq]
  exact (h.withInbound fun hb => hb.pollDeferred i).ask _

theorem recv (h : c.Local parting missed) : c.recv.1.Local parting missed := by
  rw [Call.recv]
  split
  · exact h
  · exact h.withInbound Inbound.Going.recv

/-- Once the queue is closed there is nothing left that goes on. -/
theorem discardInbound (h : c.Local parting missed)
    (hin : c.handle.role = .client → c.inbound.queue.closedForSend = true) :
    c.discardInbound.Local parting missed :=
  { h with
    inbound := by
      intro hr
      refine .inr ((h.inbound hr).resolve_left ?_)
      intro hgoing
      cases hgoing.goes.symm.trans (hin hr) }

theorem cancelInbound (h : c.Local parting missed) : c.cancelInbound.Local parting missed := by
  unfold Call.cancelInbound
  simp only
  split
  · have hleft : c.discardInbound.Local True missed :=
      { h with inbound := fun _ => .inr (.inr trivial) }
    exact hleft.cancelScope _
  · next hclosed => exact h.discardInbound fun _ => by simpa using hclosed

theorem dropInbound (h : c.Local parting missed) : c.dropInbound.Local parting missed := by
  rw [Call.dropInbound]
  split
  · exact h
  · split
    · exact h.cancelInbound
    · next hserver => exact h.discardInbound fun hr => by rw [hserver] at hr; cases hr

theorem outlet (h : c.Local parting missed) (ho : Outlet ended c d) : d.Local parting missed := by
  cases ho with
  | sends q sinks => exact { h with }
  | cancels st => exact h.cancelScope st
  | ends => exact .of_cancelled rfl h.there h.closes h.origin h.ended

end Local

/-- A server has no use for a cancellation. -/
theorem cancelled_watch (hr : c.handle.role = .server) {now : Nat} (hw : Watch c now d) :
    d.handle.cancelled = c.handle.cancelled := by
  have htear : ∀ c : Call α, c.handle.role = .server →
      c.tearDown.handle.cancelled = c.handle.cancelled := by
    intro c hr
    rw [tearDown]
    generalize c.scope.cause.getD (.here, .localCancelled) = cause
    obtain ⟨origin, st⟩ := cause
    simp only [Handle.fail, hr, Handle.closeWithError]
    split
    · split <;> rfl
    · rfl
  cases hw with
  | rest => rfl
  | tornDown hs => exact htear c hr
  | expired => exact htear (c.cancelScope .here .deadlineElapsed) hr
  | settled hin hp hs => rfl
  | watching e hs => rfl

theorem local_idle (o : Opening α) (p : CallPlan) (wire : Loopback α) :
    (o.idle p wire).Local False False := by
  have hidle : ∀ (b : Inbound α) q sinks, b.Going → (p.idle wire b q sinks).Local False False := by
    intro b q sinks hb
    exact
      { there := rfl
        closes := fun _ => rfl
        origin := rfl
        cancelled := nofun
        unready := nofun
        pump := nofun
        inbound := fun _ => .inl hb
        ended := nofun }
  cases o with
  | responses request => exact hidle _ _ _ (Inbound.Going.new _).2
  | _ => exact hidle _ _ _ (Inbound.Going.new _).1

theorem local_call (o : Opening α) (p : CallPlan) (wire : Loopback α) :
    (o.call p wire).Local False False :=
  o.call_of_idle (P := fun c => c.Local False False) p wire (local_idle o p wire)
    (fun _ h => h.hear (a := .fireReady) rfl rfl) (fun _ h => h.ask true)
    fun _ _ h => { h with }

end Call

namespace Course
variable {α : Type} {s : Course α} {parting missed : Prop}

theorem local_step (h : s.call.Local parting missed) (m : Move α)
    (hpeer : ∀ a, m = .peer a → a.ends s.call.handle.role = false)
    (hmiss : m = .supervise → s.call.supervisor.done = false →
      (s.step m).call.supervisor.done = true → (s.step m).call.scope.cancelled = false →
      parting → missed) : (s.step m).call.Local parting missed := by
  by_cases hout : m.outward = true
  · exact h.outlet (outlet_step s hout)
  · cases m with
    | peer a => exact h.peer (hpeer a rfl)
    | pump => exact h.pollPump
    | supervise => exact h.watch (Call.pollSupervisor_watch _ _) (hmiss rfl)
    | enqueue i => exact h.pollDeferred i
    | recv => exact h.recv
    | cancelInbound => exact h.cancelInbound
    | dropInbound => exact h.dropInbound
    | _ => exact absurd rfl hout

theorem role_run (o : Opening α) (p : CallPlan) (ready : Bool) (acts : List (PeerAct α))
    (ms : List (Move α)) : ((opened o p ready acts).run ms).call.handle.role = p.role :=
  (later_run _ ms).role.trans (role_started_opened o p ready acts).1

theorem local_run (o : Opening α) (p : CallPlan) (ready : Bool) (acts : List (PeerAct α))
    {ms : List (Move α)} (hpeer : ∀ a, .peer a ∈ ms → a.ends p.role = false) :
    ((opened o p ready acts).run ms).call.Local False False := by
  induction ms using List.reverseRecOn with
  | nil => exact Call.local_call o p _
  | append_singleton ms m ih =>
    rw [run_concat]
    refine local_step (ih fun a ha => hpeer a (List.mem_append_left _ ha)) m ?_ ?_
    · rintro a rfl
      rw [role_run o p ready acts ms]
      exact hpeer a (by simp)
    · exact fun _ _ _ _ => id

structure Quiet (s : Course α) : Prop where
  pump : s.step .pump = s
  supervise : s.step .supervise = s
  enqueue : ∀ i, s.step (.enqueue i) = s

/-- A call whose tasks have ended has come to rest. -/
theorem Quiet.of_done (hpump : s.call.pump.done = true) (hsup : s.call.supervisor.done = true)
    (hdeferred : s.call.inbound.deferred = []) : s.Quiet := by
  have hfinished : s.call.supervisor = .finished := by
    cases h : s.call.supervisor with
    | finished => rfl
    | watching e =>
      rw [h] at hsup
      cases hsup
  refine ⟨?_, ?_, ?_⟩
  · rw [step, Call.pollPump_of_done hpump]
    rfl
  · rw [step, Call.pollSupervisor, hfinished]
    rfl
  · intro i
    rw [step, Call.pollDeferred_eq]
    simp [Inbound.pollDeferred, hdeferred, Call.ask, withCall]

theorem Quiet.supervisor_done (hq : s.Quiet) (hs : s.call.scope.cancelled = true) :
    s.call.supervisor.done = true := by
  have hstill : s.call.pollSupervisor s.now = s.call := congrArg Course.call hq.supervise
  rw [← hstill] at hs ⊢
  exact Call.done_pollSupervisor hs

theorem recorded_opened (o : Opening α) (p : CallPlan) (ready : Bool) (acts : List (PeerAct α))
    (ms : List (Move α)) : ((opened o p ready acts).run ms).call.handle.Recorded := by
  obtain ⟨l, hconducts⟩ := exists_conducts_opened o p ready acts ms
  obtain ⟨hcancels, hhalf, hclosed⟩ := o.transport_idle p (Loopback.unused_before ready acts)
  have hidle : (o.idle p (.before ready acts)).handle.Recorded :=
    { cancellations := by
        rw [hcancels]
        cases o <;> rfl
      outboundDone := by
        rw [hhalf, hclosed]
        cases o <;> rfl
      either := fun _ => hclosed }
  exact hconducts.uses.recorded hidle

/-- What the transport of a call was told, what the flags of its handle say of that, and with which
status it was ended before its time. -/
theorem told_opened (o : Opening α) (p : CallPlan) (ready : Bool) (acts : List (PeerAct α))
    (ms : List (Move α)) :
    let c := ((opened o p ready acts).run ms).call
    ∃ l, (o.idle p (.before ready acts)).handle.Uses l c.handle ∧ c.handle.Books l ∧
      ∀ x ∈ l, ∀ st, x.status? = some st → c.scope.status = some st := by
  intro c
  obtain ⟨l, hconducts⟩ := exists_conducts_opened o p ready acts ms
  have hfresh : (o.idle p (.before ready acts)).handle.Books [] := by
    cases o <;> exact Handle.books_fresh _ _
  exact ⟨l, hconducts.uses, hconducts.uses.books hfresh, hconducts.told⟩

/-- A call is cancelled for its transport with the status that everybody in the scope is told. -/
theorem status_of_cancellation (o : Opening α) (p : CallPlan) (ready : Bool)
    (acts : List (PeerAct α)) (ms : List (Move α)) {st : Status}
    (hst : st ∈ ((opened o p ready acts).run ms).call.wire.cancellations) :
    ((opened o p ready acts).run ms).call.scope.status = some st := by
  obtain ⟨l, huses, _, htold⟩ := told_opened o p ready acts ms
  rw [Call.wire, huses.cancellations, (o.transport_idle p (Loopback.unused_before ready acts)).1,
    List.nil_append] at hst
  obtain ⟨x, hx, hcancel⟩ := List.mem_filterMap.mp hst
  exact htold x hx st (Signal.status?_of_cancel? hcancel)

/-- A server never cancels its call for the transport. -/
theorem cancellations_eq_nil (o : Opening α) {p : CallPlan} (hp : p.role = .server) (ready : Bool)
    (acts : List (PeerAct α)) (ms : List (Move α)) :
    ((opened o p ready acts).run ms).call.wire.cancellations = [] := by
  have hnone : ((opened o p ready acts).run ms).call.handle.cancelled = false := by
    induction ms using List.reverseRecOn with
    | nil =>
      refine (o.unwatched_call p (.before ready acts)).cancelled.trans ?_
      cases o <;> rfl
    | append_singleton ms m ih =>
      rw [run_concat]
      by_cases hm : m = .supervise
      · rw [hm]
        have hr := (role_run o p ready acts ms).trans hp
        exact (Call.cancelled_watch hr (Call.pollSupervisor_watch _ _)).trans ih
      · exact (unwatched_step _ hm).cancelled.trans ih
  have hcount := (recorded_opened o p ready acts ms).cancellations
  rw [hnone] at hcount
  exact List.length_eq_zero_iff.mp hcount

/-- A server that was cancelled without having half-closed its call has closed it with the status
that everybody in the scope is told, by the time nothing moves any more. -/
theorem closed_of_quiet (o : Opening α) {p : CallPlan} (hp : p.role = .server) (ready : Bool)
    (acts : List (PeerAct α)) {ms : List (Move α)} {t : Course α}
    (ht : t = (opened o p ready acts).run ms) (hquiet : t.Quiet)
    (hs : t.call.scope.cancelled = true) (hopen : t.call.wire.halfClosed = false)
    (hpeer : ∀ a, .peer a ∈ ms → a.ends .server = false) :
    ∃ st l, t.call.scope.status = some st ∧ t.call.wire.closedWith = some st ∧
      (o.idle p (.before ready acts)).handle.Uses l t.call.handle ∧
      l.filter Signal.ends = [.closeWithError st] := by
  subst ht
  have hrole := (role_run o p ready acts ms).trans hp
  have hlocal : ((opened o p ready acts).run ms).call.Local False False :=
    local_run o p ready acts (hp.symm ▸ hpeer)
  have hheard := (hlocal.ended (hquiet.supervisor_done hs)).resolve_right id
  rw [Call.heard, hrole] at hheard
  have hdone : ((opened o p ready acts).run ms).call.handle.outboundDone = true := hheard
  have hends := (recorded_opened o p ready acts ms).outboundDone.symm.trans hdone
  rw [Call.wire] at hopen
  rw [hopen, Bool.false_or] at hends
  obtain ⟨st, hst⟩ := Option.isSome_iff_exists.mp hends
  obtain ⟨l, huses, hbooks, htold⟩ := told_opened o p ready acts ms
  obtain hbefore | ⟨x, hx, herror⟩ := huses.closedWith hst
  · rw [(o.transport_idle p (Loopback.unused_before ready acts)).2.2] at hbefore
    cases hbefore
  · have hclose : x = .closeWithError st := by
      cases x with
      | closeWithError st' => exact congrArg _ (Option.some.inj herror)
      | _ => cases herror
    have hstatus := htold x hx st (Signal.status?_of_error? herror)
    rw [hclose] at hx
    exact ⟨st, l, hstatus, hst, huses, Signal.filter_ends hx rfl (hbooks.ends hrole)⟩

/-- A client that was cancelled has cancelled its call with the status that everybody in the scope is
told, by the time nothing moves any more. -/
theorem cancellations_of_quiet (o : Opening α) {p : CallPlan} (hp : p.role = .client)
    (ready : Bool) (acts : List (PeerAct α)) {ms : List (Move α)}
    (hquiet : ((opened o p ready acts).run ms).Quiet)
    (hs : ((opened o p ready acts).run ms).call.scope.cancelled = true)
    (hpeer : ∀ a, .peer a ∈ ms → a.ends .client = false) :
    ∃ st, ((opened o p ready acts).run ms).call.scope.status = some st ∧
      ((opened o p ready acts).run ms).call.wire.cancellations = [st] := by
  have hlocal : ((opened o p ready acts).run ms).call.Local False False :=
    local_run o p ready acts (hp.symm ▸ hpeer)
  have hheard := (hlocal.ended (hquiet.supervisor_done hs)).resolve_right id
  rw [Call.heard, (role_run o p ready acts ms).trans hp] at hheard
  have hcount := (recorded_opened o p ready acts ms).cancellations
  rw [show ((opened o p ready acts).run ms).call.handle.cancelled = true from hheard] at hcount
  obtain ⟨st, hst⟩ := List.length_eq_one_iff.mp hcount
  exact ⟨st, status_of_cancellation o p ready acts ms (hst ▸ List.mem_singleton.mpr rfl), hst⟩

/-- What cancels a client's call that goes on is what its transport is told. -/
theorem cancellations_of_cancel (o : Opening α) {p : CallPlan} (hp : p.role = .client)
    (ready : Bool) (acts : List (PeerAct α)) {ms ns : List (Move α)} (st : Status)
    (hgoes : ((opened o p ready acts).run ms).call.scope.cancelled = false)
    (hpeer : ∀ a, .peer a ∈ ms ++ ns → a.ends .client = false)
    (hquiet : ((((opened o p ready acts).run ms).step (.cancel st)).run ns).Quiet) :
    ((((opened o p ready acts).run ms).step (.cancel st)).run ns).call.wire.cancellations =
      [st] := by
  have hrun : (((opened o p ready acts).run ms).step (.cancel st)).run ns =
      (opened o p ready acts).run (ms ++ [.cancel st] ++ ns) := by
    rw [← run_concat, ← run_append]
  have hstatus : ((((opened o p ready acts).run ms).step (.cancel st)).run ns).call.scope.status =
      some st := by
    rw [scope_run (Scope.cancelled_cancelWith _ _ _)]
    exact Call.status_cancelScope (sound_opened o p ready acts ms) hgoes .here st
  have hcancelled :
      ((((opened o p ready acts).run ms).step (.cancel st)).run ns).call.scope.cancelled = true := by
    rw [← Scope.isSome_status, hstatus]
    rfl
  rw [hrun] at hquiet hcancelled hstatus ⊢
  obtain ⟨st', hst', htold⟩ := cancellations_of_quiet o hp ready acts hquiet hcancelled
    (fun a ha => hpeer a (by simpa using ha))
  rw [htold, Option.some.inj (hst'.symm.trans hstatus)]

/-- A call that was cancelled, and whose peer ended nothing, is ended for its transport exactly once
by the time nothing moves any more. -/
theorem ending_told (o : Opening α) (p : CallPlan) (ready : Bool) (acts : List (PeerAct α))
    (ms : List (Move α)) :
    let s := (opened o p ready acts).run ms
    s.Quiet → s.call.scope.cancelled = true → (∀ a, .peer a ∈ ms → a.ends p.role = false) →
    (p.role = .client → s.call.wire.cancellations.length = 1) ∧
    (p.role = .server → s.call.wire.cancellations = [] ∧
      s.call.wire.halfClosed = !s.call.wire.closedWith.isSome) ∧
    ∃ l, (o.idle p (.before ready acts)).handle.Uses l s.call.handle ∧
      (p.role = .client → l.countP Signal.cancels = 1) ∧
      (p.role = .server → l.countP Signal.closes = 1 ∧ l.countP Signal.cancels = 0) := by
  intro s hquiet hs hpeer
  have hlocal : s.call.Local False False := local_run o p ready acts hpeer
  have hrole : s.call.handle.role = p.role := role_run o p ready acts ms
  have hheard := (hlocal.ended (hquiet.supervisor_done hs)).resolve_right id
  have hrecorded : s.call.handle.Recorded := recorded_opened o p ready acts ms
  obtain ⟨l, huses, hbooks, _⟩ := told_opened o p ready acts ms
  rw [Call.heard, hrole] at hheard
  have hclient : p.role = .client → s.call.handle.cancelled = true := by
    intro hr
    simpa [hr] using hheard
  have hserver : p.role = .server →
      s.call.handle.outboundDone = true ∧ s.call.handle.cancelled = false := by
    intro hr
    exact ⟨by simpa [hr] using hheard, hlocal.closes (hrole.trans hr)⟩
  refine ⟨?_, ?_, l, huses, ?_, ?_⟩
  · intro hr
    rw [Call.wire, hrecorded.cancellations, hclient hr]
    rfl
  · intro hr
    obtain ⟨hdone, hopen⟩ := hserver hr
    refine ⟨?_, ?_⟩
    · rw [← List.length_eq_zero_iff, Call.wire, hrecorded.cancellations, hopen]
      rfl
    · have hends := hrecorded.outboundDone.symm.trans hdone
      rw [Call.wire]
      cases hhalf : s.call.handle.transport.halfClosed with
      | true => simp [hrecorded.either hhalf]
      | false => simpa [hhalf] using hends
  · intro hr
    rw [hbooks.cancels, hclient hr]
    rfl
  · intro hr
    obtain ⟨hdone, hopen⟩ := hserver hr
    rw [hbooks.closes, hbooks.cancels, hdone, hopen]
    exact ⟨rfl, rfl⟩

/-- A client cancels its call after both directions have ended on this side: it has half-closed, and
given up what comes in. Twice is as good as once. -/
theorem ending_told_half_closed :
    let s := (opened .bidi { role := .client } true ([] : List (PeerAct Nat))).run
      [.close .completed, .pump, .cancelInbound, .cancel .localCancelled, .supervise]
    s.call.wire.halfClosed = true ∧ s.call.wire.cancellations.length = 1 := by
  intro s
  have hquiet : s.Quiet := ⟨rfl, rfl, fun _ => rfl⟩
  have h := ending_told .bidi { role := .client } true ([] : List (PeerAct Nat))
    [.close .completed, .pump, .cancelInbound, .cancel .localCancelled, .supervise]
    hquiet rfl (by simp)
  exact ⟨rfl, h.1 rfl⟩

end Course
end PacedCall
