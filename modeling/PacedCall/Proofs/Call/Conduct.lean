import PacedCall.Proofs.Call.Later
import PacedCall.Proofs.Handle
import PacedCall.Proofs.Scope

/-!
How a call conducts itself towards its transport. All that a call tells goes through its handle;
what it tells before the call is over it tells because its scope was cancelled, with the one status
that everybody in the scope is told, and a scope that was cancelled does not change again.
-/
namespace PacedCall

namespace Call
variable {α : Type} {c d e : Call α} {l k : List (Signal α)} {ended : Prop}

structure Conducts (ended : Prop) (c d : Call α) (l : List (Signal α)) : Prop where
  uses : c.handle.Uses l d.handle
  scope : c.scope.Leads ended d.scope
  told : ∀ x ∈ l, ∀ st, x.status? = some st → d.scope.status = some st
  unready : c.readiness.cause.isSome = true → d.readiness.cause.isSome = true

namespace Conducts

theorem trans (h : Conducts ended c d l) (g : Conducts ended d e k) : Conducts ended c e (l ++ k) :=
  { uses := h.uses.trans g.uses
    scope := h.scope.trans g.scope
    told := by
      intro x hx st hst
      obtain hx | hx := List.mem_append.mp hx
      · have hd := h.told x hx st hst
        have hcancelled : d.scope.cancelled = true := by
          rw [← Scope.isSome_status, hd]
          rfl
        rw [g.scope.frozen hcancelled, hd]
      · exact g.told x hx st hst
    unready := fun hc => g.unready (h.unready hc) }

/-- Something happens that the transport does not hear of. -/
theorem of_handle (hhandle : d.handle = c.handle)
    (hscope : c.scope.Leads ended d.scope)
    (hready : c.readiness.cause.isSome = true → d.readiness.cause.isSome = true) :
    Conducts ended c d [] :=
  { uses := hhandle ▸ .none
    scope := hscope
    told := by simp
    unready := hready }

theorem refl (c : Call α) : Conducts ended c c [] := of_handle rfl .same id

/-- The handle is used, and the call is not ended before its time by what it tells. -/
theorem act {a : Handle.Act α} (hhandle : d.handle = c.handle.perform a)
    (hscope : d.scope = c.scope) (hready : d.readiness.cause = c.readiness.cause)
    (htold : ∀ x ∈ c.handle.signals a, x.status? = none) :
    Conducts ended c d (c.handle.signals a) :=
  { uses := hhandle ▸ .one c.handle a
    scope := hscope ▸ .same
    told := by
      intro x hx st hst
      rw [htold x hx] at hst
      cases hst
    unready := fun hc => hready ▸ hc }

end Conducts

theorem conducts_cancelScope (c : Call α) (origin : Origin) (st : Status) :
    Conducts ended c (c.cancelScope origin st) [] :=
  .of_handle rfl (.cancel origin st) id

theorem exists_conducts_ask (c : Call α) (wanted : Bool) :
    ∃ l, Conducts ended c (c.ask wanted) l := by
  rw [ask]
  split
  · refine ⟨_, .act (a := .requestCredit 1) rfl rfl rfl ?_⟩
    intro x hx
    rw [Handle.signals] at hx
    split at hx
    · cases hx
    · rw [List.mem_singleton.mp hx]
      rfl
  · exact ⟨_, .refl c⟩

/-! Hearing from the transport. -/

theorem conducts_onFailed (c : Call α) (st : Status) : Conducts ended c (c.onFailed st) [] :=
  { Conducts.act (a := .markRemoteClosed) (d := { c with handle := c.handle.markRemoteClosed })
      rfl rfl rfl (by simp [Handle.signals]) with
    unready := fun _ => rfl }

theorem conducts_onCompleted (c : Call α) : Conducts ended c c.onCompleted [] := by
  rw [onCompleted]
  split
  · exact .act (a := .markRemoteClosed) rfl rfl rfl (by simp [Handle.signals])
  · exact .of_handle rfl .same id

theorem conducts_onCancelled (c : Call α) : Conducts ended c c.onCancelled [] :=
  (Conducts.act (a := .markRemoteClosed) (d := { c with handle := c.handle.markRemoteClosed })
    rfl rfl rfl (by simp [Handle.signals])).trans (conducts_cancelScope _ _ _)

theorem exists_conducts_hear (c : Call α) (n : Notice α) : ∃ l, Conducts ended c (c.hear n) l := by
  have hcount : ∀ (stats : Stats) (b : Inbound α),
      Conducts ended c { c with handle := { c.handle with stats := stats }, inbound := b } [] :=
    fun stats b =>
      { uses := .count .none stats
        scope := .same
        told := by simp
        unready := id }
  have hx := hear_hears c n
  generalize c.hear n = d at hx ⊢
  cases hx with
  | message _ v =>
    obtain ⟨l, hask⟩ := exists_conducts_ask { c with
      inbound := (c.inbound.onValue v).1
      handle := { c.handle with
        stats := c.handle.stats.received.delivery (c.inbound.onValue v).2.1 } }
      (c.inbound.onValue v).2.2
    exact ⟨_, (hcount _ _).trans hask⟩
  | late _ v => exact ⟨_, hcount _ _⟩
  | gone => exact ⟨_, .refl c⟩
  | failed _ st => exact ⟨_, conducts_onFailed c st⟩
  | completed => exact ⟨_, conducts_onCompleted c⟩
  | cancelled => exact ⟨_, conducts_onCancelled c⟩
  | ready =>
    have hsame : Conducts ended c { c with
        readiness := c.readiness.signal
        inbound := (c.inbound.onReady c.control).1 } [] := by
      refine .of_handle rfl .same ?_
      rw [Readiness.signal_cause]
      exact id
    obtain ⟨l, hask⟩ := exists_conducts_ask { c with
      readiness := c.readiness.signal
      inbound := (c.inbound.onReady c.control).1 } (c.inbound.onReady c.control).2
    exact ⟨_, hsame.trans hask⟩

theorem exists_conducts_hear? (c : Call α) (n : Option (Notice α)) :
    ∃ l, Conducts ended c (c.hear? n) l := by
  cases n with
  | none => exact ⟨_, .refl c⟩
  | some n => exact exists_conducts_hear c n

theorem exists_conducts_peer (c : Call α) (a : PeerAct α) : ∃ l, Conducts ended c (c.peer a) l := by
  rw [peer_eq]
  have hwire : Conducts ended c (c.withWire (c.wire.peer a).1) [] :=
    .act (a := .peer a) rfl rfl rfl (by simp [Handle.signals])
  obtain ⟨l, hhear⟩ := exists_conducts_hear? (c.withWire (c.wire.peer a).1) (c.wire.peer a).2
  exact ⟨_, hwire.trans hhear⟩

/-! The two tasks. -/

theorem conducts_failOutbound (c : Call α) (st : Status) :
    Conducts ended c (c.failOutbound st) [] := by
  rw [failOutbound]
  split
  · exact .refl c
  · exact conducts_cancelScope c .here st

theorem conducts_stopPump (c : Call α) : Conducts ended c c.stopPump [] :=
  .of_handle rfl .same id

theorem exists_conducts_next {b : Bool} (hx : Next c (d, b)) : ∃ l, Conducts ended c d l := by
  cases hx with
  | @wrote q v h hq hs =>
    refine ⟨_, .act (a := .send v) ?_ rfl rfl ?_⟩
    · rw [Handle.perform, hs]
    · intro x hx
      rw [Handle.signals] at hx
      split at hx
      · cases hx
      · rw [List.mem_singleton.mp hx]
        rfl
  | @refused q v st hq hs =>
    have hdiscard : Conducts ended c { c with outbound := (q.cancel st).1 } [] :=
      .of_handle rfl .same id
    exact ⟨_, (hdiscard.trans (conducts_failOutbound _ st)).trans (conducts_stopPump _)⟩
  | empty hq => exact ⟨_, .of_handle rfl .same id⟩
  | completed hq =>
    split
    · exact ⟨_, conducts_stopPump c⟩
    · refine ⟨_, .act (a := .halfClose) rfl rfl rfl ?_⟩
      intro x hx
      rw [Handle.signals] at hx
      split at hx
      · cases hx
      · rw [List.mem_singleton.mp hx]
        rfl
  | @failed st hq => exact ⟨_, (conducts_failOutbound c st).trans (conducts_stopPump _)⟩

theorem exists_conducts_turn {b : Bool} (ht : Turn c (d, b)) : ∃ l, Conducts ended c d l := by
  cases ht with
  | rest => exact ⟨_, .refl c⟩
  | waits hp hr => exact ⟨_, .of_handle rfl .same fun hc => hr ▸ hc⟩
  | unready hp hr hend => exact ⟨_, .of_handle rfl .same fun hc => hr ▸ hc⟩
  | @next r _ hp hr hx =>
    have hrest : Conducts ended c { c with readiness := r } [] :=
      .of_handle rfl .same fun hc => hr ▸ hc
    obtain ⟨l, hnext⟩ := exists_conducts_next hx
    exact ⟨_, hrest.trans hnext⟩

theorem exists_conducts_pollPump (c : Call α) : ∃ l, Conducts ended c c.pollPump l := by
  refine pollPump_of_turn (P := fun d => ∃ l, Conducts ended c d l) ?_ ⟨_, .refl c⟩
  rintro d e _ ⟨l, hd⟩ ht
  obtain ⟨k, he⟩ := exists_conducts_turn ht
  exact ⟨_, hd.trans he⟩

/-- The cause that a torn-down call ends with is what everybody in its scope is told. -/
theorem status_cause (hs : c.scope.cancelled = true) :
    c.scope.status = some (c.scope.cause.getD (.here, .localCancelled)).2 := by
  rw [Scope.status, if_pos hs]
  cases c.scope.cause <;> rfl

theorem exists_conducts_tearDown (hs : c.scope.cancelled = true) :
    ∃ l, Conducts ended c c.tearDown l := by
  have hstatus := status_cause hs
  rw [tearDown]
  generalize c.scope.cause.getD (.here, .localCancelled) = cause at hstatus ⊢
  obtain ⟨origin, st⟩ := cause
  simp only
  split
  · refine ⟨c.handle.signals (.fail st), ?_⟩
    exact
      { uses := .one c.handle (.fail st)
        scope := .same
        told := by
          intro x hx st' hst'
          have hx' := c.handle.status?_of_fail hx
          rw [hx'] at hst'
          rw [← hst']
          exact hstatus
        unready := fun _ => rfl }
  · exact ⟨_, .of_handle rfl .same fun _ => rfl⟩

theorem exists_conducts_watch {now : Nat} (hw : Watch c now d) : ∃ l, Conducts ended c d l := by
  cases hw with
  | rest => exact ⟨_, .refl c⟩
  | tornDown hs => exact exists_conducts_tearDown hs
  | expired =>
    obtain ⟨l, htear⟩ := exists_conducts_tearDown (c := c.cancelScope .here .deadlineElapsed)
      (Scope.cancelled_cancelWith _ _ _)
    exact ⟨_, (conducts_cancelScope c _ _).trans htear⟩
  | settled hin hp hs => exact ⟨_, .of_handle rfl .same id⟩
  | watching e hs => exact ⟨_, .of_handle rfl .same id⟩

/-! The halves of the call. -/

theorem exists_conducts_pollDeferred (c : Call α) (i : Nat) :
    ∃ l, Conducts ended c (c.pollDeferred i).1 l := by
  rw [pollDeferred_eq]
  have hsame : Conducts ended c { c with inbound := (c.inbound.pollDeferred i).1 } [] :=
    .of_handle rfl .same id
  obtain ⟨l, hask⟩ := exists_conducts_ask { c with inbound := (c.inbound.pollDeferred i).1 }
    (c.inbound.pollDeferred i).2.1
  exact ⟨_, hsame.trans hask⟩

theorem conducts_recv (c : Call α) : Conducts ended c c.recv.1 [] := by
  rw [recv]
  split
  · exact .refl c
  · exact .of_handle rfl .same id

theorem conducts_cancelInbound (c : Call α) : Conducts ended c c.cancelInbound [] := by
  have hdiscard : Conducts ended c c.discardInbound [] := .of_handle rfl .same id
  unfold cancelInbound
  simp only
  split
  · exact hdiscard.trans (conducts_cancelScope _ _ _)
  · exact hdiscard

theorem conducts_dropInbound (c : Call α) : Conducts ended c c.dropInbound [] := by
  rw [dropInbound]
  split
  · exact .refl c
  · split
    · exact conducts_cancelInbound c
    · exact .of_handle rfl .same id

/-- What happens beside the supervisor leaves it where it stands, and cancels nothing for the
transport. -/
structure Unwatched (c d : Call α) : Prop where
  supervisor : d.supervisor = c.supervisor
  cancelled : d.handle.cancelled = c.handle.cancelled

namespace Unwatched

theorem refl (c : Call α) : Unwatched c c := ⟨rfl, rfl⟩

theorem trans (h : Unwatched c d) (g : Unwatched d e) : Unwatched c e :=
  ⟨g.supervisor.trans h.supervisor, g.cancelled.trans h.cancelled⟩

theorem ask (c : Call α) (wanted : Bool) : Unwatched c (c.ask wanted) := by
  rw [Call.ask]
  split
  · rw [Handle.requestCredit]
    split <;> exact ⟨rfl, rfl⟩
  · exact .refl c

theorem hear (c : Call α) (n : Notice α) : Unwatched c (c.hear n) := by
  have hx := hear_hears c n
  generalize c.hear n = d at hx ⊢
  cases hx with
  | message _ v =>
    refine Unwatched.trans ?_ (.ask _ _)
    exact ⟨rfl, rfl⟩
  | late | failed | cancelled => exact ⟨rfl, rfl⟩
  | gone => exact .refl c
  | completed =>
    rw [onCompleted]
    split <;> exact ⟨rfl, rfl⟩
  | ready =>
    refine Unwatched.trans ?_ (.ask _ _)
    exact ⟨rfl, rfl⟩

theorem peer (c : Call α) (a : PeerAct α) : Unwatched c (c.peer a) := by
  have hwire : Unwatched c (c.withWire (c.wire.peer a).1) := ⟨rfl, rfl⟩
  rw [peer_eq]
  cases (c.wire.peer a).2 with
  | none => exact hwire
  | some n => exact hwire.trans (.hear _ n)

theorem pollDeferred (c : Call α) (i : Nat) : Unwatched c (c.pollDeferred i).1 := by
  rw [pollDeferred_eq]
  refine Unwatched.trans ?_ (.ask _ _)
  exact ⟨rfl, rfl⟩

theorem recv (c : Call α) : Unwatched c c.recv.1 := by
  rw [Call.recv]
  split <;> exact ⟨rfl, rfl⟩

theorem cancelInbound (c : Call α) : Unwatched c c.cancelInbound := by
  unfold Call.cancelInbound
  simp only
  split <;> exact ⟨rfl, rfl⟩

theorem dropInbound (c : Call α) : Unwatched c c.dropInbound := by
  rw [Call.dropInbound]
  split
  · exact .refl c
  · split
    · exact .cancelInbound c
    · exact ⟨rfl, rfl⟩

end Unwatched

inductive Outlet (ended : Prop) (c : Call α) : Call α → Prop where
  | sends (q : Queue α) (sinks : Nat) : Outlet ended c { c with outbound := q, sinks := sinks }
  | cancels (st : Status) : Outlet ended c (c.cancelScope .here st)
  | ends (h : ended) : Outlet ended c { c with scope := c.scope.trip }

theorem conducts_outlet (ho : Outlet ended c d) : Conducts ended c d [] := by
  cases ho with
  | sends q sinks => exact .of_handle rfl .same id
  | cancels st => exact conducts_cancelScope c .here st
  | ends h => exact .of_handle rfl (.trip h) id

theorem outlet_dropSend (c : Call α) (sd : Send α) : Outlet ended c (c.dropSend sd) := by
  cases sd with
  | fresh v => exact .sends c.outbound c.sinks
  | placed e => exact .sends _ c.sinks

theorem outlet_pollSend (c : Call α) (sd : Send α) : Outlet ended c (c.pollSend sd).1 := by
  unfold pollSend
  split
  · exact outlet_dropSend c sd
  · cases sd <;> exact .sends _ c.sinks

end Call

def Opening.idle {α : Type} (o : Opening α) (p : CallPlan) (wire : Loopback α) : Call α :=
  match o with
  | .responses request =>
    p.idle wire (.latching p.inboundCapacity)
      ((((Queue.new 1).trySend request).1).close .completed).1 0
  | _ => p.idle wire (.counting p.inboundCapacity) (.new p.outboundCapacity) 1

/-- A call that nobody has heard of yet has told its transport nothing. -/
theorem Opening.transport_idle {α : Type} (o : Opening α) (p : CallPlan) {wire : Loopback α}
    (h : wire.Unused) :
    (o.idle p wire).handle.transport.cancellations = [] ∧
      (o.idle p wire).handle.transport.halfClosed = false ∧
      (o.idle p wire).handle.transport.closedWith = none := by
  cases o <;> exact ⟨h.cancellations, h.halfClosed, h.closedWith⟩

/-- A call comes to be by hearing that its transport is ready, and by asking for a message. -/
theorem Opening.call_of_idle {α : Type} {P : Call α → Prop} (o : Opening α) (p : CallPlan)
    (wire : Loopback α) (hidle : P (o.idle p wire)) (hready : ∀ c, P c → P (c.hear .ready))
    (hask : ∀ c, P c → P (c.ask true)) (hsinks : ∀ c n, P c → P { c with sinks := n }) :
    P (o.call p wire) := by
  have hstart : ∀ inbound q sinks, P (p.idle wire inbound q sinks) →
      P (p.start wire inbound q sinks) := by
    intro inbound q sinks h
    rw [p.start_eq]
    cases hn : (wire.disableAutomaticCredit.watch.start).2 with
    | none => exact h
    | some n =>
      obtain rfl := Loopback.notice_of_start hn
      exact hready _ h
  cases o with
  | bidi => exact hask _ (hstart _ _ _ hidle)
  | serve => exact hsinks _ _ (hask _ (hstart _ _ _ hidle))
  | responses request => exact hstart _ _ _ hidle

theorem Opening.exists_conducts_call {α : Type} {ended : Prop} (o : Opening α) (p : CallPlan)
    (wire : Loopback α) : ∃ l, (o.idle p wire).Conducts ended (o.call p wire) l := by
  refine o.call_of_idle (P := fun c => ∃ l, (o.idle p wire).Conducts ended c l) p wire
    ⟨_, .refl _⟩ ?_ ?_ ?_
  · rintro c ⟨l, h⟩
    obtain ⟨k, hhear⟩ := Call.exists_conducts_hear c .ready
    exact ⟨_, h.trans hhear⟩
  · rintro c ⟨l, h⟩
    obtain ⟨k, hask⟩ := Call.exists_conducts_ask c true
    exact ⟨_, h.trans hask⟩
  · rintro c n ⟨l, h⟩
    exact ⟨l, { h with }⟩

theorem Opening.unwatched_call {α : Type} (o : Opening α) (p : CallPlan) (wire : Loopback α) :
    (o.idle p wire).Unwatched (o.call p wire) :=
  o.call_of_idle (P := (o.idle p wire).Unwatched) p wire (.refl _)
    (fun c h => h.trans (.hear c .ready)) (fun c h => h.trans (.ask c true))
    fun _ _ h => ⟨h.supervisor, h.cancelled⟩

namespace Course
variable {α : Type}

theorem outlet_step (s : Course α) {m : Move α} (hm : m.outward = true) :
    s.call.Outlet (m = .endParent) (s.step m).call := by
  cases m with
  | trySend v =>
    rw [step, withCall, Call.trySend]
    split <;> exact .sends _ s.call.sinks
  | pollSend i =>
    rw [step, call_pollSend]
    cases s.sends[i]? with
    | none => exact .sends s.call.outbound s.call.sinks
    | some sd => exact Call.outlet_pollSend _ sd
  | dropSend i =>
    rw [step, call_dropSend]
    cases s.sends[i]? with
    | none => exact .sends s.call.outbound s.call.sinks
    | some sd => exact Call.outlet_dropSend _ sd
  | close how => exact .sends _ s.call.sinks
  | dropSink =>
    rw [step, withCall, Call.dropSink]
    simp only
    split <;> exact .sends _ (s.call.sinks - 1)
  | cancel st => exact .cancels st
  | endParent => exact .ends rfl
  | advance ticks => exact .sends s.call.outbound s.call.sinks
  | openSend v => exact .sends s.call.outbound s.call.sinks
  | cloneSink => exact .sends s.call.outbound (s.call.sinks + 1)
  | _ => cases hm

theorem unwatched_step (s : Course α) {m : Move α} (hm : m ≠ .supervise) :
    s.call.Unwatched (s.step m).call := by
  by_cases haside : m.aside = true
  · have h := aside_step s haside
    exact ⟨h.sameSupervisor, h.cancelled⟩
  · cases m with
    | supervise => exact absurd rfl hm
    | peer a => exact .peer _ a
    | enqueue i => exact .pollDeferred _ i
    | recv => exact .recv _
    | cancelInbound => exact .cancelInbound _
    | dropInbound => exact .dropInbound _
    | _ => exact absurd rfl haside

theorem exists_conducts_step (s : Course α) (m : Move α) :
    ∃ l, s.call.Conducts (m = .endParent) (s.step m).call l := by
  by_cases hout : m.outward = true
  · exact ⟨_, Call.conducts_outlet (outlet_step s hout)⟩
  · cases m with
    | peer a => exact Call.exists_conducts_peer _ a
    | pump => exact Call.exists_conducts_pollPump _
    | supervise => exact Call.exists_conducts_watch (Call.pollSupervisor_watch _ _)
    | enqueue i => exact Call.exists_conducts_pollDeferred _ i
    | recv => exact ⟨_, Call.conducts_recv _⟩
    | cancelInbound => exact ⟨_, Call.conducts_cancelInbound _⟩
    | dropInbound => exact ⟨_, Call.conducts_dropInbound _⟩
    | _ => exact absurd rfl hout

theorem exists_conducts_run (s : Course α) (ms : List (Move α)) :
    ∃ l, s.call.Conducts True (s.run ms).call l := by
  induction ms using List.reverseRecOn with
  | nil => exact ⟨_, .refl _⟩
  | append_singleton ms m ih =>
    rw [run_concat]
    obtain ⟨l, hrun⟩ := ih
    obtain ⟨k, hstep⟩ := exists_conducts_step (s.run ms) m
    exact ⟨_, hrun.trans { hstep with scope := hstep.scope.imp fun _ => trivial }⟩

/-- A scope that was cancelled stays as it is. -/
theorem scope_run {s : Course α} (hs : s.call.scope.cancelled = true) (ms : List (Move α)) :
    (s.run ms).call.scope = s.call.scope := by
  obtain ⟨l, hconducts⟩ := exists_conducts_run s ms
  exact hconducts.scope.frozen hs

/-- What the transport of a call was told since the call took it over. -/
theorem exists_conducts_opened (o : Opening α) (p : CallPlan) (ready : Bool)
    (acts : List (PeerAct α)) (ms : List (Move α)) :
    ∃ l, (o.idle p (.before ready acts)).Conducts True ((opened o p ready acts).run ms).call l := by
  obtain ⟨l, hcall⟩ := o.exists_conducts_call p (.before ready acts)
  obtain ⟨k, hrun⟩ := exists_conducts_run (opened o p ready acts) ms
  exact ⟨_, hcall.trans hrun⟩

end Course
end PacedCall
