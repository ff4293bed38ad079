import PacedCall.Proofs.Call.Incoming
import PacedCall.Proofs.Inbound.Flight

/-!
The credit of a call that paces its peer one message at a time. Every value that was asked for is
still to come, or in flight on a task of its own, or has its place in the queue, and only the last
of these asks for the next one. So credit is neither lost nor granted twice, and a peer that keeps
to it never has more than one value waiting for room.
-/
namespace PacedCall
namespace Call
variable {α : Type} {c d : Call α} {capacity n m : Nat} {paced : Prop}

def forwards (c : Call α) : Bool := !(c.handle.cancelled || c.handle.remoteClosed)

/-- The books of a call that has `n` messages yet to ask for, on an open queue and on any other. A
peer is `paced` when it delivers only what was asked for. -/
structure Owes (capacity n : Nat) (paced : Prop) (c : Call α) : Prop where
  counted : c.inbound.Counted capacity
  gone : c.supervisor.done = true → c.inbound.queue.closedForSend = true
  balanced : c.inbound.queue.closedForSend = false → c.forwards = true →
    c.wire.requested + c.inbound.deferred.length + n = c.wire.delivered + 1
  atMost : c.wire.requested + c.inbound.deferred.length + n ≤ c.wire.delivered + 1
  most : c.wire.maxOutstanding ≤ 1
  within : paced → c.wire.delivered ≤ c.wire.requested

structure Still (c d : Call α) : Prop where
  requested : d.wire.requested = c.wire.requested
  delivered : d.wire.delivered = c.wire.delivered
  maxOutstanding : d.wire.maxOutstanding = c.wire.maxOutstanding
  forwards : d.forwards = true → c.forwards = true

theorem Still.refl (c : Call α) : Still c c := ⟨rfl, rfl, rfl, id⟩

theorem Aside.still (h : Aside c d) : Still c d :=
  { requested := h.requested
    delivered := h.delivered
    maxOutstanding := h.maxOutstanding
    forwards := by
      rw [Call.forwards, h.cancelled, h.remoteClosed]
      exact id }

namespace Owes

/-- Nothing is asked for, and a value that comes or goes is owed a message less or more. -/
theorem still (h : c.Owes capacity n paced) (hs : Still c d) (hc : d.inbound.Counted capacity)
    (hd : d.inbound.deferred.length + m = c.inbound.deferred.length + n)
    (hclosed : c.inbound.queue.closedForSend = true → d.inbound.queue.closedForSend = true)
    (hgone : d.supervisor.done = true →
      c.supervisor.done = true ∨ d.inbound.queue.closedForSend = true) :
    d.Owes capacity m paced :=
  { counted := hc
    gone := fun hg => (hgone hg).elim (fun hg => hclosed (h.gone hg)) id
    balanced := by
      intro hopen hf
      have hb := h.balanced (by
        by_contra hne
        rw [hclosed (by simpa using hne)] at hopen
        cases hopen) (hs.forwards hf)
      rw [hs.requested, hs.delivered]
      omega
    atMost := by
      have hle := h.atMost
      rw [hs.requested, hs.delivered]
      omega
    most := hs.maxOutstanding ▸ h.most
    within := by
      rw [hs.requested, hs.delivered]
      exact h.within }

theorem aside (h : c.Owes capacity n paced) (ha : Aside c d) : d.Owes capacity n paced :=
  h.still ha.still (ha.inbound ▸ h.counted) (by rw [ha.inbound]) (by rw [ha.inbound]; exact id)
    (by rw [ha.sameSupervisor]; exact Or.inl)

theorem imp (h : c.Owes capacity n paced) {paced' : Prop} (hp : paced' → paced) :
    c.Owes capacity n paced' :=
  { h with within := fun hp' => h.within (hp hp') }

/-- A call that is closed, or that reaches its peer no more, owes nothing. -/
theorem waive (h : c.Owes capacity n paced)
    (hover : c.inbound.queue.closedForSend = true ∨ c.forwards = false) :
    c.Owes capacity 0 paced :=
  { h with
    balanced := by
      intro hopen hf
      cases hover with
      | inl hc =>
        rw [hc] at hopen
        cases hopen
      | inr hstops =>
        rw [hstops] at hf
        cases hf
    atMost := by
      have hle := h.atMost
      omega }

/-- The call asks for the message that is due, unless there is no use in it. -/
theorem ask (h : c.Owes capacity 1 paced) {wanted : Bool}
    (hw : wanted = false → c.inbound.queue.closedForSend = true) :
    (c.ask wanted).Owes capacity 0 paced := by
  by_cases hasks : wanted = true ∧ c.alive = true
  · obtain ⟨rfl, halive⟩ := hasks
    simp only [Call.ask, halive, Bool.and_self, if_true, Handle.requestCredit]
    have hle := h.atMost
    split
    · next hover => exact h.waive (Or.inr (by simp [forwards, hover]))
    · next hgoes =>
      have hforwards : c.forwards = true := by simpa [forwards] using hgoes
      exact
        { counted := h.counted
          gone := h.gone
          balanced := by
            intro hopen _
            have hb := h.balanced hopen hforwards
            simp only [wire, Loopback.requestCredit] at hb ⊢
            omega
          atMost := by
            simp only [wire, Loopback.requestCredit] at hle ⊢
            omega
          most := by
            have hm := h.most
            simp only [wire, Loopback.requestCredit, Loopback.outstanding] at hle hm ⊢
            omega
          within := by
            intro hp
            have hin := h.within hp
            simp only [wire, Loopback.requestCredit] at hin ⊢
            omega }
  · have hclosed : c.inbound.queue.closedForSend = true := by
      cases wanted with
      | false => exact hw rfl
      | true => exact h.gone (supervisor_of_not_alive fun halive => hasks ⟨rfl, halive⟩)
    have hsame : c.ask wanted = c := by
      rw [Call.ask, if_neg]
      simpa using hasks
    rw [hsame]
    exact h.waive (Or.inl hclosed)

/-- A value is delivered, and with it goes the credit for one message. A peer keeps to its credit
when there is some. -/
theorem spend (h : c.Owes capacity 0 paced) {paced' : Prop}
    (hp : paced' → paced ∧ 0 < c.wire.outstanding) :
    (c.withWire { c.wire with delivered := c.wire.delivered + 1 }).Owes capacity 1 paced' :=
  { counted := h.counted
    gone := h.gone
    balanced := fun hopen hf => congrArg (· + 1) (h.balanced hopen hf)
    atMost := Nat.succ_le_succ h.atMost
    most := h.most
    within := by
      intro hp'
      have hout := (hp hp').2
      simp only [Loopback.outstanding] at hout
      simp only [withWire, wire] at hout ⊢
      omega }

/-- The value takes its place and another one is due, or it waits for room, or it is late. -/
theorem onMessage (h : c.Owes capacity 1 paced) (v : α) :
    (c.onMessage v).Owes capacity 0 paced := by
  by_cases halive : c.alive = true
  · rw [onMessage_eq halive]
    cases hopen : c.inbound.queue.closedForSend with
    | true =>
      rw [Inbound.onValue_of_closed hopen]
      have hsame := h.waive (Or.inl hopen)
      exact hsame.still ⟨rfl, rfl, rfl, id⟩ h.counted rfl id Or.inl
    | false =>
      obtain ⟨hcounted, hcases⟩ := Inbound.counted_onValue h.counted hopen v
      have hclosed := (c.inbound.later_onValue v).closed
      cases hcases with
      | inl htaken =>
        obtain ⟨hlen, hwanted⟩ := htaken
        refine Owes.ask ?_ hwanted
        exact h.still ⟨rfl, rfl, rfl, id⟩ hcounted (by simp only [hlen]) hclosed Or.inl
      | inr hdeferred =>
        obtain ⟨hlen, hwanted⟩ := hdeferred
        rw [hwanted]
        exact h.still ⟨rfl, rfl, rfl, id⟩ hcounted hlen hclosed Or.inl
  · have hlate := h.waive (Or.inl (h.gone (supervisor_of_not_alive halive)))
    rw [Call.onMessage, if_neg halive]
    exact hlate.still ⟨rfl, rfl, rfl, id⟩ h.counted rfl id Or.inl

/-- The inbound side alone changes, with all that is in flight. -/
theorem inbound (h : c.Owes capacity n paced) {b : Inbound α} (hb : b.Counted capacity)
    (hd : b.deferred = c.inbound.deferred)
    (hclosed : c.inbound.queue.closedForSend = true → b.queue.closedForSend = true) :
    Owes capacity n paced { c with inbound := b } :=
  h.still ⟨rfl, rfl, rfl, id⟩ hb (by rw [hd]) hclosed Or.inl

/-- Whatever else is heard: no message, and no reason to ask for one. -/
theorem hear (h : c.Owes capacity n paced) {k : Notice α} (hk : ∀ v, k ≠ .message v) :
    (c.hear k).Owes capacity n paced := by
  have hover : Still c { c with handle := c.handle.markRemoteClosed } :=
    { Still.refl c with
      forwards := fun hf => by simp [forwards, Handle.markRemoteClosed] at hf }
  have hx := hear_hears c k
  generalize c.hear k = d at hx ⊢
  cases hx with
  | message _ v => exact absurd rfl (hk v)
  | late _ v => exact absurd rfl (hk v)
  | gone => exact h
  | failed _ st =>
    have hinbound := h.inbound (Inbound.counted_close h.counted (.failed st)) rfl
      fun _ => Inbound.closedForSend_close _ _
    exact hinbound.still { hover with } hinbound.counted rfl id Or.inl
  | completed =>
    have hinbound := h.inbound (Inbound.counted_onCompleted h.counted)
      c.inbound.deferred_onCompleted c.inbound.closed_onCompleted
    rw [Call.onCompleted]
    split
    · exact hinbound.still { hover with } hinbound.counted rfl id Or.inl
    · exact hinbound
  | cancelled => exact h.still { hover with } h.counted rfl id Or.inl
  | ready =>
    rw [Inbound.onReady_counted h.counted]
    exact h.still ⟨rfl, rfl, rfl, id⟩ h.counted rfl id Or.inl

theorem peer (h : c.Owes capacity 0 paced) (hs : c.wire.started = true) (a : PeerAct α)
    {paced' : Prop} (hp : paced' → paced ∧ ∀ v, a = .deliver v → 0 < c.wire.outstanding) :
    (c.peer a).Owes capacity 0 paced' := by
  have hpaced : paced' → paced := fun hp' => (hp hp').1
  have hsilent : (∀ v, a ≠ .deliver v) → Still c (c.withWire (c.wire.peer a).1) := by
    intro ha
    cases a with
    | deliver v => exact absurd rfl (ha v)
    | _ => exact ⟨rfl, rfl, rfl, id⟩
  by_cases ha : ∃ v, a = .deliver v
  · obtain ⟨v, rfl⟩ := ha
    rw [peer_deliver hs]
    exact (h.spend fun hp' => ⟨(hp hp').1, (hp hp').2 v rfl⟩).onMessage v
  · have hne : ∀ v, a ≠ .deliver v := fun v hv => ha ⟨v, hv⟩
    have hwire : (c.withWire (c.wire.peer a).1).Owes capacity 0 paced' :=
      (h.imp hpaced).still (hsilent hne) h.counted rfl id Or.inl
    rw [peer_eq]
    cases hn : (c.wire.peer a).2 with
    | none => exact hwire
    | some k => exact hwire.hear (Loopback.not_message_of_peer hn hne)

theorem pollDeferred (h : c.Owes capacity 0 paced) (i : Nat) :
    (c.pollDeferred i).1.Owes capacity 0 paced := by
  obtain ⟨hcounted, hcases⟩ := Inbound.counted_pollDeferred h.counted i
  have hclosed := (c.inbound.later_pollDeferred i).closed
  rw [pollDeferred_eq]
  cases hcases with
  | inl hrest =>
    obtain ⟨hsame, hwanted⟩ := hrest
    rw [hsame, hwanted]
    exact h
  | inr hended =>
    obtain ⟨hlen, hwanted⟩ := hended
    refine Owes.ask ?_ hwanted
    exact h.still ⟨rfl, rfl, rfl, id⟩ hcounted hlen hclosed Or.inl

end Owes

theorem still_fail (c : Call α) (st : Status) :
    Still c { c with handle := (c.handle.fail st).1 } := by
  rw [Handle.fail]
  split
  · rw [Handle.cancel]
    split
    · exact .refl c
    · exact { Still.refl c with forwards := fun hf => by simp [forwards] at hf }
  · rw [Handle.closeWithError]
    split
    · exact .refl c
    · exact { Still.refl c with }

theorem still_tearDown (c : Call α) : Still c c.tearDown := by
  rw [tearDown]
  obtain ⟨origin, st⟩ := c.scope.cause.getD (.here, .localCancelled)
  simp only
  split
  · exact { still_fail c st with }
  · exact { Still.refl c with }

namespace Owes

theorem tearDown (h : c.Owes capacity n paced) : c.tearDown.Owes capacity n paced := by
  have hinbound : ∃ st, c.tearDown.inbound =
      { c.inbound with queue := (c.inbound.queue.cancel st).1 } := ⟨_, rfl⟩
  obtain ⟨st, hst⟩ := hinbound
  have hclosed : c.tearDown.inbound.queue.closedForSend = true := by
    rw [hst]
    exact Queue.isSome_close _ _
  refine h.still (still_tearDown c) ?_ ?_ (fun _ => hclosed) (fun _ => Or.inr hclosed)
  · rw [hst]
    exact Inbound.counted_cancel h.counted st
  · rw [hst]

theorem watch (h : c.Owes capacity n paced) {now : Nat} (hw : Watch c now d) :
    d.Owes capacity n paced := by
  cases hw with
  | rest => exact h
  | tornDown hs => exact h.tearDown
  | expired => exact (h.aside (outward_cancelScope c _ _).toAside).tearDown
  | settled hin hp hs => exact h.still ⟨rfl, rfl, rfl, id⟩ h.counted rfl id fun _ => Or.inr hin
  | watching e hs =>
    exact h.still ⟨rfl, rfl, rfl, id⟩ h.counted rfl id fun hd =>
      absurd hd (by simp [Supervisor.done])

theorem recv (h : c.Owes capacity n paced) : c.recv.1.Owes capacity n paced := by
  rw [Call.recv]
  split
  · exact h
  · refine h.inbound (Inbound.counted_recv h.counted) rfl ?_
    intro hc
    rw [Queue.closedForSend, Queue.termination_tryRecv]
    exact hc

theorem discardInbound (h : c.Owes capacity n paced) : c.discardInbound.Owes capacity n paced :=
  h.inbound (Inbound.counted_cancel h.counted _) rfl fun _ => Queue.isSome_close _ _

theorem cancelInbound (h : c.Owes capacity n paced) : c.cancelInbound.Owes capacity n paced := by
  unfold Call.cancelInbound
  simp only
  split
  · exact h.discardInbound.aside (outward_cancelScope _ _ _).toAside
  · exact h.discardInbound

theorem dropInbound (h : c.Owes capacity n paced) : c.dropInbound.Owes capacity n paced := by
  rw [Call.dropInbound]
  split
  · exact h
  · split
    · exact h.cancelInbound
    · exact h.discardInbound

end Owes
end Call

/-- A peer that has delivered nothing before there was a call. -/
theorem Loopback.delivered_before {α : Type} (ready : Bool) {acts : List (PeerAct α)}
    (hacts : ∀ a ∈ acts, ∀ v, a ≠ .deliver v) : (Loopback.before ready acts).delivered = 0 := by
  refine List.foldlRecOn (motive := fun t : Loopback α => t.delivered = 0) acts _ rfl
    fun t ht a ha => ?_
  cases a with
  | deliver v => exact absurd rfl (hacts _ ha v)
  | _ => exact ht

namespace Course
variable {α : Type} {s : Course α} {capacity : Nat} {paced : Prop}

theorem owes_step (h : s.call.Owes capacity 0 paced) (hs : s.call.wire.started = true) (m : Move α)
    {paced' : Prop}
    (hp : paced' → paced ∧ ∀ v, m = .peer (.deliver v) → 0 < s.call.wire.outstanding) :
    (s.step m).call.Owes capacity 0 paced' := by
  have hpaced : paced' → paced := fun hp' => (hp hp').1
  have hstay := h.imp hpaced
  by_cases haside : m.aside = true
  · exact hstay.aside (aside_step s haside)
  · cases m with
    | peer a => exact h.peer hs a fun hp' => ⟨(hp hp').1, fun v ha => (hp hp').2 v (ha ▸ rfl)⟩
    | supervise => exact hstay.watch (Call.pollSupervisor_watch _ _)
    | enqueue i => exact hstay.pollDeferred i
    | recv => exact hstay.recv
    | cancelInbound => exact hstay.cancelInbound
    | dropInbound => exact hstay.dropInbound
    | _ => exact absurd rfl haside

def keepsCredit (s : Course α) : Move α → Bool
  | .peer (.deliver _) => decide (0 < s.call.wire.outstanding)
  | _ => true

def pacedPeer (s : Course α) (ms : List (Move α)) : Bool :=
  (collect (fun s m => [s.keepsCredit m]) s ms).all id

theorem pacedPeer_concat (s : Course α) (ms : List (Move α)) (m : Move α) :
    s.pacedPeer (ms ++ [m]) = (s.pacedPeer ms && (s.run ms).keepsCredit m) := by
  simp [pacedPeer]

theorem owes_run (h : s.call.Owes capacity 0 True) (hs : s.call.wire.started = true)
    (ms : List (Move α)) : (s.run ms).call.Owes capacity 0 (s.pacedPeer ms = true) := by
  induction ms using List.reverseRecOn with
  | nil => exact h.imp fun _ => trivial
  | append_singleton ms m ih =>
    rw [run_concat, pacedPeer_concat]
    refine owes_step ih ((later_run s ms).started.trans hs) m ?_
    intro hp
    rw [Bool.and_eq_true] at hp
    refine ⟨hp.1, ?_⟩
    rintro v rfl
    exact of_decide_eq_true hp.2

theorem owes_opened {o : Opening α} (ho : ∀ v, o ≠ .responses v) (p : CallPlan) (ready : Bool)
    {acts : List (PeerAct α)} (hacts : ∀ a ∈ acts, ∀ v, a ≠ .deliver v) :
    (opened o p ready acts).call.Owes p.inboundCapacity 0 True := by
  have hunused := Loopback.unused_before ready acts
  have hdelivered := Loopback.delivered_before ready hacts
  set wire := Loopback.before ready acts
  have hrequested := hunused.requested
  have hbooks : wire.requested + 0 + 1 = wire.delivered + 1 := by rw [hrequested, hdelivered]
  have hidle : (p.idle wire (.counting p.inboundCapacity) (.new p.outboundCapacity) 1).Owes
      p.inboundCapacity 1 True :=
    { counted := Inbound.counted_new _
      gone := by simp [CallPlan.idle, Supervisor.done]
      balanced := fun _ _ => hbooks
      atMost := Nat.le_of_eq hbooks
      most := Nat.le_succ_of_le (Nat.le_of_eq hunused.maxOutstanding)
      within := fun _ => hdelivered ▸ Nat.zero_le _ }
  have hbidi : (p.bidi wire).Owes p.inboundCapacity 0 True := by
    refine Call.Owes.ask ?_ (by simp)
    rw [CallPlan.start_eq]
    cases hn : wire.disableAutomaticCredit.watch.start.2 with
    | none => exact hidle
    | some k =>
      obtain rfl := Loopback.notice_of_start hn
      exact hidle.hear (k := .ready) (by simp)
  cases o with
  | bidi => exact hbidi
  | serve => exact hbidi.still ⟨rfl, rfl, rfl, id⟩ hbidi.counted rfl id Or.inl
  | responses request => exact absurd rfl (ho request)

/-- The credit of a call with both directions open, whoever moves and in whatever order. While it is
asked for at all there is exactly one message to come or in flight; there is never credit for more
than one, and a peer that keeps to it is held up by at most one value without room. -/
theorem credit_balanced (o : Opening α) (ho : ∀ v, o ≠ .responses v) (p : CallPlan) (ready : Bool)
    (acts : List (PeerAct α)) (hacts : ∀ a ∈ acts, ∀ v, a ≠ .deliver v) (ms : List (Move α)) :
    let s₀ := opened o p ready acts
    let c := (s₀.run ms).call
    (c.inbound.queue.closedForSend = false → c.forwards = true →
      c.wire.requested + c.inbound.inFlight = c.wire.delivered + 1) ∧
    c.wire.maxOutstanding ≤ 1 ∧
    (s₀.pacedPeer ms = true →
      (c.inbound.queue.closedForSend = false → c.forwards = true →
        c.wire.outstanding + c.inbound.inFlight = 1) ∧
      c.inbound.deferred.length ≤ 1 ∧
      c.inbound.queue.length ≤ max 1 p.inboundCapacity + 1) := by
  intro s₀ c
  have h : c.Owes p.inboundCapacity 0 (s₀.pacedPeer ms = true) :=
    owes_run (owes_opened ho p ready hacts) (role_started_opened o p ready acts).2 ms
  have hflight := h.counted.inFlight_eq
  have hatMost := h.atMost
  refine ⟨?_, h.most, ?_⟩
  · intro hopen hf
    rw [hflight]
    exact h.balanced hopen hf
  · intro hp
    have hwithin := h.within hp
    have hone : c.inbound.deferred.length ≤ 1 := by omega
    have hlen := h.counted.length_le
    refine ⟨?_, hone, by omega⟩
    intro hopen hf
    have hb := h.balanced hopen hf
    rw [hflight, Loopback.outstanding]
    omega

/-- Room for one: the second value waits, and nothing more is asked for until it found its
place. -/
theorem credit_balanced_deferred :
    let s₀ := opened .bidi { role := .client } true ([] : List (PeerAct Nat))
    let ms : List (Move Nat) := [.peer (.deliver 1), .peer (.deliver 2)]
    let c := (s₀.run ms).call
    s₀.pacedPeer ms = true ∧ c.inbound.inFlight = 1 ∧ c.wire.outstanding = 0 ∧
      c.inbound.queue.length ≤ 2 := by
  intro s₀ ms c
  have hpaced : s₀.pacedPeer ms = true := by decide
  have h := credit_balanced .bidi (by simp) { role := .client } true ([] : List (PeerAct Nat))
    (by simp) ms
  obtain ⟨hbalance, _, hlen⟩ := h.2.2 hpaced
  have hone : c.inbound.inFlight = 1 := by decide
  have hsum : c.wire.outstanding + c.inbound.inFlight = 1 := hbalance (by decide) (by decide)
  exact ⟨hpaced, hone, by omega, hlen⟩

end Course
end PacedCall
