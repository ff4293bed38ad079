import PacedCall.Proofs.Call.Credit
import PacedCall.Proofs.Call.WindDown

/-!
A call whose inbound queue was closed asks its peer for nothing more, although tasks of deferred
values may still end and the transport may still report that it is ready. The queue is closed in
four ways, and each has a reason of its own: after a failure the transport is known to have ended,
so that nothing asked for reaches it; a queue that was emptied can only be drained; a completion
waits until nothing is in flight; and a side that latches looks at its queue before it asks.
-/
namespace PacedCall

namespace Inbound
variable {α : Type} {b d : Inbound α} {vs : List α}

def Spent (b : Inbound α) : Prop :=
  b.queue.closedForReceive = true ∨ b.deferred = [] ∨ ∃ l, b.pacing = .latching l

/-- Every task is counted, if anything is, and is told that its value is gone only by a queue that
was emptied for good. -/
structure Tallied (b : Inbound α) : Prop extends Tasked b where
  flight : ∀ f, b.pacing = .counting f → f.count = b.deferred.length
  emptied : ∀ t, b.queue.Discarded t → b.queue.closedForReceive = true

theorem flight_onEnqueued (hf : ∀ f, b.pacing = .counting f → f.count = b.deferred.length + 1)
    (r : SendResult) {g : InFlight} (hg : (b.onEnqueued r).1.pacing = .counting g) :
    g.count = b.deferred.length := by
  unfold onEnqueued at hg
  cases hp : b.pacing with
  | counting f =>
    have hleave : f.leave.count = b.deferred.length := by simp [InFlight.leave, hf f hp]
    cases r with
    | ok u =>
      simp only [hp] at hg
      split at hg <;> exact Pacing.counting.inj hg ▸ hleave
    | error e =>
      simp only [hp] at hg
      exact Pacing.counting.inj hg ▸ hleave
  | latching l => cases r <;> simp [hp] at hg

theorem flight_onValue (hb : ∀ f, b.pacing = .counting f → f.count = b.deferred.length) (v : α)
    {g : InFlight} (hg : (b.onValue v).1.pacing = .counting g) :
    g.count = (b.onValue v).1.deferred.length := by
  have hx := b.onValue_arrives v
  generalize b.onValue v = x at hx hg ⊢
  cases hx with
  | late | counts => exact hb g hg
  | defersCounted _ _ hp =>
    obtain rfl := Pacing.counting.inj hg
    simp [InFlight.enter, defer, hb _ hp]
  | latches | defersLatched => cases hg

theorem flight_onCompleted (hb : ∀ f, b.pacing = .counting f → f.count = b.deferred.length)
    {g : InFlight} (hg : b.onCompleted.pacing = .counting g) :
    g.count = b.onCompleted.deferred.length := by
  unfold onCompleted at hg ⊢
  cases hp : b.pacing with
  | counting f =>
    simp only [hp] at hg ⊢
    obtain rfl := Pacing.counting.inj hg
    exact hb f hp
  | latching l => simp only [hp] at hg; cases hg

theorem flight_pollDeferred (hb : ∀ f, b.pacing = .counting f → f.count = b.deferred.length)
    (i : Nat) {g : InFlight} (hg : (b.pollDeferred i).1.pacing = .counting g) :
    g.count = (b.pollDeferred i).1.deferred.length := by
  obtain hstays | ⟨e, r, he, _, hside, _⟩ := pollDeferred_cases b i
  · rw [hstays] at hg ⊢
    exact hb g hg
  · obtain ⟨hi, _⟩ := List.getElem?_eq_some_iff.mp he
    rw [hside] at hg ⊢
    rw [deferred_onEnqueued]
    refine flight_onEnqueued (b := { b with
      queue := (b.queue.pollSend e).1
      deferred := b.deferred.eraseIdx i }) ?_ r hg
    intro f hf
    simp only [List.length_eraseIdx_of_lt hi, hb f hf]
    omega

theorem Fares.flight {ended : Prop} (h : b.Fares ended vs d)
    (hb : ∀ f, b.pacing = .counting f → f.count = b.deferred.length) {g : InFlight}
    (hg : d.pacing = .counting g) : g.count = d.deferred.length := by
  cases h with
  | same => exact hb g hg
  | unheard v => exact hb g hg
  | value v => exact flight_onValue hb v hg
  | closes _ how => exact hb g hg
  | cancels _ st => exact hb g hg
  | completed => exact flight_onCompleted hb hg
  | ready control =>
    unfold onReady at hg ⊢
    split at hg
    · cases hg
    · exact hb g hg
  | task i => exact flight_pollDeferred hb i hg
  | reads => exact hb g hg

theorem Fares.tallied {ended : Prop} (h : b.Fares ended vs d) (hb : b.Tallied) : d.Tallied :=
  { h.tasked hb.toTasked with
    flight := fun _ hg => h.flight hb.flight hg
    emptied := by
      intro t ht
      obtain ⟨_, hlasts⟩ := h.lasts
      obtain ht | ⟨_, hclosed⟩ := hlasts.discarded t ht
      · exact hlasts.drained (hb.emptied t ht)
      · exact hclosed }

theorem tallied_new (capacity : Nat) (p : Pacing) (hp : ∀ f, p = .counting f → f.count = 0) :
    Tallied ⟨p, (.new capacity : Queue α), []⟩ :=
  { Tasked.new capacity p with
    flight := hp
    emptied := by
      rintro t ⟨e, he⟩
      cases he }

/-! What closes the queue leaves the side spent, unless it is a failure of the transport. -/

/-- The answer to a task, while its queue is open, is that the value was taken. -/
theorem Tallied.placed (h : b.Tallied) (ho : b.queue.closedForSend = false) {i : Nat}
    {e : Enqueue} {r : SendResult} (he : b.deferred[i]? = some e)
    (hr : (b.queue.pollSend e).2.2 = some r) : r = .ok () := by
  obtain ⟨t, rfl, _⟩ := h.waits e (List.mem_of_getElem? he)
  cases r with
  | ok u => rfl
  | error x =>
    have hgone : b.queue.Discarded t := by
      unfold Queue.pollSend at hr
      simp only at hr
      split at hr
      · next hfate =>
        obtain rfl := Option.some.inj hr
        exact ⟨x, hfate⟩
      · cases hr
    cases (Queue.not_closedForReceive_of_open ho).symm.trans (h.emptied t hgone)

/-- A side that closes its queue after the last value has no task left. -/
theorem nobody_of_next {f : InFlight} {q : Queue α} (hcount : f.count = b.deferred.length)
    (ho : q.closedForSend = false) (hc : (f.next q).1.closedForSend = true) : b.deferred = [] := by
  rw [InFlight.next] at hc
  split at hc
  · next hdrained =>
    simp only [InFlight.drained, Bool.and_eq_true, beq_iff_eq] at hdrained
    exact List.length_eq_zero_iff.mp (hcount ▸ hdrained.2)
  · cases ho.symm.trans hc

theorem Fares.latching {ended : Prop} (h : b.Fares ended vs d) {l : CreditLatch}
    (hp : b.pacing = .latching l) : ∃ k, d.pacing = .latching k := by
  cases h with
  | same => exact ⟨l, hp⟩
  | unheard v => exact ⟨l, hp⟩
  | value v =>
    cases ho : b.queue.closedForSend with
    | true =>
      rw [onValue_of_closed ho]
      exact ⟨l, hp⟩
    | false =>
      cases hr : b.queue.hasRoom with
      | true =>
        rw [onValue_latching_room ho hr hp]
        exact ⟨_, rfl⟩
      | false =>
        rw [onValue_latching_full ho hr hp]
        exact ⟨_, rfl⟩
  | closes _ how => exact ⟨l, hp⟩
  | cancels _ st => exact ⟨l, hp⟩
  | completed =>
    rw [onCompleted, hp]
    exact ⟨l, rfl⟩
  | ready control =>
    unfold onReady
    split
    · exact ⟨_, rfl⟩
    · exact ⟨l, hp⟩
  | task i =>
    obtain hstays | ⟨e, r, _, _, hside, _⟩ := pollDeferred_cases b i
    · rw [hstays]
      exact ⟨l, hp⟩
    · rw [hside]
      unfold onEnqueued
      simp only [hp]
      cases r <;> exact ⟨_, rfl⟩
  | reads => exact ⟨l, hp⟩

/-- Nothing begins to wait for room on a closed queue. -/
theorem Fares.nobody {ended : Prop} (h : b.Fares ended vs d) (hc : b.queue.closedForSend = true)
    (hnone : b.deferred = []) : d.deferred = [] := by
  cases h with
  | value v =>
    rw [onValue_of_closed hc]
    exact hnone
  | completed => exact (deferred_onCompleted b).trans hnone
  | ready control => exact (deferred_onReady b control).trans hnone
  | task i =>
    rw [pollDeferred, hnone]
    exact hnone
  | _ => exact hnone

/-- On an open queue, what closes it is the end that the tasks have waited for. -/
theorem Fares.spent_of_open {ended : Prop} (h : b.Fares ended vs d) (hb : b.Tallied)
    (hgoes : ¬ ended) (ho : b.queue.closedForSend = false) {f : InFlight}
    (hp : b.pacing = .counting f) (hc : d.queue.closedForSend = true) : d.deferred = [] := by
  have hcount := hb.flight f hp
  cases h with
  | same => cases ho.symm.trans hc
  | unheard v => cases ho.symm.trans hc
  | value v =>
    cases hr : b.queue.hasRoom with
    | true =>
      rw [onValue_counting_room ho hr hp] at hc ⊢
      exact nobody_of_next (q := b.pushed v) hcount ho hc
    | false =>
      rw [onValue_counting_full ho hr hp] at hc
      have hsame : (b.queue.send v).1.closedForSend = b.queue.closedForSend :=
        congrArg Option.isSome (Queue.termination_send b.queue v)
      cases (hsame.trans ho).symm.trans hc
  | closes he how => exact absurd he hgoes
  | cancels he st => exact absurd he hgoes
  | completed =>
    rw [onCompleted, hp] at hc ⊢
    simp only [InFlight.finish] at hc ⊢
    split at hc
    · next hnone => exact List.length_eq_zero_iff.mp (hcount ▸ beq_iff_eq.mp hnone)
    · cases ho.symm.trans hc
  | ready control => cases (queue_onReady b control ▸ ho).symm.trans hc
  | task i =>
    obtain hstays | ⟨e, r, he, hr, hside, _⟩ := pollDeferred_cases b i
    · rw [hstays] at hc
      cases ho.symm.trans hc
    · obtain ⟨hi, _⟩ := List.getElem?_eq_some_iff.mp he
      obtain rfl := hb.placed ho he hr
      have hopen : (b.queue.pollSend e).1.closedForSend = false :=
        (congrArg Option.isSome (Queue.termination_pollSend _ e)).trans ho
      rw [hside, deferred_onEnqueued]
      rw [hside] at hc
      simp only [onEnqueued, hp, Queue.not_closedForReceive_of_open hopen, Bool.false_eq_true,
        if_false] at hc
      refine nobody_of_next (b := { b with deferred := b.deferred.eraseIdx i }) (f := f.leave)
        ?_ hopen hc
      simp only [InFlight.leave, hcount, List.length_eraseIdx_of_lt hi]
  | reads =>
    have hsame : b.queue.tryRecv.1.closedForSend = b.queue.closedForSend :=
      congrArg Option.isSome b.queue.termination_tryRecv
    cases (hsame.trans ho).symm.trans hc

theorem Fares.spent {ended : Prop} (h : b.Fares ended vs d) (hb : b.Tallied) (hgoes : ¬ ended)
    (hold : b.queue.closedForSend = true → b.Spent) (hc : d.queue.closedForSend = true) :
    d.Spent := by
  cases hclosed : b.queue.closedForSend with
  | true =>
    obtain hdrained | hnone | ⟨l, hp⟩ := hold hclosed
    · exact .inl (h.drained hdrained)
    · exact .inr (.inl (h.nobody hclosed hnone))
    · exact .inr (.inr (h.latching hp))
  | false =>
    cases hp : b.pacing with
    | counting f => exact .inr (.inl (h.spent_of_open hb hgoes hclosed hp hc))
    | latching l => exact .inr (.inr (h.latching hp))

/-- The task of a deferred value does not ask on behalf of a side that is spent. -/
theorem Spent.pollDeferred (h : b.Spent) (hc : b.queue.closedForSend = true) (i : Nat) :
    (b.pollDeferred i).2.1 = false := by
  obtain hstays | ⟨e, r, he, _, _, hask⟩ := pollDeferred_cases b i
  · rw [hstays]
  · have hclosed : (b.queue.pollSend e).1.closedForSend = true :=
      (congrArg Option.isSome (Queue.termination_pollSend _ e)).trans hc
    rw [hask]
    unfold onEnqueued
    cases hp : b.pacing with
    | latching l =>
      cases r with
      | ok u => simp [CreditLatch.next, hclosed]
      | error x => rfl
    | counting f =>
      cases r with
      | error x => rfl
      | ok u =>
        obtain hdrained | hnone | ⟨l, hl⟩ := h
        · have hstill := (Queue.Lasts.pollSend b.queue e).drained hdrained
          simp [hstill]
        · rw [hnone] at he
          cases he
        · cases hp.symm.trans hl

/-- A side whose queue is closed does not ask because the call is ready. -/
theorem onReady_of_closed (hc : b.queue.closedForSend = true) (control : Option Bool) :
    (b.onReady control).2 = false := by
  unfold onReady
  split
  · simp [CreditLatch.preload, hc]
  · rfl

end Inbound

namespace Call
variable {α : Type} {c d : Call α}

structure Hushed (c : Call α) : Prop where
  tallied : c.inbound.Tallied
  spent : c.inbound.queue.closedForSend = true → c.handle.remoteClosed = true ∨ c.inbound.Spent

namespace Hushed

theorem congr (h : c.Hushed) (hi : d.inbound = c.inbound)
    (hr : c.handle.remoteClosed = true → d.handle.remoteClosed = true) : d.Hushed :=
  { tallied := hi ▸ h.tallied
    spent := by
      intro hc
      rw [hi] at hc ⊢
      exact (h.spent hc).imp hr id }

/-- The inbound direction fares as it may without a failure of the transport. -/
theorem fares (h : c.Hushed) {ended : Prop} {vs : List α}
    (hf : c.inbound.Fares ended vs d.inbound) (hgoes : ¬ ended)
    (hr : c.handle.remoteClosed = true → d.handle.remoteClosed = true) : d.Hushed :=
  { tallied := hf.tallied h.tallied
    spent := by
      intro hc
      by_cases hremote : d.handle.remoteClosed = true
      · exact .inl hremote
      · exact .inr (hf.spent h.tallied hgoes
          (fun hb => (h.spent hb).resolve_left fun hc => hremote (hr hc)) hc) }

/-- The queue is emptied for good. -/
theorem drained (h : c.Hushed) {ended : Prop} {vs : List α}
    (hf : c.inbound.Fares ended vs d.inbound) (hd : d.inbound.queue.closedForReceive = true) :
    d.Hushed :=
  { tallied := hf.tallied h.tallied
    spent := fun _ => .inr (.inl hd) }

theorem peer (h : c.Hushed) (hs : c.wire.started = true) (a : PeerAct α) : (c.peer a).Hushed := by
  have hfares := fares_peer c a
  by_cases hfails : ∃ st, a = .fail st
  · obtain ⟨st, rfl⟩ := hfails
    rw [peer_fail hs, hear] at hfares ⊢
    split at hfares
    · next halive =>
      rw [if_pos halive]
      exact { tallied := hfares.tallied h.tallied, spent := fun _ => .inl rfl }
    · next hgone =>
      rw [if_neg hgone]
      exact h
  · exact h.fares hfares hfails (beside_peer c a).remote

theorem watch (h : c.Hushed) {now : Nat} (hw : Watch c now d) : d.Hushed := by
  have hfares := fares_watch hw
  cases hw with
  | tornDown hs => exact h.drained hfares (Queue.closedForReceive_cancel _ _)
  | expired => exact h.drained hfares (Queue.closedForReceive_cancel _ _)
  | rest => exact h
  | settled hin hp hs => exact h.congr rfl id
  | watching e hs => exact h.congr rfl id

end Hushed

theorem ask_false (c : Call α) : c.ask false = c := by
  rw [ask, if_neg (by simp)]

theorem requested_ask_of_remote (hr : c.handle.remoteClosed = true) (wanted : Bool) :
    (c.ask wanted).wire.requested = c.wire.requested := by
  rw [ask]
  split
  · simp only [wire, Handle.requestCredit, hr, Bool.or_true, if_true]
  · rfl

/-- Nothing that is heard makes a call with a closed inbound queue ask. -/
theorem requested_hear (hc : c.inbound.queue.closedForSend = true) (n : Notice α) :
    (c.hear n).wire.requested = c.wire.requested := by
  have hx := hear_hears c n
  generalize c.hear n = d at hx ⊢
  cases hx with
  | message _ v =>
    rw [Inbound.onValue_of_closed hc, ask_false]
    rfl
  | late | gone | failed | cancelled => rfl
  | completed =>
    rw [onCompleted]
    split <;> rfl
  | ready =>
    rw [Inbound.onReady_of_closed hc, ask_false]
    rfl

theorem requested_peer (hc : c.inbound.queue.closedForSend = true) (a : PeerAct α) :
    (c.peer a).wire.requested = c.wire.requested := by
  have hwire : (c.withWire (c.wire.peer a).1).wire.requested = c.wire.requested := by
    cases a <;> rfl
  rw [peer_eq]
  cases (c.wire.peer a).2 with
  | none => exact hwire
  | some n =>
    have hheard := requested_hear (c := c.withWire (c.wire.peer a).1) hc n
    exact hheard.trans hwire

theorem requested_watch {now : Nat} (hw : Watch c now d) :
    d.wire.requested = c.wire.requested := by
  cases hw with
  | tornDown hs => exact (still_tearDown c).requested
  | expired => exact (still_tearDown (c.cancelScope .here .deadlineElapsed)).requested
  | _ => rfl

theorem requested_pollDeferred (h : c.Hushed) (hc : c.inbound.queue.closedForSend = true)
    (i : Nat) : (c.pollDeferred i).1.wire.requested = c.wire.requested := by
  rw [pollDeferred_eq]
  obtain hremote | hspent := h.spent hc
  · exact requested_ask_of_remote (c := { c with inbound := (c.inbound.pollDeferred i).1 }) hremote _
  · rw [hspent.pollDeferred hc, ask_false]
    rfl

end Call

namespace Course
variable {α : Type} {s : Course α}

theorem hushed_step (h : s.call.Hushed) (hs : s.call.wire.started = true) (m : Move α) :
    (s.step m).call.Hushed := by
  have hfares := fares_step s m
  have hgives : m.givesUp → (s.step m).call.Hushed := fun hm => h.drained hfares (drained_givesUp s hm)
  by_cases haside : m.aside = true
  · have ha := aside_step s haside
    exact h.congr ha.inbound ha.remoteClosed.trans
  · cases m with
    | peer a => exact h.peer hs a
    | supervise => exact h.watch (Call.pollSupervisor_watch _ _)
    | enqueue i =>
      have htask : s.call.inbound.Fares False [] (s.call.pollDeferred i).1.inbound := by
        rw [Call.pollDeferred_eq, Call.inbound_ask]
        exact .task i
      exact h.fares htask id (Call.beside_pollDeferred s.call i).remote
    | recv =>
      have hreads : s.call.inbound.Fares False [] s.call.recv.1.inbound := by
        rw [Call.recv]
        split
        · exact .same
        · exact .reads
      exact h.fares hreads id (Call.beside_recv s.call).remote
    | cancelInbound => exact hgives (.inl rfl)
    | dropInbound => exact hgives (.inr rfl)
    | _ => exact absurd rfl haside

theorem hushed_opened (o : Opening α) (p : CallPlan) (ready : Bool) (acts : List (PeerAct α)) :
    (opened o p ready acts).call.Hushed := by
  refine o.call_of_idle (P := Call.Hushed) p _ ?_ ?_ ?_ fun _ _ h => h.congr rfl id
  · have hopen : ∀ {side : Inbound α}, side.Tallied → side.queue.closedForSend = false →
        ∀ {q : Queue α} {sinks : Nat},
          (p.idle (.before ready acts) side q sinks).Hushed := by
      intro side htallied ho q sinks
      exact ⟨htallied, fun hc => absurd (ho.symm.trans hc) (by simp)⟩
    have hcounting : (Inbound.counting p.inboundCapacity : Inbound α).Tallied :=
      Inbound.tallied_new _ _ fun f hf => by rw [← Pacing.counting.inj hf]
    have hlatching : (Inbound.latching p.inboundCapacity : Inbound α).Tallied :=
      Inbound.tallied_new _ _ nofun
    cases o with
    | responses request => exact hopen hlatching rfl
    | _ => exact hopen hcounting rfl
  · intro c h
    simp only [Call.hear]
    split
    · have hready : c.inbound.Fares False [] c.onReady.inbound := by
        rw [Call.onReady_eq, Call.inbound_ask]
        exact .ready c.control
      exact h.fares hready id (Call.beside_onReady c).remote
    · exact h
  · intro c h
    exact h.congr (Call.inbound_ask c true) (Call.beside_ask c true).remote

theorem hushed_run (o : Opening α) (p : CallPlan) (ready : Bool) (acts : List (PeerAct α))
    (ms : List (Move α)) : ((opened o p ready acts).run ms).call.Hushed := by
  induction ms using List.reverseRecOn with
  | nil => exact hushed_opened o p ready acts
  | append_singleton ms m ih =>
    rw [run_concat]
    exact hushed_step ih ((later_run _ ms).started.trans (role_started_opened o p ready acts).2) m

theorem requested_step (h : s.call.Hushed) (hc : s.call.inbound.queue.closedForSend = true)
    (m : Move α) : (s.step m).call.wire.requested = s.call.wire.requested := by
  by_cases haside : m.aside = true
  · exact (aside_step s haside).requested
  · cases m with
    | peer a => exact Call.requested_peer hc a
    | supervise => exact Call.requested_watch (Call.pollSupervisor_watch _ _)
    | enqueue i => exact Call.requested_pollDeferred h hc i
    | recv =>
      rw [step, withCall, Call.recv]
      split <;> rfl
    | cancelInbound =>
      simp only [step, withCall, Call.cancelInbound]
      split <;> rfl
    | dropInbound =>
      simp only [step, withCall, Call.dropInbound, Call.cancelInbound]
      split
      · rfl
      · split
        · split <;> rfl
        · rfl
    | _ => exact absurd rfl haside

/-- Once the inbound queue is closed, in whatever way, the transport is asked for nothing more,
whoever moves afterwards and in whatever order. -/
theorem closed_asks_nothing (o : Opening α) (p : CallPlan) (ready : Bool)
    (acts : List (PeerAct α)) (ms ns : List (Move α)) :
    let s₀ := opened o p ready acts
    (s₀.run ms).call.inbound.queue.closedForSend = true →
      (s₀.run (ms ++ ns)).call.wire.requested = (s₀.run ms).call.wire.requested := by
  intro s₀ hc
  induction ns using List.reverseRecOn with
  | nil => rw [List.append_nil]
  | append_singleton ns n ih =>
    have hclosed : (s₀.run (ms ++ ns)).call.inbound.queue.closedForSend = true := by
      rw [run_append]
      exact closed_run _ hc ns
    rw [← List.append_assoc, run_concat,
      requested_step (hushed_run o p ready acts (ms ++ ns)) hclosed n, ih]

/-- The transport fails while one value is in the queue and the task of another has yet to see that
its value moved up. The task still ends, readiness is still reported and a value still comes; the
two messages asked for by then stay the last ones. -/
theorem closed_asks_nothing_failed :
    let s₀ := opened .bidi { role := .server } true ([] : List (PeerAct Nat))
    let ms : List (Move Nat) :=
      [.peer (.deliver 1), .peer (.deliver 2), .recv, .peer (.fail ⟨.internal, "", []⟩)]
    let s := s₀.run (ms ++ [.enqueue 0, .peer (.setReady true), .peer (.deliver 3)])
    (s₀.run ms).call.inbound.queue.closedForSend = true ∧
      (s₀.run ms).call.inbound.deferred.length = 1 ∧ s.call.inbound.deferred.length = 0 ∧
      s.call.wire.requested = 2 := by
  intro s₀ ms s
  have h := closed_asks_nothing .bidi { role := .server } true ([] : List (PeerAct Nat)) ms
    [.enqueue 0, .peer (.setReady true), .peer (.deliver 3)] rfl
  have htwo : (s₀.run ms).call.wire.requested = 2 := by decide
  exact ⟨rfl, rfl, by decide, h.trans htwo⟩

end Course
end PacedCall
