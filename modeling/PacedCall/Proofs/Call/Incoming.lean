import PacedCall.Proofs.Call.Later
import PacedCall.Proofs.Inbound

/-!
The inbound direction over a whole course: what was returned and what is in line are the values
delivered, in the order of delivery, for as long as the queue is open. After that nothing more
comes in, and only a cancelled scope or a consumer that gives up takes anything away.
-/
namespace PacedCall
namespace Call
variable {α : Type} {c d : Call α} {delivered returned base : List α} {lost : Prop}

/-- The values that were returned, and those in line, are the first that were delivered, and all of
them while the queue is open. The values of `base` are among them as long as nothing is lost. -/
structure Ordered (c : Call α) (delivered returned base : List α) (lost : Prop) : Prop where
  orderly : c.inbound.queue.Orderly
  first : returned ++ c.inbound.queue.line <+: delivered
  all : c.inbound.queue.closedForSend = false → returned ++ c.inbound.queue.line = delivered
  gone : c.supervisor.done = true → c.inbound.queue.closedForSend = true
  kept : lost ∨ c.scope.cancelled = true ∨ base <+: returned ++ c.inbound.queue.line

namespace Ordered

/-- Something happens to the call that leaves the line of the queue alone. -/
theorem same (h : c.Ordered delivered returned base lost) (ho : d.inbound.queue.Orderly)
    (hl : d.inbound.queue.line = c.inbound.queue.line)
    (hc : c.inbound.queue.closedForSend = true → d.inbound.queue.closedForSend = true)
    (hs : d.supervisor.done = true → c.supervisor.done = true)
    (hscope : c.scope.cancelled = true → d.scope.cancelled = true) :
    d.Ordered delivered returned base lost :=
  { orderly := ho
    first := hl ▸ h.first
    all := by
      intro hopen
      rw [hl]
      refine h.all ?_
      by_contra hclosed
      rw [hc (by simpa using hclosed)] at hopen
      cases hopen
    gone := fun hd => hc (h.gone (hs hd))
    kept := hl ▸ h.kept.imp id (Or.imp hscope id) }

theorem aside (h : c.Ordered delivered returned base lost) (ha : Aside c d) :
    d.Ordered delivered returned base lost :=
  h.same (ha.inbound ▸ h.orderly) (by rw [ha.inbound]) (by rw [ha.inbound]; exact id)
    (by rw [ha.sameSupervisor]; exact id) ha.scope

/-- The queue is emptied for good, on a call that is over or by a consumer that gives up. -/
theorem discard (h : c.Ordered delivered returned base lost) {lost' : Prop}
    (ho : d.inbound.queue.Orderly) (hl : d.inbound.queue.line = [])
    (hc : d.inbound.queue.closedForSend = true) (hend : lost' ∨ d.scope.cancelled = true) :
    d.Ordered delivered returned base lost' :=
  { orderly := ho
    first := by
      rw [hl, List.append_nil]
      exact (List.prefix_append _ _).trans h.first
    all := by
      intro hopen
      rw [hc] at hopen
      cases hopen
    gone := fun _ => hc
    kept := hend.imp id Or.inl }

theorem congr (h : c.Ordered delivered returned base lost) (hi : d.inbound = c.inbound)
    (hs : d.supervisor = c.supervisor) (hscope : d.scope = c.scope) :
    d.Ordered delivered returned base lost :=
  h.same (hi ▸ h.orderly) (by rw [hi]) (by rw [hi]; exact id) (by rw [hs]; exact id)
    (by rw [hscope]; exact id)

/-- A value that comes too late. -/
theorem late (h : c.Ordered delivered returned base lost)
    (hc : c.inbound.queue.closedForSend = true) (v : α) :
    c.Ordered (delivered ++ [v]) returned base lost :=
  { h with
    first := h.first.trans (List.prefix_append _ _)
    all := by
      intro hopen
      rw [hc] at hopen
      cases hopen }

/-- A value that is delivered joins the line, or comes too late. -/
theorem deliver (h : c.Ordered delivered returned base lost) (v : α)
    (hi : d.inbound = (c.inbound.onValue v).1) (hs : d.supervisor = c.supervisor)
    (hscope : d.scope = c.scope) : d.Ordered (delivered ++ [v]) returned base lost := by
  cases hopen : c.inbound.queue.closedForSend with
  | true =>
    rw [Inbound.onValue_of_closed hopen] at hi
    exact (h.late hopen v).congr hi hs hscope
  | false =>
    have hline : d.inbound.queue.line = c.inbound.queue.line ++ [v] := by
      rw [hi, Inbound.line_onValue hopen]
    have hall : returned ++ d.inbound.queue.line = delivered ++ [v] := by
      rw [hline, ← List.append_assoc, h.all hopen]
    exact
      { orderly := hi ▸ Inbound.orderly_onValue h.orderly v
        first := hall ▸ List.prefix_rfl
        all := fun _ => hall
        gone := fun hd => by
          rw [hi]
          exact (c.inbound.later_onValue v).closed (h.gone (hs ▸ hd))
        kept := by
          rw [hscope, hline, ← List.append_assoc]
          exact h.kept.imp id (Or.imp id fun hb => hb.trans (List.prefix_append _ _)) }

/-- The head of the line is returned. -/
theorem take (h : c.Ordered delivered returned base lost) {q : Queue α} {v : α}
    (hq : c.inbound.queue.tryRecv = (q, .item v)) :
    (c.withInbound q).Ordered delivered (returned ++ [v]) base lost := by
  have hfst : q = c.inbound.queue.tryRecv.1 := by rw [hq]
  have hline := Queue.line_of_tryRecv_item hq
  have hsame : (returned ++ [v]) ++ q.line = returned ++ c.inbound.queue.line := by
    rw [hline, List.append_assoc, List.singleton_append]
  have hclosed : q.closedForSend = c.inbound.queue.closedForSend := by
    rw [Queue.closedForSend, hfst, Queue.termination_tryRecv, Queue.closedForSend]
  exact
    { orderly := hfst ▸ h.orderly.tryRecv
      first := hsame.symm ▸ h.first
      all := fun hopen => hsame.trans (h.all (hclosed ▸ hopen))
      gone := fun hd => hclosed.symm ▸ h.gone hd
      kept := hsame.symm ▸ h.kept }

/-- A call is there as long as its queue is open. -/
theorem alive (h : c.Ordered delivered returned base lost)
    (hopen : c.inbound.queue.closedForSend = false) : c.alive = true := by
  by_contra hgone
  cases hopen.symm.trans (h.gone (supervisor_of_not_alive hgone))

theorem imp (h : c.Ordered delivered returned base lost) {lost' : Prop} (hl : lost → lost') :
    c.Ordered delivered returned base lost' :=
  { h with kept := h.kept.imp hl id }

end Ordered

theorem ordered_ask (h : c.Ordered delivered returned base lost) (wanted : Bool) :
    (c.ask wanted).Ordered delivered returned base lost :=
  h.congr (inbound_ask c wanted) (supervisor_ask c wanted) (scope_ask c wanted)

theorem ordered_onMessage (h : c.Ordered delivered returned base lost) (v : α) :
    (c.onMessage v).Ordered (delivered ++ [v]) returned base lost := by
  by_cases halive : c.alive = true
  · rw [onMessage_eq halive]
    refine ordered_ask ?_ _
    exact h.deliver v rfl rfl rfl
  · have hlate := h.late (h.gone (supervisor_of_not_alive halive)) v
    rw [onMessage, if_neg halive]
    exact hlate.congr rfl rfl rfl

theorem ordered_hear (h : c.Ordered delivered returned base lost) {n : Notice α}
    (hn : ∀ v, n ≠ .message v) : (c.hear n).Ordered delivered returned base lost := by
  have hx := hear_hears c n
  generalize c.hear n = d at hx ⊢
  cases hx with
  | message _ v => exact absurd rfl (hn v)
  | late _ v => exact absurd rfl (hn v)
  | gone => exact h
  | failed _ st =>
    exact h.same (h.orderly.close _) (Queue.line_close _ _)
      (fun _ => Inbound.closedForSend_close _ _) id id
  | completed =>
    exact h.same (Inbound.orderly_onCompleted h.orderly) (Inbound.line_onCompleted _)
      (Inbound.closed_onCompleted _) id id
  | cancelled => exact h.same h.orderly rfl id id fun _ => Scope.cancelled_cancelWith _ _ _
  | ready =>
    have hqueue := c.inbound.queue_onReady c.control
    refine ordered_ask ?_ _
    refine h.same ?_ ?_ ?_ id id
    · exact hqueue.symm ▸ h.orderly
    · exact congrArg Queue.line hqueue
    · exact fun hc => hqueue.symm ▸ hc

theorem ordered_withWire (h : c.Ordered delivered returned base lost) (t : Loopback α) :
    (c.withWire t).Ordered delivered returned base lost := h.congr rfl rfl rfl

theorem ordered_tearDown (h : c.Ordered delivered returned base lost)
    (hs : c.scope.cancelled = true) : c.tearDown.Ordered delivered returned base lost := by
  have hbeside := beside_tearDown c
  have hinbound : ∃ st, c.tearDown.inbound =
      { c.inbound with queue := (c.inbound.queue.cancel st).1 } := ⟨_, rfl⟩
  obtain ⟨st, hst⟩ := hinbound
  refine h.discard ?_ ?_ ?_ (Or.inr (hbeside.scope hs))
  · exact hst ▸ h.orderly.cancel st
  · rw [hst]
    exact Queue.line_cancel _ st
  · rw [hst]
    exact Queue.isSome_close _ _

theorem ordered_watch (h : c.Ordered delivered returned base lost) {now : Nat}
    (hw : Watch c now d) : d.Ordered delivered returned base lost := by
  cases hw with
  | rest => exact h
  | tornDown hs => exact ordered_tearDown h hs
  | expired =>
    exact ordered_tearDown (h.aside (outward_cancelScope c _ _).toAside) (Scope.cancelled_cancelWith _ _ _)
  | settled hin hp hs => exact { h with gone := fun _ => hin }
  | watching e hs => exact { h with gone := fun hd => absurd hd (by simp [Supervisor.done]) }

theorem ordered_pollDeferred (h : c.Ordered delivered returned base lost) (i : Nat) :
    (c.pollDeferred i).1.Ordered delivered returned base lost := by
  rw [pollDeferred_eq]
  refine ordered_ask ?_ _
  exact h.same (Inbound.orderly_pollDeferred h.orderly i) (Inbound.line_pollDeferred _ i)
    (Inbound.later_pollDeferred _ i).closed id id

theorem ordered_discardInbound (h : c.Ordered delivered returned base lost) :
    c.discardInbound.Ordered delivered returned base True :=
  h.discard (h.orderly.cancel _) (Queue.line_cancel _ _) (Queue.isSome_close _ _) (Or.inl trivial)

theorem ordered_cancelInbound (h : c.Ordered delivered returned base lost) :
    c.cancelInbound.Ordered delivered returned base True := by
  have hd := ordered_discardInbound h
  unfold cancelInbound
  simp only
  split
  · exact hd.aside (outward_cancelScope _ _ _).toAside
  · exact hd

theorem ordered_dropInbound (h : c.Ordered delivered returned base lost) :
    c.dropInbound.Ordered delivered returned base True := by
  rw [dropInbound]
  split
  · exact { h with kept := Or.inl trivial }
  · split
    · exact ordered_cancelInbound h
    · exact ordered_discardInbound h

end Call

def Move.delivers {α : Type} : Move α → List α
  | .peer (.deliver v) => [v]
  | _ => []

def Move.givesUp {α : Type} (m : Move α) : Prop := m = .cancelInbound ∨ m = .dropInbound

namespace Course
variable {α : Type} {s : Course α} {given returned base : List α} {lost : Prop}

def returns (s : Course α) : Move α → List α
  | .recv =>
    match s.call.recv.2 with
    | some (.ok (some v)) => [v]
    | _ => []
  | _ => []

theorem ordered_recv (h : s.call.Ordered given returned base lost) :
    s.call.recv.1.Ordered given (returned ++ s.returns .recv) base lost := by
  rw [returns, Call.recv]
  cases hs : s.call.scope.status with
  | some st => simpa using h
  | none =>
    cases hq : s.call.inbound.queue.tryRecv with
    | mk q r =>
      cases r with
      | item v => exact h.take hq
      | empty =>
        obtain rfl := Queue.tryRecv_of_no_item hq (by simp)
        simp only [Received.settled?, List.append_nil]
        exact h
      | closed how =>
        obtain rfl := Queue.tryRecv_of_no_item hq (by simp)
        cases how with
        | completed =>
          simp only [Received.settled?, List.append_nil]
          exact h
        | failed st =>
          simp only [Received.settled?, List.append_nil]
          exact h

theorem ordered_silent (h : s.call.Ordered given returned base lost) {a : PeerAct α}
    (ha : ∀ v, a ≠ .deliver v) : (s.call.peer a).Ordered given returned base lost := by
  rw [Call.peer_eq]
  cases hn : (s.call.wire.peer a).2 with
  | none => exact Call.ordered_withWire h _
  | some n =>
    exact Call.ordered_hear (Call.ordered_withWire h _) (Loopback.not_message_of_peer hn ha)

theorem ordered_peer (h : s.call.Ordered given returned base lost)
    (hstarted : s.call.wire.started = true) (a : PeerAct α) :
    (s.call.peer a).Ordered (given ++ (Move.peer a).delivers) returned base lost := by
  cases a with
  | deliver v =>
    rw [Call.peer_deliver hstarted]
    exact Call.ordered_onMessage (Call.ordered_withWire h _) v
  | _ =>
    simp only [Move.delivers, List.append_nil]
    exact ordered_silent h (by simp)

theorem ordered_step (h : s.call.Ordered given returned base lost)
    (hstarted : s.call.wire.started = true) (m : Move α) :
    (s.step m).call.Ordered (given ++ m.delivers) (returned ++ s.returns m) base
      (lost ∨ m.givesUp) := by
  have hstay : ∀ {c : Call α}, c.Ordered given returned base lost →
      c.Ordered (given ++ []) (returned ++ []) base (lost ∨ m.givesUp) := by
    intro c hc
    rw [List.append_nil, List.append_nil]
    exact hc.imp Or.inl
  have hlost : ∀ {c : Call α}, m.givesUp → c.Ordered given returned base True →
      c.Ordered (given ++ []) (returned ++ []) base (lost ∨ m.givesUp) := by
    intro c hg hc
    rw [List.append_nil, List.append_nil]
    exact { hc with kept := Or.inl (Or.inr hg) }
  by_cases haside : m.aside = true
  · have hd : m.delivers = [] := by
      cases m <;> first | rfl | cases haside
    have hr : s.returns m = [] := by
      cases m <;> first | rfl | cases haside
    rw [hd, hr]
    exact hstay (h.aside (aside_step s haside))
  · cases m with
    | peer a =>
      have hp := ordered_peer h hstarted a
      simp only [returns, List.append_nil]
      exact hp.imp Or.inl
    | supervise => exact hstay (Call.ordered_watch h (Call.pollSupervisor_watch _ _))
    | enqueue i => exact hstay (Call.ordered_pollDeferred h i)
    | recv =>
      have hr := ordered_recv h
      simp only [Move.delivers, List.append_nil]
      exact hr.imp Or.inl
    | cancelInbound => exact hlost (Or.inl rfl) (Call.ordered_cancelInbound h)
    | dropInbound => exact hlost (Or.inr rfl) (Call.ordered_dropInbound h)
    | _ => exact absurd rfl haside

def delivered (ms : List (Move α)) : List α := ms.flatMap Move.delivers

theorem ordered_run (h : s.call.Ordered given returned base lost)
    (hstarted : s.call.wire.started = true) (ms : List (Move α)) :
    (s.run ms).call.Ordered (given ++ delivered ms) (returned ++ collect returns s ms) base
      (lost ∨ ∃ m ∈ ms, m.givesUp) := by
  induction ms using List.reverseRecOn with
  | nil =>
    rw [delivered, List.flatMap_nil, collect_nil, List.append_nil, List.append_nil]
    exact h.imp Or.inl
  | append_singleton ms m ih =>
    have hstep := ordered_step ih ((later_run s ms).started.trans hstarted) m
    have hlost : (lost ∨ ∃ n ∈ ms, n.givesUp) ∨ m.givesUp →
        lost ∨ ∃ n ∈ ms ++ [m], n.givesUp := by
      rintro ((hl | ⟨n, hn, hg⟩) | hg)
      · exact Or.inl hl
      · exact Or.inr ⟨n, List.mem_append_left _ hn, hg⟩
      · exact Or.inr ⟨m, List.mem_append_right _ (List.mem_singleton.mpr rfl), hg⟩
    rw [run_concat, collect_concat, delivered, List.flatMap_append, List.flatMap_singleton,
      ← List.append_assoc, ← List.append_assoc]
    exact hstep.imp hlost

/-! The normal end. -/

def CompletedIn (s : Course α) (ms : List (Move α)) : Prop :=
  ∃ before after, ms = before ++ .peer .complete :: after ∧
    (s.run before).call.inbound.queue.closedForSend = false

theorem completedIn_concat {ms : List (Move α)} {m : Move α} :
    s.CompletedIn (ms ++ [m]) ↔
      s.CompletedIn ms ∨
        m = .peer .complete ∧ (s.run ms).call.inbound.queue.closedForSend = false :=
  exists_split_concat

theorem later_hear (c : Call α) {n : Notice α} (hn : n ≠ .completed) :
    c.inbound.Later (c.hear n).inbound := by
  have hx := Call.hear_hears c n
  generalize c.hear n = d at hx ⊢
  cases hx with
  | message _ v =>
    rw [Call.inbound_ask]
    exact c.inbound.later_onValue v
  | late | gone | cancelled => exact .refl _
  | failed _ st => exact c.inbound.later_close st
  | completed => exact absurd rfl hn
  | ready =>
    rw [Call.inbound_ask]
    exact c.inbound.later_onReady c.control

theorem later_watched {c d : Call α} {now : Nat} (hw : Call.Watch c now d) :
    c.inbound.Later d.inbound := by
  cases hw with
  | tornDown hs => exact c.inbound.later_cancel _
  | expired => exact c.inbound.later_cancel _
  | _ => exact .refl _

theorem later_cancelInbound (c : Call α) : c.inbound.Later c.cancelInbound.inbound := by
  have hd : c.inbound.Later c.discardInbound.inbound := c.inbound.later_cancel _
  unfold Call.cancelInbound
  simp only
  split <;> exact hd

theorem later_inbound_step (s : Course α) {m : Move α} (hm : m ≠ .peer .complete) :
    s.call.inbound.Later (s.step m).call.inbound := by
  by_cases haside : m.aside = true
  · rw [(aside_step s haside).inbound]
    exact .refl _
  · cases m with
    | peer a =>
      simp only [step, withCall, Call.peer_eq]
      cases hn : (s.call.wire.peer a).2 with
      | none => exact .refl _
      | some n =>
        have hnotice := Loopback.notice_of_peer hn
        refine later_hear (s.call.withWire (s.call.wire.peer a).1) ?_
        rintro rfl
        cases a with
        | complete => exact hm rfl
        | _ => cases hnotice
    | supervise => exact later_watched (Call.pollSupervisor_watch _ _)
    | enqueue i =>
      simp only [step, withCall, Call.pollDeferred_eq, Call.inbound_ask]
      exact s.call.inbound.later_pollDeferred i
    | recv =>
      simp only [step, withCall, Call.recv]
      split
      · exact .refl _
      · exact .of_eq (Queue.termination_tryRecv _) rfl
    | cancelInbound => exact later_cancelInbound _
    | dropInbound =>
      simp only [step, withCall, Call.dropInbound]
      split
      · exact .refl _
      · split
        · exact later_cancelInbound _
        · exact s.call.inbound.later_cancel _
    | _ => exact absurd rfl haside

/-- Only a completion brings the normal end about. -/
theorem ending_step (s : Course α) {m : Move α}
    (hm : m = .peer .complete → s.call.inbound.queue.closedForSend = true)
    (he : (s.step m).call.inbound.Ending) : s.call.inbound.Ending := by
  by_cases hc : m = .peer .complete
  · subst hc
    have hclosed := hm rfl
    simp only [step, withCall, Call.peer_eq, Loopback.peer, Loopback.heard] at he
    split at he
    · simp only [Call.hear?, Call.hear] at he
      split at he
      · exact Inbound.ending_onCompleted hclosed he
      · exact he
    · exact he
  · exact (later_inbound_step s hc).ending he

/-- The queue ends normally only after a completion that found it open. -/
theorem completedIn_of_ending (s : Course α) (h₀ : ¬ s.call.inbound.Ending) (ms : List (Move α))
    (he : (s.run ms).call.inbound.Ending) : s.CompletedIn ms := by
  induction ms using List.reverseRecOn with
  | nil => exact absurd he h₀
  | append_singleton ms m ih =>
    rw [run_concat] at he
    rw [completedIn_concat]
    by_cases hm : m = .peer .complete ∧ (s.run ms).call.inbound.queue.closedForSend = false
    · exact .inr hm
    · refine .inl (ih (ending_step _ ?_ he))
      intro hc
      by_contra hopen
      exact hm ⟨hc, by simpa using hopen⟩

/-! The beginning, and the whole. -/

theorem ordered_start (p : CallPlan) (wire : Loopback α) {b : Inbound α}
    (hb : b.queue.Orderly) (hline : b.queue.line = []) (q : Queue α) (sinks : Nat) :
    (p.start wire b q sinks).Ordered [] [] [] False := by
  have hidle : (p.idle wire b q sinks).Ordered [] [] [] False :=
    { orderly := hb
      first := by rw [CallPlan.idle, hline]; exact List.prefix_rfl
      all := fun _ => hline
      gone := by simp [CallPlan.idle, Supervisor.done]
      kept := Or.inr (Or.inr (List.nil_prefix)) }
  rw [CallPlan.start_eq]
  cases hn : wire.disableAutomaticCredit.watch.start.2 with
  | none => exact hidle
  | some n =>
    obtain rfl := Loopback.notice_of_start hn
    exact Call.ordered_hear (n := .ready) hidle (by simp)

theorem not_ending_start (p : CallPlan) (wire : Loopback α) {b : Inbound α} (hb : ¬ b.Ending)
    (q : Queue α) (sinks : Nat) : ¬ (p.start wire b q sinks).inbound.Ending := by
  rw [CallPlan.start_eq]
  cases hn : wire.disableAutomaticCredit.watch.start.2 with
  | none => exact hb
  | some n =>
    obtain rfl := Loopback.notice_of_start hn
    exact fun he => hb ((later_hear (p.idle wire b q sinks) (by simp)).ending he)

theorem ordered_opened (o : Opening α) (p : CallPlan) (ready : Bool) (acts : List (PeerAct α)) :
    (opened o p ready acts).call.Ordered [] [] [] False := by
  have hbidi : (p.bidi (.before ready acts)).Ordered [] [] [] False :=
    Call.ordered_ask (ordered_start p _ (Queue.orderly_new _) rfl _ _) true
  cases o with
  | bidi => exact hbidi
  | serve => exact hbidi.congr rfl rfl rfl
  | responses request => exact ordered_start p _ (Queue.orderly_new _) rfl _ _

theorem not_ending_opened (o : Opening α) (p : CallPlan) (ready : Bool)
    (acts : List (PeerAct α)) : ¬ (opened o p ready acts).call.inbound.Ending := by
  have hbidi : ¬ (p.bidi (.before ready acts)).inbound.Ending := by
    rw [CallPlan.bidi, Call.inbound_ask]
    refine not_ending_start p _ ?_ _ _
    simp [Inbound.Ending, Inbound.counting, Queue.new, Pacing.completed]
  cases o with
  | bidi => exact hbidi
  | serve => exact hbidi
  | responses request =>
    refine not_ending_start p _ ?_ _ _
    simp [Inbound.Ending, Inbound.latching, Queue.new, Pacing.completed]

/-- A receive that finds the end finds a scope that goes on, and a queue that is empty and ended
normally. -/
theorem recv_end {c : Call α} (ho : c.inbound.queue.Orderly) (hr : c.recv.2 = some (.ok none)) :
    c.scope.cancelled = false ∧ c.inbound.queue.line = [] ∧
      c.inbound.queue.termination = some .completed := by
  unfold Call.recv at hr
  cases hs : c.scope.status with
  | some st =>
    simp only [hs] at hr
    cases hr
  | none =>
    simp only [hs] at hr
    have hscope : c.scope.cancelled = false := by
      rw [← c.scope.isSome_status, hs]
      rfl
    have hclosed : c.inbound.queue.tryRecv.2 = .closed .completed := by
      cases hq : c.inbound.queue.tryRecv.2 with
      | item v => simp [hq, Received.settled?] at hr
      | empty => simp [hq, Received.settled?] at hr
      | closed how =>
        cases how with
        | completed => rfl
        | failed st => simp [hq, Received.settled?] at hr
    exact ⟨hscope, Queue.closed_of_tryRecv ho hclosed⟩

/-- The inbound direction of a call, whoever moves and in whatever order. What the consumer gets is
the beginning of what was delivered, and unless it gave the stream up, the stream ends normally only
after a completion, with everything returned that was delivered before it. -/
theorem inbound_exact (o : Opening α) (p : CallPlan) (ready : Bool) (acts : List (PeerAct α))
    (ms : List (Move α)) :
    let s₀ := opened o p ready acts
    collect returns s₀ ms <+: delivered ms ∧
    ((s₀.run ms).call.recv.2 = some (.ok none) → (∀ m ∈ ms, ¬ m.givesUp) →
      s₀.CompletedIn ms ∧
      ∀ before after, ms = before ++ .peer .complete :: after →
        (s₀.run before).call.inbound.queue.closedForSend = false →
        delivered before <+: collect returns s₀ ms) := by
  intro s₀
  have h₀ := ordered_opened o p ready acts
  obtain ⟨_, hstarted⟩ := role_started_opened o p ready acts
  have h := ordered_run h₀ hstarted ms
  simp only [List.nil_append] at h
  refine ⟨(List.prefix_append _ _).trans h.first, ?_⟩
  intro hend hstays
  obtain ⟨hscope, hline, hterm⟩ := recv_end h.orderly hend
  refine ⟨completedIn_of_ending s₀ (not_ending_opened o p ready acts) ms (Or.inl hterm), ?_⟩
  rintro before after rfl hopen
  have hbefore := ordered_run h₀ hstarted before
  simp only [List.nil_append] at hbefore
  have hall := hbefore.all hopen
  have hbase : (s₀.run before).call.Ordered (delivered before) (collect returns s₀ before)
      (delivered before) False :=
    { hbefore with kept := Or.inr (Or.inr (hall ▸ List.prefix_rfl)) }
  have hafter := ordered_run hbase ((later_run s₀ before).started.trans hstarted)
    (.peer .complete :: after)
  rw [← run_append, ← collect_append] at hafter
  obtain (hfalse | ⟨m, hm, hg⟩) | hs | hkept := hafter.kept
  · exact hfalse.elim
  · exact absurd hg (hstays m (List.mem_append_right _ hm))
  · rw [hscope] at hs
    cases hs
  · rw [hline, List.append_nil] at hkept
    exact hkept

/-- Room for one: the second value is deferred, and returned before the end. -/
theorem inbound_exact_deferred :
    let s₀ := opened .bidi { role := .client } true ([] : List (PeerAct Nat))
    let ms : List (Move Nat) := [.peer (.deliver 1), .peer (.deliver 2), .peer .complete, .recv,
      .enqueue 0, .recv]
    (s₀.run ms).call.recv.2 = some (.ok none) ∧ [1, 2] <+: collect returns s₀ ms := by
  intro s₀ ms
  have hend : (s₀.run ms).call.recv.2 = some (.ok none) := by decide
  have h := (inbound_exact .bidi { role := .client } true [] ms).2 hend (by simp [ms, Move.givesUp])
  exact ⟨hend, h.2 [.peer (.deliver 1), .peer (.deliver 2)] [.recv, .enqueue 0, .recv] rfl
    (by decide)⟩

end Course
end PacedCall
