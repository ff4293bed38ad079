import PacedCall.Proofs.Call.Incoming

/-!
What an open inbound queue takes in. As long as the scope goes on and the consumer keeps its stream,
a value that was delivered on the open queue is in line until it is returned, and nothing else ever
joins the line. So what was taken in is what was returned and then what is in line, before the queue
is closed and after it.
-/
namespace PacedCall
namespace Call
variable {α : Type} {c d : Call α}

/-- A message joins the line of an open queue, and no other. -/
theorem line_onMessage (hgone : c.supervisor.done = true → c.inbound.queue.closedForSend = true)
    (v : α) :
    (c.onMessage v).inbound.queue.line =
      c.inbound.queue.line ++ if c.inbound.queue.closedForSend then [] else [v] := by
  by_cases halive : c.alive = true
  · rw [onMessage_eq halive, inbound_ask]
    cases hopen : c.inbound.queue.closedForSend with
    | true => rw [Inbound.onValue_of_closed hopen, if_pos rfl, List.append_nil]
    | false => exact Inbound.line_onValue hopen v
  · have hclosed := hgone (supervisor_of_not_alive halive)
    rw [onMessage, if_neg halive, if_pos hclosed, List.append_nil]

/-- Whatever else is heard leaves the line as it is. -/
theorem line_hear (c : Call α) {n : Notice α} (hn : ∀ v, n ≠ .message v) :
    (c.hear n).inbound.queue.line = c.inbound.queue.line := by
  have hx := hear_hears c n
  generalize c.hear n = d at hx ⊢
  cases hx with
  | message _ v => exact absurd rfl (hn v)
  | late | gone | cancelled => rfl
  | failed _ st => exact Queue.line_close _ _
  | completed => exact Inbound.line_onCompleted _
  | ready => rw [inbound_ask, c.inbound.queue_onReady c.control]

theorem line_peer (c : Call α) {a : PeerAct α} (ha : ∀ v, a ≠ .deliver v) :
    (c.peer a).inbound.queue.line = c.inbound.queue.line := by
  rw [peer_eq]
  cases hn : (c.wire.peer a).2 with
  | none => rfl
  | some n =>
    exact line_hear (c.withWire (c.wire.peer a).1) (Loopback.not_message_of_peer hn ha)

/-- A look at the supervisor leaves the line as it is, or finds the scope cancelled. -/
theorem line_watch {now : Nat} (hw : Watch c now d) :
    d.scope.cancelled = true ∨ d.inbound.queue.line = c.inbound.queue.line := by
  cases hw with
  | rest => exact .inr rfl
  | tornDown hs => exact .inl ((beside_tearDown c).scope hs)
  | expired => exact .inl ((beside_tearDown _).scope (Scope.cancelled_cancelWith _ _ _))
  | settled hin hp hs => exact .inr rfl
  | watching e hs => exact .inr rfl

end Call

namespace Course
variable {α : Type} {s : Course α} {given returned base : List α} {lost : Prop} {m : Move α}

def accepts (s : Course α) (m : Move α) : List α :=
  if s.call.inbound.queue.closedForSend then [] else m.delivers

theorem accepts_of_closed (hc : s.call.inbound.queue.closedForSend = true) (m : Move α) :
    s.accepts m = [] := by
  rw [accepts, if_pos hc]

theorem accepts_of_silent (hd : m.delivers = []) : s.accepts m = [] := by
  rw [accepts, hd, ite_self]

/-- A receive returns the head of the line, if anything. -/
theorem line_recv (s : Course α) :
    s.returns .recv ++ s.call.recv.1.inbound.queue.line = s.call.inbound.queue.line := by
  rw [returns, Call.recv]
  cases hs : s.call.scope.status with
  | some st => rfl
  | none =>
    cases hq : s.call.inbound.queue.tryRecv with
    | mk q r =>
      cases r with
      | item v => exact (Queue.line_of_tryRecv_item hq).symm
      | empty =>
        obtain rfl := Queue.tryRecv_of_no_item hq (by simp)
        rfl
      | closed how =>
        obtain rfl := Queue.tryRecv_of_no_item hq (by simp)
        cases how <;> rfl

/-- Each move adds to the line what it brings and takes from it what it returns, unless it cancels
the scope. -/
theorem line_step (h : s.call.Ordered given returned base lost)
    (hstarted : s.call.wire.started = true) (hm : ¬ m.givesUp) :
    (s.step m).call.scope.cancelled = true ∨
      s.returns m ++ (s.step m).call.inbound.queue.line =
        s.call.inbound.queue.line ++ s.accepts m := by
  have hquiet : m.delivers = [] → s.returns m = [] →
      (s.step m).call.inbound.queue.line = s.call.inbound.queue.line →
      s.returns m ++ (s.step m).call.inbound.queue.line =
        s.call.inbound.queue.line ++ s.accepts m := by
    intro hd hr hline
    rw [accepts_of_silent hd, hr, hline, List.append_nil, List.nil_append]
  by_cases haside : m.aside = true
  · have hd : m.delivers = [] := by
      cases m <;> first | rfl | cases haside
    have hr : s.returns m = [] := by
      cases m <;> first | rfl | cases haside
    exact .inr (hquiet hd hr (by rw [(aside_step s haside).inbound]))
  · cases m with
    | peer a =>
      refine .inr ?_
      cases a with
      | deliver v =>
        rw [step, withCall, Call.peer_deliver hstarted]
        refine (List.nil_append _).trans ?_
        exact Call.line_onMessage
          (c := s.call.withWire { s.call.wire with delivered := s.call.wire.delivered + 1 })
          h.gone v
      | _ => exact hquiet rfl rfl (Call.line_peer _ (by simp))
    | supervise =>
      exact (Call.line_watch (Call.pollSupervisor_watch s.call s.now)).imp id (hquiet rfl rfl)
    | enqueue i =>
      refine .inr (hquiet rfl rfl ?_)
      rw [step, withCall, Call.pollDeferred_eq, Call.inbound_ask]
      exact Inbound.line_pollDeferred _ i
    | recv =>
      refine .inr ?_
      rw [accepts_of_silent rfl, List.append_nil]
      exact line_recv s
    | cancelInbound => exact absurd (.inl rfl) hm
    | dropInbound => exact absurd (.inr rfl) hm
    | _ => exact absurd rfl haside

theorem line_run (h : s.call.Ordered given returned base lost)
    (hstarted : s.call.wire.started = true) {ms : List (Move α)} (hms : ∀ m ∈ ms, ¬ m.givesUp) :
    (s.run ms).call.scope.cancelled = true ∨
      collect returns s ms ++ (s.run ms).call.inbound.queue.line =
        s.call.inbound.queue.line ++ collect accepts s ms := by
  induction ms using List.reverseRecOn with
  | nil => exact .inr (List.append_nil _).symm
  | append_singleton ms m ih =>
    have hrun := ordered_run h hstarted ms
    have hlater := later_run s ms
    have hstep := line_step hrun (hlater.started.trans hstarted)
      (hms m (List.mem_append_right _ (List.mem_singleton.mpr rfl)))
    rw [run_concat, collect_concat, collect_concat]
    obtain hs | hbefore := ih fun n hn => hms n (List.mem_append_left _ hn)
    · exact .inl ((later_step _ m).scope hs)
    · refine hstep.imp id fun hline => ?_
      rw [List.append_assoc, hline, ← List.append_assoc, hbefore, List.append_assoc]

/-- Whoever lets the stream go leaves a queue that is closed. -/
theorem closed_dropInbound (s : Course α) :
    (s.step .dropInbound).call.inbound.queue.closedForSend = true := by
  rw [step, withCall, Call.dropInbound]
  split
  · next hread =>
    simp only [Call.readAll, Queue.closedForReceive, Bool.and_eq_true] at hread
    exact hread.1.1
  · split
    · unfold Call.cancelInbound
      simp only
      split <;> exact Queue.isSome_close _ _
    · exact Queue.isSome_close _ _

/-- A queue that was closed stays closed. -/
theorem closed_step (s : Course α) (hc : s.call.inbound.queue.closedForSend = true) (m : Move α) :
    (s.step m).call.inbound.queue.closedForSend = true := by
  by_cases hm : m = .peer .complete
  · subst hm
    simp only [step, withCall, Call.peer_eq, Loopback.peer, Loopback.heard]
    split
    · simp only [Call.hear?, Call.hear]
      split
      · exact Inbound.closed_onCompleted _ hc
      · exact hc
    · exact hc
  · exact (later_inbound_step s hm).closed hc

theorem closed_run (s : Course α) (hc : s.call.inbound.queue.closedForSend = true)
    (ms : List (Move α)) : (s.run ms).call.inbound.queue.closedForSend = true := by
  induction ms using List.reverseRecOn with
  | nil => exact hc
  | append_singleton ms m ih =>
    rw [run_concat]
    exact closed_step _ ih m

/-- A closed queue takes nothing in. -/
theorem collect_accepts_of_closed (s : Course α) (hc : s.call.inbound.queue.closedForSend = true)
    (ms : List (Move α)) : collect accepts s ms = [] := by
  induction ms generalizing s with
  | nil => rfl
  | cons m ms ih =>
    rw [collect, accepts_of_closed hc, ih _ (closed_step s hc m)]
    rfl

end Course
end PacedCall
