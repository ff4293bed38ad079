import PacedCall.Proofs.Call.Ending
import PacedCall.Proofs.Call.Intake
import PacedCall.Proofs.Call.Lasting
import PacedCall.Proofs.Call.Lookout

/-!
The failure of a transport. What it delivered before is still read to the last value, and then the
failure is, as often as anybody asks; what was to go out is discarded, and whoever waited for room is
told the failure. The transport is told nothing any more, and the tasks of the call come to their
end.
-/
namespace PacedCall

structure Loopback.SameTold {α : Type} (t u : Loopback α) : Prop where
  sent : u.sent = t.sent
  requested : u.requested = t.requested
  halfClosed : u.halfClosed = t.halfClosed
  closedWith : u.closedWith = t.closedWith
  cancellations : u.cancellations = t.cancellations

/-- After an end that the transport reported, a handle is of no use. -/
theorem Handle.Uses.useless {α : Type} {h g : Handle α} {l : List (Signal α)} (hu : h.Uses l g)
    (hr : h.remoteClosed = true) :
    g.remoteClosed = true ∧ l = [] ∧ h.transport.SameTold g.transport := by
  induction hu with
  | none => exact ⟨hr, rfl, rfl, rfl, rfl, rfl, rfl⟩
  | count _ stats ih => exact ih
  | @act l g _ a ih =>
    obtain ⟨hg, rfl, hsame⟩ := ih
    obtain ⟨hstays, hsilent⟩ := g.remoteClosed_perform a hg
    have htransport := g.transport_perform a
    rw [hsilent, List.foldl_nil] at htransport
    have hfinds : g.transport.SameTold (a.finds g.transport) := by
      cases a with
      | peer a => cases a <;> exact ⟨rfl, rfl, rfl, rfl, rfl⟩
      | _ => exact ⟨rfl, rfl, rfl, rfl, rfl⟩
    rw [htransport, hsilent]
    exact ⟨hstays, rfl, hfinds.sent.trans hsame.sent, hfinds.requested.trans hsame.requested,
      hfinds.halfClosed.trans hsame.halfClosed, hfinds.closedWith.trans hsame.closedWith,
      hfinds.cancellations.trans hsame.cancellations⟩

namespace Call
variable {α : Type} {c : Call α}

/-- A receive takes the head of the line, or else finds the end, while the scope goes on. -/
theorem recv_of_ended (ho : c.inbound.queue.Orderly) (hs : c.scope.cancelled = false)
    {st : Status} (ht : c.inbound.queue.termination = some (.failed st)) :
    c.recv.2 = some (match c.inbound.queue.line with
      | [] => .error st
      | v :: _ => .ok (some v)) := by
  have hfound := (Queue.tryRecv_eq ho).2
  rw [recv, Scope.status_eq_none hs]
  simp only [hfound, Queue.found, Queue.last, ht]
  cases c.inbound.queue.line <;> rfl

/-- A sender that was told looks at a scope that goes on. -/
theorem pollSend_of_fate (hs : c.scope.cancelled = false) {k : Nat} {r : SendResult}
    (hf : c.outbound.fate? k = some r) :
    (c.pollSend (.placed (.inLine k))).2.2 = some r := by
  simp only [pollSend, Scope.status_eq_none hs, Queue.pollSend, hf]

theorem pollSend_of_ended (hs : c.scope.cancelled = false) {how : Termination}
    (ht : c.outbound.termination = some how) (v : α) :
    (c.pollSend (.fresh v)).2.2 = some (.error how.error) := by
  simp only [pollSend, Scope.status_eq_none hs, Queue.send_of_ended ht, Queue.pollSend]

theorem trySend_of_ended (hs : c.scope.cancelled = false) {how : Termination}
    (ht : c.outbound.termination = some how) (v : α) : (c.trySend v).2 = .error .closed := by
  rw [trySend, if_neg (by simp [hs])]
  exact Queue.trySend_of_ended ht v

end Call

namespace Course
variable {α : Type} {s : Course α} {st : Status}

/-- A call that has not ended hears of the failure of its transport. -/
theorem call_fail {given returned base : List α} {lost : Prop}
    (h : s.call.Ordered given returned base lost) (hstarted : s.call.wire.started = true)
    (hopen : s.call.inbound.queue.closedForSend = false) (st : Status) :
    (s.step (.peer (.fail st))).call = s.call.onFailed st := by
  rw [step, withCall, Call.peer_fail hstarted, Call.hear, if_pos (h.alive hopen)]

/-- A call both of whose queues have ended, and whose readiness was given up, comes to its end. -/
theorem Quiet.done_of_ended (hq : s.Quiet) (hcause : s.call.readiness.cause.isSome = true)
    (hout : s.call.outbound.termination.isSome = true)
    (hin : s.call.inbound.queue.closedForSend = true) :
    s.call.pump.done = true ∧ s.call.supervisor.done = true := by
  have hpump : s.call.pump.done = true := by
    have hrests := s.call.rests_pollPump
    rw [show s.call.pollPump = s.call from congrArg Course.call hq.pump] at hrests
    exact Call.done_of_rests hrests hcause hout
  have hsettled : s.call.settled = true := by rw [Call.settled, hin, hpump]; rfl
  have hsup := Call.done_pollSupervisor_of_settled hsettled s.now
  rw [show s.call.pollSupervisor s.now = s.call from congrArg Course.call hq.supervise] at hsup
  exact ⟨hpump, hsup⟩

/-! What follows a failure that the call heard of. -/

section
variable {given returned base : List α} {lost : Prop} {ns : List (Move α)}

theorem inbound_of_failed (h : s.call.Ordered given returned base lost)
    (hstarted : s.call.wire.started = true)
    (hopen : s.call.inbound.queue.closedForSend = false) (hd : s.Distinct) (st : Status)
    (ns : List (Move α)) :
    ((s.step (.peer (.fail st))).run ns).call.inbound.queue.termination = some (.failed st) := by
  have hlater := recalls_run (recalls_step hd (.peer (.fail st))).distinct ns
  refine hlater.inbound _ ?_
  have hnone : s.call.inbound.queue.termination = none := by
    simpa [Queue.closedForSend] using hopen
  rw [call_fail h hstarted hopen st]
  exact (Queue.termination_close _ _).trans (by rw [hnone, Option.none_or])

/-- What was delivered before is still returned in order, and then the failure is. -/
theorem recv_of_failed (h : s.call.Ordered given returned base lost)
    (hstarted : s.call.wire.started = true)
    (hopen : s.call.inbound.queue.closedForSend = false) (hd : s.Distinct) (st : Status)
    (hns : ∀ m ∈ ns, ¬ m.givesUp)
    (hgoes : ((s.step (.peer (.fail st))).run ns).call.scope.cancelled = false) :
    ∃ rest, given = returned ++ (collect returns (s.step (.peer (.fail st))) ns ++ rest) ∧
      ((s.step (.peer (.fail st))).run ns).call.recv.2 = some (match rest with
        | [] => .error st
        | v :: _ => .ok (some v)) := by
  set failed := s.step (.peer (.fail st)) with hf
  have hcall : failed.call = s.call.onFailed st := call_fail h hstarted hopen st
  have hfailed := ordered_step h hstarted (.peer (.fail st))
  have hstartedf : failed.call.wire.started = true :=
    (later_step s (.peer (.fail st))).started.trans hstarted
  have hclosed : failed.call.inbound.queue.closedForSend = true := by
    rw [hcall]
    exact Queue.isSome_close _ _
  have hkept : failed.call.inbound.queue.line = s.call.inbound.queue.line := by
    rw [hcall]
    exact Queue.line_close _ _
  have hline := (line_run hfailed hstartedf hns).resolve_left (by rw [hgoes]; simp)
  rw [collect_accepts_of_closed failed hclosed, List.append_nil] at hline
  exact ⟨(failed.run ns).call.inbound.queue.line, by rw [hline, hkept, h.all hopen],
    Call.recv_of_ended (ordered_run hfailed hstartedf ns).orderly hgoes
      (inbound_of_failed h hstarted hopen hd st ns)⟩

/-- A send that waited for room is told the failure. -/
theorem pollSend_of_failed (hcall : (s.step (.peer (.fail st))).call = s.call.onFailed st)
    (ho : s.call.outbound.Orderly) (hd : s.Distinct) {k : Nat}
    (hk : k ∈ s.call.outbound.tickets)
    (hmem : .placed (.inLine k) ∈ ((s.step (.peer (.fail st))).run ns).sends)
    (hgoes : ((s.step (.peer (.fail st))).run ns).call.scope.cancelled = false) :
    (((s.step (.peer (.fail st))).run ns).call.pollSend (.placed (.inLine k))).2.2 =
      some (.error (.terminated st)) := by
  have houtbound : (s.step (.peer (.fail st))).call.outbound = (s.call.outbound.cancel st).1 := by
    rw [hcall]
    rfl
  have htold : (s.step (.peer (.fail st))).call.outbound.fate? k =
      some (.error (.terminated st)) := by
    rw [houtbound]
    exact Queue.fate?_cancel ho st hk
  have hgiven : k < (s.step (.peer (.fail st))).call.outbound.nextTicket := by
    rw [houtbound, Queue.nextTicket_cancel]
    exact ho.fresh k hk
  have hlater := recalls_run (recalls_step hd (.peer (.fail st))).distinct ns
  have hwaits : k ∈ ((s.step (.peer (.fail st))).run ns).waiters :=
    List.mem_filterMap.mpr ⟨_, hmem, rfl⟩
  exact Call.pollSend_of_fate hgoes ((hlater.fate k hwaits hgiven).2 _ htold)

/-- The outbound queue has ended, with the failure if it was open. -/
theorem outbound_of_failed (hcall : (s.step (.peer (.fail st))).call = s.call.onFailed st)
    (hd : s.Distinct) (ns : List (Move α)) :
    ((s.step (.peer (.fail st))).run ns).call.outbound.termination =
      s.call.outbound.termination.or (some (.failed st)) := by
  have hlater := recalls_run (recalls_step hd (.peer (.fail st))).distinct ns
  have hended : (s.step (.peer (.fail st))).call.outbound.termination =
      s.call.outbound.termination.or (some (.failed st)) := by
    rw [hcall]
    exact Queue.termination_cancel _ _
  cases ht : s.call.outbound.termination with
  | none =>
    rw [ht] at hended
    exact hlater.outbound _ hended
  | some how =>
    rw [ht] at hended
    exact hlater.outbound _ hended

end

/-- The failure of the transport of a call that is open and goes on, whatever happens after it. What
was delivered is returned in order and the failure after it; whoever waits for room to send is told
the failure, and so is whoever sends later on a queue that was open; the transport is told nothing;
and when nothing can move any more the tasks of the call have ended. -/
theorem failure_told (o : Opening α) (p : CallPlan) (ready : Bool) (acts : List (PeerAct α))
    (ms : List (Move α)) (st : Status) :
    let s₀ := opened o p ready acts
    let s := s₀.run ms
    let failed := s.step (.peer (.fail st))
    s.call.inbound.queue.closedForSend = false → s.call.scope.cancelled = false →
    ∀ ns : List (Move α),
      let t := failed.run ns
      (t.call.scope.cancelled = false →
        ((∀ m ∈ ns, ¬ m.givesUp) → ∃ rest,
          delivered ms = collect returns s₀ ms ++ (collect returns failed ns ++ rest) ∧
          t.call.recv.2 = some (match rest with
            | [] => .error st
            | v :: _ => .ok (some v))) ∧
        (∀ k ∈ s.call.outbound.tickets, .placed (.inLine k) ∈ t.sends →
          (t.call.pollSend (.placed (.inLine k))).2.2 = some (.error (.terminated st))) ∧
        (s.call.outbound.closedForSend = false → ∀ v,
          (t.call.pollSend (.fresh v)).2.2 = some (.error (.terminated st)) ∧
          (t.call.trySend v).2 = .error .closed)) ∧
      (failed.call.handle.Uses [] t.call.handle ∧ failed.call.wire.SameTold t.call.wire) ∧
      (t.Quiet → t.call.pump.done = true ∧ t.call.supervisor.done = true) := by
  intro s₀ s failed hopen hscope ns t
  obtain ⟨_, hstarted₀⟩ := role_started_opened o p ready acts
  have hordered := ordered_run (ordered_opened o p ready acts) hstarted₀ ms
  have hstarted : s.call.wire.started = true := (later_run s₀ ms).started.trans hstarted₀
  have hdistinct := (recalls_run (distinct_opened o p ready acts) ms).distinct
  have hcall : failed.call = s.call.onFailed st := call_fail hordered hstarted hopen st
  have hended := outbound_of_failed hcall hdistinct ns
  obtain ⟨l, hconducts⟩ := exists_conducts_run failed ns
  refine ⟨fun hgoes => ⟨fun hstays => ?_, fun k hk hmem => ?_, fun hout v => ?_⟩, ?_, ?_⟩
  · exact recv_of_failed hordered hstarted hopen hdistinct st hstays hgoes
  · have horderly := (sound_opened o p ready acts ms).orderly
    exact pollSend_of_failed hcall horderly hdistinct hk hmem hgoes
  · have hnone : s.call.outbound.termination = none := by
      simpa [Queue.closedForSend] using hout
    rw [hnone, Option.none_or] at hended
    exact ⟨Call.pollSend_of_ended hgoes hended v, Call.trySend_of_ended hgoes hended v⟩
  · have hremote : failed.call.handle.remoteClosed = true := by
      rw [hcall]
      rfl
    obtain ⟨_, hl, hsame⟩ := hconducts.uses.useless hremote
    exact ⟨hl ▸ hconducts.uses, hsame⟩
  · intro hquiet
    have hin := inbound_of_failed hordered hstarted hopen hdistinct st ns
    refine hquiet.done_of_ended (hconducts.unready (by rw [hcall]; rfl)) ?_ ?_
    · rw [hended, Option.isSome_or]
      exact Bool.or_true _
    · rw [Queue.closedForSend, hin]
      rfl

/-- Room for one each way. One value is in the queue and one deferred when the transport fails, one
send waits for room; the deferred value is still asked after, a completion and a second failure come
too late. -/
theorem failure_told_deferred :
    let st : Status := ⟨.unavailable, "connection lost", []⟩
    let s₀ := opened .bidi { role := .client } false ([] : List (PeerAct Nat))
    let ms : List (Move Nat) := [.trySend 7, .openSend 8, .pollSend 0, .peer (.deliver 1),
      .peer (.deliver 2)]
    let ns : List (Move Nat) := [.recv, .peer .complete, .enqueue 0, .peer (.fail .callReleased),
      .pump]
    let failed := (s₀.run ms).step (.peer (.fail st))
    let t := failed.run ns
    t.call.recv.2 = some (.ok (some 2)) ∧
    (t.call.pollSend (.placed (.inLine 0))).2.2 = some (.error (.terminated st)) ∧
    (t.call.pollSend (.fresh 9)).2.2 = some (.error (.terminated st)) ∧
    (t.Quiet → t.call.supervisor.done = true) := by
  intro st s₀ ms ns failed t
  have h := failure_told .bidi { role := .client } false ([] : List (PeerAct Nat)) ms st
    (by decide) (by decide) ns
  obtain ⟨hreads, hwaits, hsends⟩ := h.1 (by decide)
  obtain ⟨rest, hrest, hrecv⟩ := hreads (by simp [ns, Move.givesUp])
  have hfirst : collect returns s₀ ms = [] := by decide
  have hlater : collect returns failed ns = [1] := by decide
  have htwo : rest = [2] := by
    rw [hfirst, hlater] at hrest
    exact (List.cons.inj hrest).2.symm
  subst htwo
  have hsent : t.sends = [.placed (.inLine 0)] := rfl
  have hzero := hwaits 0 (by decide) (hsent ▸ List.mem_singleton.mpr rfl)
  have hnine := (hsends (by decide) 9).1
  with_reducible exact ⟨hrecv, hzero, hnine, fun hquiet => (h.2.2 hquiet).2⟩

end Course
end PacedCall
