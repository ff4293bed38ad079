import PacedCall.Call.Pump
import PacedCall.Call.Supervisor
import PacedCall.Proofs.Queue.Order
import PacedCall.Proofs.Readiness

/-!
What one round of the pump and one look at the supervisor can come to. Everything said about the
two tasks goes through these cases. A round of the pump either leaves the call as it is but for its
place in the line for readiness, or takes the next thing out of the queue; a look at the pump is
such rounds, and only the last of them ends the pump or the call.
-/
namespace PacedCall

namespace Handle
variable {α : Type} {h g : Handle α} {v : α}

theorem sendMessage_ok {u : Unit} (hs : h.sendMessage v = (g, .ok u)) :
    h.terminated = false ∧ h.transport.rejecting = none ∧ h.transport.finished = false ∧
      g = { h with
        transport := { h.transport with sent := h.transport.sent.push v }
        stats := h.stats.sent } := by
  unfold sendMessage Loopback.sendMessage at hs
  by_cases ht : h.terminated = true
  · simp [ht] at hs
  · split at hs
    · next hc => exact absurd hc ht
    · split at hs
      · cases hs
      · next t u' hw =>
        split at hw
        · cases hw
        · next hr =>
          split at hw
          · cases hw
          · next hf =>
            cases hw
            cases hs
            exact ⟨by simpa using ht, hr, by simpa using hf, rfl⟩

theorem sendMessage_error {st : Status} (hs : h.sendMessage v = (g, .error st)) :
    g = h ∧ (h.terminated = true ∨ h.transport.finished = true ∨
      h.transport.rejecting = some st) := by
  unfold sendMessage Loopback.sendMessage at hs
  split at hs
  · next ht =>
    cases hs
    exact ⟨rfl, Or.inl ht⟩
  · split at hs
    · next t cause hw =>
      cases hs
      split at hw
      · next hr =>
        cases hw
        exact ⟨rfl, Or.inr (Or.inr hr)⟩
      · split at hw
        · next hf => exact ⟨rfl, Or.inr (Or.inl hf)⟩
        · cases hw
    · cases hs

end Handle

@[simp] theorem Pump.done_reading : Pump.reading.done = false := rfl

@[simp] theorem Pump.done_readying (w : Readiness.Wait) : (Pump.readying w).done = false := rfl

namespace Call
variable {α : Type}

inductive Next (c : Call α) : Call α × Bool → Prop where
  | wrote {q : Queue α} {v : α} {h : Handle α} (hq : c.outbound.tryRecv = (q, .item v))
      (hs : c.handle.sendMessage v = (h, .ok ())) :
      Next c ({ c with outbound := q, handle := h, pump := .reading }, true)
  | refused {q : Queue α} {v : α} {st : Status} (hq : c.outbound.tryRecv = (q, .item v))
      (hs : c.handle.sendMessage v = (c.handle, .error st)) :
      Next c (stopPump (failOutbound { c with outbound := (q.cancel st).1 } st), false)
  | empty (hq : c.outbound.tryRecv.2 = .empty) : Next c ({ c with pump := .reading }, true)
  | completed (hq : c.outbound.tryRecv.2 = .closed .completed) :
      Next c (stopPump
        (if c.scope.cancelled then c else { c with handle := c.handle.halfClose.1 }), false)
  | failed {st : Status} (hq : c.outbound.tryRecv.2 = .closed (.failed st)) :
      Next c ((c.failOutbound st).stopPump, false)

theorem pumpNext_next (c : Call α) : Next c c.pumpNext := by
  rw [pumpNext]
  split
  · next q v hq =>
    simp only
    split
    · next h u hs => exact .wrote hq hs
    · next h st hs =>
      obtain ⟨rfl, _⟩ := Handle.sendMessage_error hs
      exact .refused hq hs
  · next hq => exact .empty (by rw [hq])
  · next hq => exact .completed (by rw [hq])
  · next st hq => exact .failed (by rw [hq])

inductive Turn (c : Call α) : Call α × Bool → Prop where
  | rest (hrest : c.pump.done = true ∨ c.pump = .reading ∧ c.outbound.readable = false) :
      Turn c (c, false)
  | waits {r : Readiness Unit} {w : Readiness.Wait} (hp : c.pump.done = false)
      (hr : r.cause = c.readiness.cause) (hgoes : r.cause = none) :
      Turn c ({ c with readiness := r, pump := .readying w }, false)
  | unready {r : Readiness Unit} (hp : c.pump.done = false) (hr : r.cause = c.readiness.cause)
      (hend : c.readiness.cause.isSome = true) :
      Turn c (stopPump { c with readiness := r }, false)
  | next {r : Readiness Unit} {x : Call α × Bool} (hp : c.pump.done = false)
      (hr : r.cause = c.readiness.cause) (hx : Next { c with readiness := r } x) : Turn c x

theorem alive_of_pump {c : Call α} (hp : c.pump.done = false) : c.alive = true := by
  simp [alive, hp]

theorem supervisor_of_not_alive {c : Call α} (hgone : c.alive ≠ true) :
    c.supervisor.done = true := by
  by_contra hs
  exact hgone (by simp [alive, hs])

theorem pumpReady_turn (c : Call α) (w : Readiness.Wait) (hp : c.pump.done = false) :
    Turn c (c.pumpReady w) := by
  have hcause : (c.readiness.poll () c.control w).1.cause = c.readiness.cause :=
    Readiness.poll_cause
  rw [pumpReady]
  split
  · next r w' heq =>
    have hgoes : c.readiness.cause = none := Readiness.poll_none (by rw [heq])
    rw [heq] at hcause
    exact .waits hp hcause (hcause.trans hgoes)
  · next r w' u heq =>
    rw [heq] at hcause
    exact .next hp hcause (pumpNext_next _)
  · next r w' st heq =>
    have hfailed : (c.readiness.poll () c.control w).2.2 = some (.error st) := by rw [heq]
    have herr := Readiness.poll_error hfailed
    rw [heq] at hcause
    refine .unready hp hcause (herr.resolve_right ?_)
    simp [control, alive_of_pump hp]

theorem pumpTurn_turn (c : Call α) : Turn c c.pumpTurn := by
  rw [pumpTurn]
  cases hp : c.pump with
  | finished => exact .rest (.inl (by rw [hp]; rfl))
  | readying w => exact pumpReady_turn c w (by rw [hp]; rfl)
  | reading =>
    have hdone : c.pump.done = false := by rw [hp]; rfl
    simp only
    split
    · next hread => exact .rest (.inr ⟨hp, by simpa using hread⟩)
    · split
      · exact .next (r := c.readiness) hdone rfl (pumpNext_next c)
      · exact pumpReady_turn c .fresh hdone

structure Goes (c d : Call α) : Prop where
  inbound : d.inbound = c.inbound
  scope : d.scope = c.scope
  supervisor : d.supervisor = c.supervisor
  termination : d.outbound.termination = c.outbound.termination
  handle : ∃ sent stats, d.handle =
    { c.handle with transport := { c.wire with sent := sent }, stats := stats }
  running : d.pump.done = c.pump.done

namespace Goes

theorem refl (c : Call α) : Goes c c :=
  { inbound := rfl
    scope := rfl
    supervisor := rfl
    termination := rfl
    handle := ⟨c.wire.sent, c.handle.stats, rfl⟩
    running := rfl }

theorem trans {c d e : Call α} (h : Goes c d) (g : Goes d e) : Goes c e :=
  { inbound := g.inbound.trans h.inbound
    scope := g.scope.trans h.scope
    supervisor := g.supervisor.trans h.supervisor
    termination := g.termination.trans h.termination
    handle := by
      obtain ⟨sent, stats, hh⟩ := h.handle
      obtain ⟨sent', stats', hg⟩ := g.handle
      exact ⟨sent', stats', by rw [hg, wire, hh]⟩
    running := g.running.trans h.running }

end Goes

theorem goes_of_next {c d : Call α} (hp : c.pump.done = false) (h : Next c (d, true)) :
    Goes c d := by
  cases h with
  | wrote hq hs =>
    next q v h =>
    obtain ⟨_, _, _, rfl⟩ := Handle.sendMessage_ok hs
    have hterm := c.outbound.termination_tryRecv
    rw [hq] at hterm
    exact
      { inbound := rfl
        scope := rfl
        supervisor := rfl
        termination := hterm
        handle := ⟨_, _, rfl⟩
        running := hp.symm }
  | empty hq => exact { Goes.refl c with running := hp.symm }

theorem goes_of_turn {c d : Call α} (h : Turn c (d, true)) : Goes c d := by
  cases h with
  | @next r _ hp hr hx =>
    have hgo := goes_of_next (c := { c with readiness := r }) hp hx
    exact { hgo with }

/-- A look at the pump is rounds that go on, and then one at which it stops. -/
theorem pumpWith_last {P : Call α → Prop} (hP : ∀ c d, P c → Turn c (d, true) → P d) (fuel : Nat)
    {c : Call α} (hc : P c) :
    ∃ d, P d ∧ Goes c d ∧ ((pumpWith fuel c).1 = d ∨ Turn d ((pumpWith fuel c).1, false)) := by
  induction fuel generalizing c with
  | zero => exact ⟨c, hc, .refl c, Or.inl rfl⟩
  | succ fuel ih =>
    have hturn := pumpTurn_turn c
    rw [pumpWith]
    split
    · next d heq =>
      rw [heq] at hturn
      obtain ⟨e, he, hgo, hlast⟩ := ih (hP c d hc hturn)
      exact ⟨e, he, (goes_of_turn hturn).trans hgo, hlast⟩
    · next d heq =>
      rw [heq] at hturn
      exact ⟨c, hc, .refl c, Or.inr hturn⟩

theorem pollPump_last {P : Call α → Prop} (hP : ∀ c d, P c → Turn c (d, true) → P d) {c : Call α}
    (hc : P c) : ∃ d, P d ∧ Goes c d ∧ (c.pollPump = d ∨ Turn d (c.pollPump, false)) :=
  pumpWith_last hP _ hc

/-- What every round keeps, a look at the pump keeps. -/
theorem pollPump_of_turn {P : Call α → Prop}
    (hP : ∀ (c d : Call α) (b : Bool), P c → Turn c (d, b) → P d) {c : Call α} (hc : P c) :
    P c.pollPump := by
  obtain ⟨e, he, _, hlast⟩ := pollPump_last (fun c d => hP c d true) hc
  obtain hsame | hturn := hlast
  · exact hsame ▸ he
  · exact hP e _ false he hturn

theorem pollPump_of_done {c : Call α} (hp : c.pump.done = true) : c.pollPump = c := by
  have hfin : c.pump = .finished := by
    cases h : c.pump with
    | finished => rfl
    | reading => simp [h] at hp
    | readying w => simp [h] at hp
  simp [pollPump, pumpWith, pumpTurn, hfin]

inductive Watch (c : Call α) (now : Nat) : Call α → Prop where
  | rest : Watch c now c
  | tornDown (hs : c.scope.cancelled = true) : Watch c now c.tearDown
  | expired : Watch c now (c.cancelScope .here .deadlineElapsed).tearDown
  | settled (hin : c.inbound.queue.closedForSend = true) (hp : c.pump.done = true)
      (hs : c.scope.cancelled = false) : Watch c now { c with supervisor := .finished }
  | watching (e : Expiry) (hs : c.supervisor.done = false) :
      Watch c now { c with supervisor := .watching e }

theorem pollSupervisor_watch (c : Call α) (now : Nat) : Watch c now (c.pollSupervisor now) := by
  rw [pollSupervisor]
  cases hs : c.supervisor with
  | finished => exact .rest
  | watching e =>
    simp only
    split
    · next hc => exact .tornDown hc
    · next hc =>
      split
      · exact .expired
      · split
        · next hset =>
          simp only [Call.settled, Bool.and_eq_true] at hset
          exact .settled hset.1 hset.2 (by simpa using hc)
        · exact .watching _ (by rw [hs]; rfl)

/-- A look at the supervisor of a cancelled call is its last. -/
theorem done_pollSupervisor {c : Call α} {now : Nat}
    (hs : (c.pollSupervisor now).scope.cancelled = true) :
    (c.pollSupervisor now).supervisor.done = true := by
  rw [pollSupervisor] at hs ⊢
  cases hsup : c.supervisor with
  | finished => rw [hsup]; rfl
  | watching e =>
    simp only [hsup] at hs ⊢
    split
    · rfl
    · next hc =>
      rw [if_neg hc] at hs
      split
      · rfl
      · next hdue =>
        rw [if_neg hdue] at hs
        split
        · rfl
        · next hset =>
          rw [if_neg hset] at hs
          exact absurd hs hc

/-- Once both directions have ended, the supervisor's next look is its last. -/
theorem done_pollSupervisor_of_settled {c : Call α} (h : c.settled = true) (now : Nat) :
    (c.pollSupervisor now).supervisor.done = true := by
  rw [pollSupervisor]
  cases hsup : c.supervisor with
  | finished => rw [hsup]; rfl
  | watching e =>
    simp only [h, if_true]
    split
    · rfl
    · split <;> rfl

end Call
end PacedCall
