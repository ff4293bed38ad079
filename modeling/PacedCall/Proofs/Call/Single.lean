import PacedCall.Proofs.Call.Conduct
import PacedCall.Proofs.Call.Intake

/-!
The reading of a single message, which is one value and the end of the stream right after it. While
the scope goes on, what it comes to hangs only on the values that came in and on how they ended; once
the scope is cancelled it comes to the status that everybody in it is told.
-/
namespace PacedCall
namespace Call
variable {α : Type} {c : Call α} {missing extra : String}

def Single.got : Single α → List α
  | .first => []
  | .last v => [v]

def single (missing extra : String) : List α → Option Termination → Option (Except Status α)
  | _ :: _ :: _, _ => some (.error ⟨.internal, extra, []⟩)
  | [v], some .completed => some (.ok v)
  | [], some .completed => some (.error ⟨.internal, missing, []⟩)
  | _, some (.failed st) => some (.error st)
  | _, none => none

theorem single_eq_ok_iff {l : List α} {t : Option Termination} {v : α} :
    single missing extra l t = some (.ok v) ↔ l = [v] ∧ t = some .completed := by
  constructor
  · intro h
    unfold single at h
    split at h <;> cases h
    exact ⟨rfl, rfl⟩
  · rintro ⟨rfl, rfl⟩
    rfl

/-- From the second value on, nothing that comes after makes a difference. -/
theorem single_of_prefix {l k : List α} (hl : 2 ≤ l.length) (hk : l <+: k)
    (t u : Option Termination) : single missing extra l t = single missing extra k u := by
  obtain ⟨rest, rfl⟩ := hk
  match l, hl with
  | _ :: _ :: _, _ => rfl

/-! A receive in a scope that goes on. -/

theorem recv_of_nil (hs : c.scope.cancelled = false) (ho : c.inbound.queue.Orderly)
    (hl : c.inbound.queue.line = []) :
    c.recv = (c, c.inbound.queue.last.settled?) := by
  rw [recv, Scope.status_eq_none hs, Queue.tryRecv_of_nil ho hl]
  rfl

theorem recv_of_cons (hs : c.scope.cancelled = false) (ho : c.inbound.queue.Orderly) {v : α}
    {l : List α} (hl : c.inbound.queue.line = v :: l) :
    ∃ q, c.recv = (c.withInbound q, some (.ok (some v))) ∧ q.Orderly ∧ q.line = l ∧
      q.termination = c.inbound.queue.termination := by
  obtain ⟨htail, hfound⟩ := Queue.tryRecv_eq ho
  rw [hl] at htail
  rw [Queue.found, hl] at hfound
  refine ⟨c.inbound.queue.tryRecv.1, ?_, ho.tryRecv, htail, Queue.termination_tryRecv _⟩
  rw [recv, Scope.status_eq_none hs]
  simp only [hfound, Received.settled?]

theorem recv_of_cancelled {st : Status} (hs : c.scope.status = some st) :
    c.recv = (c, some (.error st)) := by
  rw [recv, hs]

/-! The reading. -/

theorem pollLast_eq (hs : c.scope.cancelled = false) (ho : c.inbound.queue.Orderly) (v : α) :
    (c.pollLast extra v).2.2 =
      single missing extra (v :: c.inbound.queue.line) c.inbound.queue.termination := by
  cases hl : c.inbound.queue.line with
  | nil =>
    rw [pollLast, recv_of_nil hs ho hl]
    unfold Queue.last
    cases ht : c.inbound.queue.termination with
    | none => rfl
    | some how => cases how <;> rfl
  | cons w l =>
    obtain ⟨q, hrecv, _⟩ := recv_of_cons hs ho hl
    rw [pollLast, hrecv]
    rfl

/-- One look at the reading of a single message, in a scope that goes on. -/
theorem pollSingle_eq (hs : c.scope.cancelled = false) (ho : c.inbound.queue.Orderly)
    (r : Single α) :
    (c.pollSingle missing extra r).2.2 =
      single missing extra (r.got ++ c.inbound.queue.line) c.inbound.queue.termination := by
  cases r with
  | last v => exact pollLast_eq hs ho v
  | first =>
    rw [Single.got, List.nil_append]
    cases hl : c.inbound.queue.line with
    | nil =>
      rw [pollSingle, recv_of_nil hs ho hl]
      unfold Queue.last
      cases ht : c.inbound.queue.termination with
      | none => rfl
      | some how => cases how <;> rfl
    | cons v l =>
      obtain ⟨q, hrecv, hq, hline, hterm⟩ := recv_of_cons hs ho hl
      have hlast : ((c.withInbound q).pollLast extra v).2.2 =
          single missing extra (v :: q.line) q.termination :=
        pollLast_eq (c := c.withInbound q) hs hq v
      rw [pollSingle, hrecv]
      simp only
      rw [hlast, hline, hterm]

theorem pollSingle_of_cancelled {st : Status} (hs : c.scope.status = some st) (r : Single α) :
    c.pollSingle missing extra r = (c, r, some (.error st)) := by
  cases r <;> simp only [pollSingle, pollLast, recv_of_cancelled hs]

end Call

namespace Course
variable {α : Type}

/-- The end of the stream is looked for with one receive, which takes nothing as long as it has to
wait. -/
theorem pollLast_recv (s : Course α) (extra : String) (v : α) :
    (s.call.pollLast extra v).1 = s.call.recv.1 ∧
      ((s.call.pollLast extra v).2.2 = none →
        (s.call.pollLast extra v).2.1 = .last v ∧ s.returns .recv = []) := by
  rw [Call.pollLast, returns]
  rcases s.call.recv with ⟨c, _ | (st | (_ | w))⟩
  · exact ⟨rfl, fun _ => ⟨rfl, rfl⟩⟩
  · exact ⟨rfl, by simp⟩
  · exact ⟨rfl, by simp⟩
  · exact ⟨rfl, by simp⟩

/-- A look at the reading makes a receive or two. As long as it goes on, it holds what they
returned. -/
theorem exists_recvs (s : Course α) (missing extra : String) (r : Call.Single α) :
    ∃ n, s.withCall (s.call.pollSingle missing extra r).1 = s.run (List.replicate n .recv) ∧
      ((s.call.pollSingle missing extra r).2.2 = none →
        (s.call.pollSingle missing extra r).2.1.got =
          r.got ++ collect returns s (List.replicate n .recv)) := by
  cases r with
  | last v =>
    obtain ⟨hcall, hwaits⟩ := pollLast_recv s extra v
    refine ⟨1, congrArg s.withCall hcall, fun hnone => ?_⟩
    obtain ⟨hsame, hnothing⟩ := hwaits hnone
    rw [Call.pollSingle, hsame]
    simp [collect, hnothing]
  | first =>
    rcases hr : s.call.recv with ⟨c, _ | (st | (_ | v))⟩
    · have hret : s.returns .recv = [] := by rw [returns, hr]
      refine ⟨1, ?_, fun _ => ?_⟩
      · simp [Call.pollSingle, hr, run, step]
      · simp [Call.pollSingle, hr, collect, hret, Call.Single.got]
    · exact ⟨1, by simp [Call.pollSingle, hr, run, step], by simp [Call.pollSingle, hr]⟩
    · exact ⟨1, by simp [Call.pollSingle, hr, run, step], by simp [Call.pollSingle, hr]⟩
    · have hret : s.returns .recv = [v] := by rw [returns, hr]
      have hstep : s.step .recv = s.withCall c := by rw [step, hr]
      obtain ⟨hcall, hwaits⟩ := pollLast_recv (s.withCall c) extra v
      refine ⟨2, ?_, fun hnone => ?_⟩
      · simp only [Call.pollSingle, hr, List.replicate, run, List.foldl_cons, List.foldl_nil]
        rw [hstep]
        exact congrArg s.withCall hcall
      · simp only [Call.pollSingle, hr] at hnone ⊢
        obtain ⟨hsame, hnothing⟩ := hwaits hnone
        rw [show (c.pollLast extra v).2.1 = .last v from hsame]
        simp only [List.replicate, collect]
        rw [hret, hstep, hnothing]
        rfl

end Course
end PacedCall
