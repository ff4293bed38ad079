import PacedCall.Proofs.Call.Lookout
import PacedCall.Proofs.Call.Request
import PacedCall.Proofs.Status

/-!
A send that fails because its queue was terminated, and the handler that ends with it. The error of
the queue has a status for those who ask it, but a handler fails with what is reported of its error,
and there the status is not found again.
-/
namespace PacedCall

namespace Handler
variable {α : Type} {c : Call α} {h : Handler α} {sd : Send α} {e : QueueError}

def bound? (h : Handler α) : Option (Send α) :=
  match h.phase, h.program with
  | .responding sd, _ => some sd
  | .running, .sending sd true :: _ => some sd
  | _, _ => none

theorem bound?_cases (hb : h.bound? = some sd) :
    h.phase = .responding sd ∨
      h.phase = .running ∧ ∃ rest, h.program = .sending sd true :: rest := by
  unfold bound? at hb
  split at hb
  · next hp =>
    cases hb
    exact .inl hp
  · next rest hp hi =>
    cases hb
    exact .inr ⟨hp, rest, hi⟩
  · cases hb

/-- An error that leaves the program as its text alone is reported the same. -/
theorem toStatus_shownError (h : Handler α) (e : QueueError) :
    (h.shownError (.ofQueue e)).toStatus = ⟨.unknown, e.shown, []⟩ := by
  rw [shownError]
  split
  · rfl
  · exact Failure.toStatus_ofQueue e

/-- A handler whose send fails ends with the error of the send. -/
theorem turn_of_error [Message α] (now : Nat) (hb : h.bound? = some sd)
    (he : (c.pollSend sd).2.2 = some (.error e)) :
    ∃ k f, f.toStatus = ⟨.unknown, e.shown, []⟩ ∧
      turn now c h = .ended (finish (c.pollSend sd).1 k (.error f)) := by
  rcases hx : c.pollSend sd with ⟨d, sd', r⟩
  rw [hx] at he
  obtain rfl : r = some (.error e) := he
  obtain hp | ⟨hp, rest, hi⟩ := bound?_cases hb
  · refine ⟨h, .ofQueue e, Failure.toStatus_ofQueue e, ?_⟩
    rw [turn, hp]
    cases sd <;> simp only [hx]
  · refine ⟨{ h with program := rest }, _, toStatus_shownError { h with program := rest } e, ?_⟩
    rw [turn, hp]
    simp only [hi, execute]
    cases sd <;> simp only [hx] <;> rfl

/-- A handler that fails is done, has the status of its error, and cancels the scope with it. -/
theorem finish_error (hr : c.handle.role = .server) (h : Handler α) (f : Failure) :
    (finish c h (.error f)).2.phase = .returned ∧
      (finish c h (.error f)).2.failure = some f.toStatus ∧
      (finish c h (.error f)).1.scope = c.scope.cancelWith .here f.toStatus := by
  refine ⟨rfl, rfl, ?_⟩
  rw [Course.finish_eq_run { call := c }]
  exact Course.scope_leaving (s := { call := c }) hr h.inbound h.sink f

end Handler

namespace Serving
variable {α : Type} [Message α]

/-- A served call keeps its role, and its scope has no cause before it ends. -/
theorem role_recorded_beats (p : CallPlan) (ready : Bool) (acts : List (PeerAct α)) (shape : Shape)
    (program : List (Instr α)) (gates : List String) (bs : List (Beat α)) :
    let x := (opened p ready acts shape program gates).beats bs
    x.call.handle.role = p.role ∧ x.call.scope.Recorded := by
  induction bs using List.reverseRecOn with
  | nil =>
    exact ⟨Course.role_run .serve p ready acts [],
      (Course.sound_opened .serve p ready acts []).recorded⟩
  | append_singleton bs b ih =>
    rw [beats_concat]
    have hleads := leads_beat ((opened p ready acts shape program gates).beats bs) b
    exact ⟨hleads.role.trans ih.1, hleads.recorded ih.2⟩

/-- A queue that was terminated. The error of the queue has the status that the queue was
terminated with, but an error that is reported, within whatever texts, is reported as unknown; that
is the same only where the status was unknown and its message is shown outermost. A handler that
ends with the failure of its send has failed as unknown, and if the scope of the call had not ended
before, this is what everybody in it is told. -/
theorem terminated_rewrapped :
    (∀ st texts, let f := (Failure.ofQueue (.terminated st)).within texts
      (QueueError.terminated st).status = st ∧
        f.report = (⟨.unknown, f.head.shown, []⟩, f.links) ∧
        ((f.toStatus.code = st.code ∧ f.toStatus.message = st.message) ↔
          st.code = .unknown ∧ texts.head? = some st.message)) ∧
    ∀ p : CallPlan, p.role = .server → ∀ ready (acts : List (PeerAct α)) shape program gates bs,
      let x := (opened p ready acts shape program gates).beats bs
      let y := x.beat .turn
      ∀ sd st, x.handler.bound? = some sd →
        (x.call.pollSend sd).2.2 = some (.error (.terminated st)) →
        let reported : Status := ⟨.unknown, "queue terminated: " ++ st.message, []⟩
        y.handler.phase = .returned ∧ y.handler.failure = some reported ∧
          y.call.scope.status = some (if x.call.scope.cancelled then st else reported) := by
  refine ⟨fun st texts => ⟨rfl, Failure.report_queue _ texts, Failure.report_terminated_iff st texts⟩,
    ?_⟩
  intro p hrole ready acts shape program gates bs x y sd st hb he reported
  obtain ⟨hserver, hrecorded⟩ := role_recorded_beats p ready acts shape program gates bs
  have hpoll := Handler.leads_pollSend x.call sd
  obtain ⟨k, f, hf, hturn⟩ := Handler.turn_of_error x.now hb he
  obtain ⟨hphase, hfailure, hscope⟩ :=
    Handler.finish_error (hpoll.role.trans (hserver.trans hrole)) k f
  have hy : y = { x with
      call := (Handler.finish (x.call.pollSend sd).1 k (.error f)).1
      handler := (Handler.finish (x.call.pollSend sd).1 k (.error f)).2 } := by
    rw [show y = x.beat .turn from rfl, beat, hturn]
    rfl
  rw [hy]
  rw [hf] at hfailure hscope
  refine ⟨hphase, hfailure, ?_⟩
  rw [hscope, Call.scope_pollSend, hrecorded.status_cancelWith]
  cases hs : x.call.scope.cancelled with
  | false =>
    rw [Scope.status_eq_none hs]
    rfl
  | true =>
    obtain ⟨told, htold⟩ := Option.isSome_iff_exists.mp ((Scope.isSome_status _).trans hs)
    rw [Call.pollSend_of_status htold] at he
    cases he
    rw [htold]
    rfl

/-- A handler that fails its sink and then sends: the call goes on until the send fails, and ends as
unknown. -/
theorem terminated_rewrapped_failed_sink :
    let _ : Message Nat := ⟨0, fun vs => vs.foldl (· + ·) 0⟩
    let gone : Status := ⟨.notFound, "gone", []⟩
    let program : List (Instr Nat) := [.sinkFail (.ofStatus gone), .sendStrict 7]
    let y := (opened { role := .server } true [] .bidi program []).beats [.turn, .turn, .turn]
    y.handler.phase = .returned ∧
      y.handler.failure = some ⟨.unknown, "queue terminated: gone", []⟩ ∧
      y.call.scope.status = some ⟨.unknown, "queue terminated: gone", []⟩ := by
  intro _ gone program y
  exact terminated_rewrapped.2 { role := .server } rfl true [] .bidi program []
    [.turn, .turn] (.fresh 7) gone rfl rfl

/-- The error of a queue that was terminated as not found has that status, and is not reported with
it. Nor is the handler of one response whose peer cancels the call: it fails as unknown. -/
theorem terminated_reported_unknown :
    let _ : Message Nat := ⟨0, fun vs => vs.foldl (· + ·) 0⟩
    let gone : Status := ⟨.notFound, "gone", []⟩
    let y := (opened { role := .server } true [] .clientStreaming [.respond 7] []).beats
      [.turn, .around (.peer .cancel), .turn]
    (QueueError.terminated gone).status = gone ∧
      (Failure.ofQueue (.terminated gone)).toStatus =
        ⟨.unknown, "queue terminated: gone", []⟩ ∧
      y.call.scope.status = some .peerCancelled ∧
      y.handler.failure = some ⟨.unknown, "queue terminated: Peer has cancelled the call", []⟩ := by
  decide

end Serving
end PacedCall
