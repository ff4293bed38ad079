import PacedCall.Proofs.Call.Ending
import PacedCall.Proofs.Call.Sinks

/-!
A served call and its handler. The handler uses the halves it was given until it returns; then what
it still holds goes away, and the sink that the call kept for itself completes the queue or, after
the scope was cancelled, fails it. All of this is done one move at a time, with anything that befalls
the call in between. Only a handler that succeeded completes the queue, so a call whose handler
failed is never half-closed.
-/
namespace PacedCall

namespace Move
variable {α : Type}

/-- Moves of those around a handler: the peer, the tasks of the call, the clock, and whoever has the
call's control or owns its scope. -/
def around : Move α → Bool
  | .peer _ => true
  | .pump => true
  | .supervise => true
  | .enqueue _ => true
  | .advance _ => true
  | .cancel _ => true
  | .endParent => true
  | _ => false

theorem onSink_of_around {m : Move α} (hm : m.around = true) : m.onSink = false := by
  cases m <;> first | rfl | cases hm

theorem enlists_of_around {m : Move α} (hm : m.around = true) : m.enlists = false := by
  cases m <;> first | rfl | cases hm

end Move

namespace Opening
variable {α : Type}

theorem beside_call (o : Opening α) (p : CallPlan) (wire : Loopback α) :
    (o.idle p wire).Beside (o.call p wire) :=
  o.call_of_idle (P := (o.idle p wire).Beside) p wire (.refl _)
    (fun c h => h.trans (Call.beside_hear c .ready)) (fun c h => h.trans (Call.beside_ask c true))
    fun _ _ h => { h with }

end Opening

namespace Course
variable {α : Type}

theorem halfClosed_opened (o : Opening α) (p : CallPlan) (ready : Bool) (acts : List (PeerAct α)) :
    (opened o p ready acts).call.wire.halfClosed = false :=
  (o.beside_call p (.before ready acts)).halfClosed.trans
    (o.transport_idle p (Loopback.unused_before ready acts)).2.1

theorem written_step (s : Course α) (m : Move α) : s.written <+: (s.step m).written := by
  obtain ⟨l, hconducts⟩ := exists_conducts_step s m
  exact hconducts.uses.sent

section
variable {o : Opening α} {p : CallPlan} {ready : Bool} {acts : List (PeerAct α)}
  {ms : List (Move α)} {t : Course α} {m : Move α}

/-- A call is half-closed when its queue was completed and all is written. -/
theorem halfCloses_step (ht : t = (opened o p ready acts).run ms)
    (hopen : t.call.wire.halfClosed = false) (hhalf : (t.step m).call.wire.halfClosed = true) :
    t.call.outbound.termination = some .completed ∧
      (t.step m).written = toWrite o (opened o p ready acts) (ms ++ [m]) := by
  subst ht
  have hm : m = .pump := by
    by_contra hm
    rw [(beside_step _ hm).halfClosed, hopen] at hhalf
    cases hhalf
  subst hm
  obtain ⟨hterm, _, _, hall⟩ :=
    Call.halfCloses_pollPump (sound_opened o p ready acts ms) hopen hhalf
  rw [toWrite_concat _ _ _ rfl]
  exact ⟨hterm, hall⟩

/-- All stays written until more is registered. -/
theorem written_all_step (ht : t = (opened o p ready acts).run ms)
    (hall : t.call.wire.halfClosed = true → t.written = toWrite o (opened o p ready acts) ms)
    (hm : m.enlists = false) (hhalf : (t.step m).call.wire.halfClosed = true) :
    (t.step m).written = toWrite o (opened o p ready acts) (ms ++ [m]) := by
  cases hbefore : t.call.wire.halfClosed with
  | false => exact (halfCloses_step ht hbefore hhalf).2
  | true =>
    have hgrows := written_step t m
    have hbound := (sound_opened o p ready acts (ms ++ [m])).written
    rw [hall hbefore, ← toWrite_concat o _ ms hm] at hgrows
    rw [run_concat, ← ht] at hbound
    exact hbound.eq_of_length_le hgrows.length_le

end

end Course

/-- A served call: its course, the halves that the handler still holds, what the handler returned,
what is left to do for that, and all moves so far. -/
structure Served (α : Type) where
  course : Course α
  inbound : Bool := true
  sink : Bool := true
  result : Option (Except Failure Unit) := none
  ending : List (Move α) := []
  made : List (Move α) := []

def served {α : Type} (p : CallPlan) (ready : Bool) (acts : List (PeerAct α)) : Served α :=
  { course := .opened .serve p ready acts }

namespace Served
variable {α : Type}

inductive Act (α : Type) where
  | around (m : Move α)
  | handler (m : Move α)
  | returns (r : Except Failure Unit)
  | wrapUp

/-- A handler moves with what it holds. It neither closes nor fails its sink, and no send outlives
the sink it is made on. -/
def allows (s : Served α) : Move α → Bool
  | .recv => s.inbound
  | .cancelInbound => s.inbound
  | .dropInbound => s.inbound
  | .trySend _ => s.sink
  | .openSend _ => s.sink
  | .pollSend _ => true
  | .dropSend _ => true
  | .dropSink => s.sink && s.course.sends.isEmpty
  | _ => false

def make (s : Served α) (m : Move α) : Served α :=
  { s with course := s.course.step m, made := s.made ++ [m] }

def letGo (s : Served α) : Move α → Served α
  | .dropInbound => { s with inbound := false }
  | .dropSink => { s with sink := false }
  | _ => s

def leaving (inbound sink : Bool) (r : Except Failure Unit) : List (Move α) :=
  (if inbound then [.dropInbound] else []) ++ (if sink then [.dropSink] else []) ++ Course.wrapUp r

def step (s : Served α) : Act α → Served α
  | .around m => if m.around then s.make m else s
  | .handler m => if s.result.isNone && s.allows m then (s.make m).letGo m else s
  | .returns r =>
    if s.result.isNone && s.course.sends.isEmpty then
      { s with
        inbound := false
        sink := false
        result := some r
        ending := leaving s.inbound s.sink r }
    else s
  | .wrapUp =>
    match s.ending with
    | [] => s
    | m :: rest => { s.make m with ending := rest }

def run (s : Served α) (as : List (Act α)) : Served α := as.foldl step s

@[simp] theorem run_concat (s : Served α) (as : List (Act α)) (a : Act α) :
    s.run (as ++ [a]) = (s.run as).step a := by
  rw [run, List.foldl_append]
  rfl

theorem run_append (s : Served α) (as bs : List (Act α)) :
    s.run (as ++ bs) = (s.run as).run bs := List.foldl_append

structure Still (s : Served α) : Prop where
  course : s.course.Quiet
  ending : s.ending = []

@[simp] theorem course_letGo (s : Served α) (m : Move α) : (s.letGo m).course = s.course := by
  cases m <;> rfl

@[simp] theorem result_letGo (s : Served α) (m : Move α) : (s.letGo m).result = s.result := by
  cases m <;> rfl

@[simp] theorem ending_letGo (s : Served α) (m : Move α) : (s.letGo m).ending = s.ending := by
  cases m <;> rfl

@[simp] theorem made_letGo (s : Served α) (m : Move α) : (s.letGo m).made = s.made := by
  cases m <;> rfl

theorem sink_letGo (s : Served α) {m : Move α} (hm : m.onSink = false) :
    (s.letGo m).sink = s.sink := by
  cases m <;> first | rfl | cases hm

theorem enlists_leaving (inbound sink : Bool) (r : Except Failure Unit) :
    ∀ m ∈ (leaving inbound sink r : List (Move α)), m.enlists = false := by
  cases inbound <;> cases sink <;> cases r <;> simp [leaving, Course.wrapUp, Move.enlists]

/-- How far a call has come with its handler, whose `held` says whether it has its sink. As long as
the handler runs, or has failed and done nothing about it, the call's own sink keeps the queue from
being completed; then the scope is cancelled, and then the queue ended. -/
inductive Stage (c : Call α) (held : Bool) : Option (Except Failure Unit) → List (Move α) → Prop where
  | running (hopen : c.outbound.termination ≠ some .completed)
      (hsinks : c.sinks = 1 + held.toNat) : Stage c held none []
  | succeeded {ms : List (Move α)} (hms : ∀ m ∈ ms, m.enlists = false) :
      Stage c held (some (.ok ())) ms
  | leaves {f : Failure} {ms : List (Move α)} (inbound sink : Bool)
      (hms : ms = leaving inbound sink (.error f))
      (hopen : c.outbound.termination ≠ some .completed)
      (hsinks : c.sinks = 1 + sink.toNat) : Stage c held (some (.error f)) ms
  | cancelled {f : Failure} (hopen : c.outbound.termination ≠ some .completed)
      (hs : c.scope.cancelled = true) :
      Stage c held (some (.error f)) [.close (.failed f.toStatus), .dropSink]
  | failed {f : Failure} (hopen : c.outbound.termination ≠ some .completed)
      (hs : c.scope.cancelled = true) (hended : c.outbound.termination.isSome = true) :
      Stage c held (some (.error f)) [.dropSink]
  | done {f : Failure} (hopen : c.outbound.termination ≠ some .completed)
      (hs : c.scope.cancelled = true) : Stage c held (some (.error f)) []

namespace Stage
variable {c d : Call α} {held : Bool} {r : Option (Except Failure Unit)} {f : Failure} {m : Move α}
  {ms : List (Move α)}

theorem result_of_completed (h : Stage c held r ms)
    (hc : c.outbound.termination = some .completed) : r = some (.ok ()) := by
  cases h with
  | succeeded hms => rfl
  | running hopen hsinks => exact absurd hc hopen
  | leaves inbound sink hms hopen hsinks => exact absurd hc hopen
  | cancelled hopen hs => exact absurd hc hopen
  | failed hopen hs hended => exact absurd hc hopen
  | done hopen hs => exact absurd hc hopen

theorem running_of_none (h : Stage c held none ms) :
    ms = [] ∧ c.outbound.termination ≠ some .completed ∧ c.sinks = 1 + held.toNat := by
  cases h with
  | running hopen hsinks => exact ⟨rfl, hopen, hsinks⟩

theorem enlists_of_succeeded (h : Stage c held (some (.ok ())) ms) :
    ∀ m ∈ ms, m.enlists = false := by
  cases h with
  | succeeded hms => exact hms

theorem spared (h : Stage c held r ms) (hsp : c.Spares d)
    (hscope : c.scope.cancelled = true → d.scope.cancelled = true) : Stage d held r ms := by
  have hopens : c.outbound.termination ≠ some .completed →
      d.outbound.termination ≠ some .completed := fun hopen hd => hopen (hsp.completed hd)
  cases h with
  | running hopen hsinks => exact .running (hopens hopen) (hsp.sinks.trans hsinks)
  | succeeded hms => exact .succeeded hms
  | leaves inbound sink hms hopen hsinks =>
    exact .leaves inbound sink hms (hopens hopen) (hsp.sinks.trans hsinks)
  | cancelled hopen hs => exact .cancelled (hopens hopen) (hscope hs)
  | failed hopen hs hended => exact .failed (hopens hopen) (hscope hs) (hsp.ended hended)
  | done hopen hs => exact .done (hopens hopen) (hscope hs)

/-- What is left to do for a handler that failed is done in its order. -/
theorem wrap {s : Course α} (h : Stage s.call held r (m :: ms)) :
    Stage (s.step m).call held r ms := by
  cases h with
  | succeeded hms => exact .succeeded fun n hn => hms n (List.mem_cons_of_mem m hn)
  | leaves inbound sink hms hopen hsinks =>
    cases inbound with
    | true =>
      obtain ⟨rfl, rfl⟩ := List.cons.inj hms
      have hsp : s.call.Spares s.call.dropInbound := .dropInbound _
      exact .leaves false sink rfl (fun hd => hopen (hsp.completed hd)) (hsp.sinks.trans hsinks)
    | false =>
      cases sink with
      | true =>
        obtain ⟨rfl, rfl⟩ := List.cons.inj hms
        have hdrop := Call.dropSink_of_two hsinks
        refine .leaves false false rfl ?_ ?_
        · rw [Course.step, Course.withCall, hdrop]
          exact hopen
        · rw [Course.step, Course.withCall, hdrop]
          rfl
      | false =>
        obtain ⟨rfl, rfl⟩ := List.cons.inj hms
        exact .cancelled hopen (Scope.cancelled_cancelWith _ _ _)
  | @cancelled f hopen hs =>
    have ht : (s.step (.close (.failed f.toStatus))).call.outbound.termination =
        s.call.outbound.termination.or (some (.failed f.toStatus)) :=
      Queue.termination_close _ _
    refine .failed ?_ hs ?_
    · rw [ht]
      cases hc : s.call.outbound.termination with
      | none => simp
      | some how => simpa [hc] using hopen
    · simp [ht]
  | failed hopen hs hended =>
    refine .done ?_ ((Call.outward_dropSink s.call).scope hs)
    rw [Course.step, Course.withCall, Call.termination_dropSink hended]
    exact hopen

end Stage

variable {s s₀ : Served α} {f : Failure}

structure Honest (p : CallPlan) (ready : Bool) (acts : List (PeerAct α)) (s : Served α) : Prop where
  course : s.course = (Course.opened .serve p ready acts).run s.made
  stage : Stage s.course.call s.sink s.result s.ending
  half : s.course.call.wire.halfClosed = true → s.result = some (.ok ())
  written : s.course.call.wire.halfClosed = true →
    s.course.written = Course.toWrite .serve (.opened .serve p ready acts) s.made

namespace Honest
variable {p : CallPlan} {ready : Bool} {acts : List (PeerAct α)}

theorem start (p : CallPlan) (ready : Bool) (acts : List (PeerAct α)) :
    (served p ready acts).Honest p ready acts := by
  have hfresh := Course.halfClosed_opened .serve p ready acts
  obtain ⟨hsinks, hopen⟩ := Opening.serve_begins p (.before ready acts)
  exact
    { course := rfl
      stage := .running hopen hsinks
      half := fun hhalf => absurd (hfresh.symm.trans hhalf) (by simp)
      written := fun hhalf => absurd (hfresh.symm.trans hhalf) (by simp) }

/-- No move half-closes the call before the handler has succeeded. -/
theorem result_of_half (h : s.Honest p ready acts) {m : Move α}
    (hhalf : (s.course.step m).call.wire.halfClosed = true) : s.result = some (.ok ()) := by
  cases hbefore : s.course.call.wire.halfClosed with
  | true => exact h.half hbefore
  | false =>
    obtain ⟨hterm, _⟩ := Course.halfCloses_step h.course hbefore hhalf
    exact h.stage.result_of_completed hterm

theorem make (h : s.Honest p ready acts) {m : Move α} {t : Served α}
    (hcourse : t.course = s.course.step m) (hmade : t.made = s.made ++ [m])
    (hresult : t.result = s.result) (hstage : Stage t.course.call t.sink t.result t.ending)
    (hm : s.result = some (.ok ()) → m.enlists = false) : t.Honest p ready acts := by
  have hok : t.course.call.wire.halfClosed = true → s.result = some (.ok ()) := by
    rw [hcourse]
    exact h.result_of_half
  refine ⟨?_, hstage, ?_, ?_⟩
  · rw [hcourse, hmade, Course.run_concat, ← h.course]
  · rw [hresult]
    exact hok
  · intro hhalf
    have hsilent := hm (hok hhalf)
    rw [hcourse] at hhalf
    rw [hcourse, hmade]
    exact Course.written_all_step h.course h.written hsilent hhalf

/-- Whatever is not done with a sink itself, and registers nothing more for a handler that has
succeeded. -/
theorem spared (h : s.Honest p ready acts) {m : Move α} (hm : m.onSink = false)
    (he : s.result = some (.ok ()) → m.enlists = false) : (s.make m).Honest p ready acts :=
  h.make (m := m) rfl rfl rfl
    (h.stage.spared (Course.spares_step _ hm) (Course.later_step _ m).scope) he

theorem around (h : s.Honest p ready acts) {m : Move α} (hm : m.around = true) :
    (s.make m).Honest p ready acts :=
  h.spared (Move.onSink_of_around hm) fun _ => Move.enlists_of_around hm

theorem handler (h : s.Honest p ready acts) {m : Move α} (hr : s.result = none)
    (hm : s.allows m = true) : ((s.make m).letGo m).Honest p ready acts := by
  have hstage := h.stage
  rw [hr] at hstage
  obtain ⟨hms, hopen, hsinks⟩ := hstage.running_of_none
  refine h.make (m := m) (by simp [Served.make]) (by simp [Served.make]) (by simp [Served.make]) ?_
    fun hok => absurd (hr.symm.trans hok) (by simp)
  rw [course_letGo, result_letGo, ending_letGo]
  simp only [Served.make, hr, hms]
  by_cases hsink : m.onSink = false
  · have hsp := Course.spares_step s.course hsink
    rw [sink_letGo _ hsink]
    exact .running (fun hd => hopen (hsp.completed hd)) (hsp.sinks.trans hsinks)
  · cases m with
    | dropSink =>
      have hheld : s.sink = true := (Bool.and_eq_true_iff.mp hm).1
      rw [hheld] at hsinks
      have hdrop := Call.dropSink_of_two hsinks
      refine .running ?_ ?_
      · rw [Course.step, Course.withCall, hdrop]
        exact hopen
      · rw [Course.step, Course.withCall, hdrop]
        rfl
    | close how => cases hm
    | cloneSink => cases hm
    | _ => exact absurd rfl hsink

theorem returns (h : s.Honest p ready acts) (hr : s.result = none) (r : Except Failure Unit) :
    Honest p ready acts { s with
      inbound := false
      sink := false
      result := some r
      ending := leaving s.inbound s.sink r } := by
  have hstage := h.stage
  rw [hr] at hstage
  obtain ⟨_, hopen, hsinks⟩ := hstage.running_of_none
  refine { h with stage := ?_, half := ?_ }
  · cases r with
    | ok u => exact .succeeded (enlists_leaving _ _ _)
    | error f => exact .leaves s.inbound s.sink rfl hopen hsinks
  · exact fun hhalf => absurd (hr.symm.trans (h.half hhalf)) (by simp)

theorem wrapUp (h : s.Honest p ready acts) {m : Move α} {ms : List (Move α)}
    (hms : s.ending = m :: ms) : Honest p ready acts { s.make m with ending := ms } := by
  have hstage := h.stage
  rw [hms] at hstage
  refine h.make (m := m) rfl rfl rfl hstage.wrap fun hok => ?_
  rw [hok] at hstage
  exact hstage.enlists_of_succeeded m List.mem_cons_self

theorem step (h : s.Honest p ready acts) (a : Act α) : (s.step a).Honest p ready acts := by
  cases a with
  | around m =>
    rw [Served.step]
    split
    · next hm => exact h.around hm
    · exact h
  | handler m =>
    rw [Served.step]
    split
    · next hm =>
      simp only [Bool.and_eq_true, Option.isNone_iff_eq_none] at hm
      exact h.handler hm.1 hm.2
    · exact h
  | returns r =>
    rw [Served.step]
    split
    · next hm =>
      simp only [Bool.and_eq_true, Option.isNone_iff_eq_none] at hm
      exact h.returns hm.1 r
    · exact h
  | wrapUp =>
    rw [Served.step]
    split
    · exact h
    · next m ms hms => exact h.wrapUp hms

theorem run (p : CallPlan) (ready : Bool) (acts : List (PeerAct α)) (as : List (Act α)) :
    ((served p ready acts).run as).Honest p ready acts := by
  induction as using List.reverseRecOn with
  | nil => exact start p ready acts
  | append_singleton as a ih =>
    rw [run_concat]
    exact ih.step a

end Honest

theorem exists_moves_step (s : Served α) (a : Act α) :
    ∃ ms, (s.step a).course = s.course.run ms := by
  cases a with
  | around m =>
    rw [step]
    split
    · exact ⟨[m], rfl⟩
    · exact ⟨[], rfl⟩
  | handler m =>
    rw [step]
    split
    · exact ⟨[m], course_letGo _ _⟩
    · exact ⟨[], rfl⟩
  | returns r =>
    rw [step]
    split <;> exact ⟨[], rfl⟩
  | wrapUp =>
    rw [step]
    split
    · exact ⟨[], rfl⟩
    · next m rest _ => exact ⟨[m], rfl⟩

theorem exists_moves_run (s : Served α) (as : List (Act α)) :
    ∃ ms, (s.run as).course = s.course.run ms := by
  induction as using List.reverseRecOn with
  | nil => exact ⟨[], rfl⟩
  | append_singleton as a ih =>
    obtain ⟨ms, hrun⟩ := ih
    obtain ⟨ns, hstep⟩ := exists_moves_step (s.run as) a
    rw [run_concat]
    exact ⟨ms ++ ns, by rw [hstep, hrun, Course.run_append]⟩

/-- A cancellation that a failed handler owed its scope and owes no more was made before, or is made
now. -/
theorem cancels_step {a : Act α} (hr : (s.step a).result = some (.error f))
    (hm : .cancel f.toStatus ∉ (s.step a).ending) :
    s.result = some (.error f) ∧ .cancel f.toStatus ∉ s.ending ∨
      a = .wrapUp ∧ ∃ rest, s.ending = .cancel f.toStatus :: rest := by
  cases a with
  | around m =>
    have hsame : (s.step (.around m)).result = s.result ∧
        (s.step (.around m)).ending = s.ending := by
      rw [step]
      split <;> exact ⟨rfl, rfl⟩
    rw [hsame.1] at hr
    rw [hsame.2] at hm
    exact .inl ⟨hr, hm⟩
  | handler m =>
    have hsame : (s.step (.handler m)).result = s.result ∧
        (s.step (.handler m)).ending = s.ending := by
      rw [step]
      split
      · exact ⟨result_letGo _ _, ending_letGo _ _⟩
      · exact ⟨rfl, rfl⟩
    rw [hsame.1] at hr
    rw [hsame.2] at hm
    exact .inl ⟨hr, hm⟩
  | returns r =>
    rw [step] at hr hm
    by_cases hc : (s.result.isNone && s.course.sends.isEmpty) = true
    · rw [if_pos hc] at hr hm
      obtain rfl := Option.some.inj hr
      exact absurd (by simp [leaving, Course.wrapUp]) hm
    · rw [if_neg hc] at hr hm
      exact .inl ⟨hr, hm⟩
  | wrapUp =>
    rw [step] at hr hm
    cases hms : s.ending with
    | nil =>
      rw [hms] at hr
      exact .inl ⟨hr, List.not_mem_nil⟩
    | cons m rest =>
      rw [hms] at hr hm
      by_cases hnow : m = .cancel f.toStatus
      · exact .inr ⟨rfl, rest, by rw [hnow]⟩
      · refine .inl ⟨hr, ?_⟩
        simp only [List.mem_cons, not_or]
        exact ⟨fun h => hnow h.symm, hm⟩

def Cancels (s₀ : Served α) (f : Failure) (before as : List (Act α)) : Prop :=
  ∃ after rest, as = before ++ .wrapUp :: after ∧
    (s₀.run before).ending = .cancel f.toStatus :: rest

theorem exists_cancels (hfresh : s₀.result = none) (as : List (Act α))
    (hr : (s₀.run as).result = some (.error f))
    (hm : .cancel f.toStatus ∉ (s₀.run as).ending) : ∃ before, s₀.Cancels f before as := by
  induction as using List.reverseRecOn with
  | nil => exact absurd (hfresh.symm.trans hr) (by simp)
  | append_singleton as a ih =>
    rw [run_concat] at hr hm
    obtain ⟨hr, hm⟩ | ⟨rfl, rest, hrest⟩ := cancels_step hr hm
    · obtain ⟨before, after, rest, rfl, hrest⟩ := ih hr hm
      exact ⟨before, after ++ [a], rest, by simp, hrest⟩
    · exact ⟨as, [], rest, rfl, hrest⟩

/-- Where nothing cancelled the scope before, everybody in it is told what the handler failed
with. -/
theorem status_of_cancels {p : CallPlan} {ready : Bool} {acts : List (PeerAct α)} {st : Status}
    {rest : List (Move α)} (h : s.Honest p ready acts) (hrest : s.ending = .cancel st :: rest)
    (hs : s.course.call.scope.cancelled = false) (after : List (Act α)) :
    (s.run (.wrapUp :: after)).course.call.scope.status = some st := by
  have hstep : (s.step .wrapUp).course = s.course.step (.cancel st) := by rw [step, hrest]; rfl
  have hsound := Course.sound_opened .serve p ready acts s.made
  rw [← h.course] at hsound
  have hcancelled : (s.course.step (.cancel st)).call.scope.cancelled = true :=
    Scope.cancelled_cancelWith _ _ _
  obtain ⟨ms, hrun⟩ := exists_moves_run (s.step .wrapUp) after
  have hlast : (s.run (.wrapUp :: after)).course = (s.step .wrapUp).course.run ms := hrun
  rw [hlast, hstep, Course.scope_run hcancelled]
  exact Call.status_cancelScope hsound hs .here st

theorem cancelled_of_done {c : Call α} {held : Bool}
    (h : Stage c held (some (.error f)) []) : c.scope.cancelled = true := by
  cases h with
  | done hopen hs => exact hs
  | leaves inbound sink hms hopen hsinks => cases inbound <;> cases sink <;> cases hms

/-- The outcome of a served call. It is half-closed only for a handler that succeeded, once all it
registered was written; for one that failed it is closed with an error, once, whatever else ends
the call meanwhile on this side. -/
theorem served_outcome (p : CallPlan) (hp : p.role = .server) (ready : Bool)
    (acts : List (PeerAct α)) (as : List (Act α)) :
    let s₀ := served p ready acts
    let s := s₀.run as
    let c := s.course.call
    c.wire.cancellations = [] ∧
    (c.wire.halfClosed = true →
      s.result = some (.ok ()) ∧ s.course.written = Course.toWrite .serve s₀.course s.made) ∧
    ∀ f, s.result = some (.error f) →
      c.wire.halfClosed = false ∧
      (s.Still → (∀ a, .peer a ∈ s.made → a.ends .server = false) →
        ∃ st l, c.scope.status = some st ∧ c.wire.closedWith = some st ∧
          (Opening.serve.idle p (.before ready acts)).handle.Uses l c.handle ∧
          l.filter Signal.ends = [.closeWithError st] ∧
          (∃ before, s₀.Cancels f before as) ∧
          ∀ before, s₀.Cancels f before as →
            (s₀.run before).course.call.scope.cancelled = false → st = f.toStatus) := by
  intro s₀ s c
  have h : s.Honest p ready acts := .run p ready acts as
  have hcourse : s.course = (Course.opened .serve p ready acts).run s.made := h.course
  have hcancels : c.wire.cancellations = [] := by
    have hnone := Course.cancellations_eq_nil .serve hp ready acts s.made
    rw [← hcourse] at hnone
    exact hnone
  refine ⟨hcancels, fun hhalf => ⟨h.half hhalf, h.written hhalf⟩, ?_⟩
  intro f hf
  have hopen : c.wire.halfClosed = false := by
    by_contra hhalf
    exact absurd (hf.symm.trans (h.half (by simpa using hhalf))) (by simp)
  refine ⟨hopen, ?_⟩
  intro hstill hpeer
  have hlast := h.stage
  rw [hf, hstill.ending] at hlast
  obtain ⟨st, l, hstatus, hclosed, huses, hends⟩ := Course.closed_of_quiet .serve hp ready acts
    hcourse hstill.course (cancelled_of_done hlast) hopen hpeer
  have hmade : .cancel f.toStatus ∉ s.ending := by simp [hstill.ending]
  refine ⟨st, l, hstatus, hclosed, huses, hends, exists_cancels rfl as hf hmade, ?_⟩
  rintro before ⟨after, rest, rfl, hrest⟩ hs
  have hfirst := status_of_cancels (.run p ready acts before) hrest hs after
  rw [← run_append s₀ before] at hfirst
  exact Option.some.inj (hstatus.symm.trans hfirst)

/-- Two handlers send a message each; one is content then, and the other fails. -/
theorem served_outcome_sent :
    let s₀ := served { role := .server } true ([] : List (PeerAct Nat))
    let f : Failure := .ofStatus .localCancelled
    let sends : List (Act Nat) := [.handler (.openSend 7), .handler (.pollSend 0)]
    let leaves : List (Act Nat) :=
      [.wrapUp, .wrapUp, .wrapUp, .wrapUp, .wrapUp, .around .pump, .around .supervise]
    let content := s₀.run (sends ++ .returns (.ok ()) :: leaves)
    let failed := s₀.run (sends ++ .returns (.error f) :: leaves)
    content.course.call.wire.halfClosed = true ∧ content.course.written = [7] ∧
      failed.course.call.wire.halfClosed = false ∧
      failed.course.call.wire.closedWith = some f.toStatus := by
  intro s₀ f sends leaves content failed
  have hhalf : content.course.call.wire.halfClosed = true := by decide
  have hcontent := (served_outcome { role := .server } rfl true ([] : List (PeerAct Nat))
    (sends ++ .returns (.ok ()) :: leaves)).2.1 hhalf
  obtain ⟨hopen, htold⟩ := (served_outcome { role := .server } rfl true ([] : List (PeerAct Nat))
    (sends ++ .returns (.error f) :: leaves)).2.2 f rfl
  have hstill : failed.Still :=
    { course := .of_done (by decide) (by decide) (List.isEmpty_iff.mp (by decide))
      ending := List.isEmpty_iff.mp (by decide) }
  have hmade : failed.made = [.openSend 7, .pollSend 0, .dropInbound, .dropSink,
      .cancel f.toStatus, .close (.failed f.toStatus), .dropSink, .pump, .supervise] := rfl
  have hpeer : ∀ a, .peer a ∈ failed.made → a.ends .server = false :=
    fun a ha => by simp [hmade] at ha
  obtain ⟨st, l, _, hclosed, _, _, _, honly⟩ := htold hstill hpeer
  have hst := honly (sends ++ [.returns (.error f), .wrapUp, .wrapUp]) ⟨_, _, rfl, rfl⟩ rfl
  exact ⟨hhalf, hcontent.2.trans rfl, hopen, hst ▸ hclosed⟩

end Served
end PacedCall
