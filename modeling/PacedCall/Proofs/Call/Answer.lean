import PacedCall.Proofs.Call.Request

/-!
The one response of a served call. A handler that answers with one response registers nothing while
its program runs; what the program returns is the one message that it sends then, and only if that
message was taken the call is half-closed, with this one message written.
-/
namespace PacedCall

/-- Moves with the stream of a served call, and the end of its scope. They neither register anything
nor touch a sink. -/
def Move.onStream {α : Type} : Move α → Bool
  | .recv => true
  | .cancelInbound => true
  | .dropInbound => true
  | .cancel _ => true
  | _ => false

theorem Move.onSink_of_onStream {α : Type} {m : Move α} (hm : m.onStream = true) :
    m.onSink = false := by
  cases m <;> first | rfl | cases hm

theorem Move.enlists_of_onStream {α : Type} {m : Move α} (hm : m.onStream = true) :
    m.enlists = false := by
  cases m <;> first | rfl | cases hm

/-! A look at a send. -/

namespace Call
variable {α : Type} {c : Call α} {sd : Send α}

/-- A send that is not over, or that is content, finds its scope as it was. -/
theorem status_of_pollSend (hx : ∀ e, (c.pollSend sd).2.2 ≠ some (.error e)) :
    c.scope.status = none := by
  cases hs : c.scope.status with
  | none => rfl
  | some st =>
    have herror : (c.pollSend sd).2.2 = some (.error (.terminated st)) := by
      simp only [pollSend, hs]
    exact absurd herror (hx _)

theorem placed_of_pollSend (hs : c.scope.status = none) (sd : Send α) :
    ∃ e, (c.pollSend sd).2.1 = .placed e := by
  simp only [pollSend, hs]
  exact ⟨_, rfl⟩

end Call

namespace Course
variable {α : Type} {s : Course α} {ms ns : List (Move α)} {sd : Send α}

theorem run_onStream (hms : ∀ m ∈ ms, m.onStream = true) :
    (s.run ms).now = s.now ∧ (s.run ms).sends = s.sends := by
  induction ms using List.reverseRecOn with
  | nil => exact ⟨rfl, rfl⟩
  | append_singleton ms m ih =>
    rw [run_concat]
    obtain ⟨hnow, hsends⟩ := ih fun n hn => hms n (List.mem_append_left _ hn)
    rw [← hnow, ← hsends]
    have hm := hms m (by simp)
    cases m <;> first | exact ⟨rfl, rfl⟩ | cases hm

/-! A look at the one send under way. -/

theorem call_look (hs : s.sends = [sd]) : (s.step (.pollSend 0)).call = (s.call.pollSend sd).1 := by
  rw [step, call_pollSend, hs]
  rfl

theorem sends_look (hs : s.sends = [sd]) (hx : (s.call.pollSend sd).2.2 = none) :
    (s.step (.pollSend 0)).sends = [(s.call.pollSend sd).2.1] := by
  rcases hpoll : s.call.pollSend sd with ⟨c, sd', _ | r⟩
  · simp [step, pollSend, hs, hpoll]
  · rw [hpoll] at hx
    cases hx

/-- The first look at a send registers its value, unless the send fails. -/
theorem registers_fresh (c : Call α) (v : α) :
    ((c.registers (.fresh v)).map Entry.value = [v] ∨
      (c.registers (.fresh v)).map Entry.value = [] ∧
        ∃ e, (c.pollSend (.fresh v)).2.2 = some (.error e)) ∧
    c.withdraws (.fresh v) = [] := by
  unfold Call.registers Call.withdraws Call.pollSend
  cases hs : c.scope.status with
  | some st => exact ⟨.inr ⟨rfl, _, rfl⟩, rfl⟩
  | none =>
    refine ⟨?_, rfl⟩
    simp only [Queue.admits, Queue.send]
    cases ht : c.outbound.termination with
    | some how => exact .inr ⟨rfl, how.error, rfl⟩
    | none =>
      refine .inl ?_
      cases hr : c.outbound.hasRoom <;> simp

theorem toWrite_prefix_of_idle (hms : ∀ m ∈ ms, m.enlists = false) (l : List α) :
    toWrite .serve s ms <+: l := by
  rw [toWrite_of_idle hms]
  exact List.nil_prefix

/-- Nothing more is to be written as long as nothing more is registered. -/
theorem toWrite_append (hns : ∀ m ∈ ns, m.enlists = false) :
    toWrite .serve s (ms ++ ns) = toWrite .serve s ms := by
  obtain ⟨hregisters, hwithdraws⟩ := collect_of_idle (s := s.run ms) hns
  rw [toWrite, collect_append, collect_append, hregisters, hwithdraws, List.append_nil,
    List.append_nil, toWrite]

/-- What the first look at the one send registers is all there is to be written. -/
theorem toWrite_fresh {v : α} (hms : ∀ m ∈ ms, m.enlists = false)
    (hs : (s.run ms).sends = [.fresh v]) :
    toWrite .serve s (ms ++ [.pollSend 0]) =
      ((s.run ms).call.registers (.fresh v)).map Entry.value := by
  obtain ⟨hregisters, hwithdraws⟩ := collect_of_idle (s := s) hms
  have hnone := (registers_fresh (s.run ms).call v).2
  rw [toWrite, collect_concat, collect_concat, hregisters, hwithdraws]
  simp only [registers, withdraws, hs, List.getElem?_cons_zero, Option.elim_some, hnone]
  simp [Opening.registers, Entry.kept]

/-- A later look at it registers nothing, and withdraws nothing as long as the scope goes on. -/
theorem toWrite_placed {e : Enqueue} (hs : (s.run ms).sends = [.placed e]) :
    (toWrite .serve s (ms ++ [.pollSend 0])).Sublist (toWrite .serve s ms) ∧
      ((s.run ms).call.scope.status = none →
        toWrite .serve s (ms ++ [.pollSend 0]) = toWrite .serve s ms) := by
  have hregisters : (s.run ms).registers (.pollSend 0) = [] := by
    simp only [registers, hs, List.getElem?_cons_zero, Option.elim_some, Call.registers]
    split <;> first | rfl | contradiction
  simp only [toWrite, collect_concat, hregisters, List.append_nil]
  refine ⟨?_, fun hgoes => ?_⟩
  · rw [Entry.kept_append_withdrawn]
    exact List.filter_sublist.map _
  · have hwithdraws : (s.run ms).withdraws (.pollSend 0) = [] := by
      simp only [withdraws, hs, List.getElem?_cons_zero, Option.elim_some, Call.withdraws, hgoes]
    rw [hwithdraws, List.append_nil]

end Course

namespace Serving
variable {α : Type} {p : CallPlan} {ready : Bool} {acts : List (PeerAct α)} {x y : Serving α}
  {s : Served α} {m : Move α} {ms : List (Move α)} {given : List α}

structure Unsent (s : Served α) : Prop where
  sends : s.course.sends = []
  idle : ∀ m ∈ s.made, m.enlists = false

structure Works (p : CallPlan) (ready : Bool) (acts : List (PeerAct α)) (x : Serving α)
    (s : Served α) : Prop where
  mirrors : s.Mirrors p ready acts x
  shape : x.handler.shape.writes = false
  result : s.result = none
  inbound : s.inbound = x.handler.inbound
  sink : s.sink = x.handler.sink
  program : ∀ j ∈ x.handler.program, j.sends = false

/-- How far the handler has come with the answers it has `given`, and what there is to be written of
them. -/
inductive Answers (p : CallPlan) (ready : Bool) (acts : List (PeerAct α)) (x : Serving α) :
    List α → Prop where
  | works {s : Served α} (hw : Works p ready acts x s) (hp : ∀ sd, x.handler.phase ≠ .responding sd)
      (hs : Unsent s) : Answers p ready acts x []
  | fresh {s : Served α} {v : α} (hw : Works p ready acts x s)
      (hp : x.handler.phase = .responding (.fresh v)) (hsends : s.course.sends = [.fresh v])
      (hidle : ∀ m ∈ s.made, m.enlists = false) : Answers p ready acts x [v]
  | placed {s : Served α} {v : α} {e : Enqueue} (hw : Works p ready acts x s)
      (hp : x.handler.phase = .responding (.placed e)) (hsends : s.course.sends = [.placed e])
      (hv : Course.toWrite .serve (.opened .serve p ready acts) s.made = [v]) :
      Answers p ready acts x [v]
  | failed {s : Served α} {f : Failure} {given : List α} (hm : s.Mirrors p ready acts x)
      (hp : x.handler.phase = .returned) (hr : s.result = some (.error f))
      (hgiven : given.length ≤ 1)
      (hv : Course.toWrite .serve (.opened .serve p ready acts) s.made <+: given) :
      Answers p ready acts x given
  | content {s : Served α} {v : α} (hm : s.Mirrors p ready acts x)
      (hp : x.handler.phase = .returned) (hr : s.result = some (.ok ()))
      (hv : Course.toWrite .serve (.opened .serve p ready acts) s.made = [v]) :
      Answers p ready acts x [v]

theorem Answers.start (p : CallPlan) (ready : Bool) (acts : List (PeerAct α)) {shape : Shape}
    (hshape : shape.writes = false) {program : List (Instr α)}
    (hprogram : ∀ j ∈ program, j.sends = false) (gates : List String) :
    Answers p ready acts (opened p ready acts shape program gates) [] := by
  refine .works (s := served p ready acts) ?_ ?_ ⟨rfl, by simp [served]⟩
  · exact
      { mirrors := .start p ready acts shape program gates
        shape := hshape
        result := rfl
        inbound := rfl
        sink := rfl
        program := hprogram }
  · intro sd
    simp only [opened, Handler.new]
    split <;> simp

/-! What goes on around the handler. -/

theorem Works.around (h : Works p ready acts x s) (hm : m.around = true) :
    Works p ready acts { x with call := (x.course.step m).call, now := (x.course.step m).now }
      (s.make m) :=
  { h with mirrors := h.mirrors.around hm }

theorem Works.rests (h : Works p ready acts x s) {k : Handler α} (hk : x.handler.Stays k) :
    Works p ready acts { x with handler := k } s :=
  { mirrors := ⟨h.mirrors.honest, h.mirrors.call, h.mirrors.now⟩
    shape := hk.shape ▸ h.shape
    result := h.result
    inbound := h.inbound.trans hk.inbound.symm
    sink := h.sink.trans hk.sink.symm
    program := hk.program h.program }

theorem Answers.around (h : Answers p ready acts x given) (hm : m.around = true) :
    Answers p ready acts { x with call := (x.course.step m).call, now := (x.course.step m).now }
      given := by
  have henlists := Move.enlists_of_around hm
  have hwrite : ∀ s : Served α,
      Course.toWrite .serve (.opened .serve p ready acts) (s.make m).made =
        Course.toWrite .serve (.opened .serve p ready acts) s.made :=
    fun s => Course.toWrite_concat _ _ _ henlists
  have hstill : ∀ s : Served α, (s.make m).course.sends = s.course.sends :=
    fun s => (s.course.step_around hm).2.2
  have hidles : ∀ s : Served α, (∀ n ∈ s.made, n.enlists = false) →
      ∀ n ∈ (s.make m).made, n.enlists = false := by
    intro s hs n hn
    obtain hn | hn := List.mem_append.mp hn
    · exact hs n hn
    · exact List.mem_singleton.mp hn ▸ henlists
  cases h with
  | works hw hp hs =>
    exact .works (hw.around hm) hp ⟨(hstill _).trans hs.sends, hidles _ hs.idle⟩
  | fresh hw hp hsends hidle =>
    exact .fresh (hw.around hm) hp ((hstill _).trans hsends) (hidles _ hidle)
  | placed hw hp hsends hv =>
    exact .placed (hw.around hm) hp ((hstill _).trans hsends) ((hwrite _).trans hv)
  | failed hmirrors hp hr hgiven hv =>
    exact .failed (hmirrors.around hm) hp hr hgiven (by rw [hwrite]; exact hv)
  | content hmirrors hp hr hv => exact .content (hmirrors.around hm) hp hr ((hwrite _).trans hv)

theorem Answers.rests (h : Answers p ready acts x given) {k : Handler α} (hk : x.handler.Stays k) :
    Answers p ready acts { x with handler := k } given := by
  cases h with
  | works hw hp hs =>
    exact .works (hw.rests hk) (fun sd hsd => hp sd (hk.phase.symm.trans hsd)) hs
  | fresh hw hp hsends hidle => exact .fresh (hw.rests hk) (hk.phase.trans hp) hsends hidle
  | placed hw hp hsends hv => exact .placed (hw.rests hk) (hk.phase.trans hp) hsends hv
  | failed hm hp hr hgiven hv =>
    exact .failed ⟨hm.honest, hm.call, hm.now⟩ (hk.phase.trans hp) hr hgiven hv
  | content hm hp hr hv => exact .content ⟨hm.honest, hm.call, hm.now⟩ (hk.phase.trans hp) hr hv

/-! The turns of the handler. -/

/-- The handler goes on, after moves that are not made with its sink. -/
theorem Works.goesOn (h : Works p ready acts x s) (hms : ∀ m ∈ ms, m.onSink = false)
    (hnow : (s.course.run ms).now = s.course.now) {k : Handler α}
    (hshape : k.shape = x.handler.shape) (hsink : k.sink = x.handler.sink)
    (hprogram : ∀ j ∈ k.program, j.sends = false) :
    Works p ready acts { x with call := (s.course.run ms).call, handler := k }
      { s.makes ms with inbound := k.inbound } := by
  have hmakes := h.mirrors.honest.makes h.result hms
  exact
    { mirrors :=
        { honest := ⟨hmakes.course, hmakes.stage, hmakes.half, hmakes.written⟩
          call := rfl
          now := hnow.trans h.mirrors.now }
      shape := hshape ▸ h.shape
      result := h.result
      inbound := rfl
      sink := h.sink.trans hsink.symm
      program := hprogram }

theorem idle_append (hidle : ∀ m ∈ s.made, m.enlists = false) (hms : ∀ m ∈ ms, m.enlists = false) :
    ∀ m ∈ (s.makes ms).made, m.enlists = false := by
  intro m hm
  exact (List.mem_append.mp hm).elim (hidle m) (hms m)

/-- The handler goes on with its program, after moves with its stream. -/
theorem Works.reads (h : Works p ready acts x s) (hs : Unsent s)
    (hms : ∀ m ∈ ms, m.onStream = true) {k : Handler α} (hshape : k.shape = x.handler.shape)
    (hsink : k.sink = x.handler.sink) (hprogram : ∀ j ∈ k.program, j.sends = false) :
    ∃ t, Works p ready acts { x with call := (s.course.run ms).call, handler := k } t ∧
      Unsent t := by
  obtain ⟨hnow, hstill⟩ := Course.run_onStream (s := s.course) hms
  have hspared : ∀ m ∈ ms, m.onSink = false := fun m hm => Move.onSink_of_onStream (hms m hm)
  exact ⟨_, h.goesOn hspared hnow hshape hsink hprogram, hstill.trans hs.sends,
    idle_append hs.idle fun m hm => Move.enlists_of_onStream (hms m hm)⟩

/-- What an instruction does to the call of such a handler is a move with its stream. -/
theorem Works.exists_touches (h : Works p ready acts x s) {i : Instr α} (hi : i.sends = false)
    {d : Call α} (hd : x.handler.Touches i x.call d) :
    ∃ ms, (∀ m ∈ ms, m.onStream = true) ∧ (s.course.run ms).call = d := by
  have hnowrite : x.handler.canWrite = false := by rw [Handler.canWrite, h.shape]; rfl
  rw [← h.mirrors.call] at hd
  cases hd with
  | nothing => exact ⟨[], by simp, rfl⟩
  | recv => exact ⟨[.recv], by simp [Move.onStream], rfl⟩
  | cancelInbound => exact ⟨[.cancelInbound], by simp [Move.onStream], rfl⟩
  | fails _ f => exact ⟨[.cancel f.toStatus], by simp [Move.onStream], rfl⟩
  | trySend hw => cases hnowrite.symm.trans hw
  | closes hw => cases hnowrite.symm.trans hw
  | cloneSink hw => cases hnowrite.symm.trans hw
  | pollSend hs => cases hi.symm.trans hs

/-- A handler that returns with an error has nothing more to send. -/
theorem Works.fails (h : Works p ready acts x s)
    (hv : Course.toWrite .serve (.opened .serve p ready acts) s.made <+: given)
    (hgiven : given.length ≤ 1) (f : Failure) :
    Answers p ready acts { x with
      call := (Handler.finish x.call x.handler (.error f)).1
      handler := (Handler.finish x.call x.handler (.error f)).2 } given := by
  refine .failed (h.mirrors.finish h.result h.inbound h.sink _) (Handler.phase_finish _ _ _) rfl
    hgiven ?_
  exact (Course.toWrite_append (Served.enlists_leaving _ _ _)).symm ▸ hv

theorem Works.failsEarly (h : Works p ready acts x s) (hs : Unsent s) (f : Failure) :
    Answers p ready acts { x with
      call := (Handler.finish x.call x.handler (.error f)).1
      handler := (Handler.finish x.call x.handler (.error f)).2 } [] :=
  h.fails (Course.toWrite_prefix_of_idle hs.idle []) (by simp) f

def ended : Except Failure α → List α
  | .ok v => [v]
  | .error _ => []

/-- A program that ends lets the requests go before its response is sent. -/
theorem Works.concludes (h : Works p ready acts x s) (hs : Unsent s) (r : Except Failure α) :
    Answers p ready acts { x with
      call := (Handler.conclude x.call x.handler r).1
      handler := (Handler.conclude x.call x.handler r).2 } (ended r) := by
  cases r with
  | error f =>
    rw [Handler.conclude, ended]
    exact h.failsEarly hs _
  | ok v =>
    set ms : List (Move α) := (if x.handler.inbound then [.dropInbound] else []) ++ [.openSend v]
      with hms
    have hcall : (s.course.run ms).call =
        if x.handler.inbound then x.call.dropInbound else x.call := by
      rw [hms, Course.run_concat, ← h.mirrors.call]
      cases x.handler.inbound <;> rfl
    have hnow : (s.course.run ms).now = s.course.now := by
      rw [hms, Course.run_concat]
      cases x.handler.inbound <;> rfl
    have hsend : (s.course.run ms).sends = [.fresh v] := by
      have hempty :
          (s.course.run (if x.handler.inbound then [.dropInbound] else [])).sends = [] := by
        cases x.handler.inbound <;> exact hs.sends
      rw [hms, Course.run_concat]
      exact congrArg (· ++ [Send.fresh v]) hempty
    have hmoves : ∀ m ∈ ms, m.onSink = false ∧ m.enlists = false := by
      rw [hms]
      cases x.handler.inbound <;> simp [Move.onSink, Move.enlists]
    rw [Handler.conclude_ok h.shape, ← hcall]
    refine .fresh (h.goesOn (fun m hm => (hmoves m hm).1) hnow rfl rfl h.program) rfl hsend ?_
    exact idle_append hs.idle fun m hm => (hmoves m hm).2

/-- The handler goes on after a look at its send. -/
theorem Works.looks (h : Works p ready acts x s) {sd : Send α} (hsends : s.course.sends = [sd])
    {k : Handler α} (hshape : k.shape = x.handler.shape) (hsink : k.sink = x.handler.sink)
    (hprogram : ∀ j ∈ k.program, j.sends = false) :
    Works p ready acts { x with call := (x.call.pollSend sd).1, handler := k }
      { s.makes [.pollSend 0] with inbound := k.inbound } := by
  have hspared : ∀ m ∈ [Move.pollSend 0], (m : Move α).onSink = false := by simp [Move.onSink]
  have hgoes := h.goesOn hspared (Served.now_pollSend _ 0) hshape hsink hprogram
  rw [Course.run, List.foldl_cons, List.foldl_nil, Course.call_look hsends, h.mirrors.call] at hgoes
  exact hgoes

/-- A look at the send of the response leaves it to be written, or fails and leaves nothing. -/
theorem Answers.look {sd : Send α} (h : Answers p ready acts x given)
    (hp : x.handler.phase = .responding sd) :
    ∃ (s : Served α) (v : α), given = [v] ∧ Works p ready acts x s ∧ s.course.sends = [sd] ∧
      Course.toWrite .serve (.opened .serve p ready acts) (s.made ++ [.pollSend 0]) <+: [v] ∧
      ((∀ e, (x.call.pollSend sd).2.2 ≠ some (.error e)) →
        Course.toWrite .serve (.opened .serve p ready acts) (s.made ++ [.pollSend 0]) = [v]) := by
  cases h with
  | works hw hno => exact absurd hp (hno sd)
  | @fresh s v hw hp' hsends hidle =>
    obtain rfl : sd = .fresh v := Phase.responding.inj (hp.symm.trans hp')
    have hcourse := hw.mirrors.honest.course
    have hwrite := Course.toWrite_fresh hidle (hcourse ▸ hsends)
    obtain ⟨hregisters, _⟩ := Course.registers_fresh x.call v
    rw [← hcourse, hw.mirrors.call] at hwrite
    refine ⟨s, v, rfl, hw, hsends, ?_, fun hok => ?_⟩
    · obtain hone | ⟨hnone, _⟩ := hregisters
      · exact (hwrite.trans hone) ▸ List.prefix_rfl
      · rw [hwrite, hnone]
        exact List.nil_prefix
    · obtain hone | ⟨_, e, he⟩ := hregisters
      · exact hwrite.trans hone
      · exact absurd he (hok e)
  | @placed s v e hw hp' hsends hv =>
    obtain rfl : sd = .placed e := Phase.responding.inj (hp.symm.trans hp')
    have hcourse := hw.mirrors.honest.course
    obtain ⟨hless, hsame⟩ := Course.toWrite_placed (s := .opened .serve p ready acts)
      (hcourse ▸ hsends)
    rw [hv] at hless hsame
    rw [← hcourse, hw.mirrors.call] at hsame
    refine ⟨s, v, rfl, hw, hsends, ?_, fun hok => hsame (Call.status_of_pollSend hok)⟩
    obtain hnone | hone := List.sublist_singleton.mp hless
    · rw [hnone]
      exact List.nil_prefix
    · exact hone ▸ List.prefix_rfl
  | failed _ hp' => cases hp.symm.trans hp'
  | content _ hp' => cases hp.symm.trans hp'

/-- The send of the response goes on. -/
theorem Answers.waits {sd : Send α} (h : Answers p ready acts x given)
    (hp : x.handler.phase = .responding sd) (hx : (x.call.pollSend sd).2.2 = none) :
    Answers p ready acts { x with
      call := (x.call.pollSend sd).1
      handler := { x.handler with phase := .responding (x.call.pollSend sd).2.1 } } given := by
  obtain ⟨s, v, rfl, hw, hsends, _, hall⟩ := h.look hp
  have hok : ∀ e, (x.call.pollSend sd).2.2 ≠ some (.error e) := by simp [hx]
  obtain ⟨e, he⟩ := Call.placed_of_pollSend (Call.status_of_pollSend hok) sd
  have hsend := Course.sends_look hsends (by rw [hw.mirrors.call, hx])
  rw [hw.mirrors.call] at hsend
  have hgoes := hw.looks hsends
    (k := { x.handler with phase := .responding (x.call.pollSend sd).2.1 }) rfl rfl hw.program
  exact .placed hgoes (by rw [he]) (hsend.trans (by rw [he])) (hall hok)

/-- The send of the response is over, and so is the handler. -/
theorem Answers.answered {sd : Send α} {r : SendResult} (h : Answers p ready acts x given)
    (hp : x.handler.phase = .responding sd) (hx : (x.call.pollSend sd).2.2 = some r) :
    Answers p ready acts { x with
      call := (Handler.finish (x.call.pollSend sd).1 x.handler (Handler.answer r)).1
      handler := (Handler.finish (x.call.pollSend sd).1 x.handler (Handler.answer r)).2 }
      given := by
  obtain ⟨s, v, rfl, hw, hsends, hsome, hall⟩ := h.look hp
  have hgoes := hw.looks hsends (k := x.handler) rfl rfl hw.program
  cases r with
  | error e => exact hgoes.fails hsome (by simp) (.ofQueue e)
  | ok u =>
    have hwritten := hall (by simp [hx])
    refine .content (hgoes.mirrors.finish hgoes.result hgoes.inbound hgoes.sink _)
      (Handler.phase_finish _ _ _) rfl ?_
    exact (Course.toWrite_append (Served.enlists_leaving _ _ _)).trans hwritten

/-- The handler has not come to its response yet. -/
theorem Answers.working (h : Answers p ready acts x given)
    (hp : x.handler.asking = true ∨ x.handler.phase = .running) :
    given = [] ∧ ∃ s, Works p ready acts x s ∧ Unsent s := by
  cases h with
  | works hw _ hs => exact ⟨rfl, _, hw, hs⟩
  | fresh _ hp' => simp [Handler.asking, hp'] at hp
  | placed _ hp' => simp [Handler.asking, hp'] at hp
  | failed _ hp' => simp [Handler.asking, hp'] at hp
  | content _ hp' => simp [Handler.asking, hp'] at hp

/-- A look at the request. -/
theorem Works.readsRequest (h : Works p ready acts x s) (hs : Unsent s) (r : Call.Single α)
    {k : Handler α} (hshape : k.shape = x.handler.shape) (hsink : k.sink = x.handler.sink)
    (hprogram : ∀ j ∈ k.program, j.sends = false) :
    ∃ t, Works p ready acts { x with call := (Handler.readRequest x.call r).1, handler := k } t ∧
      Unsent t := by
  obtain ⟨n, hrecvs, _⟩ := s.course.exists_recvs "client half-closed without a request"
    "received more than one request" r
  have hcall := congrArg Course.call hrecvs
  rw [h.mirrors.call] at hcall
  have hreads := h.reads hs
    (fun m hm => by rw [List.eq_of_mem_replicate hm]; rfl : ∀ m ∈ List.replicate n Move.recv, _)
    hshape hsink hprogram
  rw [← hcall] at hreads
  exact hreads

/-- An instruction goes on with the stream, or is the end of the program. -/
theorem Works.executes (h : Works p ready acts x s) (hs : Unsent s)
    (hp : x.handler.phase = .running) {i : Instr α} (hi : i.sends = false) {d : Call α}
    {k : Handler α} (hd : Handler.Does x.call x.handler i d k) :
    (k.phase = .running ∧ Answers p ready acts { x with call := d, handler := k } []) ∨
      ∃ c r, k = (Handler.conclude c x.handler r).2 ∧
        Answers p ready acts { x with call := d, handler := k } (ended r) := by
  have hnowrite : x.handler.canWrite = false := by rw [Handler.canWrite, h.shape]; rfl
  cases hd with
  | goes hd hk =>
    obtain ⟨ms, hms, rfl⟩ := h.exists_touches hi hd
    obtain ⟨t, hw, hnone⟩ := h.reads hs hms hk.shape hk.sink
      (hk.program hnowrite hi h.program)
    have hphase : k.phase = .running := hk.phase.trans hp
    exact .inl ⟨hphase, .works hw (by simp [hphase]) hnone⟩
  | dropsInbound =>
    have hdrop : ∀ m ∈ [Move.dropInbound], (m : Move α).onStream = true := by simp [Move.onStream]
    obtain ⟨t, hw, hnone⟩ := h.reads hs hdrop
      (k := { x.handler with inbound := false }) rfl rfl h.program
    rw [← h.mirrors.call]
    exact .inl ⟨hp, .works hw (by simp [hp]) hnone⟩
  | dropsSink hw => cases hnowrite.symm.trans hw
  | returns hd r =>
    obtain ⟨ms, hms, rfl⟩ := h.exists_touches hi hd
    obtain ⟨t, hw, hnone⟩ := h.reads hs hms (k := x.handler) rfl rfl h.program
    exact .inr ⟨_, r, rfl, hw.concludes hnone r⟩

/-- There is one answer at most, and it is all there is to be written. -/
theorem Answers.settled (h : Answers p ready acts x given) :
    ∃ s : Served α, s.Mirrors p ready acts x ∧
      Course.toWrite .serve (.opened .serve p ready acts) s.made <+: given ∧ given.length ≤ 1 ∧
      (s.result = some (.ok ()) → ∃ v, given = [v] ∧
        Course.toWrite .serve (.opened .serve p ready acts) s.made = [v]) := by
  have hruns : ∀ {s : Served α} {P : Prop}, Works p ready acts x s → s.result = some (.ok ()) → P :=
    fun hw hok => by cases hw.result.symm.trans hok
  cases h with
  | works hw _ hs =>
    exact ⟨_, hw.mirrors, Course.toWrite_prefix_of_idle hs.idle _, by simp, hruns hw⟩
  | fresh hw _ _ hidle =>
    exact ⟨_, hw.mirrors, Course.toWrite_prefix_of_idle hidle _, by simp, hruns hw⟩
  | placed hw _ _ hv =>
    exact ⟨_, hw.mirrors, hv ▸ List.prefix_rfl, by simp, hruns hw⟩
  | failed hm _ hr hgiven hv =>
    exact ⟨_, hm, hv, hgiven, fun hok => by cases hr.symm.trans hok⟩
  | content hm _ _ hv =>
    exact ⟨_, hm, hv ▸ List.prefix_rfl, by simp, fun _ => ⟨_, rfl, hv⟩⟩

section
variable [Message α]

def answers (x : Serving α) (b : Beat α) : List α :=
  match x.handler.phase, (x.beat b).handler.phase with
  | .running, .responding (.fresh v) => [v]
  | _, _ => []

theorem answers_of_same {b : Beat α} (hb : (x.beat b).handler.phase = x.handler.phase) :
    x.answers b = [] := by
  rw [answers, hb]
  cases x.handler.phase <;> rfl

theorem answers_of_running {b : Beat α} {r : Except Failure α} {c : Call α} {h : Handler α}
    (hp : x.handler.phase = .running) (hw : h.shape.writes = false)
    (hb : (x.beat b).handler = (Handler.conclude c h r).2) : x.answers b = ended r := by
  rw [answers, hp, hb]
  cases r with
  | error f => rw [Handler.conclude, Handler.phase_finish, ended]
  | ok v => rw [Handler.conclude_ok hw, ended]

theorem Answers.turn (h : Answers p ready acts x given) {d : Call α} {k : Handler α}
    (ht : Handler.Takes x.call x.handler d k)
    (hy : x.beat .turn = { x with call := d, handler := k }) :
    Answers p ready acts { x with call := d, handler := k } (given ++ x.answers .turn) := by
  cases ht with
  | @asks r hp hx =>
    obtain ⟨rfl, s, hw, hs⟩ := h.working (.inl (by rw [Handler.asking, hp]))
    obtain ⟨t, hgoes, hnone⟩ := hw.readsRequest hs r
      (k := { x.handler with phase := .request (Handler.readRequest x.call r).2.1 }) rfl rfl
      hw.program
    have hgiven : x.answers .turn = [] := by simp [answers, hy, hp]
    rw [hgiven]
    exact .works hgoes (by simp) hnone
  | @refuses r st hp hx =>
    obtain ⟨rfl, s, hw, hs⟩ := h.working (.inl (by rw [Handler.asking, hp]))
    obtain ⟨t, hgoes, hnone⟩ := hw.readsRequest hs r (k := x.handler) rfl rfl hw.program
    have hgiven : x.answers .turn = [] := by simp [answers, hy, hp]
    rw [hgiven]
    exact hgoes.failsEarly hnone _
  | @begins r v hp hx =>
    obtain ⟨rfl, s, hw, hs⟩ := h.working (.inl (by rw [Handler.asking, hp]))
    obtain ⟨t, hgoes, hnone⟩ := hw.readsRequest hs r
      (k := { x.handler with phase := .running, acc := [v] }) rfl rfl hw.program
    have hgiven : x.answers .turn = [] := by simp [answers, hy, hp]
    rw [hgiven]
    exact .works hgoes (by simp) hnone
  | runsOut hp hi =>
    obtain ⟨rfl, s, hw, hs⟩ := h.working (.inr hp)
    rw [answers_of_running hp hw.shape (by rw [hy])]
    exact hw.concludes hs _
  | @executes i rest _ _ hp hi hd =>
    obtain ⟨rfl, s, hw, hs⟩ := h.working (.inr hp)
    have hprogram := hw.program
    rw [hi, List.forall_mem_cons] at hprogram
    have hgoes : Works p ready acts { x with handler := { x.handler with program := rest } } s :=
      hw.rests ⟨rfl, rfl, rfl, rfl, rfl, fun _ => hprogram.2⟩
    obtain ⟨hphase, hlast⟩ | ⟨c, r, rfl, hlast⟩ :=
      hgoes.executes hs hp hprogram.1 hd
    · rw [answers_of_same (by rw [hy, hp]; exact hphase)]
      exact hlast
    · rw [answers_of_running hp hgoes.shape (by rw [hy])]
      exact hlast
  | @waits sd hp hx =>
    have hgiven : x.answers .turn = [] := by simp [answers, hy, hp]
    rw [hgiven, List.append_nil]
    exact h.waits hp hx
  | @answered sd r hp hx =>
    have hgiven : x.answers .turn = [] := by simp [answers, hy, hp]
    rw [hgiven, List.append_nil]
    exact h.answered hp hx

/-- The handler of one response, however it is run. -/
theorem answers_run (p : CallPlan) (ready : Bool) (acts : List (PeerAct α)) {shape : Shape}
    (hshape : shape.writes = false) {program : List (Instr α)}
    (hprogram : ∀ j ∈ program, j.sends = false) (gates : List String) (bs : List (Beat α)) :
    let x₀ := opened p ready acts shape program gates
    Answers p ready acts (x₀.beats bs) (collect answers x₀ bs) := by
  intro x₀
  induction bs using List.reverseRecOn with
  | nil => exact .start p ready acts hshape hprogram gates
  | append_singleton bs b ih =>
    obtain ⟨x, hbs⟩ : ∃ x, x = x₀.beats bs := ⟨_, rfl⟩
    obtain ⟨y, hy⟩ : ∃ y, x.beat b = y := ⟨_, rfl⟩
    rw [beats_concat, collect_concat, ← hbs, hy]
    rw [← hbs] at ih
    have hgoes := goes_beat x b
    rw [hy] at hgoes
    cases hgoes with
    | @around m hm =>
      rw [answers_of_same (by rw [hy]), List.append_nil]
      exact ih.around hm
    | rests _ _ hk =>
      rw [answers_of_same (by rw [hy]; exact hk.phase), List.append_nil]
      exact ih.rests hk
    | turn ht => exact ih.turn ht hy

/-- What is written of one response is what the program ended with; and it is written when the call
is half-closed. -/
theorem answers_written (p : CallPlan) (ready : Bool) (acts : List (PeerAct α)) {shape : Shape}
    (hshape : shape.writes = false) {program : List (Instr α)}
    (hprogram : ∀ j ∈ program, j.sends = false) (gates : List String) (bs : List (Beat α)) :
    let x₀ := opened p ready acts shape program gates
    let x := x₀.beats bs
    x.course.written <+: collect answers x₀ bs ∧ (collect answers x₀ bs).length ≤ 1 ∧
      (x.call.wire.halfClosed = true →
        ∃ v, collect answers x₀ bs = [v] ∧ x.course.written = [v]) := by
  intro x₀ x
  obtain ⟨s, hm, hv, hone, hcontent⟩ := (answers_run p ready acts hshape hprogram gates bs).settled
  have hwritten : s.course.written = x.course.written :=
    congrArg (fun c : Call α => c.wire.sent.toList) hm.call
  have hbound := (Course.sound_opened .serve p ready acts s.made).written
  rw [← hm.honest.course] at hbound
  refine ⟨?_, hone, fun hhalf => ?_⟩
  · rw [← hwritten]
    exact List.IsPrefix.trans hbound hv
  · rw [← hm.call] at hhalf
    obtain ⟨v, hgiven, hall⟩ := hcontent (hm.honest.half hhalf)
    exact ⟨v, hgiven, by rw [← hwritten, hm.honest.written hhalf, hall]⟩

/-- A handler that takes one request begins with it once the peer has completed the call after it,
or not at all, and then the call ends with an error of its own. A handler of one response sends
what its program ends with, and nothing else. -/
theorem single_exact (p : CallPlan) (hp : p.role = .server) (ready : Bool)
    (acts : List (PeerAct α)) (shape : Shape) (program : List (Instr α)) (gates : List String)
    (bs : List (Beat α)) :
    let x₀ := opened p ready acts shape program gates
    let x := x₀.beats bs
    let requests := collect Serving.accepts x₀ bs
    let begun := collect starts x₀ bs
    let given := collect answers x₀ bs
    (shape.reads = false →
      (begun = [] ∨ ∃ v, begun = [v] ∧ requests = [v] ∧ x₀.CompletedIn bs) ∧
      (x₀.Unasked bs → begun = [] ∧
        (x₀.Uncancelled bs → (∀ a, .around (.peer a) ∈ bs → a.ends .server = false) → x.Still →
          ∃ st l, st.code = .internal ∧ x.call.wire.closedWith = some st ∧
            (Opening.serve.idle p (.before ready acts)).handle.Uses l x.call.handle ∧
            l.filter Signal.ends = [.closeWithError st] ∧ x.call.wire.cancellations = [] ∧
            x.course.written = []))) ∧
    (shape.writes = false → (∀ j ∈ program, j.sends = false) →
      x.course.written <+: given ∧ given.length ≤ 1 ∧
        (x.call.wire.halfClosed = true → ∃ v, given = [v] ∧ x.course.written = [v])) := by
  intro x₀ x requests begun given
  refine ⟨fun hreads => ⟨?_, fun hask => ?_⟩, fun hwrites hprogram => ?_⟩
  · exact request_once hp ready acts hreads program gates bs
  · obtain ⟨hnone, htold⟩ := request_refused hp ready acts hreads program gates bs hask
    refine ⟨hnone, fun hun hpeer hstill => ?_⟩
    obtain ⟨hclosed, hwritten, hcancels, l, huses, hends⟩ := htold hun hpeer hstill
    exact ⟨_, l, code_refusal _, hclosed, huses, hends, hcancels, hwritten⟩
  · exact answers_written p ready acts hwrites hprogram gates bs

/-- Two calls: one whose peer completes it without a request, and one that is answered. -/
theorem single_exact_unary :
    let _ : Message Nat := ⟨0, fun vs => vs.foldl (· + ·) 0⟩
    let x₀ := opened { role := .server } true [] .unary [.respond 9] []
    let asked : List (Beat Nat) := [.around (.peer (.deliver 7)), .turn,
      .around (.peer .complete), .around (.enqueue 0), .turn, .turn, .turn, .around .pump]
    let unasked : List (Beat Nat) := [.turn, .around (.peer .complete), .turn, .around .pump,
      .around .supervise]
    (collect starts x₀ asked = [7] ∧ collect answers x₀ asked = [9] ∧
      (x₀.beats asked).call.wire.halfClosed = true ∧ (x₀.beats asked).course.written = [9]) ∧
    collect starts x₀ unasked = [] ∧
      ∃ st : Status, st.code = .internal ∧ (x₀.beats unasked).call.wire.closedWith = some st := by
  intro inst x₀ asked unasked
  have hhalf : (x₀.beats asked).call.wire.halfClosed = true := by decide
  obtain ⟨_, hanswers⟩ := single_exact { role := .server } rfl true [] .unary [.respond 9] [] asked
  obtain ⟨v, hgiven, hwritten⟩ := (hanswers rfl (by simp [Instr.sends])).2.2 hhalf
  have hnine : collect answers x₀ asked = [9] := by decide
  obtain rfl : v = 9 := (List.cons.inj (hgiven.symm.trans hnine)).1
  have hcompleted : x₀.CompletedIn unasked := ⟨[.turn], _, rfl, by decide, by simp⟩
  have hun : x₀.Uncancelled unasked := by
    have hgoes : ∀ n < 6, (x₀.beats (unasked.take n)).handler.done = false →
        (x₀.beats (unasked.take n)).call.scope.cancelled = false := by decide
    intro before after hsplit
    have hlength : before.length < 6 := by
      have hall := congrArg List.length hsplit
      rw [List.length_append] at hall
      simp only [unasked, List.length_cons, List.length_nil] at hall
      omega
    have hbefore : unasked.take before.length = before := by rw [hsplit, List.take_left]
    exact hbefore ▸ hgoes before.length hlength
  have hstill : (x₀.beats unasked).Still :=
    { course := .of_done (by decide) (by decide) (List.isEmpty_iff.mp (by decide))
      handler := rfl }
  have hpeer : ∀ a, .around (.peer a) ∈ unasked → a.ends .server = false := by
    intro a ha
    simp only [unasked, List.mem_cons, Beat.around.injEq, Move.peer.injEq, reduceCtorEq,
      List.not_mem_nil, or_false, false_or] at ha
    rw [ha]
    rfl
  obtain ⟨hrefuses, _⟩ :=
    single_exact { role := .server } rfl true [] .unary [.respond 9] [] unasked
  obtain ⟨hnone, htold⟩ := (hrefuses rfl).2 (.inl ⟨hcompleted, by decide⟩)
  obtain ⟨st, _, hcode, hclosed, _⟩ := htold hun hpeer hstill
  have hseven : collect starts x₀ asked = [7] := by decide
  with_reducible exact ⟨⟨hseven, hnine, hhalf, hwritten⟩, hnone, st, hcode, hclosed⟩

end

end Serving
end PacedCall
