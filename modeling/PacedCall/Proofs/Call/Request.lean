import PacedCall.Proofs.Call.Beats
import PacedCall.Proofs.Call.Outcome

/-!
The one request of a served call. A handler that takes one request begins its program with that
request and nothing else, once the peer has completed the call after it; a call that comes without a
request, or with one too many, is closed with an error of its own, and nothing is written on it.
-/
namespace PacedCall

namespace Course
variable {α : Type} {o : Opening α} {p : CallPlan} {ready : Bool} {acts : List (PeerAct α)}
  {ms ns : List (Move α)}

/-- A failure leaves no queue open. -/
theorem closed_of_failed (o : Opening α) (p : CallPlan) (ready : Bool) (acts : List (PeerAct α))
    {st : Status} (ha : .peer (.fail st) ∈ ms) :
    ((opened o p ready acts).run ms).call.inbound.queue.closedForSend = true := by
  induction ms using List.reverseRecOn with
  | nil => cases ha
  | append_singleton ms m ih =>
    rw [run_concat]
    obtain ha | ha := List.mem_append.mp ha
    · exact closed_step _ (ih ha) m
    · obtain rfl := List.mem_singleton.mp ha
      set s := (opened o p ready acts).run ms with hs
      have hstarted : s.call.wire.started = true :=
        (later_run _ ms).started.trans (role_started_opened o p ready acts).2
      by_cases halive : s.call.alive = true
      · rw [step, withCall, Call.peer_fail hstarted, Call.hear, if_pos halive]
        exact Queue.isSome_close _ _
      · have hordered := ordered_run (ordered_opened o p ready acts)
          (role_started_opened o p ready acts).2 ms
        exact closed_step _ (hordered.gone (Call.supervisor_of_not_alive halive)) _

/-- Receives complete nothing. -/
theorem completedIn_recvs {s : Course α} {n : Nat} :
    s.CompletedIn (ms ++ List.replicate n .recv) ↔ s.CompletedIn ms := by
  induction n with
  | zero => simp
  | succ n ih => simp [List.replicate_succ', ← List.append_assoc, completedIn_concat, ih]

theorem collect_accepts_recvs {s : Course α} {n : Nat} :
    collect accepts s (List.replicate n .recv) = [] := by
  induction n generalizing s with
  | zero => rfl
  | succ n ih =>
    rw [List.replicate_succ, collect, ih, accepts_of_silent rfl]
    rfl

theorem collect_of_idle {s : Course α} (hms : ∀ m ∈ ms, m.enlists = false) :
    collect registers s ms = [] ∧ collect withdraws s ms = [] := by
  induction ms using List.reverseRecOn with
  | nil => exact ⟨rfl, rfl⟩
  | append_singleton ms m ih =>
    obtain ⟨hregisters, hwithdraws⟩ := ih fun n hn => hms n (List.mem_append_left _ hn)
    have hm := hms m (by simp)
    rw [collect_concat, collect_concat, hregisters, hwithdraws]
    cases m <;> first | exact ⟨rfl, rfl⟩ | cases hm

/-- Nothing is to be written as long as nothing is registered. -/
theorem toWrite_of_idle {s : Course α} (hms : ∀ m ∈ ms, m.enlists = false) :
    toWrite .serve s ms = [] := by
  obtain ⟨hregisters, hwithdraws⟩ := collect_of_idle (s := s) hms
  rw [toWrite, hregisters, hwithdraws]
  rfl

/-- A server that receives and lets its halves go does not touch its scope. -/
theorem scope_letsGo {s : Course α} (hr : s.call.handle.role = .server)
    (hms : ∀ m ∈ ms, m = .recv ∨ m = .dropInbound ∨ m = .dropSink) :
    (s.run ms).call.scope = s.call.scope := by
  induction ms using List.reverseRecOn with
  | nil => rfl
  | append_singleton ms m ih =>
    rw [run_concat, ← ih fun n hn => hms n (List.mem_append_left _ hn)]
    have hrole := (later_run s ms).role.trans hr
    obtain rfl | rfl | rfl := hms m (by simp)
    · rw [step, withCall, Call.recv]
      split <;> rfl
    · rw [step, withCall, Call.dropInbound, hrole]
      split <;> rfl
    · rw [step, withCall, Call.dropSink]
      simp only
      split <;> rfl

/-- A server whose handler fails cancels its scope with the error, once its halves are let go. -/
theorem scope_leaving {s : Course α} (hr : s.call.handle.role = .server) (inbound sink : Bool)
    (f : Failure) :
    (s.run (Served.leaving inbound sink (.error f))).call.scope =
      s.call.scope.cancelWith .here f.toStatus := by
  set pre : List (Move α) :=
    (if inbound then [.dropInbound] else []) ++ (if sink then [.dropSink] else []) with hpre
  have hmoves : ∀ m ∈ pre, m = .recv ∨ m = .dropInbound ∨ m = .dropSink := by
    intro m hm
    simp only [hpre, List.mem_append, List.mem_ite_nil_right, List.mem_singleton] at hm
    exact .inr (hm.imp And.right And.right)
  have hrun : s.run (Served.leaving inbound sink (.error f)) =
      ((s.run pre).step (.cancel f.toStatus)).run [.close (.failed f.toStatus), .dropSink] := by
    rw [← run_concat, ← run_append, List.append_assoc]
    rfl
  rw [hrun, scope_run (Scope.cancelled_cancelWith _ _ _), ← scope_letsGo hr hmoves]
  rfl

end Course

namespace Served
variable {α : Type} {s : Served α} {p : CallPlan} {ready : Bool} {acts : List (PeerAct α)}
  {ms : List (Move α)}

def makes (s : Served α) (ms : List (Move α)) : Served α :=
  { s with course := s.course.run ms, made := s.made ++ ms }

theorem Honest.makes (h : s.Honest p ready acts) (hr : s.result = none)
    (hms : ∀ m ∈ ms, m.onSink = false) : (s.makes ms).Honest p ready acts := by
  induction ms using List.reverseRecOn with
  | nil => simpa [Served.makes] using h
  | append_singleton ms m ih =>
    have hbefore := ih fun n hn => hms n (List.mem_append_left _ hn)
    have hlast := hbefore.spared (m := m) (hms m (by simp)) fun hok => by
      rw [Served.makes, hr] at hok
      cases hok
    have hsame : s.makes (ms ++ [m]) = (s.makes ms).make m := by
      simp [Served.makes, Served.make, Course.run_concat]
    rw [hsame]
    exact hlast

theorem Honest.wraps (h : s.Honest p ready acts) :
    (({ s.makes s.ending with ending := [] } : Served α)).Honest p ready acts := by
  obtain ⟨ms, hms⟩ : ∃ ms, s.ending = ms := ⟨_, rfl⟩
  induction ms generalizing s with
  | nil =>
    have hsame : ({ s.makes s.ending with ending := [] } : Served α) = s := by
      obtain ⟨course, inbound, sink, result, ending, made⟩ := s
      cases hms
      simp [Served.makes]
    rw [hsame]
    exact h
  | cons m ms ih =>
    have hrest := ih (h.wrapUp hms) rfl
    rw [hms]
    simpa [Served.makes, Served.make, Course.run] using hrest

def finished (s : Served α) (r : Except Failure Unit) : Served α :=
  { s.makes (leaving s.inbound s.sink r) with inbound := false, sink := false, result := some r }

theorem Honest.finished (h : s.Honest p ready acts) (hr : s.result = none)
    (r : Except Failure Unit) :
    (s.finished r).Honest p ready acts ∧ (s.finished r).ending = [] := by
  have hlast := (h.returns hr r).wraps
  have hending : s.ending = [] := by
    have hstage := h.stage
    rw [hr] at hstage
    exact hstage.running_of_none.1
  have hsame : s.finished r = { Served.makes { s with
      inbound := false
      sink := false
      result := some r
      ending := leaving s.inbound s.sink r } (leaving s.inbound s.sink r) with ending := [] } := by
    simp [Served.finished, Served.makes, hending]
  rw [hsame]
  exact ⟨hlast, rfl⟩

theorem closed_finished (hin : s.inbound = true) (r : Except Failure Unit) :
    (s.finished r).course.call.inbound.queue.closedForSend = true := by
  rw [finished, makes, leaving, hin]
  exact Course.closed_run _ (Course.closed_dropInbound s.course) _

/-- A handler that fails in a scope that goes on cancels it with its error. -/
theorem status_finished (h : s.Honest p ready acts) (hrole : p.role = .server)
    (hs : s.course.call.scope.cancelled = false) (f : Failure) :
    (s.finished (.error f)).course.call.scope.status = some f.toStatus := by
  have hserver : s.course.call.handle.role = .server := by
    rw [h.course]
    exact (Course.role_run .serve p ready acts s.made).trans hrole
  have hrecorded : s.course.call.scope.Recorded := by
    rw [h.course]
    exact (Course.sound_opened .serve p ready acts s.made).recorded
  have hscope := Course.scope_leaving hserver s.inbound s.sink f
  rw [finished, makes, hscope, hrecorded.status_cancelWith, Scope.status_eq_none hs]
  rfl

structure Mirrors (p : CallPlan) (ready : Bool) (acts : List (PeerAct α)) (s : Served α)
    (x : Serving α) : Prop where
  honest : s.Honest p ready acts
  call : s.course.call = x.call
  now : s.course.now = x.now

namespace Mirrors
variable {x : Serving α}

theorem around (h : s.Mirrors p ready acts x) {m : Move α} (hm : m.around = true) :
    (s.make m).Mirrors p ready acts
      { x with call := (x.course.step m).call, now := (x.course.step m).now } := by
  obtain ⟨hcall, hnow, _⟩ := s.course.step_around hm
  rw [h.call, h.now] at hcall hnow
  exact ⟨h.honest.around hm, hcall, hnow⟩

theorem start (p : CallPlan) (ready : Bool) (acts : List (PeerAct α)) (shape : Shape)
    (program : List (Instr α)) (gates : List String) :
    (served p ready acts).Mirrors p ready acts
      (Serving.opened p ready acts shape program gates) :=
  ⟨.start p ready acts, rfl, rfl⟩

theorem finish (h : s.Mirrors p ready acts x) (hr : s.result = none)
    (hin : s.inbound = x.handler.inbound) (hsink : s.sink = x.handler.sink)
    (r : Except Failure Unit) :
    (s.finished r).Mirrors p ready acts
      { x with
        call := (Handler.finish x.call x.handler r).1
        handler := (Handler.finish x.call x.handler r).2 } := by
  refine ⟨(h.honest.finished hr r).1, ?_, ?_⟩
  · simp only [← h.call, Course.finish_eq_run s.course, finished, makes, leaving, hin, hsink]
  · exact (now_leaving _ _ _ _).trans h.now

theorem quiet (h : s.Mirrors p ready acts x) (hq : x.course.Quiet) : s.course.Quiet := by
  have hsame : ∀ {c : Call α}, c = x.call → s.course.withCall c = s.course := by
    intro c hc
    rw [hc, ← h.call]
    rfl
  have hcall : ∀ m : Move α, x.course.step m = x.course → (x.course.step m).call = x.call :=
    fun m hm => congrArg Course.call hm
  refine ⟨hsame ?_, hsame ?_, fun i => hsame ?_⟩
  · rw [h.call]
    exact hcall .pump hq.pump
  · rw [h.call, h.now]
    exact hcall .supervise hq.supervise
  · rw [h.call]
    exact hcall (.enqueue i) (hq.enqueue i)

end Mirrors
end Served

namespace Serving
variable {α : Type}

/-! What is seen of a call and its handler. -/

def accepts (x : Serving α) : Beat α → List α
  | .around m => if m.around then x.course.accepts m else []
  | _ => []

/-- A call whose queue is closed takes nothing in any more. -/
theorem accepts_of_closed {x : Serving α} (hc : x.call.inbound.queue.closedForSend = true)
    (b : Beat α) : x.accepts b = [] := by
  cases b with
  | around m =>
    rw [Serving.accepts]
    split
    · exact Course.accepts_of_closed hc m
    · rfl
  | _ => rfl

structure Still [Message α] (x : Serving α) : Prop where
  course : x.course.Quiet
  handler : x.handler.turn x.now x.call = .blocked

def refusal : List α → Status
  | [] => ⟨.internal, "client half-closed without a request", []⟩
  | _ => ⟨.internal, "received more than one request", []⟩

theorem code_refusal (l : List α) : (refusal l).code = .internal := by
  cases l <;> rfl

section
variable [Message α]

def starts (x : Serving α) : Beat α → List α
  | .turn => if x.handler.asking && !(x.beat .turn).handler.asking && !(x.beat .turn).handler.done
    then (x.beat .turn).handler.acc else []
  | _ => []

/-- The transport reports completion while the queue is open, and no failure before. -/
def CompletedIn (x : Serving α) (bs : List (Beat α)) : Prop :=
  ∃ before after, bs = before ++ .around (.peer .complete) :: after ∧
    (x.beats before).call.inbound.queue.closedForSend = false ∧
    ∀ st, .around (.peer (.fail st)) ∉ before

theorem completedIn_concat {x : Serving α} {bs : List (Beat α)} {b : Beat α} :
    x.CompletedIn (bs ++ [b]) ↔ x.CompletedIn bs ∨ b = .around (.peer .complete) ∧
      (x.beats bs).call.inbound.queue.closedForSend = false ∧
      ∀ st, .around (.peer (.fail st)) ∉ bs := exists_split_concat

def Uncancelled (x : Serving α) (bs : List (Beat α)) : Prop :=
  ∀ before after, bs = before ++ after → (x.beats before).handler.done = false →
    (x.beats before).call.scope.cancelled = false

theorem Uncancelled.before {x : Serving α} {bs cs : List (Beat α)} (h : x.Uncancelled (bs ++ cs)) :
    x.Uncancelled bs :=
  fun before after hsplit => h before (after ++ cs) (by rw [hsplit, List.append_assoc])

/-- No more than one request came with a call that was completed, or none. -/
def Unasked (x : Serving α) (bs : List (Beat α)) : Prop :=
  x.CompletedIn bs ∧ collect accepts x bs = [] ∨ 2 ≤ (collect accepts x bs).length

end

/-! How far the reading of the request has come. -/

section
variable [Message α] {p : CallPlan} {ready : Bool} {acts : List (PeerAct α)} {x₀ x y : Serving α}
  {bs : List (Beat α)} {b : Beat α} {s : Served α} {m : Move α} {r : Call.Single α}

/-- The handler still reads its request. What befell the call until then is moves around the
handler, and receives. -/
structure Asks (p : CallPlan) (ready : Bool) (acts : List (PeerAct α)) (x₀ : Serving α)
    (bs : List (Beat α)) (x : Serving α) (s : Served α) : Prop where
  mirrors : s.Mirrors p ready acts x
  result : s.result = none
  holds : s.inbound = true ∧ s.sink = true
  held : x.handler.inbound = true ∧ x.handler.sink = true
  whole : x.handler.textOnly = false
  made : ∀ m ∈ s.made, m.around = true ∨ m = .recv
  reading : ∃ r, x.handler.phase = .request r ∧
    r.got = Course.collect Course.returns (.opened .serve p ready acts) s.made
  accepts : Course.collect Course.accepts (.opened .serve p ready acts) s.made =
    collect accepts x₀ bs
  completed : (Course.opened .serve p ready acts).CompletedIn s.made ↔ x₀.CompletedIn bs
  peer : ∀ a, .peer a ∈ s.made ↔ .around (.peer a) ∈ bs
  starts : collect starts x₀ bs = []

structure Begun (x₀ : Serving α) (bs : List (Beat α)) (x : Serving α) : Prop where
  asking : x.handler.asking = false
  closed : x.call.inbound.queue.closedForSend = true
  completed : x₀.CompletedIn bs
  starts : ∃ v, collect starts x₀ bs = [v] ∧ collect accepts x₀ bs = [v]

structure Refused (p : CallPlan) (ready : Bool) (acts : List (PeerAct α)) (x₀ : Serving α)
    (bs : List (Beat α)) (x : Serving α) (s : Served α) : Prop where
  mirrors : s.Mirrors p ready acts x
  returned : x.handler.phase = .returned
  failed : ∃ f, s.result = some (.error f)
  ending : s.ending = []
  idle : ∀ m ∈ s.made, m.enlists = false
  peer : ∀ a, .peer a ∈ s.made → .around (.peer a) ∈ bs
  closed : x.call.inbound.queue.closedForSend = true
  starts : collect starts x₀ bs = []
  status : x₀.Uncancelled bs → x₀.Unasked bs →
    x.call.scope.status = some (refusal (collect accepts x₀ bs))

namespace Asks

theorem asking (h : Asks p ready acts x₀ bs x s) : x.handler.asking = true := by
  obtain ⟨r, hp, _⟩ := h.reading
  rw [Handler.asking, hp]

theorem not_done (h : Asks p ready acts x₀ bs x s) : x.handler.done = false := by
  obtain ⟨r, hp, _⟩ := h.reading
  rw [Handler.done, hp]

theorem givesUp (h : Asks p ready acts x₀ bs x s) : ∀ m ∈ s.made, ¬ m.givesUp := by
  rintro m hm (rfl | rfl)
  · obtain hm | hm := h.made _ hm <;> cases hm
  · obtain hm | hm := h.made _ hm <;> cases hm

theorem enlists (h : Asks p ready acts x₀ bs x s) : ∀ m ∈ s.made, m.enlists = false := by
  intro m hm
  obtain hm | rfl := h.made m hm
  · exact Move.enlists_of_around hm
  · rfl

theorem start (p : CallPlan) (ready : Bool) (acts : List (PeerAct α)) {shape : Shape}
    (hshape : shape.reads = false) (program : List (Instr α)) (gates : List String) :
    let x₀ := opened p ready acts shape program gates
    Asks p ready acts x₀ [] x₀ (served p ready acts) := by
  intro x₀
  have hphase : x₀.handler.phase = .request .first := by
    simp [x₀, opened, Handler.new, hshape]
  refine
    { mirrors := .start p ready acts shape program gates
      result := rfl
      holds := ⟨rfl, rfl⟩
      held := ⟨rfl, rfl⟩
      whole := rfl
      made := nofun
      reading := ⟨.first, hphase, rfl⟩
      accepts := rfl
      completed := ?_
      peer := fun a => ⟨nofun, nofun⟩
      starts := rfl }
  constructor <;>
    · rintro ⟨before, after, hsplit, _⟩
      cases before <;> cases hsplit

theorem around (h : Asks p ready acts x₀ bs x s) (hbs : x = x₀.beats bs) (hm : m.around = true) :
    Asks p ready acts x₀ (bs ++ [.around m])
      { x with call := (x.course.step m).call, now := (x.course.step m).now } (s.make m) := by
  have hopen : s.course.call.inbound.queue.closedForSend =
      (x₀.beats bs).call.inbound.queue.closedForSend := by rw [h.mirrors.call, hbs]
  obtain ⟨r, hp, hgot⟩ := h.reading
  have hcourse := h.mirrors.honest.course
  refine
    { mirrors := h.mirrors.around hm
      result := h.result
      holds := h.holds
      held := h.held
      whole := h.whole
      made := ?_
      reading := ⟨r, hp, ?_⟩
      accepts := ?_
      completed := ?_
      peer := ?_
      starts := ?_ }
  · intro n hn
    obtain hn | hn := List.mem_append.mp hn
    · exact h.made n hn
    · exact .inl (List.mem_singleton.mp hn ▸ hm)
  · rw [Served.make, Course.collect_concat, ← hgot]
    cases m <;> first | exact (List.append_nil _).symm | cases hm
  · rw [Served.make, Course.collect_concat, collect_concat, h.accepts, ← hcourse, Serving.accepts,
      if_pos hm, ← hbs]
    simp only [Course.accepts, Serving.course, h.mirrors.call]
    rfl
  · rw [Served.make, Course.completedIn_concat, completedIn_concat, h.completed, ← hcourse, hopen,
      Beat.around.injEq]
    refine or_congr_right (and_congr_right fun _ => ⟨fun ho => ⟨ho, fun st hst => ?_⟩, And.left⟩)
    have hclosed := Course.closed_of_failed .serve p ready acts ((h.peer (.fail st)).mpr hst)
    rw [← hcourse, hopen, ho] at hclosed
    cases hclosed
  · intro a
    rw [Served.make, List.mem_append, List.mem_append, h.peer a, List.mem_singleton,
      List.mem_singleton, Beat.around.injEq]
  · rw [collect_concat, h.starts]
    rfl

theorem rests (h : Asks p ready acts x₀ bs x s)
    (hb : ∀ m, b = .around m → m.around = false) {k : Handler α} (hk : x.handler.Stays k)
    (hbs : x = x₀.beats bs) (hy : x.beat b = { x with handler := k }) :
    Asks p ready acts x₀ (bs ++ [b]) { x with handler := k } s := by
  obtain ⟨r, hp, hgot⟩ := h.reading
  have hcomplete : b ≠ .around (.peer .complete) := fun hc => by cases hb _ hc
  refine
    { mirrors := ⟨h.mirrors.honest, h.mirrors.call, h.mirrors.now⟩
      result := h.result
      holds := h.holds
      held := ⟨hk.inbound.trans h.held.1, hk.sink.trans h.held.2⟩
      whole := hk.textOnly.trans h.whole
      made := h.made
      reading := ⟨r, hk.phase.trans hp, hgot⟩
      accepts := ?_
      completed := ?_
      peer := ?_
      starts := ?_ }
  · rw [collect_concat, h.accepts]
    cases b with
    | around m => rw [Serving.accepts, if_neg (by simp [hb m rfl]), List.append_nil]
    | _ => exact (List.append_nil _).symm
  · rw [completedIn_concat, h.completed]
    exact ⟨.inl, fun hor => hor.resolve_right fun hc => hcomplete hc.1⟩
  · intro a
    rw [h.peer a, List.mem_append, List.mem_singleton]
    refine ⟨.inl, fun hor => hor.resolve_right ?_⟩
    rintro rfl
    cases hb _ rfl
  · rw [collect_concat, h.starts]
    cases b with
    | turn =>
      have hasks := h.asking
      rw [← hbs, Serving.starts, hy, hk.asking, hasks]
      simp
    | _ => rfl

/-- A look at the request makes a few receives. -/
theorem receives (h : Asks p ready acts x₀ bs x s) (r : Call.Single α) :
    ∃ n, (∀ k, (s.makes (List.replicate n .recv)).Mirrors p ready acts
        { x with call := (Handler.readRequest x.call r).1, handler := k }) ∧
      ((Handler.readRequest x.call r).2.2 = none →
        (Handler.readRequest x.call r).2.1.got =
          r.got ++ Course.collect Course.returns s.course (List.replicate n .recv)) := by
  obtain ⟨n, hrecvs, hgot⟩ := s.course.exists_recvs "client half-closed without a request"
    "received more than one request" r
  rw [h.mirrors.call] at hrecvs hgot
  refine ⟨n, fun k => ⟨?_, ?_, ?_⟩, hgot⟩
  · exact h.mirrors.honest.makes h.result fun m hm => by rw [List.eq_of_mem_replicate hm]; rfl
  · exact congrArg Course.call hrecvs.symm
  · exact (congrArg Course.now hrecvs.symm).trans h.mirrors.now

theorem asks (h : Asks p ready acts x₀ bs x s) (hp : x.handler.phase = .request r)
    (hx : (Handler.readRequest x.call r).2.2 = none) (hbs : x = x₀.beats bs)
    (hy : x.beat .turn = y)
    (hreads : y = { x with
      call := (Handler.readRequest x.call r).1
      handler := { x.handler with phase := .request (Handler.readRequest x.call r).2.1 } }) :
    ∃ t, Asks p ready acts x₀ (bs ++ [.turn]) y t := by
  obtain ⟨n, hmirrors, hgot⟩ := h.receives r
  obtain ⟨r', hp', hbefore⟩ := h.reading
  obtain rfl : r = r' := Phase.request.inj (hp.symm.trans hp')
  refine ⟨s.makes (List.replicate n .recv), ?_⟩
  subst hreads
  refine
    { mirrors := hmirrors _
      result := h.result
      holds := h.holds
      held := h.held
      whole := h.whole
      made := ?_
      reading := ⟨_, rfl, ?_⟩
      accepts := ?_
      completed := ?_
      peer := ?_
      starts := ?_ }
  · intro m hm
    obtain hm | hm := List.mem_append.mp hm
    · exact h.made m hm
    · exact .inr (List.eq_of_mem_replicate hm)
  · rw [hgot hx, Served.makes, Course.collect_append, hbefore, ← h.mirrors.honest.course]
  · rw [Served.makes, Course.collect_append, h.accepts, Course.collect_accepts_recvs,
      collect_concat]
    rfl
  · rw [Served.makes, Course.completedIn_recvs, completedIn_concat, h.completed]
    exact ⟨.inl, fun hor => hor.resolve_right (by simp)⟩
  · intro a
    simp [Served.makes, h.peer a, List.mem_replicate]
  · rw [collect_concat, h.starts, ← hbs, Serving.starts, hy]
    simp [Handler.asking]

/-- The values that came in are those that the look at the request has before it. -/
theorem line (h : Asks p ready acts x₀ bs x s) (hp : x.handler.phase = .request r)
    (hs : x.call.scope.cancelled = false) :
    (Handler.readRequest x.call r).2.2 =
      Call.single "client half-closed without a request" "received more than one request"
        (collect Serving.accepts x₀ bs) x.call.inbound.queue.termination := by
  obtain ⟨r', hp', hgot⟩ := h.reading
  obtain rfl : r = r' := Phase.request.inj (hp.symm.trans hp')
  have hcourse := h.mirrors.honest.course
  have horderly := (Course.counted_run (o := .serve) (by simp) p ready acts s.made).orderly
  rw [← hcourse, h.mirrors.call] at horderly
  have hline := Course.returned_line .serve p ready acts h.givesUp
    (by rw [← hcourse, h.mirrors.call, hs])
  rw [← hcourse, h.mirrors.call, ← hgot, h.accepts] at hline
  rw [Handler.readRequest, Call.pollSingle_eq hs horderly, hline]

theorem begins (h : Asks p ready acts x₀ bs x s) (hp : x.handler.phase = .request r) {v : α}
    (hx : (Handler.readRequest x.call r).2.2 = some (.ok v))
    (hbs : x = x₀.beats bs) (hy : x.beat .turn = y)
    (hbegins : y = { x with
      call := (Handler.readRequest x.call r).1
      handler := { x.handler with phase := .running, acc := [v] } }) :
    Begun x₀ (bs ++ [.turn]) y := by
  have hs : x.call.scope.cancelled = false := by
    by_contra hs
    obtain ⟨st, hst⟩ := Option.isSome_iff_exists.mp
      ((Scope.isSome_status _).trans (by simpa using hs))
    rw [Handler.readRequest, Call.pollSingle_of_cancelled hst] at hx
    cases hx
  obtain ⟨haccepts, hterm⟩ := Call.single_eq_ok_iff.mp ((h.line hp hs).symm.trans hx)
  have hcompleted : (Course.opened .serve p ready acts).CompletedIn s.made := by
    refine Course.completedIn_of_ending _ (Course.not_ending_opened .serve p ready acts) _ (.inl ?_)
    rw [← h.mirrors.honest.course, h.mirrors.call, hterm]
  have hclosed : x.call.inbound.queue.closedForSend = true := by
    rw [Queue.closedForSend, hterm]
    rfl
  subst hbegins
  refine
    { asking := rfl
      closed := (Handler.leads_readRequest _ _).closed hclosed
      completed := completedIn_concat.mpr (.inl (h.completed.mp hcompleted))
      starts := ⟨v, ?_, ?_⟩ }
  · have hasks : x.handler.asking = true := h.asking
    rw [collect_concat, h.starts, ← hbs, Serving.starts, hy, hasks]
    rfl
  · rw [collect_concat, haccepts]
    rfl

/-- What is wrong with the request, if nothing else ends the call. -/
theorem refusal_eq (h : Asks p ready acts x₀ bs x s) (hp : x.handler.phase = .request r)
    (hs : x.call.scope.cancelled = false) (hun : x₀.Unasked bs) :
    (Handler.readRequest x.call r).2.2 =
      some (.error (refusal (collect Serving.accepts x₀ bs))) := by
  rw [h.line hp hs]
  obtain ⟨hcompleted, hnone⟩ | htwo := hun
  · have hcourse := h.mirrors.honest.course
    have hterm := Course.completed_of_nothing .serve (by simp) p ready acts h.givesUp
      (by rw [← hcourse, h.mirrors.call, hs]) (h.accepts.trans hnone) (h.completed.mpr hcompleted)
    rw [← hcourse, h.mirrors.call] at hterm
    rw [hnone, hterm]
    rfl
  · match collect Serving.accepts x₀ bs, htwo with
    | _ :: _ :: _, _ => rfl

/-- What a handler finds wrong with its request in a scope that goes on. -/
theorem refusal_of_error (h : Asks p ready acts x₀ bs x s) (hp : x.handler.phase = .request r)
    {st : Status} (hx : (Handler.readRequest x.call r).2.2 = some (.error st))
    (hs : x.call.scope.cancelled = false) (hun : x₀.Unasked (bs ++ [.turn])) :
    st = refusal (collect Serving.accepts x₀ (bs ++ [.turn])) := by
  have hnone : collect Serving.accepts x₀ (bs ++ [.turn]) = collect Serving.accepts x₀ bs := by
    rw [collect_concat]
    exact List.append_nil _
  have hbefore : x₀.Unasked bs := by
    rw [Unasked, completedIn_concat, hnone] at hun
    exact hun.imp (And.imp_left fun hor => hor.resolve_right (by simp)) id
  rw [hnone]
  exact Except.error.inj (Option.some.inj (hx.symm.trans (h.refusal_eq hp hs hbefore)))

theorem scope_recvs (h : Asks p ready acts x₀ bs x s) (hrole : p.role = .server) (n : Nat) :
    (s.makes (List.replicate n .recv)).course.call.scope = x.call.scope := by
  have hserver : s.course.call.handle.role = .server := by
    rw [h.mirrors.honest.course]
    exact (Course.role_run .serve p ready acts s.made).trans hrole
  rw [Served.makes, Course.scope_letsGo hserver fun m hm => .inl (List.eq_of_mem_replicate hm),
    h.mirrors.call]

theorem refuses (h : Asks p ready acts x₀ bs x s) (hrole : p.role = .server)
    (hp : x.handler.phase = .request r) {st : Status}
    (hx : (Handler.readRequest x.call r).2.2 = some (.error st))
    (hbs : x = x₀.beats bs) (hy : x.beat .turn = y)
    (hrefuses : y = { x with
      call := (Handler.finish (Handler.readRequest x.call r).1 x.handler
        (.error (x.handler.shownError (.ofStatus st)))).1
      handler := (Handler.finish (Handler.readRequest x.call r).1 x.handler
        (.error (x.handler.shownError (.ofStatus st)))).2 }) :
    ∃ t, Refused p ready acts x₀ (bs ++ [.turn]) y t := by
  obtain ⟨n, hmirrors, _⟩ := h.receives r
  have hshown : x.handler.shownError (.ofStatus st) = .ofStatus st := by
    rw [Handler.shownError, h.whole]
    rfl
  rw [hshown] at hrefuses
  subst hrefuses
  set t := s.makes (List.replicate n .recv) with ht
  have hread := hmirrors x.handler
  have hlast := hread.finish h.result (h.holds.1.trans h.held.1.symm)
    (h.holds.2.trans h.held.2.symm) (.error (.ofStatus st))
  have hmade : (t.finished (.error (.ofStatus st))).made = s.made ++ List.replicate n .recv ++
      Served.leaving t.inbound t.sink (.error (.ofStatus st)) := rfl
  refine ⟨t.finished (.error (.ofStatus st)), ?_⟩
  refine
    { mirrors := hlast
      returned := Handler.phase_finish _ _ _
      failed := ⟨_, rfl⟩
      ending := (hread.honest.finished h.result _).2
      idle := ?_
      peer := ?_
      closed := ?_
      starts := ?_
      status := ?_ }
  · intro m hm
    rw [hmade, List.mem_append, List.mem_append] at hm
    obtain (hm | hm) | hm := hm
    · exact h.enlists m hm
    · rw [List.eq_of_mem_replicate hm]
      rfl
    · exact Served.enlists_leaving _ _ _ m hm
  · intro a ha
    rw [hmade, List.mem_append, List.mem_append] at ha
    obtain (ha | ha) | ha := ha
    · exact List.mem_append_left _ ((h.peer a).mp ha)
    · cases List.eq_of_mem_replicate ha
    · rw [ht, Served.makes, h.holds.1, h.holds.2] at ha
      simp [Served.leaving, Course.wrapUp] at ha
  · rw [← hlast.call]
    exact Served.closed_finished (s := t) h.holds.1 _
  · rw [collect_concat, h.starts, ← hbs, Serving.starts, hy]
    simp [Handler.done]
  · intro hun hask
    have hgoes : x.call.scope.cancelled = false := by
      rw [hbs]
      exact hun bs [.turn] rfl (hbs ▸ h.not_done)
    have hgoest : t.course.call.scope.cancelled = false := by rw [ht, h.scope_recvs hrole, hgoes]
    rw [← h.refusal_of_error hp hx hgoes hask, ← hlast.call,
      Served.status_finished hread.honest hrole hgoest]
    rfl

end Asks

theorem starts_of_begun (ha : x.handler.asking = false) (b : Beat α) : x.starts b = [] := by
  cases b with
  | turn =>
    rw [Serving.starts, ha]
    rfl
  | _ => rfl

theorem completedIn_of_closed (hbs : x = x₀.beats bs)
    (hc : x.call.inbound.queue.closedForSend = true) :
    x₀.CompletedIn (bs ++ [b]) ↔ x₀.CompletedIn bs := by
  rw [completedIn_concat, ← hbs, hc]
  simp

theorem Begun.beat (h : Begun x₀ bs x) (hbs : x = x₀.beats bs) (hy : x.beat b = y) :
    Begun x₀ (bs ++ [b]) y := by
  obtain ⟨v, hstarts, haccepts⟩ := h.starts
  have hclosed : y.call.inbound.queue.closedForSend = true := hy ▸ (leads_beat x b).closed h.closed
  have hasking : y.handler.asking = false := by
    have hgoes := goes_beat x b
    rw [hy] at hgoes
    cases hgoes with
    | around => exact h.asking
    | rests _ _ hk => exact hk.asking.trans h.asking
    | turn ht => exact ht.asking h.asking
  refine
    { asking := hasking
      closed := hclosed
      completed := (completedIn_of_closed hbs h.closed).mpr h.completed
      starts := ⟨v, ?_, ?_⟩ }
  · rw [collect_concat, hstarts, ← hbs, starts_of_begun h.asking]
    rfl
  · rw [collect_concat, haccepts, ← hbs, accepts_of_closed h.closed]
    rfl

namespace Refused

theorem asking (h : Refused p ready acts x₀ bs x s) : x.handler.asking = false := by
  rw [Handler.asking, h.returned]

/-- What was told to everybody in the scope is not taken back. -/
theorem status_later (h : Refused p ready acts x₀ bs x s) (hbs : x = x₀.beats bs)
    (hframe : x.call.scope.cancelled = true → y.call.scope = x.call.scope) (b : Beat α) :
    x₀.Uncancelled (bs ++ [b]) → x₀.Unasked (bs ++ [b]) →
      y.call.scope.status = some (refusal (collect Serving.accepts x₀ (bs ++ [b]))) := by
  intro hun hask
  have hsame : collect Serving.accepts x₀ (bs ++ [b]) = collect Serving.accepts x₀ bs := by
    rw [collect_concat, ← hbs, accepts_of_closed h.closed, List.append_nil]
  rw [Unasked, completedIn_of_closed hbs h.closed, hsame] at hask
  have hstatus := h.status hun.before hask
  have hcancelled : x.call.scope.cancelled = true := by
    rw [← Scope.isSome_status, hstatus]
    rfl
  rw [hframe hcancelled, hstatus, hsame]

theorem around (h : Refused p ready acts x₀ bs x s) (hbs : x = x₀.beats bs) (hm : m.around = true) :
    Refused p ready acts x₀ (bs ++ [.around m])
      { x with call := (x.course.step m).call, now := (x.course.step m).now } (s.make m) := by
  refine
    { mirrors := h.mirrors.around hm
      returned := h.returned
      failed := h.failed
      ending := h.ending
      idle := ?_
      peer := ?_
      closed := Course.closed_step x.course h.closed m
      starts := ?_
      status := h.status_later hbs (fun hc => ?_) _ }
  · intro n hn
    obtain hn | hn := List.mem_append.mp hn
    · exact h.idle n hn
    · rw [List.mem_singleton.mp hn]
      exact Move.enlists_of_around hm
  · intro a ha
    obtain ha | ha := List.mem_append.mp ha
    · exact List.mem_append_left _ (h.peer a ha)
    · rw [← List.mem_singleton.mp ha]
      exact List.mem_append_right _ (List.mem_singleton.mpr rfl)
  · rw [collect_concat, h.starts]
    rfl
  · obtain ⟨l, hconducts⟩ := Course.exists_conducts_step x.course m
    exact hconducts.scope.frozen hc

theorem rests (h : Refused p ready acts x₀ bs x s) (hbs : x = x₀.beats bs) {k : Handler α}
    (hk : x.handler.Stays k) (b : Beat α) :
    Refused p ready acts x₀ (bs ++ [b]) { x with handler := k } s :=
  { mirrors := ⟨h.mirrors.honest, h.mirrors.call, h.mirrors.now⟩
    returned := hk.phase.trans h.returned
    failed := h.failed
    ending := h.ending
    idle := h.idle
    peer := fun a ha => List.mem_append_left _ (h.peer a ha)
    closed := h.closed
    starts := by rw [collect_concat, h.starts, ← hbs, starts_of_begun h.asking, List.append_nil]
    status := h.status_later hbs (fun _ => rfl) b }

end Refused

/-- A handler that takes one request reads it, or has begun its program, or has returned without. -/
theorem request_run (hrole : p.role = .server) (ready : Bool) (acts : List (PeerAct α))
    {shape : Shape} (hshape : shape.reads = false) (program : List (Instr α))
    (gates : List String) (bs : List (Beat α)) :
    let x₀ := opened p ready acts shape program gates
    (∃ s, Asks p ready acts x₀ bs (x₀.beats bs) s) ∨ Begun x₀ bs (x₀.beats bs) ∨
      ∃ s, Refused p ready acts x₀ bs (x₀.beats bs) s := by
  intro x₀
  induction bs using List.reverseRecOn with
  | nil => exact .inl ⟨_, .start p ready acts hshape program gates⟩
  | append_singleton bs b ih =>
    obtain ⟨x, hbs⟩ : ∃ x, x = x₀.beats bs := ⟨_, rfl⟩
    obtain ⟨y, hy⟩ : ∃ y, x.beat b = y := ⟨_, rfl⟩
    rw [beats_concat, ← hbs, hy]
    rw [← hbs] at ih
    have hgoes := goes_beat x b
    rw [hy] at hgoes
    obtain ⟨s, h⟩ | h | ⟨s, h⟩ := ih
    · cases hgoes with
      | around hm => exact .inl ⟨_, h.around hbs hm⟩
      | rests hb _ hk => exact .inl ⟨_, h.rests hb hk hbs hy⟩
      | turn ht =>
        obtain ⟨r, hp, _⟩ := h.reading
        cases ht with
        | asks hp hx => exact .inl (h.asks hp hx hbs hy rfl)
        | refuses hp hx => exact .inr (.inr (h.refuses hrole hp hx hbs hy rfl))
        | begins hp hx => exact .inr (.inl (h.begins hp hx hbs hy rfl))
        | runsOut hp' => cases hp.symm.trans hp'
        | executes hp' => cases hp.symm.trans hp'
        | waits hp' => cases hp.symm.trans hp'
        | answered hp' => cases hp.symm.trans hp'
    · exact .inr (.inl (h.beat hbs hy))
    · refine .inr (.inr ?_)
      cases hgoes with
      | around hm => exact ⟨_, h.around hbs hm⟩
      | rests _ _ hk => exact ⟨_, h.rests hbs hk b⟩
      | turn ht =>
        cases ht with
        | asks hp => cases h.returned.symm.trans hp
        | refuses hp => cases h.returned.symm.trans hp
        | begins hp => cases h.returned.symm.trans hp
        | runsOut hp => cases h.returned.symm.trans hp
        | executes hp => cases h.returned.symm.trans hp
        | waits hp => cases h.returned.symm.trans hp
        | answered hp => cases h.returned.symm.trans hp

/-- A handler that reads on does not rest once it is known that the request will not come. -/
theorem Asks.not_still (h : Asks p ready acts x₀ bs x s) (hask : x₀.Unasked bs) : ¬ x.Still := by
  intro hstill
  obtain ⟨r, hp, _⟩ := h.reading
  have hwaits := Handler.readRequest_of_blocked hp hstill.handler
  cases hs : x.call.scope.cancelled with
  | true =>
    obtain ⟨st, hst⟩ := Option.isSome_iff_exists.mp ((Scope.isSome_status _).trans hs)
    rw [Handler.readRequest, Call.pollSingle_of_cancelled hst] at hwaits
    cases hwaits
  | false => cases hwaits.symm.trans (h.refusal_eq hp hs hask)

/-- By the time nothing moves any more the transport was told of it, once. -/
theorem Refused.told (h : Refused p ready acts x₀ bs x s) (hrole : p.role = .server)
    (hstill : x.Still) (hpeer : ∀ a, .around (.peer a) ∈ bs → a.ends .server = false) {st : Status}
    (hst : x.call.scope.status = some st) :
    x.call.wire.closedWith = some st ∧ x.course.written = [] ∧ x.call.wire.cancellations = [] ∧
      ∃ l, (Opening.serve.idle p (.before ready acts)).handle.Uses l x.call.handle ∧
        l.filter Signal.ends = [.closeWithError st] := by
  have hcourse := h.mirrors.honest.course
  have hcancelled : s.course.call.scope.cancelled = true := by
    rw [h.mirrors.call, ← Scope.isSome_status, hst]
    rfl
  have hopen : s.course.call.wire.halfClosed = false := by
    by_contra hhalf
    obtain ⟨f, hf⟩ := h.failed
    cases hf.symm.trans (h.mirrors.honest.half (by simpa using hhalf))
  obtain ⟨st', l, hstatus, hclosed, huses, hends⟩ := Course.closed_of_quiet .serve hrole ready acts
    hcourse (h.mirrors.quiet hstill.course) hcancelled hopen fun a ha => hpeer a (h.peer a ha)
  rw [h.mirrors.call] at hstatus hclosed huses
  obtain rfl : st' = st := Option.some.inj (hstatus.symm.trans hst)
  have hwritten := (Course.sound_opened .serve p ready acts s.made).written
  have hnothing := Course.toWrite_of_idle (s := .opened .serve p ready acts) h.idle
  rw [Course.toWrite] at hnothing
  rw [hnothing, List.prefix_nil, ← hcourse, h.mirrors.call] at hwritten
  have huncancelled := Course.cancellations_eq_nil .serve hrole ready acts s.made
  rw [← hcourse, h.mirrors.call] at huncancelled
  exact ⟨hclosed, hwritten, huncancelled, l, huses, hends⟩

/-- A handler that takes one request begins with it, and once, or not at all. -/
theorem request_once (hrole : p.role = .server) (ready : Bool) (acts : List (PeerAct α))
    {shape : Shape} (hshape : shape.reads = false) (program : List (Instr α))
    (gates : List String) (bs : List (Beat α)) :
    let x₀ := opened p ready acts shape program gates
    collect starts x₀ bs = [] ∨
      ∃ v, collect starts x₀ bs = [v] ∧ collect Serving.accepts x₀ bs = [v] ∧
        x₀.CompletedIn bs := by
  intro x₀
  obtain ⟨s, h⟩ | h | ⟨s, h⟩ := request_run hrole ready acts hshape program gates bs
  · exact .inl h.starts
  · obtain ⟨v, hstarts, haccepts⟩ := h.starts
    exact .inr ⟨v, hstarts, haccepts, h.completed⟩
  · exact .inl h.starts

/-- Without its one request it does not begin, and unless something else ended the call that is what
the transport is told. -/
theorem request_refused (hrole : p.role = .server) (ready : Bool) (acts : List (PeerAct α))
    {shape : Shape} (hshape : shape.reads = false) (program : List (Instr α))
    (gates : List String) (bs : List (Beat α)) :
    let x₀ := opened p ready acts shape program gates
    let x := x₀.beats bs
    let st := refusal (collect Serving.accepts x₀ bs)
    x₀.Unasked bs →
      collect starts x₀ bs = [] ∧
      (x₀.Uncancelled bs → (∀ a, .around (.peer a) ∈ bs → a.ends .server = false) → x.Still →
        x.call.wire.closedWith = some st ∧ x.course.written = [] ∧
          x.call.wire.cancellations = [] ∧
          ∃ l, (Opening.serve.idle p (.before ready acts)).handle.Uses l x.call.handle ∧
            l.filter Signal.ends = [.closeWithError st]) := by
  intro x₀ x st hask
  obtain ⟨s, h⟩ | h | ⟨s, h⟩ := request_run hrole ready acts hshape program gates bs
  · exact ⟨h.starts, fun _ _ hstill => absurd hstill (h.not_still hask)⟩
  · obtain ⟨v, _, haccepts⟩ := h.starts
    rw [Unasked, haccepts] at hask
    obtain ⟨_, hnone⟩ | htwo := hask
    · cases hnone
    · exact absurd htwo (by simp)
  · exact ⟨h.starts, fun hun hpeer hstill => h.told hrole hstill hpeer (h.status hun hask)⟩

end
end Serving
end PacedCall
