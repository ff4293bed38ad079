import PacedCall.Proofs.Call.Program
import PacedCall.Proofs.Call.Single

/-!
A handler at the pace of its turns. A look at a handler is some turns of it, one after the other, so
whatever holds however the turns are mixed with all that goes on around the handler holds of looks.
Each turn is taken apart once: what an instruction may do to the call it may do with the halves that
the handler holds, and a handler that has begun its program does not go back to its request.
-/
namespace PacedCall

def Instr.sends {α : Type} : Instr α → Bool
  | .sending _ _ => true
  | _ => false

namespace Handler
variable {α : Type} {c d : Call α} {h k : Handler α} {i : Instr α} {now : Nat}

inductive Touches (h : Handler α) (i : Instr α) (c : Call α) : Call α → Prop where
  | nothing : Touches h i c c
  | recv (hr : h.canRead = true) : Touches h i c c.recv.1
  | cancelInbound (hr : h.canRead = true) : Touches h i c c.cancelInbound
  | fails (hr : h.canRead = true) (f : Failure) : Touches h i c (c.failWith f)
  | trySend (hw : h.canWrite = true) (v : α) : Touches h i c (c.trySend v).1
  | closes (hw : h.canWrite = true) (how : Termination) : Touches h i c (c.closeOutbound how).1
  | cloneSink (hw : h.canWrite = true) : Touches h i c c.cloneSink
  | pollSend (hs : i.sends = true) (sd : Send α) : Touches h i c (c.pollSend sd).1

/-- What an instruction that neither ends the program nor lets a half go leaves as it is. A send
gets under way only on a sink. -/
structure Keeps (h : Handler α) (i : Instr α) (k : Handler α) : Prop where
  shape : k.shape = h.shape
  phase : k.phase = h.phase
  inbound : k.inbound = h.inbound
  sink : k.sink = h.sink
  program : h.canWrite = false → i.sends = false → (∀ j ∈ h.program, j.sends = false) →
    ∀ j ∈ k.program, j.sends = false

inductive Does (c : Call α) (h : Handler α) (i : Instr α) : Call α → Handler α → Prop where
  | goes {d : Call α} {k : Handler α} (hd : h.Touches i c d) (hk : h.Keeps i k) : Does c h i d k
  | dropsInbound (hr : h.canRead = true) : Does c h i c.dropInbound { h with inbound := false }
  | dropsSink (hw : h.canWrite = true) : Does c h i c.dropSink { h with sink := false }
  | returns {d : Call α} (hd : h.Touches i c d) (r : Except Failure α) :
      Does c h i (conclude d h r).1 (conclude d h r).2

theorem Touches.of_recv (hr : h.canRead = true) {r : Option (RecvResult α)} (he : c.recv = (d, r)) :
    h.Touches i c d := by
  have hrecv : h.Touches i c c.recv.1 := .recv hr
  rwa [he] at hrecv

theorem Touches.of_pollSend (hs : i.sends = true) {sd sd' : Send α} {r : Option SendResult}
    (he : c.pollSend sd = (d, sd', r)) : h.Touches i c d := by
  have hpoll : h.Touches i c (c.pollSend sd).1 := .pollSend hs sd
  rwa [he] at hpoll

theorem Keeps.of_same (hshape : k.shape = h.shape) (hphase : k.phase = h.phase)
    (hinbound : k.inbound = h.inbound) (hsink : k.sink = h.sink)
    (hprogram : k.program = h.program) : h.Keeps i k :=
  ⟨hshape, hphase, hinbound, hsink, fun _ _ hj => hprogram ▸ hj⟩

theorem Keeps.note (h : Handler α) (n : Note α) : h.Keeps i (h.note n) :=
  .of_same rfl rfl rfl rfl rfl

/-- One more instruction to be done first. -/
theorem Keeps.first {k : Handler α} {j : Instr α} (hk : k = { h with program := j :: h.program })
    (hj : h.canWrite = false → i.sends = false → j.sends = false) : h.Keeps i k := by
  subst hk
  exact ⟨rfl, rfl, rfl, rfl, fun hw hi hp => List.forall_mem_cons.mpr ⟨hj hw hi, hp⟩⟩

theorem does_noted (n : Note α) (hm : Turn.noted c h n = .moved d k) : Does c h i d k := by
  cases hm
  exact .goes .nothing (.note h n)

/-- A receive whose error ends the program. -/
theorem does_strict (hr : h.canRead = true) {g : α → Handler α}
    (hg : ∀ v, h.Keeps i (g v))
    (hm : (match c.recv with
      | (_, none) => .blocked
      | (c, some (.error st)) => .ended (conclude c h (.error (.ofStatus st)))
      | (c, some (.ok none)) => .moved c h
      | (c, some (.ok (some v))) => .moved c (g v)) = Turn.moved d k) : Does c h i d k := by
  split at hm
  · cases hm
  · next e st he =>
    cases hm
    exact .returns (.of_recv hr he) _
  · next e he =>
    cases hm
    exact .goes (.of_recv hr he) (.of_same rfl rfl rfl rfl rfl)
  · next e v he =>
    cases hm
    exact .goes (.of_recv hr he) (hg v)

/-- An instruction for a half that the handler has let go is noted as a bad one. -/
theorem does_allowed {b : Bool} {t : Turn α}
    (hm : (if !b then .noted c h .badInstruction else t) = Turn.moved d k)
    (hgoes : b = true → t = .moved d k → Does c h i d k) : Does c h i d k := by
  cases b with
  | false => exact does_noted _ hm
  | true => exact hgoes rfl hm

theorem does_reading [Message α] (hm : execute now c h i = .moved d k)
    (hi : i.reads = true ∨ i = .inClosed ∨ ∃ f, i = .inFail f) : Does c h i d k := by
  cases i with
  | recv =>
    refine does_allowed hm fun hr hm => ?_
    split at hm
    · cases hm
    · next e r he =>
      cases hm
      exact .goes (.of_recv hr he) (.note h _)
  | recvStrict =>
    refine does_allowed hm fun hr hm => ?_
    exact does_strict (g := fun v => { h with acc := h.acc ++ [v] }) hr
      (fun v => .of_same rfl rfl rfl rfl rfl) hm
  | collect =>
    refine does_allowed hm fun hr hm => ?_
    refine does_strict hr (fun v => ?_) hm
    exact ⟨rfl, rfl, rfl, rfl, fun _ _ hp => List.forall_mem_cons.mpr ⟨rfl, hp⟩⟩
  | inClosed =>
    exact does_allowed hm fun _ hm => does_noted _ hm
  | inCancel =>
    refine does_allowed hm fun hr hm => ?_
    cases hm
    exact .goes (.cancelInbound hr) (.of_same rfl rfl rfl rfl rfl)
  | inFail f =>
    refine does_allowed hm fun hr hm => ?_
    cases hm
    exact .goes (.fails hr f) (.of_same rfl rfl rfl rfl rfl)
  | inDrop =>
    refine does_allowed hm fun hr hm => ?_
    have hin : h.inbound = true := (Bool.and_eq_true_iff.mp hr).2
    rw [dropInbound, if_pos hin] at hm
    cases hm
    exact .dropsInbound hr
  | _ => simp [Instr.reads] at hi

theorem does_writing [Message α] (hm : execute now c h i = .moved d k)
    (hi : i.writes = true ∨ i = .sinkClose ∨ (∃ f, i = .sinkFail f) ∨ ∃ n, i = .sinkKeep n) :
    Does c h i d k := by
  cases i with
  | send v =>
    refine does_allowed hm fun hw hm => ?_
    cases hm
    exact .goes .nothing (.first rfl fun hno => absurd hno (by simp [hw]))
  | sendStrict v =>
    refine does_allowed hm fun hw hm => ?_
    cases hm
    exact .goes .nothing (.first rfl fun hno => absurd hno (by simp [hw]))
  | sendAll =>
    refine does_allowed hm fun hw hm => ?_
    cases hm
    exact .goes .nothing ⟨rfl, rfl, rfl, rfl, fun hno => absurd hno (by simp [hw])⟩
  | trySend v =>
    refine does_allowed hm fun hw hm => ?_
    cases hm
    exact .goes (.trySend hw v) (.note h _)
  | sinkClose =>
    refine does_allowed hm fun hw hm => ?_
    cases hm
    exact .goes (.closes hw .completed) (.note h _)
  | sinkFail f =>
    refine does_allowed hm fun hw hm => ?_
    cases hm
    exact .goes (.closes hw (.failed f.toStatus)) (.note h _)
  | sinkDrop =>
    refine does_allowed hm fun hw hm => ?_
    have hsink : h.sink = true := (Bool.and_eq_true_iff.mp hw).2
    rw [dropSink, if_pos hsink] at hm
    cases hm
    exact .dropsSink hw
  | sinkKeep name =>
    refine does_allowed hm fun hw hm => ?_
    cases hm
    exact .goes (.cloneSink hw) (.of_same rfl rfl rfl rfl rfl)
  | _ => simp [Instr.writes] at hi

/-- A look at a send under way. -/
theorem does_sending [Message α] {sd : Send α} {strict : Bool}
    (hm : execute now c h (.sending sd strict) = .moved d k) :
    Does c h (.sending sd strict) d k := by
  simp only [execute] at hm
  split at hm
  · next e sd' he =>
    cases hm
    exact .goes (.of_pollSend rfl he) (.first rfl fun _ hi => by cases hi)
  · cases hm
  · next e sd' r he =>
    split at hm
    · split at hm
      · cases hm
        exact .goes (.of_pollSend rfl he) (.of_same rfl rfl rfl rfl rfl)
      · cases hm
        exact .returns (.of_pollSend rfl he) _
    · cases hm
      exact .goes (.of_pollSend rfl he) (.note h _)

theorem does_execute [Message α] (hm : execute now c h i = .moved d k) : Does c h i d k := by
  cases i with
  | recv | recvStrict | collect | inCancel | inDrop => exact does_reading hm (.inl rfl)
  | inClosed => exact does_reading hm (.inr (.inl rfl))
  | inFail f => exact does_reading hm (.inr (.inr ⟨f, rfl⟩))
  | send | sendStrict | sendAll | trySend | sinkDrop => exact does_writing hm (.inl rfl)
  | sinkClose => exact does_writing hm (.inr (.inl rfl))
  | sinkFail f => exact does_writing hm (.inr (.inr (.inl ⟨f, rfl⟩)))
  | sinkKeep n => exact does_writing hm (.inr (.inr (.inr ⟨n, rfl⟩)))
  | sending sd strict => exact does_sending hm
  | echo pause =>
    refine does_allowed hm fun hboth hm => ?_
    obtain ⟨hr, hw⟩ := Bool.and_eq_true_iff.mp hboth
    refine does_strict hr (fun v => ?_) hm
    exact ⟨rfl, rfl, rfl, rfl, fun hno => absurd hno (by simp [hw])⟩
  | gate name =>
    simp only [execute] at hm
    split at hm
    · cases hm
      exact .goes .nothing (.of_same rfl rfl rfl rfl rfl)
    · cases hm
      exact .goes .nothing (.first rfl fun _ _ => rfl)
  | sleep ticks =>
    cases hm
    exact .goes .nothing (.first rfl fun _ _ => rfl)
  | atGate name called =>
    simp only [execute] at hm
    split at hm
    · cases hm
      exact .goes .nothing (.of_same rfl rfl rfl rfl rfl)
    · cases hm
  | asleep time =>
    simp only [execute] at hm
    split at hm
    · cases hm
      exact .goes .nothing (.of_same rfl rfl rfl rfl rfl)
    · cases hm
  | log | unknown => exact does_noted _ hm
  | fail | respond | respondAll =>
    cases hm
    exact .returns .nothing _

def readRequest (c : Call α) (r : Call.Single α) :
    Call α × Call.Single α × Option (Except Status α) :=
  c.pollSingle "client half-closed without a request" "received more than one request" r

def answer : SendResult → Except Failure Unit
  | .ok _ => .ok ()
  | .error e => .error (.ofQueue e)

inductive Takes [Message α] (c : Call α) (h : Handler α) : Call α → Handler α → Prop where
  | asks {r : Call.Single α} (hp : h.phase = .request r) (hx : (readRequest c r).2.2 = none) :
      Takes c h (readRequest c r).1 { h with phase := .request (readRequest c r).2.1 }
  | refuses {r : Call.Single α} {st : Status} (hp : h.phase = .request r)
      (hx : (readRequest c r).2.2 = some (.error st)) :
      Takes c h (finish (readRequest c r).1 h (.error (h.shownError (.ofStatus st)))).1
        (finish (readRequest c r).1 h (.error (h.shownError (.ofStatus st)))).2
  | begins {r : Call.Single α} {v : α} (hp : h.phase = .request r)
      (hx : (readRequest c r).2.2 = some (.ok v)) :
      Takes c h (readRequest c r).1 { h with phase := .running, acc := [v] }
  | runsOut (hp : h.phase = .running) (hi : h.program = []) :
      Takes c h (conclude c h (.ok Message.blank)).1 (conclude c h (.ok Message.blank)).2
  | executes {i : Instr α} {rest : List (Instr α)} {d : Call α} {k : Handler α}
      (hp : h.phase = .running) (hi : h.program = i :: rest)
      (hd : Does c { h with program := rest } i d k) : Takes c h d k
  | waits {sd : Send α} (hp : h.phase = .responding sd) (hx : (c.pollSend sd).2.2 = none) :
      Takes c h (c.pollSend sd).1 { h with phase := .responding (c.pollSend sd).2.1 }
  | answered {sd : Send α} {r : SendResult} (hp : h.phase = .responding sd)
      (hx : (c.pollSend sd).2.2 = some r) :
      Takes c h (finish (c.pollSend sd).1 h (answer r)).1 (finish (c.pollSend sd).1 h (answer r)).2

theorem takes_turn [Message α] (hm : turn now c h = .moved d k) : Takes c h d k := by
  unfold turn at hm
  split at hm
  · cases hm
  · next r hp =>
    split at hm
    · next e v hx =>
      cases hm
      have htakes : Takes c h _ _ := .asks hp (congrArg (·.2.2) hx)
      rwa [readRequest, hx] at htakes
    · cases hm
    · next e r' st hx =>
      cases hm
      have htakes : Takes c h _ _ := .refuses hp (congrArg (·.2.2) hx)
      rwa [readRequest, hx] at htakes
    · next e r' v hx =>
      cases hm
      have htakes : Takes c h _ _ := .begins hp (congrArg (·.2.2) hx)
      rwa [readRequest, hx] at htakes
  · next sd hp =>
    split at hm
    · next v e sd' hx =>
      cases hm
      have htakes : Takes c h _ _ := .waits hp (congrArg (·.2.2) hx)
      rwa [hx] at htakes
    · cases hm
    · next e sd' u hx =>
      cases hm
      have htakes : Takes c h _ _ := .answered hp (congrArg (·.2.2) hx)
      rwa [hx] at htakes
    · next e sd' err hx =>
      cases hm
      have htakes : Takes c h _ _ := .answered hp (congrArg (·.2.2) hx)
      rwa [hx] at htakes
  · next hp =>
    split at hm
    · next hi =>
      cases hm
      exact .runsOut hp hi
    · next i rest hi => exact .executes hp hi (does_execute hm)

/-- A handler that has to wait for its request has not found the end of it. -/
theorem readRequest_of_blocked [Message α] {r : Call.Single α} (hp : h.phase = .request r)
    (hm : turn now c h = .blocked) : (readRequest c r).2.2 = none := by
  rw [turn, hp] at hm
  simp only at hm
  split at hm
  · cases hm
  · next hx => rw [readRequest, hx]
  · cases hm
  · cases hm

/-! What a turn leaves as it is. -/

@[simp] theorem phase_finish (c : Call α) (h : Handler α) (r : Except Failure Unit) :
    (finish c h r).2.phase = .returned := by
  cases r <;> rfl

@[simp] theorem shape_finish (c : Call α) (h : Handler α) (r : Except Failure Unit) :
    (finish c h r).2.shape = h.shape := by
  cases hi : h.inbound <;> cases hs : h.sink <;> cases r <;>
    simp [finish, dropInbound, dropSink, hi, hs]

/-- A single response is sent after the requests are let go. -/
theorem conclude_ok (hw : h.shape.writes = false) (c : Call α) (v : α) :
    conclude c h (.ok v) =
      (if h.inbound then c.dropInbound else c,
        { h with inbound := false, phase := .responding (.fresh v) }) := by
  obtain ⟨shape, phase, program, acc, inbound, sink, gates, notes, kept, failure, textOnly⟩ := h
  cases inbound <;> simp [conclude, dropInbound, show shape.writes = false from hw]

theorem shape_conclude (c : Call α) (h : Handler α) (r : Except Failure α) :
    (conclude c h r).2.shape = h.shape := by
  cases r with
  | error f => exact shape_finish _ _ _
  | ok v =>
    cases hw : h.shape.writes with
    | true =>
      rw [conclude, if_pos hw]
      exact shape_finish _ _ _
    | false => rw [conclude_ok hw]

/-- A program that ends has a response to send, or nothing left to do. -/
theorem phase_conclude (c : Call α) (h : Handler α) (r : Except Failure α) :
    (conclude c h r).2.phase = .returned ∨
      ∃ v, r = .ok v ∧ h.shape.writes = false ∧
        (conclude c h r).2.phase = .responding (.fresh v) := by
  cases r with
  | error f => exact .inl (phase_finish _ _ _)
  | ok v =>
    cases hw : h.shape.writes with
    | true =>
      rw [conclude, if_pos hw]
      exact .inl (phase_finish _ _ _)
    | false =>
      rw [conclude_ok hw]
      exact .inr ⟨v, rfl, rfl, rfl⟩

def asking (h : Handler α) : Bool :=
  match h.phase with
  | .request _ => true
  | _ => false

theorem asking_conclude (c : Call α) (h : Handler α) (r : Except Failure α) :
    (conclude c h r).2.asking = false := by
  obtain hp | ⟨v, _, _, hp⟩ := phase_conclude c h r <;> rw [asking, hp]

theorem Does.shape (hd : Does c h i d k) : k.shape = h.shape := by
  cases hd with
  | goes _ hk => exact hk.shape
  | dropsInbound => rfl
  | dropsSink => rfl
  | returns _ r => exact shape_conclude _ _ r

theorem Takes.shape [Message α] (ht : Takes c h d k) : k.shape = h.shape := by
  cases ht with
  | refuses => exact shape_finish _ _ _
  | runsOut => exact shape_conclude _ _ _
  | executes _ _ hd => exact hd.shape
  | answered => exact shape_finish _ _ _
  | _ => rfl

theorem Takes.asking [Message α] (ht : Takes c h d k) (hh : h.asking = false) :
    k.asking = false := by
  cases ht with
  | asks hp => simp [Handler.asking, hp] at hh
  | refuses hp => simp [Handler.asking, hp] at hh
  | begins hp => simp [Handler.asking, hp] at hh
  | runsOut => exact asking_conclude _ _ _
  | executes hp _ hd =>
    cases hd with
    | goes _ hk => rw [Handler.asking, hk.phase, hp]
    | dropsInbound => exact hh
    | dropsSink => exact hh
    | returns _ r => exact asking_conclude _ _ r
  | waits => rfl
  | answered => rw [Handler.asking, phase_finish]

/-! What a turn does to the call is some moves of it. -/

def Leads (c d : Call α) : Prop :=
  ∃ (s : Course α) (ms : List (Move α)), s.call = c ∧ (s.run ms).call = d

theorem leads_pollSend (c : Call α) (sd : Send α) : Leads c (c.pollSend sd).1 := by
  let s : Course α := { call := c, sends := [sd] }
  exact ⟨s, [.pollSend 0], rfl, Course.call_pollSend s 0⟩

theorem leads_of_touches (ht : h.Touches i c d) : Leads c d := by
  cases ht with
  | nothing => exact ⟨{ call := c }, [], rfl, rfl⟩
  | recv => exact ⟨{ call := c }, [.recv], rfl, rfl⟩
  | cancelInbound => exact ⟨{ call := c }, [.cancelInbound], rfl, rfl⟩
  | fails _ f => exact ⟨{ call := c }, [.cancel f.toStatus], rfl, rfl⟩
  | trySend _ v => exact ⟨{ call := c }, [.trySend v], rfl, rfl⟩
  | closes _ how => exact ⟨{ call := c }, [.close how], rfl, rfl⟩
  | cloneSink => exact ⟨{ call := c }, [.cloneSink], rfl, rfl⟩
  | pollSend _ sd => exact leads_pollSend c sd

theorem Leads.finish (hl : Leads c d) (h : Handler α) (r : Except Failure Unit) :
    Leads c (finish d h r).1 := by
  obtain ⟨s, ms, hc, hd⟩ := hl
  refine ⟨s, ms ++ ((if h.inbound then [.dropInbound] else []) ++
    (if h.sink then [.dropSink] else []) ++ Course.wrapUp r), hc, ?_⟩
  rw [Course.run_append, ← Course.finish_eq_run, hd]

theorem Leads.conclude (hl : Leads c d) (h : Handler α) (r : Except Failure α) :
    Leads c (conclude d h r).1 := by
  cases r with
  | error f => exact hl.finish h _
  | ok v =>
    cases hw : h.shape.writes with
    | true =>
      rw [Handler.conclude, if_pos hw]
      exact hl.finish h _
    | false =>
      obtain ⟨s, ms, hc, hd⟩ := hl
      rw [conclude_ok hw]
      cases h.inbound with
      | false => exact ⟨s, ms, hc, hd⟩
      | true =>
        refine ⟨s, ms ++ [.dropInbound], hc, ?_⟩
        rw [Course.run_concat, Course.step, Course.withCall, hd]
        rfl

theorem leads_readRequest (c : Call α) (r : Call.Single α) : Leads c (readRequest c r).1 := by
  obtain ⟨n, hrecvs, _⟩ := Course.exists_recvs { call := c }
    "client half-closed without a request" "received more than one request" r
  exact ⟨{ call := c }, _, rfl, (congrArg Course.call hrecvs).symm⟩

theorem Takes.leads [Message α] (ht : Takes c h d k) : Leads c d := by
  cases ht with
  | asks => exact leads_readRequest _ _
  | refuses => exact (leads_readRequest _ _).finish h _
  | begins => exact leads_readRequest _ _
  | runsOut => exact Leads.conclude ⟨{ call := c }, [], rfl, rfl⟩ h _
  | executes _ _ hd =>
    cases hd with
    | goes hd => exact leads_of_touches hd
    | dropsInbound => exact ⟨{ call := c }, [.dropInbound], rfl, rfl⟩
    | dropsSink => exact ⟨{ call := c }, [.dropSink], rfl, rfl⟩
    | returns hd r => exact (leads_of_touches hd).conclude _ r
  | waits => exact leads_pollSend _ _
  | answered => exact (leads_pollSend _ _).finish h _

theorem Leads.closed (hl : Leads c d) (hc : c.inbound.queue.closedForSend = true) :
    d.inbound.queue.closedForSend = true := by
  obtain ⟨s, ms, rfl, rfl⟩ := hl
  exact Course.closed_run s hc ms

theorem Leads.role (hl : Leads c d) : d.handle.role = c.handle.role := by
  obtain ⟨s, ms, rfl, rfl⟩ := hl
  exact (Course.later_run s ms).role

theorem Leads.recorded (hl : Leads c d) (hc : c.scope.Recorded) :
    d.scope.Recorded := by
  obtain ⟨s, ms, rfl, rfl⟩ := hl
  obtain ⟨l, hconducts⟩ := Course.exists_conducts_run s ms
  exact hconducts.scope.recorded hc

structure Stays (h k : Handler α) : Prop where
  shape : k.shape = h.shape
  phase : k.phase = h.phase
  inbound : k.inbound = h.inbound
  sink : k.sink = h.sink
  textOnly : k.textOnly = h.textOnly
  program : (∀ j ∈ h.program, j.sends = false) → ∀ j ∈ k.program, j.sends = false

theorem Stays.asking (hs : h.Stays k) : k.asking = h.asking := by
  rw [Handler.asking, hs.phase, Handler.asking]

theorem Stays.refl (h : Handler α) : h.Stays h := ⟨rfl, rfl, rfl, rfl, rfl, id⟩

theorem stays_openGate (h : Handler α) (name : String) : h.Stays (h.openGate name) := by
  rw [openGate]
  split
  · next place rest hprogram =>
    split
    · refine ⟨rfl, rfl, rfl, rfl, rfl, fun hj => ?_⟩
      rw [hprogram] at hj
      exact List.forall_mem_cons.mpr ⟨rfl, (List.forall_mem_cons.mp hj).2⟩
    · exact ⟨rfl, rfl, rfl, rfl, rfl, id⟩
  · exact ⟨rfl, rfl, rfl, rfl, rfl, id⟩

end Handler

namespace Serving
variable {α : Type}

/-- Acts at the pace of turns. What the handler noted may be handed on after each. -/
inductive Beat (α : Type) where
  | around (m : Move α)
  | turn
  | noted
  | openGate (name : String)

def course (x : Serving α) : Course α := { call := x.call, now := x.now }

def opened (p : CallPlan) (ready : Bool) (acts : List (PeerAct α)) (shape : Shape)
    (program : List (Instr α)) (gates : List String) : Serving α :=
  { call := Opening.serve.call p (.before ready acts)
    handler := { Handler.new shape program with gates := gates } }

section
variable [Message α]

def beat (x : Serving α) : Beat α → Serving α
  | .around m => x.step (.around m)
  | .turn =>
    match x.handler.turn x.now x.call with
    | .blocked => x
    | .moved c h => { x with call := c, handler := h }
  | .noted => { x with handler := { x.handler with notes := [], kept := [] } }
  | .openGate name => x.step (.openGate name)

def beats (x : Serving α) (bs : List (Beat α)) : Serving α := bs.foldl beat x

@[simp] theorem beats_concat (x : Serving α) (bs : List (Beat α)) (b : Beat α) :
    x.beats (bs ++ [b]) = (x.beats bs).beat b := by
  rw [beats, beats, List.foldl_append, List.foldl_cons, List.foldl_nil]

theorem beats_append (x : Serving α) (bs cs : List (Beat α)) :
    x.beats (bs ++ cs) = (x.beats bs).beats cs := List.foldl_append

def collect {β : Type} (f : Serving α → Beat α → List β) : Serving α → List (Beat α) → List β
  | _, [] => []
  | x, b :: bs => f x b ++ collect f (x.beat b) bs

@[simp] theorem collect_concat {β : Type} (f : Serving α → Beat α → List β) (x : Serving α)
    (bs : List (Beat α)) (b : Beat α) :
    collect f x (bs ++ [b]) = collect f x bs ++ f (x.beats bs) b := by
  induction bs generalizing x with
  | nil => simp [collect, beats]
  | cons c bs ih => simp [collect, beats, ih]

inductive Goes (x : Serving α) : Beat α → Serving α → Prop where
  | around {m : Move α} (hm : m.around = true) :
      Goes x (.around m) { x with call := (x.course.step m).call, now := (x.course.step m).now }
  | rests {b : Beat α} {k : Handler α} (hb : ∀ m, b = .around m → m.around = false)
      (ht : b = .turn → x.handler.turn x.now x.call = .blocked) (hk : x.handler.Stays k) :
      Goes x b { x with handler := k }
  | turn {d : Call α} {k : Handler α} (ht : Handler.Takes x.call x.handler d k) :
      Goes x .turn { x with call := d, handler := k }

theorem goes_beat (x : Serving α) (b : Beat α) : x.Goes b (x.beat b) := by
  cases b with
  | around m =>
    rw [beat, step]
    split
    · next hm => exact .around hm
    · next hm =>
      refine .rests (k := x.handler) (fun n hn => ?_) (by simp) (.refl _)
      cases hn
      simpa using hm
  | turn =>
    rw [beat]
    cases hm : x.handler.turn x.now x.call with
    | blocked => exact .rests (k := x.handler) (by simp) (fun _ => hm) (.refl _)
    | moved d k => exact .turn (Handler.takes_turn hm)
  | noted => exact .rests (by simp) (by simp) ⟨rfl, rfl, rfl, rfl, rfl, id⟩
  | openGate name => exact .rests (by simp) (by simp) (Handler.stays_openGate _ name)

theorem leads_beat (x : Serving α) (b : Beat α) : Handler.Leads x.call (x.beat b).call := by
  have hgoes := goes_beat x b
  generalize x.beat b = y at hgoes
  cases hgoes with
  | @around m _ => exact ⟨x.course, [m], rfl, rfl⟩
  | rests => exact ⟨x.course, [], rfl, rfl⟩
  | turn ht => exact ht.leads

/-- A look at a handler is some of its turns. -/
theorem exists_turns_look (x : Serving α) :
    ∃ n, x.step .look = (x.beats (List.replicate n .turn)).beat .noted := by
  have hpoll : ∀ fuel c h, ∃ n,
      ({ x with call := c, handler := h } : Serving α).beats (List.replicate n .turn) =
        { x with
          call := (Handler.pollWith x.now fuel c h).1
          handler := (Handler.pollWith x.now fuel c h).2.1 } := by
    intro fuel
    induction fuel with
    | zero => exact fun c h => ⟨0, rfl⟩
    | succ fuel ih =>
      intro c h
      cases hm : h.turn x.now c with
      | blocked => exact ⟨0, by simp [Handler.pollWith, hm, beats]⟩
      | moved d k =>
        obtain ⟨n, hn⟩ := ih d k
        refine ⟨n + 1, ?_⟩
        rw [List.replicate_succ, beats, List.foldl_cons]
        have hbeat : ({ x with call := c, handler := h } : Serving α).beat .turn =
            { x with call := d, handler := k } := by simp [beat, hm]
        rw [hbeat]
        refine Eq.trans hn ?_
        simp [Handler.pollWith, hm]
  obtain ⟨n, hn⟩ := hpoll (Handler.budget x.call x.handler) x.call x.handler
  exact ⟨n, (congrArg (beat · .noted) hn).symm⟩

/-- So whatever is done with looks at the handler is done at the pace of its turns. -/
theorem exists_beats_run (x : Serving α) (as : List (Act α)) : ∃ bs, x.run as = x.beats bs := by
  induction as using List.reverseRecOn with
  | nil => exact ⟨[], rfl⟩
  | append_singleton as a ih =>
    obtain ⟨bs, hbs⟩ := ih
    rw [run_concat, hbs]
    cases a with
    | around m =>
      refine ⟨bs ++ [.around m], ?_⟩
      rw [beats_concat]
      rfl
    | openGate name =>
      refine ⟨bs ++ [.openGate name], ?_⟩
      rw [beats_concat]
      rfl
    | look =>
      obtain ⟨n, hn⟩ := exists_turns_look (x.beats bs)
      exact ⟨bs ++ List.replicate n .turn ++ [.noted], by rw [hn, beats_concat, beats_append]⟩

end
end Serving
end PacedCall
