import PacedCall.Proofs.Call.Served

/-!
Handlers that are programs. A program that leaves the end of the call to the call does nothing but
what a served call allows its handler: each of its turns is some acts of the served call, and once
it has returned, all that was left to do for it is done.
-/
namespace PacedCall

/-- Instructions that use the halves of the call, and neither end it nor keep a sink for later. The
instruction of a send under way is not one of them. -/
def Instr.plain {α : Type} : Instr α → Bool
  | .inFail _ => false
  | .sinkClose => false
  | .sinkFail _ => false
  | .sinkKeep _ => false
  | .sending _ _ => false
  | _ => true

def Instr.reads {α : Type} : Instr α → Bool
  | .recv => true
  | .recvStrict => true
  | .collect => true
  | .inCancel => true
  | .inDrop => true
  | _ => false

def Instr.writes {α : Type} : Instr α → Bool
  | .send _ => true
  | .sendStrict _ => true
  | .sendAll => true
  | .trySend _ => true
  | .sinkDrop => true
  | _ => false

namespace Served
variable {α : Type} {s : Served α} {c : Call α} {h k : Handler α}

inductive Plain : List (Send α) → List (Instr α) → Prop where
  | between {is : List (Instr α)} (his : ∀ i ∈ is, i.plain = true) : Plain [] is
  | sending {is : List (Instr α)} (sd : Send α) (strict : Bool) (his : ∀ i ∈ is, i.plain = true) :
      Plain [sd] (.sending sd strict :: is)

structure Follows (s : Served α) (h : Handler α) : Prop where
  shape : h.shape = .bidi
  phase : h.phase = .running
  failure : h.failure = none
  inbound : s.inbound = h.inbound
  sink : s.sink = h.sink
  result : s.result = none
  program : Plain s.course.sends h.program

structure Returned (s : Served α) (h : Handler α) : Prop where
  phase : h.phase = .returned
  result : ∃ r, s.result = some r ∧ h.failure = match r with
    | .ok _ => none
    | .error f => some f.toStatus
  ending : s.ending = []

/-- The served call gets to where the handler is, by acts of the handler alone and in no time. -/
def Reaches (s : Served α) (c : Call α) (h : Handler α) : Prop :=
  ∃ as, (∀ m, .around m ∉ as) ∧ (s.run as).course.call = c ∧
    (s.run as).course.now = s.course.now ∧ ((s.run as).Follows h ∨ (s.run as).Returned h)

theorem Reaches.refl (hf : s.Follows h) : s.Reaches s.course.call h :=
  ⟨[], by simp, rfl, rfl, .inl hf⟩

theorem now_pollSend (t : Course α) (i : Nat) : (t.pollSend i).now = t.now := by
  rw [Course.pollSend]
  split
  · rfl
  · split <;> rfl

theorem now_dropSend (t : Course α) (i : Nat) : (t.dropSend i).now = t.now := by
  rw [Course.dropSend]
  split <;> rfl

theorem now_of_allows {m : Move α} (hm : s.allows m = true) :
    (s.course.step m).now = s.course.now := by
  cases m with
  | pollSend i => exact now_pollSend _ i
  | dropSend i => exact now_dropSend _ i
  | _ => first | rfl | cases hm

theorem now_leaving (t : Course α) (inbound sink : Bool) (r : Except Failure Unit) :
    (t.run (leaving inbound sink r)).now = t.now := by
  cases inbound <;> cases sink <;> cases r <;> rfl

theorem exists_wrapUps (s : Served α) :
    ∃ as, (∀ m, .around m ∉ as) ∧ (s.run as).course = s.course.run s.ending ∧
      (s.run as).result = s.result ∧ (s.run as).ending = [] := by
  obtain ⟨ms, hms⟩ : ∃ ms, s.ending = ms := ⟨_, rfl⟩
  induction ms generalizing s with
  | nil => exact ⟨[], by simp, by rw [hms]; rfl, rfl, hms⟩
  | cons m ms ih =>
    have hstep : s.step .wrapUp = { s.make m with ending := ms } := by rw [step, hms]
    obtain ⟨as, has, hcourse, hresult, hending⟩ := ih (s.step .wrapUp) (by rw [hstep])
    refine ⟨.wrapUp :: as, by simpa using has, ?_, ?_, hending⟩
    · rw [hms]
      refine Eq.trans hcourse ?_
      rw [hstep]
      rfl
    · refine Eq.trans hresult ?_
      rw [hstep]
      rfl

theorem Reaches.move {m : Move α} (hr : s.result = none) (hm : s.allows m = true)
    (hrest : ((s.make m).letGo m).Reaches c h) : s.Reaches c h := by
  obtain ⟨as, has, hcall, hnow, hend⟩ := hrest
  have hstep : s.step (.handler m) = (s.make m).letGo m := by
    rw [step, if_pos (by simp [hr, hm])]
  have hrun : s.run (.handler m :: as) = ((s.make m).letGo m).run as := by
    rw [← hstep]
    rfl
  refine ⟨.handler m :: as, by simpa using has, hrun ▸ hcall, ?_, hrun ▸ hend⟩
  rw [hrun, hnow, course_letGo]
  exact now_of_allows hm

/-- A handler that returns with no send under way leaves nothing to do. -/
theorem reaches_finish (hf : s.Follows h) (hsends : s.course.sends = []) (r : Except Failure Unit) :
    s.Reaches (Handler.finish s.course.call h r).1 (Handler.finish s.course.call h r).2 := by
  have hstep : s.step (.returns r) =
      { s with
        inbound := false
        sink := false
        result := some r
        ending := leaving s.inbound s.sink r } := by
    rw [step, if_pos (by simp [hf.result, hsends])]
  obtain ⟨as, has, hcourse, hresult, hending⟩ := exists_wrapUps (s.step (.returns r))
  rw [hstep] at hcourse
  have hrun : (s.run (.returns r :: as)).course = s.course.run (leaving s.inbound s.sink r) := by
    refine Eq.trans ?_ hcourse
    rw [← hstep]
    rfl
  refine ⟨.returns r :: as, by simpa using has, ?_, ?_, .inr ⟨?_, ⟨r, ?_, ?_⟩, hending⟩⟩
  · rw [Course.finish_eq_run s.course h r, ← hf.inbound, ← hf.sink, hrun]
    rfl
  · rw [hrun]
    exact now_leaving _ _ _ _
  · cases r <;> rfl
  · refine hresult.trans ?_
    rw [hstep]
  · have hfailure := hf.failure
    cases r with
    | ok u =>
      cases hin : h.inbound <;> cases hsink : h.sink <;>
        simp [Handler.finish, Handler.dropInbound, Handler.dropSink, hin, hsink, hfailure]
    | error f => rfl

theorem reaches_conclude (hf : s.Follows h) (hsends : s.course.sends = [])
    (r : Except Failure α) :
    s.Reaches (Handler.conclude s.course.call h r).1 (Handler.conclude s.course.call h r).2 := by
  cases r with
  | error f => exact reaches_finish hf hsends _
  | ok v =>
    have hwrites : h.shape.writes = true := by rw [hf.shape]; rfl
    rw [Handler.conclude, if_pos hwrites]
    exact reaches_finish hf hsends _

theorem Follows.note (hf : s.Follows h) (n : Note α) : s.Follows (h.note n) := { hf with }

/-- The program goes on with other plain instructions, and no send under way. -/
theorem Follows.goesOn (hf : s.Follows h) (hsends : s.course.sends = []) {is : List (Instr α)}
    (his : ∀ i ∈ is, i.plain = true) : s.Follows { h with program := is } :=
  { hf with
    program := by
      rw [hsends]
      exact .between his }

theorem Follows.holdsInbound (hf : s.Follows h) (hread : h.canRead = true) :
    s.inbound = true :=
  hf.inbound.trans (Bool.and_eq_true_iff.mp hread).2

theorem Follows.holdsSink (hf : s.Follows h) (hwrite : h.canWrite = true) :
    s.sink = true :=
  hf.sink.trans (Bool.and_eq_true_iff.mp hwrite).2

/-- A receive is a move of the handler. -/
theorem reaches_recv (hf : s.Follows h) (hread : h.canRead = true) {d : Call α}
    {r : Option (RecvResult α)} (hrecv : s.course.call.recv = (d, r))
    (hrest : (s.make .recv).course.call = d → (s.make .recv).Follows h →
      (s.make .recv).Reaches c k) : s.Reaches c k :=
  .move (m := .recv) hf.result (hf.holdsInbound hread)
    (hrest (congrArg Prod.fst hrecv) { hf with })

/-- An instruction that receives and ends the handler with the error it meets. -/
theorem reaches_strict (hf : s.Follows h) (hsends : s.course.sends = [])
    (hread : h.canRead = true) {g : α → Handler α}
    (hg : ∀ v, (s.make .recv).Follows h → (s.make .recv).Follows (g v))
    (hm : (match s.course.call.recv with
      | (_, none) => .blocked
      | (c, some (.error st)) => .ended (Handler.conclude c h (.error (.ofStatus st)))
      | (c, some (.ok none)) => .moved c h
      | (c, some (.ok (some v))) => .moved c (g v)) = Handler.Turn.moved c k) :
    s.Reaches c k := by
  split at hm
  · cases hm
  · next d st hrecv =>
    refine reaches_recv hf hread hrecv fun hcall hgo => ?_
    cases hm
    exact hcall ▸ reaches_conclude hgo hsends _
  · next d hrecv =>
    refine reaches_recv hf hread hrecv fun hcall hgo => ?_
    cases hm
    exact hcall ▸ .refl hgo
  · next d v hrecv =>
    refine reaches_recv hf hread hrecv fun hcall hgo => ?_
    cases hm
    exact hcall ▸ .refl (hg v hgo)

theorem reaches_noted (hf : s.Follows h) (n : Note α)
    (hm : Handler.Turn.noted s.course.call h n = .moved c k) : s.Reaches c k := by
  cases hm
  exact .refl (hf.note n)

theorem reaches_ended (hf : s.Follows h) (hsends : s.course.sends = []) (r : Except Failure α)
    (hm : .ended (Handler.conclude s.course.call h r) = Handler.Turn.moved c k) :
    s.Reaches c k := by
  cases hm
  exact reaches_conclude hf hsends r

/-- A send starts with the instruction to look at it. -/
theorem reaches_sent (hf : s.Follows h) (hsends : s.course.sends = [])
    (hprogram : ∀ i ∈ h.program, i.plain = true) (v : α) (strict : Bool) :
    (s.make (.openSend v)).Reaches s.course.call
      { h with program := .sending (.fresh v) strict :: h.program } := by
  refine .refl (s := s.make (.openSend v)) { hf with program := ?_ }
  rw [show (s.make (.openSend v)).course.sends = [.fresh v] from congrArg (· ++ _) hsends]
  exact .sending _ strict hprogram

theorem reaches_allowed (hf : s.Follows h) {b : Bool} {t : Handler.Turn α}
    (hm : (if !b then .noted s.course.call h .badInstruction else t) = Handler.Turn.moved c k)
    (hgoes : b = true → t = .moved c k → s.Reaches c k) : s.Reaches c k := by
  cases b with
  | false => exact reaches_noted hf _ hm
  | true => exact hgoes rfl hm

theorem reaches_reading [Message α] {now : Nat} {i : Instr α} (hf : s.Follows h)
    (hsends : s.course.sends = []) (hprogram : ∀ i ∈ h.program, i.plain = true)
    (hi : i.reads = true) (hm : Handler.execute now s.course.call h i = .moved c k) :
    s.Reaches c k := by
  cases i with
  | recv =>
    refine reaches_allowed hf hm fun hread hm => ?_
    split at hm
    · cases hm
    · next d r hrecv =>
      refine reaches_recv hf hread hrecv fun hcall hgo => ?_
      cases hm
      exact hcall ▸ .refl (hgo.note _)
  | recvStrict =>
    refine reaches_allowed hf hm fun hread hm => ?_
    exact reaches_strict (g := fun v => { h with acc := h.acc ++ [v] }) hf hsends hread
      (fun v hgo => { hgo with }) hm
  | collect =>
    refine reaches_allowed hf hm fun hread hm => ?_
    refine reaches_strict hf hsends hread (fun v hgo => ?_) hm
    have hnext : (s.make .recv).Follows { h with program := .collect :: h.program } :=
      hgo.goesOn hsends (List.forall_mem_cons.mpr ⟨rfl, hprogram⟩)
    exact { hnext with }
  | inCancel =>
    refine reaches_allowed hf hm fun hread hm => ?_
    refine .move (m := .cancelInbound) hf.result (hf.holdsInbound hread) ?_
    cases hm
    exact .refl (s := s.make .cancelInbound) { hf with }
  | inDrop =>
    refine reaches_allowed hf hm fun hread hm => ?_
    have hin := hf.holdsInbound hread
    refine .move (m := .dropInbound) hf.result hin ?_
    rw [Handler.dropInbound, if_pos (hf.inbound.symm.trans hin)] at hm
    cases hm
    exact .refl (s := (s.make .dropInbound).letGo .dropInbound) { hf with inbound := rfl }
  | _ => cases hi

theorem reaches_writing [Message α] {now : Nat} {i : Instr α} (hf : s.Follows h)
    (hsends : s.course.sends = []) (hprogram : ∀ i ∈ h.program, i.plain = true)
    (hi : i.writes = true) (hm : Handler.execute now s.course.call h i = .moved c k) :
    s.Reaches c k := by
  cases i with
  | send v =>
    refine reaches_allowed hf hm fun hwrite hm => ?_
    refine .move (m := .openSend v) hf.result (hf.holdsSink hwrite) ?_
    cases hm
    exact reaches_sent hf hsends hprogram v false
  | sendStrict v =>
    refine reaches_allowed hf hm fun hwrite hm => ?_
    refine .move (m := .openSend v) hf.result (hf.holdsSink hwrite) ?_
    cases hm
    exact reaches_sent hf hsends hprogram v true
  | sendAll =>
    refine reaches_allowed hf hm fun _ hm => ?_
    cases hm
    refine .refl (hf.goesOn hsends ?_)
    intro i hi
    obtain hi | hi := List.mem_append.mp hi
    · obtain ⟨v, _, rfl⟩ := List.mem_map.mp hi
      rfl
    · exact hprogram i hi
  | trySend v =>
    refine reaches_allowed hf hm fun hwrite hm => ?_
    refine .move (m := .trySend v) hf.result (hf.holdsSink hwrite) ?_
    cases hm
    exact .refl (s := s.make (.trySend v)) { hf with }
  | sinkDrop =>
    refine reaches_allowed hf hm fun hwrite hm => ?_
    have hheld := hf.holdsSink hwrite
    refine .move (m := .dropSink) hf.result (by simp [allows, hheld, hsends]) ?_
    rw [Handler.dropSink, if_pos (hf.sink.symm.trans hheld)] at hm
    cases hm
    exact .refl (s := (s.make .dropSink).letGo .dropSink) { hf with sink := rfl }
  | _ => cases hi

theorem reaches_execute [Message α] {now : Nat} {i : Instr α} (hf : s.Follows h)
    (hsends : s.course.sends = []) (hprogram : ∀ i ∈ h.program, i.plain = true)
    (hi : i.plain = true) (hm : Handler.execute now s.course.call h i = .moved c k) :
    s.Reaches c k := by
  cases i with
  | recv | recvStrict | collect | inCancel | inDrop =>
    exact reaches_reading hf hsends hprogram rfl hm
  | send | sendStrict | sendAll | trySend | sinkDrop =>
    exact reaches_writing hf hsends hprogram rfl hm
  | echo pause =>
    refine reaches_allowed hf hm fun hboth hm => ?_
    refine reaches_strict hf hsends (Bool.and_eq_true_iff.mp hboth).1
      (fun v hgo => hgo.goesOn hsends ?_) hm
    simpa [Instr.plain] using hprogram
  | inClosed =>
    exact reaches_allowed hf hm fun _ hm => reaches_noted hf _ hm
  | gate name =>
    simp only [Handler.execute] at hm
    split at hm
    · cases hm
      exact .refl { hf with }
    · cases hm
      exact .refl (hf.goesOn hsends (List.forall_mem_cons.mpr ⟨rfl, hprogram⟩))
  | sleep ticks =>
    cases hm
    exact .refl (hf.goesOn hsends (List.forall_mem_cons.mpr ⟨rfl, hprogram⟩))
  | atGate name called =>
    simp only [Handler.execute] at hm
    split at hm
    · cases hm
      exact .refl hf
    · cases hm
  | asleep time =>
    simp only [Handler.execute] at hm
    split at hm
    · cases hm
      exact .refl hf
    · cases hm
  | log | unknown => exact reaches_noted hf _ hm
  | fail | respond | respondAll => exact reaches_ended hf hsends _ hm
  | inFail | sinkClose | sinkFail | sinkKeep | sending => cases hi

/-- A look at the send under way, which is over once it was answered. -/
theorem reaches_sending [Message α] {now : Nat} {sd : Send α} {strict : Bool} (hf : s.Follows h)
    {is : List (Instr α)} (hsends : s.course.sends = [sd])
    (his : ∀ i ∈ is, i.plain = true)
    (hm : Handler.execute now s.course.call { h with program := is } (.sending sd strict) =
      .moved c k) : s.Reaches c k := by
  refine .move (m := .pollSend 0) hf.result rfl ?_
  have hwaits : ∀ d sd', s.course.call.pollSend sd = (d, sd', none) →
      (s.make (.pollSend 0)).course.call = d ∧ (s.make (.pollSend 0)).course.sends = [sd'] := by
    intro d sd' hpoll
    simp [make, Course.step, Course.pollSend, hsends, hpoll]
  have hanswered : ∀ d sd' r, s.course.call.pollSend sd = (d, sd', some r) →
      (s.make (.pollSend 0)).course.call = d ∧ (s.make (.pollSend 0)).course.sends = [] ∧
        (s.make (.pollSend 0)).Follows { h with program := is } := by
    intro d sd' r hpoll
    have hnone : (s.make (.pollSend 0)).course.sends = [] := by
      simp [make, Course.step, Course.pollSend, hsends, hpoll]
    refine ⟨by simp [make, Course.step, Course.pollSend, hsends, hpoll], hnone, ?_⟩
    exact { hf with
      program := by
        rw [hnone]
        exact .between his }
  simp only [Handler.execute] at hm
  split at hm
  · next d sd' hpoll =>
    obtain ⟨hcall, hone⟩ := hwaits d sd' hpoll
    cases hm
    refine hcall ▸ .refl (s := s.make (.pollSend 0)) { hf with program := ?_ }
    rw [hone]
    exact .sending _ strict his
  · cases hm
  · next d sd' r hpoll =>
    obtain ⟨hcall, hnone, hgo⟩ := hanswered d sd' r hpoll
    split at hm
    · split at hm
      · cases hm
        exact hcall ▸ .refl hgo
      · cases hm
        exact hcall ▸ reaches_conclude hgo hnone _
    · cases hm
      exact hcall ▸ .refl (hgo.note _)

theorem reaches_turn [Message α] {now : Nat} (hf : s.Follows h)
    (hm : Handler.turn now s.course.call h = .moved c k) : s.Reaches c k := by
  rw [Handler.turn, hf.phase] at hm
  simp only [← hf.phase] at hm
  have hplain := hf.program
  generalize hsends : s.course.sends = sends, h.program = is at hplain hm
  cases hplain with
  | sending sd strict his => exact reaches_sending hf hsends his hm
  | between his =>
    cases is with
    | nil =>
      cases hm
      exact reaches_conclude hf hsends _
    | cons i is =>
      obtain ⟨hi, his⟩ := List.forall_mem_cons.mp his
      exact reaches_execute (hf.goesOn hsends his) hsends his hi hm

/-- A handler that has returned is not moved by a look at it. -/
theorem pollWith_of_returned [Message α] (now fuel : Nat) (c : Call α) (hp : h.phase = .returned) :
    Handler.pollWith now fuel c h = (c, h, false) := by
  cases fuel with
  | zero => rfl
  | succ fuel => rw [Handler.pollWith, Handler.turn, hp]

/-- Whatever a plain program does in one look at it, a served call allows its handler to do. -/
theorem reaches_pollWith [Message α] (now fuel : Nat) (hf : s.Follows h) :
    s.Reaches (Handler.pollWith now fuel s.course.call h).1
      (Handler.pollWith now fuel s.course.call h).2.1 := by
  induction fuel generalizing s h with
  | zero => exact .refl hf
  | succ fuel ih =>
    rw [Handler.pollWith]
    split
    · exact .refl hf
    · next c k hm =>
      obtain ⟨as, has, rfl, hnow, hgo | hend⟩ := reaches_turn hf hm
      · obtain ⟨bs, hbs, hcall, hlater, hlast⟩ := ih hgo
        refine ⟨as ++ bs, ?_, ?_, ?_, ?_⟩
        · intro m hmem
          exact (List.mem_append.mp hmem).elim (has m) (hbs m)
        · rw [run_append]
          exact hcall
        · rw [run_append, hlater, hnow]
        · rw [run_append]
          exact hlast
      · rw [pollWith_of_returned now fuel _ hend.phase]
        exact ⟨as, has, rfl, hnow, .inr hend⟩

end Served

structure Serving (α : Type) where
  call : Call α
  handler : Handler α
  now : Nat := 0

namespace Serving
variable {α : Type}

inductive Act (α : Type) where
  | around (m : Move α)
  | look
  | openGate (name : String)

def step [Message α] (x : Serving α) : Act α → Serving α
  | .around m =>
    if m.around then
      let t := Course.step { call := x.call, now := x.now } m
      { x with call := t.call, now := t.now }
    else x
  | .look =>
    let (c, h, _) := x.handler.poll x.now x.call
    { x with call := c, handler := { h with notes := [], kept := [] } }
  | .openGate name => { x with handler := x.handler.openGate name }

def run [Message α] (x : Serving α) (as : List (Act α)) : Serving α := as.foldl step x

@[simp] theorem run_concat [Message α] (x : Serving α) (as : List (Act α)) (a : Act α) :
    x.run (as ++ [a]) = (x.run as).step a := by
  rw [run, run, List.foldl_append, List.foldl_cons, List.foldl_nil]

end Serving

/-- What goes on around a handler has nothing to do with its sends. -/
theorem Course.step_around {α : Type} (s : Course α) {m : Move α} (hm : m.around = true) :
    (s.step m).call = (step { call := s.call, now := s.now } m).call ∧
      (s.step m).now = (step { call := s.call, now := s.now } m).now ∧
      (s.step m).sends = s.sends := by
  cases m <;> first | exact ⟨rfl, rfl, rfl⟩ | cases hm

namespace Served
variable {α : Type} {s : Served α} {x : Serving α}

structure Serves (s : Served α) (x : Serving α) : Prop where
  call : s.course.call = x.call
  now : s.course.now = x.now
  stands : s.Follows x.handler ∨ s.Returned x.handler

theorem Follows.openGate {h : Handler α} (hf : s.Follows h) (name : String) :
    s.Follows (h.openGate name) := by
  rw [Handler.openGate]
  split
  · next place rest hprogram =>
    split
    · have hplain := hf.program
      rw [hprogram] at hplain
      refine { hf with program := ?_ }
      generalize s.course.sends = sends at hplain ⊢
      cases hplain with
      | between his =>
        exact .between (List.forall_mem_cons.mpr ⟨rfl, (List.forall_mem_cons.mp his).2⟩)
    · exact { hf with }
  · exact { hf with }

theorem Returned.openGate {h : Handler α} (hr : s.Returned h) (name : String) :
    s.Returned (h.openGate name) := by
  rw [Handler.openGate]
  split
  · split <;> exact { hr with }
  · exact { hr with }

theorem serves_step [Message α] (hx : s.Serves x) (a : Serving.Act α) :
    ∃ as, (s.run as).Serves (x.step a) := by
  cases a with
  | around m =>
    by_cases hm : m.around = true
    · have hstep : s.step (.around m) = s.make m := by rw [Served.step, if_pos hm]
      have hx' : x.step (.around m) =
          { x with
            call := (Course.step { call := x.call, now := x.now } m).call
            now := (Course.step { call := x.call, now := x.now } m).now } := by
        rw [Serving.step, if_pos hm]
      obtain ⟨hcall, hnow, hsends⟩ := s.course.step_around hm
      refine ⟨[.around m], ?_⟩
      rw [show s.run [.around m] = s.make m from hstep, hx', ← hx.call, ← hx.now]
      refine ⟨hcall, hnow, ?_⟩
      obtain hf | hr := hx.stands
      · exact .inl { hf with program := hsends ▸ hf.program }
      · exact .inr { hr with }
    · have hx' : x.step (.around m) = x := by rw [Serving.step, if_neg hm]
      rw [hx']
      exact ⟨[], hx⟩
  | look =>
    obtain hf | hr := hx.stands
    · obtain ⟨as, _, hcall, hnow, hend⟩ :=
        reaches_pollWith x.now (Handler.budget x.call x.handler) hf
      rw [hx.call] at hcall hend
      refine ⟨as, hcall, hnow.trans hx.now, ?_⟩
      obtain hf | hr := hend
      · exact .inl { hf with }
      · exact .inr { hr with }
    · have hpoll := pollWith_of_returned x.now (Handler.budget x.call x.handler) x.call hr.phase
      refine ⟨[], ?_⟩
      rw [Serving.step, Handler.poll, hpoll]
      exact ⟨hx.call, hx.now, .inr { hr with }⟩
  | openGate name =>
    refine ⟨[], hx.call, hx.now, ?_⟩
    obtain hf | hr := hx.stands
    · exact .inl (hf.openGate name)
    · exact .inr (hr.openGate name)

/-- Everything that becomes of a call with a plain program to handle it becomes of a served call. -/
theorem serves_run [Message α] (p : CallPlan) (ready : Bool) (acts : List (PeerAct α))
    {program : List (Instr α)} (hplain : ∀ i ∈ program, i.plain = true) (gates : List String)
    (xs : List (Serving.Act α)) :
    let x₀ : Serving α :=
      { call := Opening.serve.call p (.before ready acts)
        handler := { Handler.new .bidi program with gates := gates } }
    ∃ as, ((served p ready acts).run as).Serves (x₀.run xs) := by
  intro x₀
  induction xs using List.reverseRecOn with
  | nil =>
    have hstart : (served p ready acts).Follows x₀.handler :=
      { shape := rfl
        phase := rfl
        failure := rfl
        inbound := rfl
        sink := rfl
        result := rfl
        program := .between hplain }
    have hserves : (served p ready acts).Serves x₀ := ⟨rfl, rfl, .inl hstart⟩
    exact ⟨[], hserves⟩
  | append_singleton xs a ih =>
    obtain ⟨as, hx⟩ := ih
    obtain ⟨bs, hlast⟩ := serves_step hx a
    rw [Serving.run_concat]
    exact ⟨as ++ bs, by rw [run_append]; exact hlast⟩

end Served
end PacedCall
