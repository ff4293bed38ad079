import PacedCall.Proofs.Call.Conduct
import PacedCall.Proofs.Call.Outbound

/-!
Who is called when. Whoever waits on a call is looked at again only after what they wait for has
called them: the scope calls everybody in it when it is cancelled, a queue calls its reader when a
value comes or the queue closes, and a sender when the fate of its value is known. A cancelled
scope calls the supervisor, and the supervisor's tear-down calls the pump; so once nobody who was
called is left to be looked at, nobody waits on a cancelled call any more.
-/
namespace PacedCall

namespace Queue
variable {α : Type}

def closes (q r : Queue α) : Bool := q.termination.isNone && r.termination.isSome

def callsReader (q r : Queue α) : Bool :=
  q.closes r || decide (q.buffer.length < r.buffer.length)

end Queue

namespace Call
variable {α : Type} {c d : Call α}

def ends (c d : Call α) : Bool := !c.scope.cancelled && d.scope.cancelled

def callsReceive (c d : Call α) : Bool :=
  c.ends d || c.inbound.queue.callsReader d.inbound.queue

def callsSend (c d : Call α) : Send α → Bool
  | .placed (.inLine t) => c.ends d || (c.outbound.fate? t).isNone && (d.outbound.fate? t).isSome
  | _ => c.ends d

/-- A pump without a value listens to its queue, and one with a value to the readiness; it does not
listen to the scope. -/
def callsPump (c d : Call α) : Bool :=
  match c.pump with
  | .reading => c.outbound.callsReader d.outbound
  | .readying _ =>
    c.readiness.cause.isNone && d.readiness.cause.isSome ||
      decide (() ∉ c.readiness.called ∧ () ∈ d.readiness.called)
  | .finished => false

def callsSupervisor (c d : Call α) (now later : Nat) : Bool :=
  match c.supervisor with
  | .watching e =>
    c.ends d || c.inbound.queue.closes d.inbound.queue || !c.pump.done && d.pump.done ||
      !e.due now && e.due later
  | .finished => false

end Call

/-- A call with those who are to be looked at: the receive and each send under way, and the two
tasks. Everybody is looked at once to begin with. -/
structure Lookout (α : Type) where
  course : Course α
  receive : Option Bool := none
  sends : List Bool := []
  pump : Bool := true
  supervisor : Bool := true

namespace Lookout
variable {α : Type} {s : Lookout α}

inductive Move (α : Type) where
  | act (m : PacedCall.Move α)
  | dropRecv

def receiveAfter (s : Lookout α) (m : PacedCall.Move α) : Option Bool :=
  match m with
  | .recv => if s.course.call.recv.2.isSome then none else some false
  | _ => s.receive.map fun b => b || s.course.call.callsReceive (s.course.step m).call

def called (s : Lookout α) (m : PacedCall.Move α) : List Bool :=
  (s.course.sends.zip s.sends).map fun (sd, b) =>
    b || s.course.call.callsSend (s.course.step m).call sd

def sendsAfter (s : Lookout α) (m : PacedCall.Move α) : List Bool :=
  match m with
  | .openSend _ => s.called m ++ [true]
  | .pollSend i =>
    match s.course.sends[i]? with
    | none => s.called m
    | some sd =>
      if (s.course.call.pollSend sd).2.2.isSome then (s.called m).eraseIdx i
      else (s.called m).set i false
  | .dropSend i => (s.called m).eraseIdx i
  | _ => s.called m

def step (s : Lookout α) : Move α → Lookout α
  | .dropRecv => { s with receive := none }
  | .act m =>
    { course := s.course.step m
      receive := s.receiveAfter m
      sends := s.sendsAfter m
      pump :=
        match m with
        | .pump => false
        | _ => s.pump || s.course.call.callsPump (s.course.step m).call
      supervisor :=
        match m with
        | .supervise => false
        | _ =>
          s.supervisor || s.course.call.callsSupervisor (s.course.step m).call s.course.now
            (s.course.step m).now }

def run (s : Lookout α) (ms : List (Move α)) : Lookout α := ms.foldl step s

@[simp] theorem run_nil (s : Lookout α) : s.run [] = s := rfl

@[simp] theorem run_concat (s : Lookout α) (ms : List (Move α)) (m : Move α) :
    s.run (ms ++ [m]) = (s.run ms).step m := by
  rw [run, List.foldl_append]
  rfl

theorem run_append (s : Lookout α) (ms ns : List (Move α)) :
    s.run (ms ++ ns) = (s.run ms).run ns := List.foldl_append

def opened (o : Opening α) (p : CallPlan) (ready : Bool) (acts : List (PeerAct α)) :
    Lookout α := { course := .opened o p ready acts }

structure Idle (s : Lookout α) : Prop where
  receive : s.receive ≠ some true
  sends : true ∉ s.sends
  pump : s.pump = false
  supervisor : s.supervisor = false

def acts (ms : List (Move α)) : List (PacedCall.Move α) :=
  ms.filterMap fun
    | .act m => some m
    | .dropRecv => none

theorem course_run (s : Lookout α) (ms : List (Move α)) :
    (s.run ms).course = s.course.run (acts ms) := by
  induction ms using List.reverseRecOn with
  | nil => rfl
  | append_singleton ms m ih =>
    rw [run_concat, acts, List.filterMap_append]
    cases m with
    | act m =>
      simp only [step, List.filterMap_cons, List.filterMap_nil, Course.run_concat]
      rw [ih]
      rfl
    | dropRecv =>
      simp only [step, List.filterMap_cons, List.filterMap_nil, List.append_nil]
      exact ih

end Lookout

/-! Where the pump waits. -/

namespace Call
variable {α : Type} {c d : Call α}

def Rests (c : Call α) : Prop :=
  match c.pump with
  | .reading => c.outbound.termination = none
  | .readying _ => c.readiness.cause = none
  | .finished => True

theorem rests_of_done (hp : c.pump.done = true) : c.Rests := by
  unfold Rests
  cases h : c.pump with
  | finished => trivial
  | reading => simp [h] at hp
  | readying w => simp [h] at hp

theorem rests_of_unreadable (hp : c.pump = .reading) (hread : c.outbound.readable = false) :
    c.Rests := by
  unfold Rests
  rw [hp]
  simp only [Queue.readable, Bool.or_eq_false_iff, Option.isSome_eq_false_iff,
    Option.isNone_iff_eq_none] at hread
  exact hread.2

theorem rests_turn (ht : Turn c (d, false)) : d.Rests := by
  cases ht with
  | rest hrest =>
    obtain hp | ⟨hp, hread⟩ := hrest
    · exact rests_of_done hp
    · exact rests_of_unreadable hp hread
  | waits hp hr hgoes => exact hgoes
  | unready hp hr hend => exact rests_of_done rfl
  | next hp hr hx => cases hx <;> exact rests_of_done rfl

/-- A round after which another one follows has taken a value, or leaves nothing to take. -/
theorem next_goes (hx : Next c (d, true)) :
    d.outbound.length + 1 = c.outbound.length ∨
      d.pump = .reading ∧ d.outbound.readable = false := by
  cases hx with
  | wrote hq hs => exact .inl (Queue.length_of_tryRecv_item hq)
  | empty hq =>
    refine .inr ⟨rfl, ?_⟩
    rw [Queue.tryRecv] at hq
    split at hq
    · cases hq
    · next hb =>
      split at hq
      · cases hq
      · next ht => simp [Queue.readable, hb, ht]

theorem pumpWith_of_unreadable (hp : c.pump = .reading) (hread : c.outbound.readable = false)
    (fuel : Nat) : (pumpWith fuel c).1 = c := by
  cases fuel with
  | zero => rfl
  | succ fuel => simp [pumpWith, pumpTurn, hp, hread]

theorem pumpWith_of_turns {P Q : Call α → Prop}
    (hturn : ∀ c, P c → P c.pumpTurn.1 ∧ (c.pumpTurn.2 = false → Q c.pumpTurn.1)) {fuel : Nat}
    (hc : P c) (hf : c.outbound.length < fuel) :
    P (pumpWith fuel c).1 ∧ Q (pumpWith fuel c).1 := by
  induction fuel generalizing c with
  | zero => omega
  | succ fuel ih =>
    have hround := hturn c hc
    have hcases := pumpTurn_turn c
    rw [pumpWith]
    split
    · next d heq =>
      rw [heq] at hround hcases
      cases hcases with
      | next hp hr hx =>
        -- The round took a value, or left nothing for another one to take.
        obtain hlen | ⟨hread, hrest⟩ := next_goes hx
        · exact ih hround.1 (by simp only at hlen; omega)
        · have hlast : d.pumpTurn = (d, false) := by simp [pumpTurn, hread, hrest]
          have hstops := hturn d hround.1
          rw [hlast] at hstops
          rw [pumpWith_of_unreadable hread hrest]
          exact ⟨hround.1, hstops.2 rfl⟩
    · next d heq =>
      rw [heq] at hround
      exact ⟨hround.1, hround.2 rfl⟩

/-- What every round keeps, a look at the pump keeps, and it leaves what a round leaves that
stops. -/
theorem pollPump_of_turns {P Q : Call α → Prop}
    (hturn : ∀ c, P c → P c.pumpTurn.1 ∧ (c.pumpTurn.2 = false → Q c.pumpTurn.1)) (hc : P c) :
    P c.pollPump ∧ Q c.pollPump :=
  pumpWith_of_turns hturn hc (Nat.lt_succ_self _)

theorem rests_pollPump (c : Call α) : c.pollPump.Rests := by
  refine (pollPump_of_turns (P := fun _ => True) (fun d _ => ⟨trivial, fun hstops => ?_⟩) trivial).2
  have hturn := pumpTurn_turn d
  rw [show d.pumpTurn = (d.pumpTurn.1, false) from Prod.ext rfl hstops] at hturn
  exact rests_turn hturn

/-- A pump whose queue is closed and whose readiness has ended waits for neither. -/
theorem done_of_rests (h : c.Rests) (hcause : c.readiness.cause.isSome = true)
    (hterm : c.outbound.termination.isSome = true) : c.pump.done = true := by
  unfold Rests at h
  cases hp : c.pump with
  | finished => rfl
  | reading =>
    simp only [hp] at h
    rw [h] at hterm
    cases hterm
  | readying w =>
    simp only [hp] at h
    rw [h] at hcause
    cases hcause

/-- What happens beside a pump that is not called leaves it where it rests. -/
theorem rests_beside (h : c.Rests) (hb : Beside c d) (hquiet : c.callsPump d = false) :
    d.Rests := by
  unfold Rests at h ⊢
  rw [hb.samePump]
  unfold callsPump at hquiet
  cases hp : c.pump with
  | finished => trivial
  | reading =>
    simp only [hp] at h hquiet
    simp only [Queue.callsReader, Queue.closes, h, Bool.or_eq_false_iff] at hquiet
    simpa using hquiet.1
  | readying w =>
    simp only [hp] at h hquiet
    simp only [h, Bool.or_eq_false_iff] at hquiet
    simpa using hquiet.1

def Released (c : Call α) : Prop :=
  c.supervisor.done = true → c.pump.done = true ∨ c.readiness.cause.isSome = true

theorem released_watch (h : c.Released) {now : Nat} (hw : Watch c now d) : d.Released := by
  cases hw with
  | rest => exact h
  | tornDown hs => exact fun _ => .inr rfl
  | expired => exact fun _ => .inr rfl
  | settled hin hp hs => exact fun _ => .inl hp
  | watching e hs => exact nofun

theorem scope_recv (c : Call α) : c.recv.1.scope = c.scope := by
  rw [recv]
  split <;> rfl

theorem scope_pollSend (c : Call α) (sd : Send α) : (c.pollSend sd).1.scope = c.scope := by
  unfold pollSend
  split
  · cases sd <;> rfl
  · cases sd <;> rfl

/-! What a cancelled call answers. -/

theorem recv_of_status {st : Status} (hs : c.scope.status = some st) :
    c.recv.2 = some (.error st) := by
  rw [recv, hs]

theorem pollSend_of_status {st : Status} (hs : c.scope.status = some st) (sd : Send α) :
    (c.pollSend sd).2.2 = some (.error (.terminated st)) := by
  unfold pollSend
  rw [hs]

theorem trySend_of_cancelled (hs : c.scope.cancelled = true) (v : α) :
    (c.trySend v).2 = .error .closed := by
  rw [trySend, if_pos hs]

theorem exists_status (hs : c.scope.cancelled = true) : ∃ st, c.scope.status = some st := by
  rw [← Option.isSome_iff_exists, Scope.isSome_status]
  exact hs

end Call

namespace Course
variable {α : Type} {s : Course α}

/-- The parent of the scope ended first: before the call began, or before anybody cancelled it. -/
def ParentFirst (p : CallPlan) (s₀ : Course α) (ms : List (Move α)) : Prop :=
  p.parentCancelled = true ∨ ∃ before after, ms = before ++ .endParent :: after ∧
    (s₀.run before).call.scope.cancelled = false

theorem parentFirst_concat_iff {p : CallPlan} {s₀ : Course α} {ms : List (Move α)} {m : Move α} :
    ParentFirst p s₀ (ms ++ [m]) ↔
      ParentFirst p s₀ ms ∨ m = .endParent ∧ (s₀.run ms).call.scope.cancelled = false := by
  rw [ParentFirst, ParentFirst, exists_split_concat, or_assoc]

theorem scope_opened (o : Opening α) (p : CallPlan) (ready : Bool) (acts : List (PeerAct α)) :
    (opened o p ready acts).call.scope = { cancelled := p.parentCancelled } := by
  refine o.call_of_idle (P := fun c => c.scope = { cancelled := p.parentCancelled }) p _ ?_ ?_ ?_ ?_
  · cases o <;> rfl
  · intro c hc
    simp only [Call.hear]
    split
    · rw [Call.onReady_eq, Call.scope_ask]
      exact hc
    · exact hc
  · intro c hc
    rw [Call.scope_ask]
    exact hc
  · exact fun _ _ hc => hc

/-- A cancelled scope has a cause, unless its parent ended first. -/
theorem cause_eq_none_iff (o : Opening α) (p : CallPlan) (ready : Bool) (acts : List (PeerAct α))
    (ms : List (Move α)) :
    (ParentFirst p (opened o p ready acts) ms →
      ((opened o p ready acts).run ms).call.scope.cancelled = true) ∧
    (((opened o p ready acts).run ms).call.scope.cancelled = true →
      (((opened o p ready acts).run ms).call.scope.cause = none ↔
        ParentFirst p (opened o p ready acts) ms)) := by
  induction ms using List.reverseRecOn with
  | nil =>
    rw [run_nil, scope_opened]
    refine ⟨?_, fun hs => ⟨fun _ => .inl hs, fun _ => rfl⟩⟩
    rintro (hp | ⟨before, after, hms, _⟩)
    · exact hp
    · simp at hms
  | append_singleton ms m ih =>
    obtain ⟨hfirst, hcause⟩ := ih
    have hrecorded := (sound_opened o p ready acts ms).recorded
    generalize hc : (opened o p ready acts).run ms = s at hfirst hcause hrecorded
    obtain ⟨l, hconducts⟩ := exists_conducts_step s m
    rw [run_concat, parentFirst_concat_iff, hc]
    cases hs : s.call.scope.cancelled with
    | true =>
      rw [hconducts.scope.frozen hs]
      simpa [hs] using hcause hs
    | false =>
      have hnot : ¬ ParentFirst p (opened o p ready acts) ms := fun h => by
        cases hs.symm.trans (hfirst h)
      have hnone : s.call.scope.cause = none := Scope.Recorded.cause hrecorded hs
      by_cases hm : m = .endParent
      · subst hm
        exact ⟨fun _ => rfl, fun _ => ⟨fun _ => .inr ⟨rfl, rfl⟩, fun _ => hnone⟩⟩
      · refine ⟨fun h => absurd h (by simp [hnot, hm]), fun hd => ?_⟩
        have hsome := hconducts.scope.isSome_cause hs hnone hd hm
        simp [hnot, hm, Option.isSome_iff_ne_none.mp hsome]

theorem released_step (h : s.call.Released) (m : Move α) : (s.step m).call.Released := by
  by_cases hm : m = .supervise
  · subst hm
    exact Call.released_watch h (Call.pollSupervisor_watch _ _)
  · intro hd
    rw [(unwatched_step s hm).supervisor] at hd
    obtain ⟨l, hconducts⟩ := exists_conducts_step s m
    exact (h hd).imp (later_step s m).pump hconducts.unready

end Course

namespace Lookout
variable {α : Type} {s : Lookout α} {m : PacedCall.Move α}

/-- Nobody is forgotten: who is not to be looked at does not wait for what has come already. -/
structure Attended (s : Lookout α) : Prop where
  receive : s.course.call.scope.cancelled = true → s.receive ≠ some false
  length : s.sends.length = s.course.sends.length
  sends : s.course.call.scope.cancelled = true → ∀ b ∈ s.sends, b = true
  pump : s.pump = false → s.course.call.Rests
  supervisor : s.course.call.scope.cancelled = true →
    s.supervisor = true ∨ s.course.call.supervisor.done = true
  released : s.course.call.Released

/-- A scope that is cancelled was so before, or calls everybody now. -/
theorem cancelled_or_ends (hs : (s.course.step m).call.scope.cancelled = true) :
    s.course.call.scope.cancelled = true ∨
      s.course.call.ends (s.course.step m).call = true := by
  rw [Call.ends, hs, Bool.and_true]
  cases s.course.call.scope.cancelled with
  | true => exact .inl rfl
  | false => exact .inr rfl

/-- A pump that is not to be looked at was not called. -/
theorem quiet_of_pump (hm : m ≠ .pump) (hp : (s.step (.act m)).pump = false) :
    s.pump = false ∧ s.course.call.callsPump (s.course.step m).call = false := by
  refine Bool.or_eq_false_iff.mp ?_
  cases m with
  | pump => exact absurd rfl hm
  | _ => exact hp

namespace Attended

theorem receiveAfter (h : s.Attended) (m : PacedCall.Move α)
    (hs : (s.course.step m).call.scope.cancelled = true) : s.receiveAfter m ≠ some false := by
  have hcalled : s.receive.map (fun b =>
      b || s.course.call.callsReceive (s.course.step m).call) ≠ some false := by
    obtain hbefore | hends := cancelled_or_ends hs
    · cases hr : s.receive with
      | none => simp
      | some b =>
        have hb : b ≠ false := fun hb => h.receive hbefore (by rw [hr, hb])
        simp [hb]
    · simp [Call.callsReceive, hends]
  by_cases hm : m = .recv
  · subst hm
    have hbefore : s.course.call.scope.cancelled = true :=
      (congrArg Scope.cancelled (Call.scope_recv _)).symm.trans hs
    obtain ⟨st, hst⟩ := Call.exists_status hbefore
    simp [Lookout.receiveAfter, Call.recv_of_status hst]
  · cases m with
    | recv => exact absurd rfl hm
    | _ => exact hcalled

theorem called (h : s.Attended) (hs : (s.course.step m).call.scope.cancelled = true) :
    ∀ b ∈ s.called m, b = true := by
  intro b hb
  obtain ⟨⟨sd, b⟩, hmem, rfl⟩ := List.mem_map.mp hb
  obtain hbefore | hends := cancelled_or_ends hs
  · simp [h.sends hbefore b (List.of_mem_zip hmem).2]
  · cases sd with
    | fresh v => simp [Call.callsSend, hends]
    | placed e => cases e <;> simp [Call.callsSend, hends]

theorem sendsAfter (h : s.Attended) (m : PacedCall.Move α)
    (hs : (s.course.step m).call.scope.cancelled = true) : ∀ b ∈ s.sendsAfter m, b = true := by
  have hcalled := h.called hs
  cases m with
  | openSend v =>
    intro b hb
    obtain hb | hb := List.mem_append.mp hb
    · exact hcalled b hb
    · exact List.mem_singleton.mp hb
  | pollSend i =>
    rw [Lookout.sendsAfter]
    cases hi : s.course.sends[i]? with
    | none => exact hcalled
    | some sd =>
      have hbefore : s.course.call.scope.cancelled = true := by
        rw [Course.step, Course.call_pollSend, hi, Option.elim_some, Call.scope_pollSend] at hs
        exact hs
      obtain ⟨st, hst⟩ := Call.exists_status hbefore
      simp only [Call.pollSend_of_status hst, Option.isSome_some, if_true]
      exact fun b hb => hcalled b (List.mem_of_mem_eraseIdx hb)
  | dropSend i => exact fun b hb => hcalled b (List.mem_of_mem_eraseIdx hb)
  | _ => exact hcalled

theorem length_called (h : s.Attended) (m : PacedCall.Move α) :
    (s.called m).length = s.course.sends.length := by
  rw [Lookout.called, List.length_map, List.length_zip, h.length, Nat.min_self]

theorem length_sendsAfter (h : s.Attended) (m : PacedCall.Move α) :
    (s.sendsAfter m).length = (s.course.step m).sends.length := by
  have hlen := h.length_called m
  cases m with
  | openSend v => simp [Lookout.sendsAfter, Course.step, hlen]
  | pollSend i =>
    rw [Lookout.sendsAfter, Course.step, Course.pollSend]
    cases hi : s.course.sends[i]? with
    | none => exact hlen
    | some sd =>
      simp only
      split
      · next hsome =>
        split
        · next heq => simp [heq] at hsome
        · simp only [List.length_eraseIdx, hlen]
      · next hnone =>
        split
        · simp only [List.length_set, hlen]
        · next heq => simp [heq] at hnone
  | dropSend i =>
    rw [Lookout.sendsAfter, Course.step, Course.dropSend]
    cases hi : s.course.sends[i]? with
    | none =>
      rw [List.getElem?_eq_none_iff] at hi
      rw [List.eraseIdx_of_length_le (by omega)]
      exact hlen
    | some sd => simp only [List.length_eraseIdx, hlen]
  | _ => exact hlen

theorem rests (h : s.Attended) (m : PacedCall.Move α) (hp : (s.step (.act m)).pump = false) :
    (s.course.step m).call.Rests := by
  by_cases hm : m = .pump
  · subst hm
    exact Call.rests_pollPump _
  · obtain ⟨hbefore, hquiet⟩ := quiet_of_pump hm hp
    exact Call.rests_beside (h.pump hbefore) (Course.beside_step _ hm) hquiet

theorem supervised (h : s.Attended) (m : PacedCall.Move α)
    (hs : (s.course.step m).call.scope.cancelled = true) :
    (s.step (.act m)).supervisor = true ∨ (s.course.step m).call.supervisor.done = true := by
  by_cases hm : m = .supervise
  · subst hm
    exact .inr (Call.done_pollSupervisor hs)
  · have hflag : (s.supervisor || s.course.call.callsSupervisor (s.course.step m).call
        s.course.now (s.course.step m).now) = true ∨
        (s.course.step m).call.supervisor.done = true := by
      rw [(Course.unwatched_step s.course hm).supervisor]
      obtain hbefore | hends := cancelled_or_ends hs
      · exact (h.supervisor hbefore).imp (by simp +contextual) id
      · cases hsup : s.course.call.supervisor with
        | finished => exact .inr rfl
        | watching e => exact .inl (by simp [Call.callsSupervisor, hsup, hends])
    cases m with
    | supervise => exact absurd rfl hm
    | _ => exact hflag

theorem step (h : s.Attended) (m : Move α) : (s.step m).Attended := by
  cases m with
  | dropRecv => exact { h with receive := nofun }
  | act m =>
    exact
      { receive := h.receiveAfter m
        length := h.length_sendsAfter m
        sends := h.sendsAfter m
        pump := h.rests m
        supervisor := h.supervised m
        released := Course.released_step h.released m }

end Attended

theorem attended_opened (o : Opening α) (p : CallPlan) (ready : Bool) (acts : List (PeerAct α)) :
    (opened o p ready acts).Attended :=
  { receive := nofun
    length := rfl
    sends := nofun
    pump := nofun
    supervisor := fun _ => .inl rfl
    released := by
      intro hd
      have hsup := (o.unwatched_call p (.before ready acts)).supervisor
      rw [opened, Course.opened, hsup] at hd
      cases o <;> cases hd }

theorem attended_run (h : s.Attended) (ms : List (Move α)) : (s.run ms).Attended := by
  induction ms using List.reverseRecOn with
  | nil => exact h
  | append_singleton ms m ih =>
    rw [run_concat]
    exact ih.step m

/-- Nobody waits on a cancelled call any more once everybody who was called was looked at. -/
theorem released_of_idle (h : s.Attended) (hidle : s.Idle)
    (hs : s.course.call.scope.cancelled = true)
    (hunready : s.course.call.readiness.cause.isSome = true →
      s.course.call.outbound.termination.isSome = true) :
    s.receive = none ∧ s.course.sends = [] ∧ s.course.call.pump.done = true ∧
      s.course.call.supervisor.done = true := by
  have hsup := (h.supervisor hs).resolve_left (by simp [hidle.supervisor])
  refine ⟨?_, ?_, ?_, hsup⟩
  · cases hr : s.receive with
    | none => rfl
    | some b =>
      cases b with
      | true => exact absurd hr hidle.receive
      | false => exact absurd hr (h.receive hs)
  · have hnil : s.sends = [] := by
      rw [List.eq_nil_iff_forall_not_mem]
      intro b hb
      exact hidle.sends (h.sends hs b hb ▸ hb)
    have hlen := h.length
    rw [hnil, List.length_nil] at hlen
    exact List.length_eq_zero_iff.mp hlen.symm
  · exact (h.released hsup).elim id fun hcause =>
      Call.done_of_rests (h.pump hidle.pump) hcause (hunready hcause)

/-- Everybody on a cancelled call is told the same, and nobody is left waiting: from then on, what
is received, sent, or told to the transport as the end of the call comes with one status. It is the
status of the recorded cause, or that of a local cancellation when the parent of the scope ended
before anybody cancelled it. -/
theorem cancelled_released (o : Opening α) (p : CallPlan) (ready : Bool) (acts : List (PeerAct α))
    (ms : List (Move α)) :
    let s₀ := opened o p ready acts
    let s := s₀.run ms
    s.course.call.scope.cancelled = true →
    ∃ st, (∀ cause, s.course.call.scope.cause = some cause → st = cause.2) ∧
      (s.course.call.scope.cause = none → st = .localCancelled) ∧
      (s.course.call.scope.cause = none ↔ Course.ParentFirst p s₀.course (Lookout.acts ms)) ∧
      ∀ ns, let t := s.run ns
        t.course.call.scope = s.course.call.scope ∧
        t.course.call.recv.2 = some (.error st) ∧
        (∀ sd, (t.course.call.pollSend sd).2.2 = some (.error (.terminated st))) ∧
        (∀ v, (t.course.call.trySend v).2 = .error .closed) ∧
        (∀ st' ∈ t.course.call.wire.cancellations, st' = st) ∧
        (∀ st', t.course.call.wire.closedWith = some st' → st' = st) ∧
        (∃ l, s.course.call.handle.Uses l t.course.call.handle ∧
          ∀ x ∈ l, ∀ st', x.status? = some st' → st' = st) ∧
        (t.Idle → t.receive = none ∧ t.course.sends = [] ∧ t.course.call.pump.done = true ∧
          t.course.call.supervisor.done = true) := by
  intro s₀ s hs
  have hrun : s.course = (Course.opened o p ready acts).run (Lookout.acts ms) := course_run s₀ ms
  obtain ⟨st, hst⟩ := Call.exists_status hs
  have hstatus := hst
  rw [Scope.status, if_pos hs] at hstatus
  refine ⟨st, ?_, ?_, ?_, ?_⟩
  · intro cause hcause
    rw [hcause] at hstatus
    exact (Option.some.inj hstatus).symm
  · intro hcause
    rw [hcause] at hstatus
    exact (Option.some.inj hstatus).symm
  · rw [hrun]
    exact (Course.cause_eq_none_iff o p ready acts _).2 (hrun ▸ hs)
  · intro ns t
    have ht : t.course = s.course.run (Lookout.acts ns) := course_run s ns
    have hall : t.course = (Course.opened o p ready acts).run (Lookout.acts (ms ++ ns)) := by
      rw [show t = s₀.run (ms ++ ns) from (run_append s₀ ms ns).symm]
      exact course_run s₀ (ms ++ ns)
    have hsound := Course.sound_opened o p ready acts (Lookout.acts (ms ++ ns))
    obtain ⟨l, hl⟩ := Course.exists_conducts_run s.course (Lookout.acts ns)
    obtain ⟨k, hk⟩ := Course.exists_conducts_opened o p ready acts (Lookout.acts (ms ++ ns))
    rw [← ht] at hl
    rw [← hall] at hk hsound
    have hscope : t.course.call.scope = s.course.call.scope := hl.scope.frozen hs
    have hend : t.course.call.scope.cancelled = true := by rw [hscope, hs]
    have hstatus : t.course.call.scope.status = some st := by rw [hscope, hst]
    have honly : ∀ st', t.course.call.scope.status = some st' → st' = st := by
      intro st' hst'
      exact Option.some.inj (hst'.symm.trans hstatus)
    obtain ⟨hcancels, _, hclosedWith⟩ := o.transport_idle p (Loopback.unused_before ready acts)
    refine ⟨hscope, Call.recv_of_status hstatus, Call.pollSend_of_status hstatus,
      Call.trySend_of_cancelled hend, ?_, ?_, ⟨l, hl.uses, ?_⟩, ?_⟩
    · intro st' hst'
      rw [Call.wire, hk.uses.cancellations, hcancels, List.nil_append] at hst'
      obtain ⟨x, hx, hcancel⟩ := List.mem_filterMap.mp hst'
      exact honly st' (hk.told x hx st' (Signal.status?_of_cancel? hcancel))
    · intro st' hst'
      obtain hbefore | ⟨x, hx, herror⟩ := hk.uses.closedWith hst'
      · rw [hclosedWith] at hbefore
        cases hbefore
      · exact honly st' (hk.told x hx st' (Signal.status?_of_error? herror))
    · exact fun x hx st' hst' => honly st' (hl.told x hx st' hst')
    · intro hidle
      have hattended : t.Attended :=
        attended_run (attended_run (attended_opened o p ready acts) ms) ns
      refine released_of_idle hattended hidle hend fun hcause => ?_
      have hclosed := hsound.unready hcause
      exact ((hsound.orderly.closedForReceive_iff).mp hclosed).1

/-- The parent ends while everybody waits: a receive, a send in line, the pump for readiness, and
the supervisor. Each is looked at once more, and the transport is told what they are told. -/
theorem cancelled_released_waiting :
    let waiting := (opened .bidi { role := .client } false ([] : List (PeerAct Nat))).run
      [.act (.openSend 7), .act (.pollSend 0), .act (.openSend 8), .act (.pollSend 0), .act .recv,
        .act .pump, .act .supervise]
    let s := waiting.step (.act .endParent)
    let t := s.run [.act .recv, .act (.pollSend 0), .act .supervise, .act .pump]
    waiting.Idle ∧ waiting.receive = some false ∧ waiting.course.sends.length = 1 ∧
      s.receive = some true ∧ t.course.call.recv.2 = some (.error .localCancelled) ∧
      t.course.call.wire.cancellations = [.localCancelled] ∧ t.course.call.pump.done = true := by
  intro waiting s t
  have hidle : waiting.Idle := ⟨by decide, by decide, rfl, rfl⟩
  have hend : t.Idle := ⟨by decide, by decide, rfl, rfl⟩
  obtain ⟨st, _, hst, _, hafter⟩ := cancelled_released .bidi { role := .client } false
    ([] : List (PeerAct Nat))
    [.act (.openSend 7), .act (.pollSend 0), .act (.openSend 8), .act (.pollSend 0), .act .recv,
      .act .pump, .act .supervise, .act .endParent] rfl
  obtain rfl := hst rfl
  obtain ⟨_, hrecv, _, _, _, _, _, hreleased⟩ :=
    hafter [.act .recv, .act (.pollSend 0), .act .supervise, .act .pump]
  exact ⟨hidle, rfl, rfl, rfl, hrecv, rfl, (hreleased hend).2.2.1⟩

end Lookout
end PacedCall
