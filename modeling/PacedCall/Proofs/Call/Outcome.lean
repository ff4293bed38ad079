import PacedCall.Proofs.Call.Failure
import PacedCall.Proofs.Call.Single
import PacedCall.Proofs.Inbound.Flight

/-!
What has come in by the time the peer of a client first ends the call. Until then the queue is open,
and holds all that was delivered and not yet returned. A failure closes it at once; a completion
closes it once nothing is in flight, which a single value never is.
-/
namespace PacedCall

namespace Inbound
variable {α : Type} {b d : Inbound α} {vs : List α} {capacity : Nat}

/-- How an inbound side fares in one move, which may deliver a value; it is closed or cancelled only
if it is `ended` before its time. -/
inductive Fares (ended : Prop) (b : Inbound α) : List α → Inbound α → Prop where
  | same : Fares ended b [] b
  | value (v : α) : Fares ended b [v] (b.onValue v).1
  | unheard (v : α) : Fares ended b [v] b
  | closes (h : ended) (how : Termination) :
      Fares ended b [] { b with queue := (b.queue.close how).1 }
  | cancels (h : ended) (st : Status) :
      Fares ended b [] { b with queue := (b.queue.cancel st).1 }
  | completed : Fares ended b [] b.onCompleted
  | ready (control : Option Bool) : Fares ended b [] (b.onReady control).1
  | task (i : Nat) : Fares ended b [] (b.pollDeferred i).1
  | reads : Fares ended b [] { b with queue := b.queue.tryRecv.1 }

namespace Fares
variable {ended : Prop}

theorem imp {other : Prop} (hi : ended → other) (h : b.Fares ended vs d) : b.Fares other vs d := by
  cases h with
  | same => exact .same
  | value v => exact .value v
  | unheard v => exact .unheard v
  | closes h how => exact .closes (hi h) how
  | cancels h st => exact .cancels (hi h) st
  | completed => exact .completed
  | ready control => exact .ready control
  | task i => exact .task i
  | reads => exact .reads

theorem counted (h : b.Fares ended vs d) (hc : b.Counted capacity) : d.Counted capacity := by
  cases h with
  | same => exact hc
  | unheard v => exact hc
  | value v =>
    cases hopen : b.queue.closedForSend with
    | true =>
      rw [onValue_of_closed hopen]
      exact hc
    | false => exact (counted_onValue hc hopen v).1
  | closes _ how => exact counted_close hc how
  | cancels _ st => exact counted_cancel hc st
  | completed => exact counted_onCompleted hc
  | ready control =>
    rw [onReady_counted hc]
    exact hc
  | task i => exact (counted_pollDeferred hc i).1
  | reads => exact counted_recv hc

/-- Nothing begins to wait for room but a value that finds others in line. -/
theorem deferred (h : b.Fares ended vs d) (hc : b.Counted capacity) (hnone : b.deferred = [])
    (hline : vs = [] ∨ b.queue.line = []) : d.deferred = [] := by
  cases h with
  | same => exact hnone
  | unheard v => exact hnone
  | value v =>
    cases hopen : b.queue.closedForSend with
    | true =>
      rw [onValue_of_closed hopen]
      exact hnone
    | false =>
      obtain ⟨f, hp, _⟩ := hc.flight
      have hroom : b.queue.hasRoom = true := by
        rw [hc.orderly.hasRoom_iff, hline.resolve_left (List.cons_ne_nil v [])]
        exact hc.orderly.room
      rw [onValue_counting_room hopen hroom hp]
      exact hnone
  | closes _ how => exact hnone
  | cancels _ st => exact hnone
  | completed => exact (deferred_onCompleted b).trans hnone
  | ready control =>
    rw [onReady_counted hc]
    exact hnone
  | task i =>
    obtain hsame | ⟨e, r, he, _⟩ := pollDeferred_cases b i
    · rw [hsame]
      exact hnone
    · rw [hnone] at he
      cases he
  | reads => exact hnone

end Fares
end Inbound

namespace Call
variable {α : Type} {c d : Call α}

theorem fares_peer (c : Call α) (a : PeerAct α) :
    c.inbound.Fares (∃ st, a = .fail st) (Move.peer a).delivers (c.peer a).inbound := by
  have hunheard : c.inbound.Fares (∃ st, a = .fail st) (Move.peer a).delivers c.inbound := by
    cases a with
    | deliver v => exact .unheard v
    | _ => exact .same
  rw [peer_eq]
  cases hn : (c.wire.peer a).2 with
  | none => exact hunheard
  | some n =>
    have hnotice := Loopback.notice_of_peer hn
    simp only [hear?]
    by_cases halive : (c.withWire (c.wire.peer a).1).alive = true
    · cases a with
      | deliver v =>
        obtain rfl := Option.some.inj hnotice
        rw [hear, onMessage_eq halive, inbound_ask]
        exact .value v
      | complete =>
        obtain rfl := Option.some.inj hnotice
        rw [hear, if_pos halive]
        exact .completed
      | fail st =>
        obtain rfl := Option.some.inj hnotice
        rw [hear, if_pos halive]
        exact .closes ⟨st, rfl⟩ (.failed st)
      | cancel =>
        obtain rfl := Option.some.inj hnotice
        rw [hear, if_pos halive]
        exact .same
      | rejectWrites st => cases hnotice
      | _ =>
        obtain rfl := Option.some.inj hnotice
        rw [hear, if_pos halive, onReady_eq, inbound_ask]
        exact .ready _
    · cases n with
      | message v =>
        rw [hear, onMessage, if_neg halive]
        exact hunheard
      | _ =>
        rw [hear, if_neg halive]
        exact hunheard

theorem fares_watch {now : Nat} (hw : Watch c now d) :
    c.inbound.Fares (d.scope.cancelled = true) [] d.inbound := by
  cases hw with
  | tornDown hs => exact .cancels ((beside_tearDown c).scope hs) _
  | expired => exact .cancels ((beside_tearDown _).scope (Scope.cancelled_cancelWith _ _ _)) _
  | _ => exact .same

theorem fares_cancelInbound (c : Call α) {ended : Prop} (h : ended) :
    c.inbound.Fares ended [] c.cancelInbound.inbound := by
  unfold cancelInbound
  simp only
  split <;> exact .cancels h _

end Call

namespace Course
variable {α : Type} {s : Course α}

/-- A move that may end the inbound direction before its time: the transport fails, the consumer
gives up, or the call is cancelled by then. -/
def EndsInbound (s : Course α) (m : Move α) : Prop :=
  (∃ st, m = .peer (.fail st)) ∨ m.givesUp ∨ (s.step m).call.scope.cancelled = true

theorem fares_step (s : Course α) (m : Move α) :
    s.call.inbound.Fares (s.EndsInbound m) m.delivers (s.step m).call.inbound := by
  by_cases haside : m.aside = true
  · rw [(aside_step s haside).inbound]
    cases m <;> first | exact .same | cases haside
  · cases m with
    | peer a =>
      refine (Call.fares_peer _ a).imp ?_
      rintro ⟨st, rfl⟩
      exact .inl ⟨st, rfl⟩
    | supervise =>
      exact (Call.fares_watch (Call.pollSupervisor_watch _ _)).imp fun hs => .inr (.inr hs)
    | enqueue i =>
      rw [step, withCall, Call.pollDeferred_eq, Call.inbound_ask]
      exact .task i
    | recv =>
      rw [step, withCall, Call.recv]
      split
      · exact .same
      · exact .reads
    | cancelInbound => exact Call.fares_cancelInbound _ (.inr (.inl (.inl rfl)))
    | dropInbound =>
      have hends : s.EndsInbound .dropInbound := .inr (.inl (.inr rfl))
      rw [step, withCall, Call.dropInbound]
      split
      · exact .same
      · split
        · exact Call.fares_cancelInbound _ hends
        · exact .cancels hends _
    | _ => exact absurd rfl haside

section
variable {p : CallPlan} {ready : Bool} {acts : List (PeerAct α)} {ms : List (Move α)}

theorem inbound_opened {o : Opening α} (ho : ∀ request, o ≠ .responses request) (p : CallPlan)
    (ready : Bool) (acts : List (PeerAct α)) :
    (opened o p ready acts).call.inbound = .counting p.inboundCapacity := by
  refine o.call_of_idle (P := fun c => c.inbound = .counting p.inboundCapacity) p _ ?_ ?_ ?_
    fun _ _ h => h
  · cases o with
    | responses request => exact absurd rfl (ho request)
    | _ => rfl
  · intro c h
    simp only [Call.hear]
    split
    · rw [Call.onReady_eq, Call.inbound_ask, h]
      rfl
    · exact h
  · intro c h
    rw [Call.inbound_ask, h]

theorem counted_run {o : Opening α} (ho : ∀ request, o ≠ .responses request) (p : CallPlan)
    (ready : Bool) (acts : List (PeerAct α)) (ms : List (Move α)) :
    ((opened o p ready acts).run ms).call.inbound.Counted p.inboundCapacity := by
  induction ms using List.reverseRecOn with
  | nil =>
    rw [run_nil, inbound_opened ho]
    exact Inbound.counted_new _
  | append_singleton ms m ih =>
    rw [run_concat]
    exact (fares_step _ m).counted ih

/-- The one value that was delivered does not wait for room. -/
theorem deferred_of_one {o : Opening α} (ho : ∀ request, o ≠ .responses request)
    (hone : (delivered ms).length ≤ 1) :
    ((opened o p ready acts).run ms).call.inbound.deferred = [] := by
  induction ms using List.reverseRecOn with
  | nil =>
    rw [run_nil, inbound_opened ho]
    rfl
  | append_singleton ms m ih =>
    rw [delivered, List.flatMap_append, List.length_append, List.flatMap_singleton] at hone
    have hbefore := ih (by rw [delivered]; omega)
    rw [run_concat]
    refine (fares_step _ m).deferred (counted_run ho p ready acts ms) hbefore ?_
    cases hd : m.delivers with
    | nil => exact .inl rfl
    | cons v vs =>
      rw [hd, List.length_cons] at hone
      have hnone : delivered ms = [] := List.length_eq_zero_iff.mp (by rw [delivered]; omega)
      have hfirst := (ordered_run (ordered_opened o p ready acts)
        (role_started_opened o p ready acts).2 ms).first
      rw [hnone, List.nil_append, List.nil_append, List.prefix_nil,
        List.append_eq_nil_iff] at hfirst
      exact .inr hfirst.2

/-- What was taken in was returned, or is in line. -/
theorem returned_line (o : Opening α) (p : CallPlan) (ready : Bool) (acts : List (PeerAct α))
    (hms : ∀ m ∈ ms, ¬ m.givesUp)
    (hgoes : ((opened o p ready acts).run ms).call.scope.cancelled = false) :
    collect returns (opened o p ready acts) ms ++
        ((opened o p ready acts).run ms).call.inbound.queue.line =
      collect accepts (opened o p ready acts) ms := by
  have hordered := ordered_opened o p ready acts
  have hfirst := hordered.first
  rw [List.nil_append, List.prefix_nil] at hfirst
  have hline := (line_run hordered (role_started_opened o p ready acts).2 hms).resolve_left
    (by rw [hgoes]; simp)
  rw [hline, hfirst, List.nil_append]

/-- The end of the queue is not taken back. -/
theorem ended_later {how : Termination} {m : Move α}
    (h : (((opened o p ready acts).run ms).step m).call.inbound.queue.termination = some how)
    (ns : List (Move α)) :
    ((((opened o p ready acts).run ms).step m).run ns).call.inbound.queue.termination =
      some how := by
  have hdistinct := (recalls_run (distinct_opened o p ready acts) (ms ++ [m])).distinct
  rw [run_concat] at hdistinct
  exact (recalls_run hdistinct ns).inbound how h

/-- A call that its peer completes while no value waits for room ends there and then. -/
theorem completed_step {o : Opening α} (ho : ∀ request, o ≠ .responses request)
    (hopen : ((opened o p ready acts).run ms).call.inbound.queue.closedForSend = false)
    (hnobody : ((opened o p ready acts).run ms).call.inbound.deferred = []) :
    (((opened o p ready acts).run ms).step (.peer .complete)).call.inbound.queue.termination =
      some .completed := by
  have hstarted := (role_started_opened o p ready acts).2
  have hordered := ordered_run (ordered_opened o p ready acts) hstarted ms
  rw [step, withCall, Call.peer_complete ((later_run _ ms).started.trans hstarted), Call.hear,
    if_pos (hordered.alive hopen)]
  exact Inbound.completed_onCompleted (counted_run ho p ready acts ms) hopen hnobody

/-- A call that has taken nothing in by the time its peer completes it is completed. -/
theorem completed_of_nothing (o : Opening α) (ho : ∀ request, o ≠ .responses request)
    (p : CallPlan) (ready : Bool) (acts : List (PeerAct α)) (hms : ∀ m ∈ ms, ¬ m.givesUp)
    (hgoes : ((opened o p ready acts).run ms).call.scope.cancelled = false)
    (hnone : collect accepts (opened o p ready acts) ms = [])
    (hc : (opened o p ready acts).CompletedIn ms) :
    ((opened o p ready acts).run ms).call.inbound.queue.termination = some .completed := by
  obtain ⟨before, after, rfl, hopen⟩ := hc
  set s₀ := opened o p ready acts with hs₀
  rw [run_append] at hgoes ⊢
  have hgoesb : (s₀.run before).call.scope.cancelled = false :=
    (later_run (s₀.run before) (.peer .complete :: after)).goes hgoes
  rw [collect_append, List.append_eq_nil_iff] at hnone
  have hall := (ordered_run (ordered_opened o p ready acts)
    (role_started_opened o p ready acts).2 before).all hopen
  have hline := returned_line o p ready acts (fun m hm => hms m (List.mem_append_left _ hm)) hgoesb
  rw [← hs₀, hnone.1] at hline
  simp only [List.nil_append] at hall
  rw [← hs₀, hline] at hall
  have hnobody : (s₀.run before).call.inbound.deferred = [] :=
    deferred_of_one ho (by simp [← hall])
  exact ended_later (completed_step ho hopen hnobody) after

/-- As long as a client's peer has ended nothing, its queue is open and takes in all that comes. -/
theorem open_of_there (hrole : p.role = .client)
    (hthere : ∀ a, .peer a ∈ ms → a.ends .client = false) (hms : ∀ m ∈ ms, ¬ m.givesUp)
    (hgoes : ((opened .bidi p ready acts).run ms).call.scope.cancelled = false) :
    ((opened .bidi p ready acts).run ms).call.inbound.Going ∧
      ((opened .bidi p ready acts).run ms).call.alive = true ∧
      collect accepts (opened .bidi p ready acts) ms = delivered ms := by
  have hlocal := local_run .bidi p ready acts (hrole.symm ▸ hthere)
  have hgoing : ((opened .bidi p ready acts).run ms).call.inbound.Going := by
    obtain hgoing | hs | hfalse := hlocal.inbound ((role_run .bidi p ready acts ms).trans hrole)
    · exact hgoing
    · cases hgoes.symm.trans hs
    · exact hfalse.elim
  have hordered := ordered_run (ordered_opened .bidi p ready acts)
    (role_started_opened .bidi p ready acts).2 ms
  refine ⟨hgoing, hordered.alive hgoing.goes, ?_⟩
  have hall := hordered.all hgoing.goes
  rw [List.nil_append, List.nil_append] at hall
  rw [← returned_line .bidi p ready acts hms hgoes, hall]

end
end Course

def PeerAct.ending? {α : Type} : PeerAct α → Option Termination
  | .complete => some .completed
  | .fail st => some (.failed st)
  | _ => none

namespace Course
variable {α : Type} {p : CallPlan} {ready : Bool} {acts : List (PeerAct α)}
  {before after : List (Move α)}

/-- Once the peer has ended the call, what came in until then decides on the single message. -/
theorem single_ended (hrole : p.role = .client) {a : PeerAct α}
    (hthere : ∀ b, .peer b ∈ before → b.ends .client = false) (ha : a.ends .client = true)
    (hms : ∀ m ∈ before ++ .peer a :: after, ¬ m.givesUp)
    (hgoes : ((opened .bidi p ready acts).run
      (before ++ .peer a :: after)).call.scope.cancelled = false) (missing extra : String) :
    let s₀ := opened .bidi p ready acts
    let s := s₀.run (before ++ .peer a :: after)
    Call.single missing extra (collect accepts s₀ (before ++ .peer a :: after))
        s.call.inbound.queue.termination =
      Call.single missing extra (delivered before) a.ending? := by
  intro s₀ s
  set b := s₀.run before with hb
  have hlast : s = (b.step (.peer a)).run after := run_append s₀ before (.peer a :: after)
  have hstarted : b.call.wire.started = true :=
    (later_run s₀ before).started.trans (role_started_opened .bidi p ready acts).2
  have hstep : (b.step (.peer a)).call.scope.cancelled = false :=
    (later_run (b.step (.peer a)) after).goes (hlast ▸ hgoes)
  have hgoesb : b.call.scope.cancelled = false := (later_step b (.peer a)).goes hstep
  obtain ⟨hgoing, halive, hall⟩ := open_of_there hrole hthere
    (fun m hm => hms m (List.mem_append_left _ hm)) hgoesb
  have htaken : collect accepts s₀ (before ++ .peer a :: after) =
      delivered before ++ (b.accepts (.peer a) ++ collect accepts (b.step (.peer a)) after) := by
    rw [collect_append, hall]
    rfl
  have hsilent : b.accepts (.peer a) = [] := by
    cases a <;> first | exact accepts_of_silent rfl | cases ha
  rw [hsilent, List.nil_append] at htaken
  -- Once the queue is closed, nothing more is taken in and the end stays what it is.
  have hclosed : ∀ how, (b.step (.peer a)).call.inbound.queue.termination = some how →
      Call.single missing extra (collect accepts s₀ (before ++ .peer a :: after))
          s.call.inbound.queue.termination =
        Call.single missing extra (delivered before) (some how) := by
    intro how hhow
    have hnothing := collect_accepts_of_closed (b.step (.peer a))
      (by rw [Queue.closedForSend, hhow]; rfl) after
    rw [htaken, hnothing, List.append_nil, hlast, ended_later hhow after]
  have hopen : b.call.inbound.queue.termination = none := by
    simpa [Queue.closedForSend] using hgoing.goes
  cases a with
  | fail st =>
    refine hclosed (.failed st) ?_
    rw [step, withCall, Call.peer_fail hstarted, Call.hear, if_pos halive, Call.onFailed,
      Queue.termination_close, hopen]
    rfl
  | complete =>
    by_cases hone : (delivered before).length ≤ 1
    · have hbidi : ∀ request, (Opening.bidi : Opening α) ≠ .responses request := by simp
      have hnone : b.call.inbound.deferred = [] := deferred_of_one hbidi hone
      exact hclosed .completed (completed_step hbidi hgoing.goes hnone)
    · rw [htaken]
      exact (Call.single_of_prefix (by omega) (List.prefix_append _ _) _ _).symm
  | cancel =>
    rw [step, withCall, Call.peer_cancel hstarted, Call.hear, if_pos halive] at hstep
    cases hstep.symm.trans (Scope.cancelled_cancelWith _ _ _)
  | _ => cases ha

/-- A call that its peer has ended first is not cancelled for the transport, whatever happens
after. -/
theorem untold_of_ended (hrole : p.role = .client) {a : PeerAct α}
    (hthere : ∀ b, .peer b ∈ before → b.ends .client = false) (ha : a.ends .client = true)
    (hms : ∀ m ∈ before, ¬ m.givesUp)
    (hgoes : ((opened .bidi p ready acts).run before).call.scope.cancelled = false) :
    ((opened .bidi p ready acts).run (before ++ .peer a :: after)).call.wire.cancellations = [] := by
  set b := (opened .bidi p ready acts).run before with hb
  have hstarted : b.call.wire.started = true :=
    (later_run _ before).started.trans (role_started_opened .bidi p ready acts).2
  have hclient : b.call.handle.role = .client := (role_run .bidi p ready acts before).trans hrole
  obtain ⟨_, halive, _⟩ := open_of_there hrole hthere hms hgoes
  have huncancelled : b.call.handle.cancelled = false := by
    by_contra hc
    have hlocal := local_run .bidi p ready acts (hrole.symm ▸ hthere)
    cases hgoes.symm.trans (hlocal.cancelled (by simpa using hc))
  have hnone : (b.step (.peer a)).call.wire.cancellations = [] := by
    have hcount := (recorded_opened .bidi p ready acts (before ++ [.peer a])).cancellations
    rw [run_concat, ← hb, (unwatched_step b (m := .peer a) nofun).cancelled, huncancelled] at hcount
    exact List.length_eq_zero_iff.mp hcount
  have hremote : (b.step (.peer a)).call.handle.remoteClosed = true :=
    Call.remoteClosed_of_ends hstarted halive (hclient.symm ▸ ha)
  obtain ⟨l, hconducts⟩ := exists_conducts_run (b.step (.peer a)) after
  rw [run_append]
  exact (hconducts.uses.useless hremote).2.2.cancellations.trans hnone

end Course
end PacedCall
