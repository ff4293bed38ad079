import Mathlib.Data.List.TakeWhile
import PacedCall.Call.Session
import PacedCall.Proofs.Call.Outcome
import PacedCall.Proofs.Call.Undisturbed

/-!
The single response of a call. Its owner sends what it has to send and otherwise only waits; the
peer delivers and ends the call as it likes. What the owner is given hangs on the values delivered
before the peer first ended the call and on how it did, unless the peer cancelled a call that was
still there to hear of it. Only a client that gives up first cancels the call itself.
-/
namespace PacedCall

structure Awaited (α : Type) where
  course : Course α
  reading : Call.Single α := .first
  result : Option (Except Status α) := none

def awaited {α : Type} (p : CallPlan) (ready : Bool) (acts : List (PeerAct α)) : Awaited α :=
  { course := .opened .bidi p ready acts }

namespace Awaited
variable {α : Type}

inductive Act (α : Type) where
  | around (m : Move α)
  | look

def allows : Move α → Bool
  | .recv => false
  | m => m.harmless

def look (s : Awaited α) : Awaited α :=
  if s.result.isSome then s
  else
    let (c, r, x) := s.course.call.pollResponse s.reading
    { course := s.course.withCall c, reading := r, result := x }

def step (s : Awaited α) : Act α → Awaited α
  | .around m => if allows m then { s with course := s.course.step m } else s
  | .look => s.look

def run (s : Awaited α) (as : List (Act α)) : Awaited α := as.foldl step s

@[simp] theorem run_concat (s : Awaited α) (as : List (Act α)) (a : Act α) :
    s.run (as ++ [a]) = (s.run as).step a := by
  rw [run, List.foldl_append]
  rfl

theorem run_append (s : Awaited α) (as bs : List (Act α)) :
    s.run (as ++ bs) = (s.run as).run bs := List.foldl_append

/-- What an owner looks at that lets its sink go first is the same. -/
theorem pollAwaiting_eq (s : Awaited α) (hr : s.result = none) :
    (∀ sink, s.reading = .first → Session.pollAwaiting s.course.call (.opening sink) =
      let t := (if sink then s.step (.around .dropSink) else s).step .look
      (t.course.call, .reading t.reading, t.result)) ∧
    Session.pollAwaiting s.course.call (.reading s.reading) =
      let t := s.step .look
      (t.course.call, .reading t.reading, t.result) := by
  refine ⟨?_, ?_⟩
  · intro sink hfirst
    cases sink <;>
      simp [Session.pollAwaiting, step, look, allows, Move.harmless, hr, hfirst, Course.step,
        Course.withCall]
  · simp [Session.pollAwaiting, step, look, hr, Course.withCall]

/-! What the peer has done. -/

namespace Act

def ends : Act α → Bool
  | around (.peer a) => a.ends .client
  | _ => false

def ending? : Act α → Option Termination
  | around (.peer a) => a.ending?
  | _ => none

def delivers : Act α → List α
  | around m => m.delivers
  | look => []

end Act

def inTime (as : List (Act α)) : List α := (as.takeWhile fun a => !a.ends).flatMap Act.delivers

def endedBy (as : List (Act α)) : Option Termination := (as.find? Act.ends).bind Act.ending?

def CancelHeard (s : Awaited α) (as : List (Act α)) : Prop :=
  ∃ before after, as = before ++ .around (.peer .cancel) :: after ∧
    (s.run before).course.call.alive = true

def verdict (as : List (Act α)) : Option (Except Status α) :=
  Call.single "call completed without a response" "received more than one response" (inTime as)
    (endedBy as)

variable {s : Awaited α} {as bs : List (Act α)} {m : Move α}

theorem delivers_of_refused (hm : allows m = false) : m.delivers = [] := by
  cases m with
  | peer a => cases a <;> first | rfl | cases hm
  | _ => rfl

theorem allows_of_ends {a : PeerAct α} (ha : a.ends .client = true) :
    allows (.peer a) = true := by
  cases a <;> first | rfl | cases ha

theorem harmless_of_allows (hm : allows m = true) : m.harmless = true := by
  cases m <;> first | exact hm | rfl

theorem returns_of_allows (hm : allows m = true) (s : Course α) : s.returns m = [] := by
  cases m <;> first | rfl | cases hm

theorem not_givesUp_of_harmless (hm : m.harmless = true) : ¬ m.givesUp := by
  rintro (rfl | rfl) <;> cases hm

/-- One look makes a receive or two; when something comes of it the receiving half goes away, and
for a failure the call is cancelled first. -/
theorem look_moves (hr : s.result = none) :
    (s.step .look).result = (s.course.call.pollSingle "call completed without a response"
      "received more than one response" s.reading).2.2 ∧
    ∃ n, match (s.step .look).result with
      | none => (s.step .look).course = s.course.run (List.replicate n .recv) ∧
        (s.step .look).reading.got =
          s.reading.got ++ Course.collect Course.returns s.course (List.replicate n .recv)
      | some (.ok _) => (s.step .look).course =
          s.course.run (List.replicate n .recv ++ [.dropInbound])
      | some (.error st) => (s.step .look).course =
          s.course.run (List.replicate n .recv ++ [.cancel st, .dropInbound]) := by
  obtain ⟨n, hcourse, hgot⟩ := s.course.exists_recvs "call completed without a response"
    "received more than one response" s.reading
  rw [step, look, hr]
  simp only [Option.isSome_none, Bool.false_eq_true, if_false, Call.pollResponse]
  rcases hx : s.course.call.pollSingle "call completed without a response"
    "received more than one response" s.reading with ⟨c, r, _ | (st | v)⟩
  · rw [hx] at hcourse hgot
    exact ⟨rfl, n, hcourse, hgot rfl⟩
  · rw [hx] at hcourse
    refine ⟨rfl, n, ?_⟩
    simp only [Course.run_append, ← hcourse]
    rfl
  · rw [hx] at hcourse
    refine ⟨rfl, n, ?_⟩
    simp only [Course.run_append, ← hcourse]
    rfl

/-- What was given is not taken back, and nothing more is looked at. -/
theorem step_of_result (hr : s.result.isSome = true) (a : Act α) :
    (s.step a).result = s.result ∧ ((s.step a).course = s.course ∨
      ∃ m, a = .around m ∧ (s.step a).course = s.course.step m) := by
  cases a with
  | look =>
    rw [step, look, if_pos hr]
    exact ⟨rfl, .inl rfl⟩
  | around m =>
    rw [step]
    split
    · exact ⟨rfl, .inr ⟨m, rfl, rfl⟩⟩
    · exact ⟨rfl, .inl rfl⟩

theorem run_of_result (hr : s.result.isSome = true) (as : List (Act α)) :
    (s.run as).result = s.result ∧ ∃ ms, (s.run as).course = s.course.run ms ∧
      ∀ a, .peer a ∈ ms → .around (.peer a) ∈ as := by
  induction as using List.reverseRecOn with
  | nil => exact ⟨rfl, [], rfl, nofun⟩
  | append_singleton as a ih =>
    obtain ⟨hsame, ms, hrun, hpeer⟩ := ih
    obtain ⟨hkeeps, hcourse⟩ := step_of_result (hsame.symm ▸ hr) a
    rw [run_concat]
    refine ⟨hkeeps.trans hsame, ?_⟩
    obtain hrest | ⟨m, rfl, hmoves⟩ := hcourse
    · exact ⟨ms, hrest.trans hrun, fun b hb => List.mem_append_left _ (hpeer b hb)⟩
    · refine ⟨ms ++ [m], by rw [hmoves, hrun, Course.run_concat], ?_⟩
      intro b hb
      obtain hb | hb := List.mem_append.mp hb
      · exact List.mem_append_left _ (hpeer b hb)
      · rw [List.mem_singleton] at hb
        simp [hb]

theorem result_before {a : Act α} (hr : ((s.run as).step a).result = none) :
    (s.run as).result = none := by
  by_contra hsome
  have hkeeps := (step_of_result (Option.isSome_iff_ne_none.mpr hsome) a).1
  exact hsome (hkeeps.symm.trans hr)

theorem result_before_append (hr : (s.run (as ++ bs)).result = none) :
    (s.run as).result = none := by
  by_contra hsome
  have hkeeps := (run_of_result (Option.isSome_iff_ne_none.mpr hsome) bs).1
  rw [run_append] at hr
  exact hsome (hkeeps.symm.trans hr)

/-- Acts come to these moves, as long as nothing came of the wait. -/
structure Covers (s : Awaited α) (as : List (Act α)) (ms : List (Move α)) : Prop where
  course : (s.run as).course = s.course.run ms
  harmless : ∀ m ∈ ms, m.harmless = true
  got : (s.run as).reading.got =
    s.reading.got ++ Course.collect Course.returns s.course ms
  delivered : Course.delivered ms = as.flatMap Act.delivers
  peer : ∀ a, .peer a ∈ ms → .around (.peer a) ∈ as
  heard : s.course.CancelHeard ms ↔ s.CancelHeard as

theorem cancelHeard_concat {a : Act α} :
    s.CancelHeard (as ++ [a]) ↔
      s.CancelHeard as ∨ a = .around (.peer .cancel) ∧ (s.run as).course.call.alive = true :=
  exists_split_concat

namespace Covers
variable {ms : List (Move α)}

theorem around (h : s.Covers as ms) (hm : allows m = true) :
    s.Covers (as ++ [.around m]) (ms ++ [m]) := by
  have hstep : s.run (as ++ [.around m]) =
      { s.run as with course := (s.run as).course.step m } := by
    rw [run_concat, step, if_pos hm]
  refine ⟨?_, ?_, ?_, ?_, ?_, ?_⟩
  · rw [hstep, Course.run_concat, ← h.course]
  · intro n hn
    obtain hn | hn := List.mem_append.mp hn
    · exact h.harmless n hn
    · exact List.mem_singleton.mp hn ▸ harmless_of_allows hm
  · rw [hstep, Course.collect_concat, returns_of_allows hm, List.append_nil]
    exact h.got
  · rw [Course.delivered, List.flatMap_append, List.flatMap_append, ← h.delivered]
    rfl
  · intro a ha
    obtain ha | ha := List.mem_append.mp ha
    · exact List.mem_append_left _ (h.peer a ha)
    · rw [← List.mem_singleton.mp ha]
      exact List.mem_append_right _ (List.mem_singleton.mpr rfl)
  · rw [Course.cancelHeard_concat, cancelHeard_concat, h.heard, h.course, Act.around.injEq]

theorem refused (h : s.Covers as ms) (hm : allows m = false) :
    s.Covers (as ++ [.around m]) ms := by
  have hstep : s.run (as ++ [.around m]) = s.run as := by
    rw [run_concat, step, if_neg (by simp [hm])]
  refine ⟨hstep ▸ h.course, h.harmless, hstep ▸ h.got, ?_, ?_, ?_⟩
  · rw [List.flatMap_append, ← h.delivered, List.flatMap_singleton, Act.delivers,
      delivers_of_refused hm, List.append_nil]
  · exact fun a ha => List.mem_append_left _ (h.peer a ha)
  · rw [cancelHeard_concat, h.heard]
    refine ⟨.inl, fun hor => hor.resolve_right ?_⟩
    rintro ⟨hcancel, _⟩
    cases hcancel
    cases hm

theorem look (h : s.Covers as ms) {n : Nat}
    (hcourse : ((s.run as).step .look).course =
      (s.run as).course.run (List.replicate n .recv))
    (hgot : ((s.run as).step .look).reading.got = (s.run as).reading.got ++
      Course.collect Course.returns (s.run as).course (List.replicate n .recv)) :
    s.Covers (as ++ [.look]) (ms ++ List.replicate n .recv) := by
  refine ⟨?_, ?_, ?_, ?_, ?_, ?_⟩
  · rw [run_concat, hcourse, h.course, Course.run_append]
  · intro k hk
    obtain hk | hk := List.mem_append.mp hk
    · exact h.harmless k hk
    · rw [List.eq_of_mem_replicate hk]
      rfl
  · rw [run_concat, hgot, h.got, h.course, Course.collect_append, List.append_assoc]
  · rw [Course.delivered, List.flatMap_append, List.flatMap_append, ← h.delivered]
    have hsilent : (List.replicate n (.recv : Move α)).flatMap Move.delivers = [] := by
      rw [List.flatMap_eq_nil_iff]
      intro k hk
      rw [List.eq_of_mem_replicate hk]
      rfl
    rw [hsilent]
    rfl
  · intro a ha
    obtain ha | ha := List.mem_append.mp ha
    · exact List.mem_append_left _ (h.peer a ha)
    · cases List.eq_of_mem_replicate ha
  · have hrecvs : ∀ n, s.course.CancelHeard (ms ++ List.replicate n .recv) ↔
        s.course.CancelHeard ms := by
      intro n
      induction n with
      | zero => simp
      | succ n ih => simp [List.replicate_succ', ← List.append_assoc, Course.cancelHeard_concat, ih]
    rw [hrecvs, cancelHeard_concat, h.heard]
    simp

end Covers

/-- Before anything came of it, a wait is a course of harmless moves. -/
theorem Covers.extend {ms : List (Move α)} (h : s.Covers as ms)
    (hr : (s.run (as ++ bs)).result = none) : ∃ ns, s.Covers (as ++ bs) (ms ++ ns) := by
  induction bs using List.reverseRecOn with
  | nil => exact ⟨[], by simpa using h⟩
  | append_singleton bs b ih =>
    rw [← List.append_assoc] at hr ⊢
    rw [run_concat] at hr
    have hbefore := result_before hr
    obtain ⟨ns, hcovers⟩ := ih hbefore
    cases b with
    | around m =>
      cases hm : allows m with
      | true => exact ⟨ns ++ [m], by simpa using hcovers.around hm⟩
      | false => exact ⟨ns, hcovers.refused hm⟩
    | look =>
      obtain ⟨_, n, hmoves⟩ := look_moves hbefore
      rw [hr] at hmoves
      exact ⟨ns ++ List.replicate n .recv, by simpa using hcovers.look hmoves.1 hmoves.2⟩

theorem covers_nil (s : Awaited α) : s.Covers [] [] := by
  refine ⟨rfl, nofun, (List.append_nil _).symm, rfl, nofun, ?_⟩
  constructor <;>
    · rintro ⟨before, after, hsplit, _⟩
      cases before <;> cases hsplit

theorem exists_covers (hr : (s.run as).result = none) : ∃ ms, s.Covers as ms := by
  obtain ⟨ms, hcovers⟩ := (covers_nil s).extend (List.nil_append as ▸ hr)
  rw [List.nil_append, List.nil_append] at hcovers
  exact ⟨ms, hcovers⟩

/-- Until the peer has ended the call, all that it delivered is in time. -/
theorem inTime_of_there (hthere : ∀ a ∈ as, a.ends = false) :
    inTime as = as.flatMap Act.delivers ∧ endedBy as = none := by
  have hall : as.takeWhile (fun a => !a.ends) = as :=
    List.takeWhile_eq_self_iff.mpr fun a ha => by simp [hthere a ha]
  have hnone : as.find? Act.ends = none :=
    List.find?_eq_none.mpr fun a ha => by simp [hthere a ha]
  exact ⟨by rw [inTime, hall], by rw [endedBy, hnone, Option.bind_none]⟩

/-- What a wait covers from the first end on. -/
theorem exists_covers_ended (hr : (s.run as).result = none) (hends : ∃ a ∈ as, a.ends = true) :
    ∃ a before after, s.Covers as (before ++ .peer a :: after) ∧ a.ends .client = true ∧
      (∀ b, .peer b ∈ before → b.ends .client = false) ∧
      Course.delivered before = inTime as ∧ endedBy as = a.ending? := by
  obtain ⟨e, he⟩ := Option.isSome_iff_exists.mp (List.find?_isSome.mpr hends)
  obtain ⟨hfound, before, after, rfl, hthere⟩ := List.find?_eq_some_iff_append.mp he
  obtain ⟨a, rfl⟩ : ∃ a, e = .around (.peer a) := by
    cases e with
    | look => cases hfound
    | around m =>
      cases m with
      | peer a => exact ⟨a, rfl⟩
      | _ => cases hfound
  have hsplit : before ++ .around (.peer a) :: after =
      before ++ [.around (.peer a)] ++ after := by simp
  have hintime : inTime (before ++ .around (.peer a) :: after) = before.flatMap Act.delivers := by
    rw [inTime, List.takeWhile_append_of_pos hthere, List.takeWhile_cons, hfound]
    simp
  rw [hsplit] at hr
  have hfirst : (s.run before).result = none :=
    result_before_append (List.append_assoc _ _ _ ▸ hr)
  obtain ⟨ms, hcovers⟩ := exists_covers hfirst
  obtain ⟨ns, hlater⟩ := (hcovers.around (allows_of_ends hfound)).extend hr
  refine ⟨a, ms, ns, ?_, hfound, ?_, ?_, ?_⟩
  · rw [hsplit]
    simpa using hlater
  · intro b hb
    simpa [Act.ends] using hthere _ (hcovers.peer b hb)
  · rw [hintime, hcovers.delivered]
  · rw [endedBy, he]
    rfl

section
variable {p : CallPlan} {ready : Bool} {acts : List (PeerAct α)} {x : Except Status α}

/-- In a scope that goes on, a look comes to the verdict. -/
theorem look_of_goes (hrole : p.role = .client)
    (hr : ((awaited p ready acts).run as).result = none)
    (hgoes : ((awaited p ready acts).run as).course.call.scope.cancelled = false) :
    (((awaited p ready acts).run as).step .look).result = verdict as := by
  obtain ⟨ms, hcovers, hends⟩ : ∃ ms, (awaited p ready acts).Covers as ms ∧
      Call.single "call completed without a response" "received more than one response"
        (Course.collect Course.accepts (.opened .bidi p ready acts) ms)
        ((awaited p ready acts).run as).course.call.inbound.queue.termination = verdict as := by
    by_cases hends : ∃ a ∈ as, a.ends = true
    · obtain ⟨a, before, after, hcovers, ha, hthere, hintime, hended⟩ :=
        exists_covers_ended hr hends
      refine ⟨_, hcovers, ?_⟩
      rw [hcovers.course] at hgoes ⊢
      rw [verdict, hended, ← hintime]
      exact Course.single_ended hrole hthere ha
        (fun m hm => not_givesUp_of_harmless (hcovers.harmless m hm)) hgoes _ _
    · have hthere : ∀ a ∈ as, a.ends = false := by simpa using hends
      obtain ⟨ms, hcovers⟩ := exists_covers hr
      refine ⟨ms, hcovers, ?_⟩
      rw [hcovers.course] at hgoes ⊢
      obtain ⟨hgoing, _, hall⟩ := Course.open_of_there hrole
        (fun a ha => hthere _ (hcovers.peer a ha))
        (fun m hm => not_givesUp_of_harmless (hcovers.harmless m hm)) hgoes
      have hopen := hgoing.goes
      rw [Queue.closedForSend, Option.isSome_eq_false_iff, Option.isNone_iff_eq_none] at hopen
      obtain ⟨hintime, hended⟩ := inTime_of_there hthere
      rw [verdict, hended, hintime, ← hcovers.delivered, ← hall]
      exact congrArg _ hopen
  have hbidi : ∀ request, (Opening.bidi : Opening α) ≠ .responses request := by simp
  have horderly := (Course.counted_run hbidi p ready acts ms).orderly
  rw [(look_moves hr).1, Call.pollSingle_eq hgoes (hcovers.course ▸ horderly), ← hends,
    hcovers.got]
  rw [hcovers.course] at hgoes ⊢
  have hline := Course.returned_line .bidi p ready acts
    (fun m hm => not_givesUp_of_harmless (hcovers.harmless m hm)) hgoes
  rw [← hline]
  rfl

/-- After the peer has ended the call, nothing cancels it for the transport. -/
theorem untold_of_ended (hrole : p.role = .client) (hdeadline : p.deadline = none)
    (hparent : p.parentCancelled = false) (hacts : ∀ a ∈ acts, ∀ st, a ≠ .rejectWrites st)
    (hr : ((awaited p ready acts).run as).result = none) (hends : ∃ a ∈ as, a.ends = true)
    (ns : List (Move α)) :
    (((awaited p ready acts).run as).course.run ns).call.wire.cancellations = [] := by
  obtain ⟨a, before, after, hcovers, ha, hthere, _⟩ := exists_covers_ended hr hends
  have hharmless : ∀ m ∈ before, m.harmless = true :=
    fun m hm => hcovers.harmless m (List.mem_append_left _ hm)
  have hgoes := Course.goes_of_there hdeadline hparent ready hacts hharmless hthere
  rw [hcovers.course, ← Course.run_append, List.append_assoc, List.cons_append]
  exact Course.untold_of_ended hrole hthere ha
    (fun m hm => not_givesUp_of_harmless (hharmless m hm)) hgoes

/-- A look that fails, of a call that its peer has not ended, cancels the call. -/
theorem told_of_there (hrole : p.role = .client) (hdeadline : p.deadline = none)
    (hparent : p.parentCancelled = false) (hacts : ∀ a ∈ acts, ∀ st, a ≠ .rejectWrites st)
    (hr : ((awaited p ready acts).run as).result = none) {st : Status}
    (hx : (((awaited p ready acts).run as).step .look).result = some (.error st))
    (hthere : ∀ a ∈ as ++ bs, a.ends = false) :
    let u := (((awaited p ready acts).run as).step .look).run bs
    u.course.Quiet → u.course.call.wire.cancellations = [st] := by
  intro u hquiet
  obtain ⟨ms, hcovers⟩ := exists_covers hr
  obtain ⟨_, n, hlook⟩ := look_moves hr
  rw [hx] at hlook
  obtain ⟨_, ns, hlater, hpeer⟩ := run_of_result (s := ((awaited p ready acts).run as).step .look)
    (hx ▸ rfl) bs
  set recvs := List.replicate n (Move.recv : Move α) with hrecvs
  have hharmless : ∀ m ∈ ms ++ recvs, m.harmless = true := by
    intro m hm
    obtain hm | hm := List.mem_append.mp hm
    · exact hcovers.harmless m hm
    · rw [List.eq_of_mem_replicate hm]
      rfl
  have hleft : ∀ a, .peer a ∈ ms ++ recvs → a.ends .client = false := by
    intro a ha
    obtain ha | ha := List.mem_append.mp ha
    · exact hthere _ (List.mem_append_left _ (hcovers.peer a ha))
    · cases List.eq_of_mem_replicate ha
  have hsilent : ∀ a, .peer a ∈ ms ++ recvs ++ .dropInbound :: ns → a.ends .client = false := by
    intro a ha
    obtain ha | ha := List.mem_append.mp ha
    · exact hleft a ha
    · have hns : .peer a ∈ ns := by simpa using ha
      exact hthere _ (List.mem_append_right _ (hpeer a hns))
  have hgoes := Course.goes_of_there hdeadline hparent ready hacts hharmless hleft
  -- The look cancels the scope for the failure, and nothing changes that afterwards.
  have hcourse : u.course = (((Course.opened .bidi p ready acts).run (ms ++ recvs)).step
      (.cancel st)).run (.dropInbound :: ns) := by
    rw [hlater, hlook, hcovers.course, ← Course.run_append, ← Course.run_append,
      ← Course.run_concat, ← Course.run_append]
    simp [awaited]
  rw [hcourse] at hquiet ⊢
  exact Course.cancellations_of_cancel .bidi hrole ready acts st hgoes hsilent hquiet

/-- What the one who waits is given, at the look that gives it. Unless the call hears that its peer
cancels it, that is the verdict on what came in before the peer first ended the call. A call that
the peer has ended is not cancelled for the transport afterwards. One that failed for this side
alone is, once nothing can move any more, and with the failure that was given. -/
theorem response_exact (hrole : p.role = .client) (hdeadline : p.deadline = none)
    (hparent : p.parentCancelled = false) (ready : Bool)
    (hacts : ∀ a ∈ acts, ∀ st, a ≠ .rejectWrites st) (as : List (Act α)) (x : Except Status α) :
    let s₀ := awaited p ready acts
    let s := s₀.run as
    let t := s.step .look
    s.result = none → t.result = some x →
      (¬ s₀.CancelHeard as → verdict as = some x) ∧
      (s₀.CancelHeard as → x = .error .peerCancelled) ∧
      ∀ bs, let u := t.run bs
        ((∃ a ∈ as, a.ends = true) → u.course.call.wire.cancellations = []) ∧
        ((∀ a ∈ as ++ bs, a.ends = false) → u.course.Quiet → ∀ st, x = .error st →
          u.course.call.wire.cancellations = [st]) := by
  intro s₀ s t hr hx
  obtain ⟨ms, hcovers⟩ := exists_covers hr
  have hheard := hcovers.heard
  have hcourse : s.course = (Course.opened .bidi p ready acts).run ms := hcovers.course
  have hrun := Course.undisturbed_run hdeadline hparent ready hacts hcovers.harmless
  simp only [← hcourse] at hrun
  refine ⟨?_, ?_, ?_⟩
  · intro hunheard
    obtain ⟨h, _⟩ | ⟨_, hcancel⟩ := hrun
    · exact (look_of_goes hrole hr h.goes).symm.trans hx
    · exact absurd (hheard.mp hcancel) hunheard
  · intro hcancel
    obtain ⟨_, hunheard⟩ | ⟨hstatus, _⟩ := hrun
    · exact absurd (hheard.mpr hcancel) hunheard
    · have hlook := (look_moves hr).1
      rw [Call.pollSingle_of_cancelled hstatus] at hlook
      exact Option.some.inj (hx.symm.trans hlook)
  · intro bs u
    refine ⟨?_, ?_⟩
    · intro hends
      obtain ⟨_, ns, hlater, _⟩ := run_of_result (s := t) (hx ▸ rfl) bs
      obtain ⟨ks, hlook⟩ : ∃ ks, t.course = s.course.run ks := by
        obtain ⟨_, n, hmoves⟩ := look_moves hr
        rw [show (s.step .look).result = some x from hx] at hmoves
        cases x with
        | error st => exact ⟨_, hmoves⟩
        | ok v => exact ⟨_, hmoves⟩
      have hall : u.course = s.course.run (ks ++ ns) := by
        rw [Course.run_append, ← hlook]
        exact hlater
      rw [hall]
      exact untold_of_ended hrole hdeadline hparent hacts hr hends _
    · rintro hthere hquiet st rfl
      exact told_of_there hrole hdeadline hparent hacts hr hx hthere hquiet

/-- Two values where one was expected. The second waits for room until the look asks after it. -/
theorem response_exact_extra :
    let as : List (Act Nat) := [.around .dropSink, .around (.peer (.deliver 7)),
      .around (.peer (.deliver 8))]
    let bs : List (Act Nat) := [.around .pump, .around .supervise, .around (.enqueue 0)]
    let extra : Status := ⟨.internal, "received more than one response", []⟩
    let t := ((awaited { role := .client } true []).run as).step .look
    verdict as = some (.error extra) ∧ t.result = some (.error extra) ∧
      (t.run bs).course.call.wire.cancellations = [extra] := by
  intro as bs extra t
  have hx : t.result = some (.error extra) := rfl
  have hquiet : (t.run bs).course.Quiet := Course.Quiet.of_done (by decide) (by decide) (by decide)
  have hthere : ∀ a ∈ as ++ bs, a.ends = false := by decide
  have hready : ∀ a ∈ ([] : List (PeerAct Nat)), ∀ st, a ≠ .rejectWrites st := nofun
  have h := response_exact rfl rfl rfl true (p := { role := .client }) hready as
    (.error extra) rfl hx
  have hunheard : ¬ (awaited { role := .client } true []).CancelHeard as := by
    rintro ⟨before, after, hsplit, _⟩
    have hcancel := hthere (.around (.peer .cancel)) (by simp [hsplit])
    cases hcancel
  obtain ⟨hverdict, _, hlater⟩ := h
  have htold := (hlater bs).2 hthere hquiet extra rfl
  with_reducible exact ⟨hverdict hunheard, hx, htold⟩

/-- A cancellation that finds nobody in the call any more changes nothing: the peer had completed
it, this side had half-closed it, and the value was there to be read. -/
theorem response_of_late_cancel :
    let as : List (Act Nat) := [.around .dropSink, .around (.peer (.deliver 7)),
      .around (.peer .complete), .around .pump, .around .supervise, .around (.peer .cancel)]
    let s := (awaited { role := .client } true []).run as
    .around (.peer .cancel) ∈ as ∧ s.result = none ∧ (s.step .look).result = some (.ok 7) ∧
      (s.step .look).result ≠ some (.error .peerCancelled) := by
  intro as s
  have hmem : .around (.peer .cancel) ∈ as := by simp [as]
  have hok : (s.step .look).result = some (.ok 7) := rfl
  exact ⟨hmem, rfl, hok, by rw [hok]; nofun⟩

end

end Awaited
end PacedCall
