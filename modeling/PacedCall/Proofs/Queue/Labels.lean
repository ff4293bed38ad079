import PacedCall.Proofs.Queue.Senders

/-!
A queue never looks into the values it carries. Whatever the values are turned into, a script does
with the new values what it did with the old ones. So the values may be given labels, a different
one for every step that sends, and a label tells the value of one send from all others, also where
the same value is sent many times.
-/
namespace PacedCall

variable {α β : Type}

def Waiting.map (f : α → β) (w : Waiting α) : Waiting β := ⟨w.ticket, f w.value⟩

def Received.map (f : α → β) : Received α → Received β
  | item v => item (f v)
  | empty => empty
  | closed how => closed how

namespace Queue

def map (f : α → β) (q : Queue α) : Queue β :=
  { capacity := q.capacity
    buffer := q.buffer.map f
    waiting := q.waiting.map (Waiting.map f)
    nextTicket := q.nextTicket
    termination := q.termination
    fates := q.fates }

def Outcome.map (f : α → β) : Outcome α → Outcome β
  | sent r => sent r
  | received r => received (r.map (Option.map f))
  | readable => readable
  | closed how => closed how

def Step.map (f : α → β) : Step α → Step β
  | trySend v => trySend (f v)
  | send id v => send id (f v)
  | recv id => recv id
  | readable id => readable id
  | closed id => closed id
  | tryRecv => tryRecv
  | drain => drain
  | close how => close how
  | cancel st => cancel st
  | letGo => letGo
  | poll id => poll id
  | drop id => drop id
  | unknown => unknown

theorem eq_poll_of_map {f : α → β} {a : Step α} {id : String} (h : a.map f = .poll id) :
    a = .poll id := by
  cases a <;> cases h
  rfl

def Answer.map (f : α → β) : Answer α → Answer β
  | nothing => nothing
  | flag b => flag b
  | trySent r v => trySent r (f v)
  | queued immediate => queued immediate
  | received r => received (r.map f)
  | drained items last => drained (items.map f) (last.map f)
  | look .missing => look .missing
  | look .finished => look .finished
  | look .pending => look .pending
  | look (.done out) => look (.done (out.map f))
  | gone => gone
  | badStep => badStep

def Session.map (f : α → β) (s : Session α) : Session β :=
  { queue := s.queue.map f, desk := s.desk, held := s.held }

variable (f : α → β) (q : Queue α)

@[simp] theorem hasRoom_map : (q.map f).hasRoom = q.hasRoom := by
  simp [hasRoom, map]

@[simp] theorem closedForSend_map : (q.map f).closedForSend = q.closedForSend := rfl

@[simp] theorem readable_map : (q.map f).readable = q.readable := by
  simp [readable, map]

@[simp] theorem fate?_map (t : Nat) : (q.map f).fate? t = q.fate? t := rfl

theorem trySend_map (v : α) : (q.map f).trySend (f v) = ((q.trySend v).1.map f, (q.trySend v).2) := by
  rw [trySend, trySend, closedForSend_map, hasRoom_map]
  split
  · rfl
  · split
    · simp [map]
    · rfl

theorem send_map (v : α) : (q.map f).send (f v) = ((q.send v).1.map f, (q.send v).2) := by
  rw [send, send, hasRoom_map, show (q.map f).termination = q.termination from rfl]
  split
  · rfl
  · split
    · simp [map]
    · simp [map, Waiting.map]

theorem promote_map : (q.map f).promote = q.promote.map f := by
  cases hw : q.waiting <;> simp [promote, map, hw, Waiting.map]

theorem tryRecv_map : (q.map f).tryRecv = (q.tryRecv.1.map f, q.tryRecv.2.map f) := by
  cases hb : q.buffer with
  | nil => cases ht : q.termination <;> simp [tryRecv, map, hb, ht, Received.map]
  | cons v rest =>
    have hp := promote_map f { q with buffer := rest }
    simp only [map] at hp
    simp [tryRecv, map, hb, Received.map, hp]

theorem drainWith_map (fuel : Nat) : (q.map f).drainWith fuel =
    ((q.drainWith fuel).1.map f, (q.drainWith fuel).2.1.map f, (q.drainWith fuel).2.2.map f) := by
  induction fuel generalizing q with
  | zero => rfl
  | succ fuel ih =>
    rw [drainWith, drainWith, tryRecv_map]
    obtain ⟨r, x⟩ := q.tryRecv
    cases x <;> simp [Received.map, ih]

theorem drain_map : (q.map f).drain = (q.drain.1.map f, q.drain.2.1.map f, q.drain.2.2.map f) := by
  have hlength : (q.map f).length = q.length := by simp [length, map]
  rw [drain, drain, hlength, drainWith_map]

theorem close_map (how : Termination) :
    (q.map f).close how = ((q.close how).1.map f, (q.close how).2) := by
  cases ht : q.termination <;> simp [close, map, ht]

theorem cancel_map (st : Status) :
    (q.map f).cancel st = ((q.cancel st).1.map f, (q.cancel st).2) := by
  rw [cancel, close_map]
  simp [cancel, dismiss, map, Waiting.map, Function.comp_def]

theorem release_map : (q.map f).release = q.release.map f := by
  simp [release, dismiss, map, Waiting.map, Function.comp_def]

theorem dropSend_map (e : Enqueue) : (q.map f).dropSend e = (q.dropSend e).map f := by
  cases e <;> simp [dropSend, withdraw, forget, map, List.filter_map, Function.comp_def, Waiting.map]

theorem pollSend_map (e : Enqueue) :
    (q.map f).pollSend e = ((q.pollSend e).1.map f, (q.pollSend e).2) := by
  cases e with
  | inLine t =>
    rw [pollSend, pollSend, fate?_map]
    cases q.fate? t <;> rfl
  | _ => rfl

namespace Session

theorem settled?_map (r : Received α) :
    (r.map f).settled?.map Outcome.received =
      (r.settled?.map Outcome.received).map (Outcome.map f) := by
  cases r with
  | closed how => cases how <;> rfl
  | _ => rfl

theorem lookAt_map (op : Op) :
    lookAt (q.map f) op =
      ((lookAt q op).1.map f, (lookAt q op).2.1, (lookAt q op).2.2.map (Outcome.map f)) := by
  cases op with
  | send e w =>
    cases hr : (q.pollSend e).2.2 <;> simp [lookAt, pollSend_map, hr, Outcome.map]
  | recv p => cases p <;> simp only [lookAt, tryRecv_map, settled?_map, Option.map_none]
  | readable p => cases p <;> cases hq : q.readable <;> simp [lookAt, hq, Outcome.map]
  | closed p =>
    have hend : (q.map f).termination = q.termination := rfl
    cases p <;> cases hq : q.termination <;> simp [lookAt, hend, hq, Outcome.map]

variable (s : Session α)

theorem remove_map (id : String) :
    (s.map f).remove id = ((s.remove id).1.map f, (s.remove id).2) := by
  cases hf : s.desk.find? id with
  | none => simp [remove, map, hf]
  | some h => cases hop : h.op <;> simp [remove, map, hf, hop, dropSend_map]

theorem start_map (id : String) (op : Op) :
    (s.map f).start id op = (s.start id op).map f := by
  simp only [start, remove_map]
  rfl

theorem poll_map (id : String) :
    Answer.look ((s.map f).poll id).2 = (Answer.look (s.poll id).2).map f ∧
      ((s.map f).poll id).1 = (s.poll id).1.map f := by
  cases hf : s.desk.find? id with
  | none => simp [poll, map, hf, Answer.map]
  | some h =>
    cases hfin : h.finished with
    | true => simp [poll, map, hf, hfin, Answer.map]
    | false =>
      have hl := lookAt_map f s.queue h.op
      cases hout : (lookAt s.queue h.op).2.2 <;>
        simp [poll, map, hf, hfin, hl, hout, Answer.map]

theorem tidy_map : (s.map f).tidy = s.tidy.map f := by
  have halive : (s.map f).alive = s.alive := rfl
  have hrelease := release_map f s.queue
  unfold tidy
  rw [halive]
  split
  · rfl
  · simp [callSenders, map, hrelease]

/-- A step does with other values what it did with these. -/
theorem apply_map (a : Step α) :
    (s.map f).apply (a.map f) = ((s.apply a).1.map f, (s.apply a).2.map f) := by
  cases a with
  | trySend v =>
    have hq := trySend_map f s.queue v
    cases hr : (s.queue.trySend v).2 <;>
      simp [apply, Step.map, map, hq, hr, callReaders, Answer.map]
  | send id v =>
    have hq := send_map f s.queue v
    have hs := start_map f { s with queue := (s.queue.send v).1 } id
      (.send (s.queue.send v).2 false)
    simp only [map] at hs
    cases hi : (s.queue.send v).2.immediate <;>
      simp [apply, Step.map, map, hq, hi, hs, callReaders, Answer.map]
  | recv id => simp [apply, Step.map, start_map, Answer.map]
  | readable id => simp [apply, Step.map, start_map, Answer.map]
  | closed id => simp [apply, Step.map, start_map, Answer.map]
  | tryRecv => simp [apply, Step.map, map, tryRecv_map, Answer.map]
  | drain => simp [apply, Step.map, map, drain_map, Answer.map]
  | close how =>
    have hq := close_map f s.queue how
    cases hfirst : (s.queue.close how).2 <;>
      simp [apply, Step.map, map, hq, hfirst, callReaders, callWatchers, Answer.map]
  | cancel st =>
    have hq := cancel_map f s.queue st
    cases hfirst : (s.queue.cancel st).2 <;>
      simp [apply, Step.map, map, hq, hfirst, callReaders, callWatchers, Answer.map]
  | letGo => rfl
  | poll id => simp [apply, Step.map, poll_map]
  | drop id => simp [apply, Step.map, remove_map, Answer.map]
  | unknown => rfl

theorem step_map (a : Step α) :
    (s.map f).step (a.map f) = ((s.step a).1.map f, (s.step a).2.map f) := by
  have hneeds : needsQueue (a.map f) = needsQueue a := by cases a <;> rfl
  rw [step, step, hneeds, show (s.map f).held = s.held from rfl, apply_map]
  split
  · rfl
  · simp [tidy_map]

theorem after_map (as : List (Step α)) :
    (s.map f).after (as.map (Step.map f)) = (s.after as).map f := by
  induction as generalizing s with
  | nil => rfl
  | cons a as ih =>
    rw [List.map_cons, after, List.foldl_cons, step_map]
    exact ih (s.step a).1

def answers (s : Session α) : List (Step α) → List (Answer α)
  | [] => []
  | a :: as => (s.step a).2 :: answers (s.step a).1 as

theorem answers_map (as : List (Step α)) :
    (s.map f).answers (as.map (Step.map f)) = (s.answers as).map (Answer.map f) := by
  induction as generalizing s with
  | nil => rfl
  | cons a as ih => rw [List.map_cons, answers, answers, step_map, List.map_cons, ih]

end Session

/-! Labels. -/

/-- A script from its step `k` on, with every value under the number of the step that sends it. -/
def labelled (k : Nat) (as : List (Step α)) : List (Step (Nat × α)) :=
  as.mapIdx fun i a => a.map (Prod.mk (k + i))

theorem labelled_append (k : Nat) (as bs : List (Step α)) :
    labelled k (as ++ bs) = labelled k as ++ labelled (k + as.length) bs := by
  simp only [labelled, List.mapIdx_append, Nat.add_assoc, Nat.add_comm as.length]

theorem labelled_cons (k : Nat) (a : Step α) (as : List (Step α)) :
    labelled k (a :: as) = a.map (Prod.mk k) :: labelled (k + 1) as := by
  simp only [labelled, List.mapIdx_cons, Nat.add_zero, Nat.add_assoc, Nat.add_comm 1]

/-- Without its labels, a labelled script is the script. -/
theorem labelled_snd (k : Nat) (as : List (Step α)) :
    (labelled k as).map (Step.map Prod.snd) = as := by
  induction as generalizing k with
  | nil => rfl
  | cons a as ih =>
    rw [labelled_cons, List.map_cons, ih]
    cases a <;> rfl

def Step.value? : Step α → Option α
  | .trySend v => some v
  | .send _ v => some v
  | _ => none

/-- A labelled script sends values under the numbers of its own steps only. -/
theorem label_bounds {k : Nat} {as : List (Step α)} {a : Step (Nat × α)} (ha : a ∈ labelled k as)
    {x : Nat × α} (hx : a.value? = some x) : k ≤ x.1 ∧ x.1 < k + as.length := by
  obtain ⟨i, hi, rfl⟩ := List.mem_mapIdx.mp ha
  have hlabel : x.1 = k + i := by
    cases hstep : as[i] <;> rw [hstep] at hx <;> cases hx <;> rfl
  omega

end Queue
end PacedCall
