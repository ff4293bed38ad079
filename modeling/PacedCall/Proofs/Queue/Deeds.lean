import PacedCall.Proofs.Queue.Wakes

/-!
Every step of a session does a few plain deeds to its queue, one after another: a drain is so many
receives, giving up a name is a withdrawal, and a queue that nobody keeps is released at the end of
the step. What a whole script does to the queue is therefore a list of deeds, and what holds of one
deed holds of every script. Of the buffer, it is that values come in at its end and leave it from
its front, all of them or one by one.
-/
namespace PacedCall
namespace Queue

inductive Deed (α : Type) where
  | trySend (v : α)
  | send (v : α)
  | take
  | close (how : Termination)
  | cancel (st : Status)
  | withdraw (ticket : Nat)
  | forget (ticket : Nat)
  | release

variable {α : Type}

namespace Deed

@[simp] def act (q : Queue α) : Deed α → Queue α
  | trySend v => (q.trySend v).1
  | send v => (q.send v).1
  | take => q.tryRecv.1
  | close how => (q.close how).1
  | cancel st => (q.cancel st).1
  | withdraw t => q.withdraw t
  | forget t => q.forget t
  | release => q.release

@[simp] def brings (q : Queue α) : Deed α → List α
  | trySend v =>
    match (q.trySend v).2 with
    | .ok _ => [v]
    | .error _ => []
  | send v => if (q.send v).2.immediate then [v] else []
  | take => if q.buffer.isEmpty then [] else (q.waiting.take 1).map Waiting.value
  | _ => []

@[simp] def gives (q : Queue α) : Deed α → List α
  | take => q.buffer.take 1
  | _ => []

@[simp] def clears (q : Queue α) : Deed α → List α
  | cancel _ => q.buffer
  | _ => []

@[simp] def strands (q : Queue α) : Deed α → List α
  | release => q.buffer
  | _ => []

end Deed

def Deed.mild : Deed α → Bool
  | .cancel _ => false
  | .release => false
  | _ => true

def outputs {σ ι ο : Type} (next : σ → ι → σ) (out : σ → ι → List ο) : σ → List ι → List ο
  | _, [] => []
  | s, i :: is => out s i ++ outputs next out (next s i) is

section outputs
variable {σ ι ο : Type} {next : σ → ι → σ} {out more : σ → ι → List ο}

theorem outputs_append (s : σ) (is js : List ι) :
    outputs next out s (is ++ js) =
      outputs next out s is ++ outputs next out (is.foldl next s) js := by
  induction is generalizing s with
  | nil => rfl
  | cons i is ih => simp [outputs, ih]

theorem outputs_eq_nil {s : σ} {is : List ι} (h : ∀ i ∈ is, ∀ s, out s i = []) :
    outputs next out s is = [] := by
  induction is generalizing s with
  | nil => rfl
  | cons i is ih =>
    obtain ⟨hi, his⟩ := List.forall_mem_cons.mp h
    rw [outputs, hi, ih his, List.append_nil]

theorem countP_outputs_append (p : ο → Bool) (s : σ) (is : List ι) :
    (outputs next (fun s i => out s i ++ more s i) s is).countP p =
      (outputs next out s is).countP p + (outputs next more s is).countP p := by
  induction is generalizing s with
  | nil => rfl
  | cons i is ih =>
    simp only [outputs, List.countP_append, ih]
    omega

end outputs

def actAll (q : Queue α) (ds : List (Deed α)) : Queue α := ds.foldl Deed.act q

theorem actAll_append (q : Queue α) (ds es : List (Deed α)) :
    q.actAll (ds ++ es) = (q.actAll ds).actAll es := List.foldl_append

/-- The values in the buffer, and those that come into it, leave it from its front or stay in it. -/
theorem buffer_act (q : Queue α) (d : Deed α) :
    q.buffer ++ d.brings q = (d.gives q ++ d.clears q ++ d.strands q) ++ (d.act q).buffer := by
  cases d with
  | trySend v =>
    by_cases hclosed : q.closedForSend = true
    · simp [trySend, hclosed]
    · by_cases hroom : q.hasRoom = true <;>
        simp [trySend, hclosed, hroom]
  | send v =>
    cases hend : q.termination with
    | some t =>
      simp [send_of_ended hend,
        Enqueue.immediate]
    | none =>
      by_cases hroom : q.hasRoom = true <;>
        simp [Queue.send, hend, hroom,
          Enqueue.immediate]
  | take =>
    cases hb : q.buffer with
    | nil =>
      have hnil : q.tryRecv.1.buffer = [] := by
        rw [tryRecv, hb]
        cases q.termination <;> exact hb
      simp [hb, hnil]
    | cons v rest =>
      cases hw : q.waiting with
      | nil =>
        simp [tryRecv, promote, hb, hw]
      | cons w ws =>
        simp [tryRecv, promote, hb, hw]
  | close how =>
    obtain ⟨t, ht⟩ := exists_close q how
    simp [ht]
  | cancel st =>
    simp [cancel, dismiss]
  | withdraw t =>
    simp [withdraw]
  | forget t =>
    simp [forget]
  | release =>
    simp [release, dismiss]

def Deed.sheds (q : Queue α) (d : Deed α) : List α := d.gives q ++ d.clears q ++ d.strands q

theorem buffer_actAll (q : Queue α) (ds : List (Deed α)) :
    q.buffer ++ outputs Deed.act Deed.brings q ds =
      outputs Deed.act Deed.sheds q ds ++ (q.actAll ds).buffer := by
  induction ds generalizing q with
  | nil => simp [outputs, actAll]
  | cons d ds ih =>
    have hd := q.buffer_act d
    calc q.buffer ++ outputs Deed.act Deed.brings q (d :: ds)
        = d.sheds q ++ ((d.act q).buffer ++ outputs Deed.act Deed.brings (d.act q) ds) := by
          rw [outputs, ← List.append_assoc, hd, List.append_assoc, Deed.sheds]
      _ = outputs Deed.act Deed.sheds q (d :: ds) ++ (q.actAll (d :: ds)).buffer := by
          rw [ih, outputs, List.append_assoc]
          rfl

def Answer.items : Answer α → List α
  | .received (.item v) => [v]
  | .drained vs _ => vs
  | .look (.done (.received (.ok (some v)))) => [v]
  | _ => []

namespace Session
variable {s : Session α} {capacity : Nat}

def givesUp (s : Session α) (id : String) : List (Deed α) :=
  match s.ticket? id with
  | some t => [.withdraw t, .forget t]
  | none => []

/-- A look at a sender takes away what it was told; a look at a receiver takes a value. -/
def looks (s : Session α) (id : String) : List (Deed α) :=
  if s.receives id then [.take]
  else
    match s.ticket? id with
    | some t => if (s.queue.fate? t).isSome then [.forget t] else []
    | none => []

def acts (s : Session α) : Step α → List (Deed α)
  | .trySend v => [.trySend v]
  | .send id v => .send v :: s.givesUp id
  | .recv id => s.givesUp id
  | .readable id => s.givesUp id
  | .closed id => s.givesUp id
  | .tryRecv => [.take]
  | .drain => List.replicate (s.queue.length + 1) .take
  | .close how => [.close how]
  | .cancel st => [.cancel st]
  | .letGo => []
  | .poll id => s.looks id
  | .drop id => s.givesUp id
  | .unknown => []

def refuses (s : Session α) (a : Step α) : Bool := !s.held && needsQueue a

def lapses (s : Session α) (a : Step α) : Bool := !s.refuses a && !(s.apply a).1.alive

def deeds (s : Session α) (a : Step α) : List (Deed α) :=
  (if s.refuses a then [] else s.acts a) ++ if s.lapses a then [.release] else []

theorem actAll_givesUp (s : Session α) (id : String) (q : Queue α) :
    q.actAll (s.givesUp id) = without { s with queue := q } id := by
  unfold givesUp without
  rw [show ticket? { s with queue := q } id = s.ticket? id from rfl]
  cases s.ticket? id <;> rfl

/-- A receive that finds nothing is a deed that does nothing. -/
theorem take_of_nil {q : Queue α} (hb : q.buffer = []) : Deed.act q .take = q := by
  rw [Deed.act, tryRecv, hb]
  cases q.termination <;> rfl

theorem takes_of_nil {q : Queue α} (hb : q.buffer = []) (n : Nat) :
    q.actAll (List.replicate n .take) = q ∧
      outputs Deed.act Deed.gives q (List.replicate n .take) = [] := by
  induction n with
  | zero => exact ⟨rfl, rfl⟩
  | succ n ih =>
    rw [List.replicate_succ, actAll, List.foldl_cons, outputs, take_of_nil hb, ih.2, Deed.gives, hb]
    exact ⟨ih.1, rfl⟩

/-- Receiving until there is nothing more is so many receives. -/
theorem drainWith_eq_takes (fuel : Nat) (q : Queue α) :
    (q.drainWith fuel).1 = q.actAll (List.replicate fuel .take) ∧
      (q.drainWith fuel).2.1 = outputs Deed.act Deed.gives q (List.replicate fuel .take) := by
  induction fuel generalizing q with
  | zero => exact ⟨rfl, rfl⟩
  | succ fuel ih =>
    cases hb : q.buffer with
    | nil =>
      obtain ⟨hstay, hnothing⟩ := takes_of_nil hb (fuel + 1)
      rw [hstay, hnothing, drainWith, tryRecv, hb]
      cases q.termination <;> exact ⟨rfl, rfl⟩
    | cons v rest =>
      have hr : q.tryRecv = (Deed.act q .take, .item v) := by
        rw [Deed.act, tryRecv, hb]
      obtain ⟨hqueue, hitems⟩ := ih (Deed.act q .take)
      rw [drainWith, hr, List.replicate_succ, actAll, List.foldl_cons, outputs, Deed.gives, hb]
      exact ⟨hqueue, congrArg (v :: ·) hitems⟩

/-- A step that lets nobody go does its deeds to the queue. -/
theorem queueAfter_eq_actAll (h : s.Sound capacity) (a : Step α) :
    s.queueAfter a = s.queue.actAll (s.acts a) := by
  cases a with
  | send id v => exact (actAll_givesUp s id _).symm
  | recv id => exact (actAll_givesUp s id _).symm
  | readable id => exact (actAll_givesUp s id _).symm
  | closed id => exact (actAll_givesUp s id _).symm
  | drop id => exact (actAll_givesUp s id _).symm
  | drain => exact (drainWith_eq_takes _ _).1
  | poll id =>
    rw [queueAfter, acts, looks]
    cases hf : s.desk.find? id with
    | none => simp [receives, ticket?, hf, actAll]
    | some g =>
      obtain ⟨op, finished, woken⟩ := g
      cases op with
      | send e w =>
        cases e with
        | inLine t =>
          obtain rfl : finished = false := h.live id _ t hf rfl
          cases hfate : s.queue.fate? t <;>
            simp [receives, ticket?, hf, Op.ticket?, lookAt, pollSend, hfate, actAll]
        | settled r => simp [receives, ticket?, hf, Op.ticket?, lookAt, pollSend, actAll]
        | spent => simp [receives, ticket?, hf, Op.ticket?, lookAt, pollSend, actAll]
      | recv p =>
        cases p <;> cases finished <;>
          simp [receives, ticket?, hf, Op.ticket?, lookAt, actAll]
      | readable p => cases p <;> simp [receives, ticket?, hf, Op.ticket?, lookAt, actAll]
      | closed p => cases p <;> simp [receives, ticket?, hf, Op.ticket?, lookAt, actAll]
  | _ => rfl

theorem queue_apply (h : s.Sound capacity) (a : Step α) :
    (s.apply a).1.queue = s.queue.actAll (s.acts a) := by
  by_cases ha : a = .letGo
  · subst ha
    rfl
  · rw [(apply_eq s a ha).1, queueAfter_eq_actAll h]

theorem step_of_accepted {a : Step α} (ha : s.refuses a = false) :
    s.step a = ((s.apply a).1.tidy, (s.apply a).2) := by
  unfold refuses at ha
  unfold step
  rw [ha]
  rfl

theorem step_of_refused {a : Step α} (ha : s.refuses a = true) : s.step a = (s, .gone) := by
  unfold refuses at ha
  unfold step
  rw [if_pos ha]

/-- What a step does to the queue is its deeds. -/
theorem queue_deeds (h : s.Sound capacity) (a : Step α) :
    (s.step a).1.queue = s.queue.actAll (s.deeds a) := by
  cases ha : s.refuses a with
  | true =>
    rw [step_of_refused ha]
    simp [deeds, lapses, ha, actAll]
  | false =>
    rw [step_of_accepted ha, tidy, callSenders]
    cases halive : (s.apply a).1.alive with
    | true => simp [deeds, lapses, ha, halive, queue_apply h]
    | false => simp [deeds, lapses, ha, halive, queue_apply h, actAll]

def enters (s : Session α) (a : Step α) : List α := outputs Deed.act Deed.brings s.queue (s.deeds a)

def discards (s : Session α) : Step α → List α
  | .cancel _ => if s.held then s.queue.buffer else []
  | _ => []

def abandons (s : Session α) (a : Step α) : List α :=
  if s.lapses a then (s.apply a).1.queue.buffer else []

theorem mild_givesUp (s : Session α) (id : String) : ∀ d ∈ s.givesUp id, d.mild = true := by
  unfold givesUp
  split <;> simp [Deed.mild]

theorem mild_looks (s : Session α) (id : String) : ∀ d ∈ s.looks id, d.mild = true := by
  unfold looks
  split
  · simp [Deed.mild]
  · split
    · split <;> simp [Deed.mild]
    · simp

theorem mild_acts {a : Step α} (ha : ∀ st, a ≠ .cancel st) : ∀ d ∈ s.acts a, d.mild = true := by
  cases a with
  | send id v => exact List.forall_mem_cons.mpr ⟨rfl, mild_givesUp s id⟩
  | recv id => exact mild_givesUp s id
  | readable id => exact mild_givesUp s id
  | closed id => exact mild_givesUp s id
  | drop id => exact mild_givesUp s id
  | poll id => exact mild_looks s id
  | drain =>
    intro d hd
    rw [List.eq_of_mem_replicate hd]
    rfl
  | cancel st => exact absurd rfl (ha st)
  | _ => simp [acts, Deed.mild]

theorem gives_givesUp (s : Session α) (id : String) (q : Queue α) :
    outputs Deed.act Deed.gives q (s.givesUp id) = [] := by
  unfold givesUp
  cases s.ticket? id <;> rfl

theorem items_tryRecv (q : Queue α) : (Answer.received q.tryRecv.2).items = q.buffer.take 1 := by
  cases hb : q.buffer with
  | nil => cases ht : q.termination <;> simp [tryRecv, hb, ht, Answer.items]
  | cons v rest => simp [tryRecv, hb, Answer.items]

/-- A receiver that is willing to wait is given the same value. -/
theorem items_settled? (r : Received α) :
    (Answer.look (match (r.settled?.map Outcome.received) with
      | some out => .done out
      | none => .pending)).items = (Answer.received r).items := by
  cases r with
  | closed how => cases how <;> rfl
  | _ => rfl

theorem items_poll_of_receives {id : String} (hr : s.receives id = true) :
    (Answer.look (s.poll id).2).items = (Answer.received s.queue.tryRecv.2).items := by
  cases hf : s.desk.find? id with
  | none => simp [receives, hf] at hr
  | some g =>
    obtain ⟨op, finished, woken⟩ := g
    cases op with
    | recv p =>
      cases p with
      | parked => simp [receives, hf] at hr
      | _ =>
        obtain rfl : finished = false := by simpa [receives, hf] using hr
        simp only [poll, hf, lookAt, Bool.false_eq_true, if_false]
        exact items_settled? s.queue.tryRecv.2
    | _ => simp [receives, hf] at hr

theorem items_poll_of_not_receives {id : String} (hr : s.receives id = false) :
    (Answer.look (s.poll id).2).items = [] := by
  cases hf : s.desk.find? id with
  | none => simp [poll, hf, Answer.items]
  | some g =>
    obtain ⟨op, finished, woken⟩ := g
    cases finished with
    | true => simp [poll, hf, Answer.items]
    | false =>
      cases op with
      | send e w => cases hs : (s.queue.pollSend e).2.2 <;> simp [poll, hf, lookAt, hs, Answer.items]
      | recv p => cases p <;> simp [poll, hf, lookAt, receives, Answer.items] at hr ⊢
      | readable p =>
        cases p <;> cases hq : s.queue.readable <;> simp [poll, hf, lookAt, hq, Answer.items]
      | closed p =>
        cases p <;> cases hq : s.queue.termination <;> simp [poll, hf, lookAt, hq, Answer.items]

theorem items_looks (s : Session α) (id : String) :
    outputs Deed.act Deed.gives s.queue (s.looks id) = (s.apply (.poll id)).2.items := by
  rw [apply, looks]
  cases hr : s.receives id with
  | true =>
    rw [items_poll_of_receives hr, items_tryRecv]
    exact List.append_nil _
  | false =>
    rw [items_poll_of_not_receives hr]
    refine outputs_eq_nil fun d hd q => ?_
    obtain ⟨t, rfl⟩ : ∃ t, d = .forget t := by
      simp only [Bool.false_eq_true, if_false] at hd
      split at hd
      · next t _ =>
        split at hd
        · exact ⟨t, List.mem_singleton.mp hd⟩
        · cases hd
      · cases hd
    rfl

theorem items_acts (s : Session α) (a : Step α) :
    outputs Deed.act Deed.gives s.queue (s.acts a) = (s.apply a).2.items := by
  cases a with
  | send id v => exact gives_givesUp s id _
  | recv id => exact gives_givesUp s id _
  | readable id => exact gives_givesUp s id _
  | closed id => exact gives_givesUp s id _
  | drop id => exact gives_givesUp s id _
  | drain => exact (drainWith_eq_takes _ _).2.symm
  | tryRecv =>
    rw [apply, items_tryRecv]
    exact List.append_nil _
  | poll id => exact items_looks s id
  | _ => rfl

theorem deeds_of_refused {a : Step α} (ha : s.refuses a = true) : s.deeds a = [] := by
  simp [deeds, lapses, ha]

/-- A release comes last, on the queue as the step has left it. -/
theorem outputs_deeds {out : Queue α → Deed α → List α} (h : s.Sound capacity) {a : Step α}
    (ha : s.refuses a = false) :
    outputs Deed.act out s.queue (s.deeds a) = outputs Deed.act out s.queue (s.acts a) ++
      if s.lapses a then out (s.apply a).1.queue .release else [] := by
  rw [deeds, ha, if_neg Bool.false_ne_true, outputs_append, queue_apply h, actAll]
  split <;> simp [outputs]

/-- What is received in a step is what its answer hands over. -/
theorem gives_deeds (h : s.Sound capacity) (a : Step α) :
    outputs Deed.act Deed.gives s.queue (s.deeds a) = (s.step a).2.items := by
  cases ha : s.refuses a with
  | true =>
    rw [deeds_of_refused ha, step_of_refused ha]
    rfl
  | false => simp [outputs_deeds h ha, step_of_accepted ha, items_acts]

theorem clears_of_mild {d : Deed α} (hd : d.mild = true) (q : Queue α) : d.clears q = [] := by
  cases d <;> first | rfl | cases hd

theorem strands_of_mild {d : Deed α} (hd : d.mild = true) (q : Queue α) : d.strands q = [] := by
  cases d <;> first | rfl | cases hd

theorem clears_deeds (h : s.Sound capacity) (a : Step α) :
    outputs Deed.act Deed.clears s.queue (s.deeds a) = s.discards a := by
  by_cases hcancel : ∃ st, a = .cancel st
  · obtain ⟨st, rfl⟩ := hcancel
    cases hheld : s.held with
    | false =>
      have ha : s.refuses (.cancel st) = true := by simp [refuses, hheld, needsQueue]
      simp [deeds_of_refused ha, outputs, discards, hheld]
    | true =>
      have ha : s.refuses (.cancel st) = false := by simp [refuses, hheld]
      simp [outputs_deeds h ha, acts, outputs, discards, hheld]
  · have hnone : s.discards a = [] := by
      unfold discards
      split
      · exact absurd ⟨_, rfl⟩ hcancel
      · rfl
    rw [hnone]
    cases ha : s.refuses a with
    | true =>
      rw [deeds_of_refused ha]
      rfl
    | false =>
      have hacts := mild_acts (s := s) (fun st hst => hcancel ⟨st, hst⟩)
      simp [outputs_deeds h ha, outputs_eq_nil fun d hd => clears_of_mild (hacts d hd)]

theorem strands_deeds (h : s.Sound capacity) (a : Step α) :
    outputs Deed.act Deed.strands s.queue (s.deeds a) = s.abandons a := by
  cases ha : s.refuses a with
  | true => simp [deeds_of_refused ha, outputs, abandons, lapses, ha]
  | false =>
    have hacts : outputs Deed.act Deed.strands s.queue (s.acts a) = [] := by
      by_cases hcancel : ∃ st, a = .cancel st
      · obtain ⟨st, rfl⟩ := hcancel
        rfl
      · have hmild := mild_acts (s := s) fun st hst => hcancel ⟨st, hst⟩
        exact outputs_eq_nil fun d hd => strands_of_mild (hmild d hd)
    simp [outputs_deeds h ha, hacts, abandons]

/-! Whole scripts. -/

def next (s : Session α) (a : Step α) : Session α := (s.step a).1

def history (s : Session α) (as : List (Step α)) : List (Deed α) := outputs next deeds s as

def received (s : Session α) (as : List (Step α)) : List α :=
  outputs next (fun s a => (s.step a).2.items) s as

def discarded (s : Session α) (as : List (Step α)) : List α := outputs next discards s as

def abandoned (s : Session α) (as : List (Step α)) : List α := outputs next abandons s as

def entered (s : Session α) (as : List (Step α)) : List α := outputs next enters s as

theorem after_append (s : Session α) (as bs : List (Step α)) :
    s.after (as ++ bs) = (s.after as).after bs := List.foldl_append

theorem entered_cons (s : Session α) (a : Step α) (as : List (Step α)) :
    s.entered (a :: as) = s.enters a ++ (s.step a).1.entered as := rfl

theorem entered_append (s : Session α) (as bs : List (Step α)) :
    s.entered (as ++ bs) = s.entered as ++ (s.after as).entered bs := outputs_append s as bs

theorem queue_after (h : s.Sound capacity) (as : List (Step α)) :
    (s.after as).queue = s.queue.actAll (s.history as) := by
  induction as generalizing s with
  | nil => rfl
  | cons a as ih =>
    rw [history, outputs, actAll_append, ← queue_deeds h]
    exact ih (h.step a)

/-- What comes out of the deeds of a script comes out of its steps. -/
theorem outputs_history (h : s.Sound capacity) {out : Queue α → Deed α → List α}
    {f : Session α → Step α → List α}
    (hf : ∀ {s : Session α}, s.Sound capacity → ∀ a,
      outputs Deed.act out s.queue (s.deeds a) = f s a) (as : List (Step α)) :
    outputs Deed.act out s.queue (s.history as) = outputs next f s as := by
  induction as generalizing s with
  | nil => rfl
  | cons a as ih =>
    have hqueue := queue_deeds h a
    rw [history, outputs, outputs, outputs_append, hf h, ← actAll, ← hqueue]
    exact congrArg (f s a ++ ·) (ih (h.step a))

/-- Of any kind of values, as many as were in the buffer or have come into it were received, were
discarded, were left behind when the queue went away, or are still there. -/
theorem entered_balance (h : s.Sound capacity) (as : List (Step α)) (p : α → Bool) :
    s.queue.buffer.countP p + (s.entered as).countP p =
      (s.received as).countP p + (s.discarded as).countP p + (s.abandoned as).countP p +
        (s.after as).queue.buffer.countP p := by
  have hline := congrArg (List.countP p) (buffer_actAll s.queue (s.history as))
  rw [List.countP_append, List.countP_append, ← queue_after h] at hline
  have hsheds : (outputs Deed.act Deed.sheds s.queue (s.history as)).countP p =
      (s.received as).countP p + (s.discarded as).countP p + (s.abandoned as).countP p := by
    unfold Deed.sheds
    rw [countP_outputs_append, countP_outputs_append, outputs_history h gives_deeds,
      outputs_history h clears_deeds, outputs_history h strands_deeds]
    rfl
  rw [hsheds, outputs_history h (fun _ _ => rfl)] at hline
  exact hline

/-! Nobody comes back to a queue that nobody keeps. -/

theorem keepsQueue_lookAt (q : Queue α) (op : Op) :
    (lookAt q op).2.1.keepsQueue = op.keepsQueue := by
  cases op with
  | send e w => rfl
  | recv p => cases p <;> rfl
  | readable p => cases p <;> rfl
  | closed p => cases p <;> rfl

theorem alive_tidy (s : Session α) : s.tidy.alive = s.alive := by
  have hsenders : ∀ r : Session α, r.callSenders.alive = r.alive := by
    intro r
    simp only [callSenders, alive]
    rw [Desk.anyLive_wake]
    intro _ op op' h
    split at h
    · split at h <;> cases h
      rfl
    · cases h
  unfold tidy
  rw [hsenders]
  split <;> rfl

/-- A look leaves nobody on the desk who was not there before. -/
theorem anyLive_of_poll {id : String}
    (h : (s.poll id).1.desk.anyLive Op.keepsQueue = true) :
    s.desk.anyLive Op.keepsQueue = true := by
  unfold poll at h
  cases hf : s.desk.find? id with
  | none => simpa [hf] using h
  | some g =>
    simp only [hf] at h
    split at h
    · next hfin =>
      refine (Desk.anyLive_put h).resolve_right fun hg => ?_
      cases hfin.symm.trans hg.1
    · next hfin =>
      refine (Desk.anyLive_put h).elim (fun hs => hs) fun hg => ?_
      refine Desk.anyLive_of_find? hf (by simpa using hfin) ?_
      rw [← keepsQueue_lookAt s.queue]
      exact hg.2

theorem alive_of_step {a : Step α} (h : (s.step a).1.alive = true) : s.alive = true := by
  cases ha : s.refuses a with
  | true => rwa [step_of_refused ha] at h
  | false =>
    rw [step_of_accepted ha, alive_tidy] at h
    cases hheld : s.held with
    | true => simp [alive, hheld]
    | false =>
      rw [refuses, hheld] at ha
      have hdesk : (s.apply a).1.desk.anyLive Op.keepsQueue = true := by
        have hsame : (s.apply a).1.held = false := by
          rw [(apply_eq s a (by rintro rfl; cases ha)).2, hheld]
        simpa [alive, hsame] using h
      suffices hs : s.desk.anyLive Op.keepsQueue = true by simp [alive, hs]
      cases a with
      | poll id => exact anyLive_of_poll hdesk
      | drop id =>
        have hremoved : (s.remove id).1.desk.anyLive Op.keepsQueue = true := hdesk
        unfold remove at hremoved
        split at hremoved
        · exact hremoved
        · exact Desk.anyLive_erase hremoved
      | _ => cases ha

theorem alive_of_after {as : List (Step α)} (h : (s.after as).alive = true) : s.alive = true := by
  induction as generalizing s with
  | nil => exact h
  | cons a as ih => exact alive_of_step (ih h)

/-- As long as somebody keeps the queue, nothing was left behind in it. -/
theorem abandoned_eq_nil {as : List (Step α)} (h : (s.after as).alive = true) :
    s.abandoned as = [] := by
  induction as generalizing s with
  | nil => rfl
  | cons a as ih =>
    have hrest : ((s.step a).1.after as).alive = true := h
    have halive := alive_of_after hrest
    have hkept : s.lapses a = false := by
      cases ha : s.refuses a with
      | true => simp [lapses, ha]
      | false =>
        rw [step_of_accepted ha, alive_tidy] at halive
        simp [lapses, halive]
    rw [abandoned, outputs, abandons, hkept, if_neg Bool.false_ne_true, List.nil_append]
    exact ih hrest

end Session
end Queue
end PacedCall
