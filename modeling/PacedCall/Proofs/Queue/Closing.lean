import PacedCall.Proofs.Queue.Deeds

/-!
How a queue ends. Of all that close or cancel it the first one decides, and is the only one that is
told so; what comes later may discard values, but the end is told as the first one gave it. From then
on the line takes nothing in, and hands over from its front what it holds; only the sender of a value
and a cancel take anything else out of it. Whoever receives hears of the end once the line is empty and
not before, and whoever waits for the end alone hears of it at once.
-/
namespace PacedCall

def Termination.received {α : Type} : Termination → RecvResult α
  | completed => .ok none
  | failed st => .error st

namespace Edit
variable {α : Type}

def taken : List (Edit α) → List α → List α
  | [], _ => []
  | take :: es, l => l.take 1 ++ taken es l.tail
  | e :: es, l => taken es (e.apply l)

theorem taken_cons (e : Edit α) (es : List (Edit α)) (l : List α) :
    taken (e :: es) l = taken [e] l ++ taken es (e.apply l) := by
  cases e <;> simp [taken, apply]

theorem taken_append (es fs : List (Edit α)) (l : List α) :
    taken (es ++ fs) l = taken es l ++ taken fs (applyAll es l) := by
  induction es generalizing l with
  | nil => rfl
  | cons e es ih =>
    rw [List.cons_append, taken_cons, ih, taken_cons e es, List.append_assoc]
    rfl

theorem taken_eq_nil {es : List (Edit α)} (h : ∀ e ∈ es, e ≠ .take) (l : List α) :
    taken es l = [] := by
  induction es generalizing l with
  | nil => rfl
  | cons e es ih =>
    obtain ⟨he, hes⟩ := List.forall_mem_cons.mp h
    cases e with
    | take => exact absurd rfl he
    | _ => exact ih hes _

theorem taken_replicate (n : Nat) (l : List α) : taken (List.replicate n .take) l = l.take n := by
  induction n generalizing l with
  | zero => simp [taken]
  | succ n ih =>
    rw [List.replicate_succ, taken, ih]
    cases l <;> simp

end Edit

namespace Queue
variable {α : Type} {q : Queue α}

/-- The front of the buffer is the front of the line. -/
theorem Orderly.take_one (h : q.Orderly) : q.buffer.take 1 = q.line.take 1 := by
  cases hb : q.buffer with
  | nil => rw [h.line_eq_nil_iff.mpr hb]
  | cons v rest => simp [line, hb]

theorem found_eq_closed_iff {how : Termination} :
    q.found = .closed how ↔ q.termination = some how ∧ q.line = [] := by
  unfold found last
  cases q.line with
  | cons v rest => simp
  | nil => cases q.termination <;> simp

namespace Session
variable {s : Session α} {capacity : Nat} {id : String} {a : Step α} {how : Termination}

def end? : Step α → Option Termination
  | .close how => some how
  | .cancel st => some (.failed st)
  | _ => none

def ends (s : Session α) (a : Step α) : List Termination :=
  if s.refuses a then [] else (end? a).toList

def endings (s : Session α) (as : List (Step α)) : List Termination := outputs next ends s as

/-- What a step does to the line, at the end of which a queue that nobody keeps loses it. -/
def changes (s : Session α) (a : Step α) : List (Edit α) :=
  (if s.refuses a then [] else s.edits a) ++ if s.lapses a then [.clear] else []

def changed (s : Session α) (as : List (Step α)) : List (Edit α) := outputs next changes s as

/-! The first end stays. -/

theorem termination_lookAt (q : Queue α) (op : Op) :
    (lookAt q op).1.termination = q.termination := by
  cases op with
  | send e w => exact termination_pollSend q e
  | recv p => cases p <;> first | rfl | exact q.termination_tryRecv
  | readable p => cases p <;> rfl
  | closed p => cases p <;> rfl

theorem termination_without (s : Session α) (id : String) :
    (s.without id).termination = s.queue.termination := by
  obtain ⟨waiting, fates, hsame⟩ := s.exists_without id
  rw [hsame]

theorem termination_apply (s : Session α) (a : Step α) :
    (s.apply a).1.queue.termination = s.queue.termination.or (end? a) := by
  by_cases ha : a = .letGo
  · subst ha
    exact Option.or_none.symm
  · rw [(apply_eq s a ha).1]
    cases a with
    | trySend v => exact (termination_trySend _ v).trans Option.or_none.symm
    | send id v =>
      exact ((termination_without _ id).trans (termination_send _ v)).trans Option.or_none.symm
    | recv id => exact (termination_without s id).trans Option.or_none.symm
    | readable id => exact (termination_without s id).trans Option.or_none.symm
    | closed id => exact (termination_without s id).trans Option.or_none.symm
    | drop id => exact (termination_without s id).trans Option.or_none.symm
    | tryRecv => exact s.queue.termination_tryRecv.trans Option.or_none.symm
    | drain => exact (termination_drainWith _ _).trans Option.or_none.symm
    | close how => exact termination_close _ how
    | cancel st => exact termination_cancel _ st
    | poll id =>
      refine Eq.trans ?_ Option.or_none.symm
      rw [queueAfter]
      split
      · rfl
      · split
        · rfl
        · exact termination_lookAt _ _
    | letGo => exact absurd rfl ha
    | unknown => exact Option.or_none.symm

theorem termination_tidy (s : Session α) : s.tidy.queue.termination = s.queue.termination := by
  unfold tidy
  split <;> rfl

theorem termination_step (s : Session α) (a : Step α) :
    (s.step a).1.queue.termination = s.queue.termination.or (s.ends a).head? := by
  cases ha : s.refuses a with
  | true => simp [step_of_refused ha, ends, ha]
  | false =>
    rw [step_of_accepted ha, termination_tidy, termination_apply, ends, ha]
    cases end? a <;> rfl

theorem termination_after (s : Session α) (as : List (Step α)) :
    (s.after as).queue.termination = s.queue.termination.or (s.endings as).head? := by
  induction as generalizing s with
  | nil => exact Option.or_none.symm
  | cons a as ih =>
    have hrest := ih (s.step a).1
    rw [termination_step, Option.or_assoc] at hrest
    have hendings : s.endings (a :: as) = s.ends a ++ (s.step a).1.endings as := rfl
    rw [hendings, List.head?_append]
    exact hrest

/-- The first one to end the queue is told so. -/
theorem flag_step (hheld : s.held = true) (hend : end? a = some how) :
    (s.step a).2 = .flag s.queue.termination.isNone := by
  have ha : s.refuses a = false := by simp [refuses, hheld]
  rw [step_of_accepted ha]
  cases a with
  | close t => cases ht : s.queue.termination <;> simp [apply, close, ht]
  | cancel st => cases ht : s.queue.termination <;> simp [apply, cancel, close, ht]
  | _ => cases hend

/-! What the line hands over. -/

theorem withdrawal_spares (s : Session α) (id : String) : ∀ e ∈ s.withdrawal id, e ≠ .take := by
  unfold withdrawal
  cases s.place? id <;> simp

/-- What a step hands over is what its changes take. -/
theorem items_apply (h : s.Sound capacity) (a : Step α) :
    (s.apply a).2.items = Edit.taken (s.edits a) s.queue.line := by
  have hwithdrawal : ∀ id, [] = Edit.taken (s.withdrawal id) s.queue.line := fun id =>
    (Edit.taken_eq_nil (s.withdrawal_spares id) _).symm
  have htake : s.queue.buffer.take 1 = Edit.taken [.take] s.queue.line := by
    rw [h.orderly.take_one, Edit.taken]
    exact (List.append_nil _).symm
  cases a with
  | trySend v =>
    refine (Edit.taken_eq_nil ?_ _).symm
    rw [edits]
    split <;> simp
  | send id v =>
    refine (Edit.taken_eq_nil ?_ _).symm
    rw [edits]
    refine List.forall_mem_append.mpr ⟨?_, s.withdrawal_spares id⟩
    split <;> simp
  | recv id => exact hwithdrawal id
  | readable id => exact hwithdrawal id
  | closed id => exact hwithdrawal id
  | drop id => exact hwithdrawal id
  | tryRecv => exact (items_tryRecv _).trans htake
  | drain =>
    rw [edits, Edit.taken_replicate, List.take_length]
    exact congrArg Prod.fst (drain_eq h.orderly).2
  | poll id =>
    rw [apply, edits]
    cases hr : s.receives id with
    | true => exact (items_poll_of_receives hr).trans ((items_tryRecv _).trans htake)
    | false => exact items_poll_of_not_receives hr
  | _ => rfl

theorem line_apply (h : s.Sound capacity) (a : Step α) :
    (s.apply a).1.queue.line = Edit.applyAll (s.edits a) s.queue.line := by
  by_cases ha : a = .letGo
  · subst ha
    rfl
  · rw [(apply_eq s a ha).1, line_queueAfter h]

/-- A step hands over what its changes take, and leaves the line as they leave it. -/
theorem changes_step (h : s.Sound capacity) (a : Step α) :
    (s.step a).2.items = Edit.taken (s.changes a) s.queue.line ∧
      (s.step a).1.queue.line = Edit.applyAll (s.changes a) s.queue.line := by
  cases ha : s.refuses a with
  | true =>
    have hnone : s.changes a = [] := by simp [changes, lapses, ha]
    rw [step_of_refused ha, hnone]
    exact ⟨rfl, rfl⟩
  | false =>
    rw [step_of_accepted ha, tidy, callSenders]
    cases halive : (s.apply a).1.alive with
    | true =>
      have hedits : s.changes a = s.edits a := by simp [changes, lapses, ha, halive]
      rw [hedits]
      exact ⟨items_apply h a, line_apply h a⟩
    | false =>
      have hedits : s.changes a = s.edits a ++ [.clear] := by simp [changes, lapses, ha, halive]
      rw [hedits, Edit.taken_append]
      refine ⟨(items_apply h a).trans (List.append_nil _).symm, ?_⟩
      simp [Edit.applyAll, Edit.apply, line_release]

theorem changed_after (h : s.Sound capacity) (as : List (Step α)) :
    s.received as = Edit.taken (s.changed as) s.queue.line ∧
      (s.after as).queue.line = Edit.applyAll (s.changed as) s.queue.line := by
  induction as generalizing s with
  | nil => exact ⟨rfl, rfl⟩
  | cons a as ih =>
    obtain ⟨hitems, hline⟩ := changes_step h a
    obtain ⟨hreceived, hleft⟩ := ih (h.step a)
    rw [hline] at hreceived hleft
    have hchanged : s.changed (a :: as) = s.changes a ++ (s.step a).1.changed as := rfl
    rw [hchanged, Edit.taken_append, ← hitems, ← hreceived]
    refine ⟨rfl, hleft.trans ?_⟩
    rw [Edit.applyAll, Edit.applyAll, Edit.applyAll, List.foldl_append]

/-- Why the line of a queue changes that has ended: a value is received, or goes with its sender, or
all are discarded in a cancel, or nobody keeps the queue any more. -/
inductive Leaves (s : Session α) (a : Step α) : Edit α → Prop
  | received : Leaves s a .take
  | withdrawn {id : String} {k : Nat} (hname : name? a = some id) (hgoes : a ≠ .poll id)
    (hplace : s.place? id = some k) : Leaves s a (.remove k)
  | cancelled {st : Status} (ha : a = .cancel st) : Leaves s a .clear
  | released (hlapses : s.lapses a = true) : Leaves s a .clear

theorem leaves_of_edits (hend : s.queue.termination = some how) (a : Step α) :
    ∀ e ∈ s.edits a, Leaves s a e := by
  have hclosed : s.queue.closedForSend = true := by simp [closedForSend, hend]
  have hwithdrawn : ∀ id, name? a = some id → a ≠ .poll id →
      ∀ e ∈ s.withdrawal id, Leaves s a e := by
    intro id hname hgoes e he
    rw [withdrawal] at he
    split at he
    · next k hk =>
      rw [List.mem_singleton.mp he]
      exact .withdrawn hname hgoes hk
    · cases he
  cases a with
  | trySend v => simp [edits, hclosed]
  | send id v => simpa [edits, hclosed] using hwithdrawn id rfl (by simp)
  | recv id => exact hwithdrawn id rfl (by simp)
  | readable id => exact hwithdrawn id rfl (by simp)
  | closed id => exact hwithdrawn id rfl (by simp)
  | drop id => exact hwithdrawn id rfl (by simp)
  | tryRecv => simpa [edits] using Leaves.received
  | drain =>
    intro e he
    rw [List.eq_of_mem_replicate he]
    exact .received
  | cancel st => simpa [edits] using Leaves.cancelled rfl
  | poll id =>
    rw [edits]
    split
    · simpa using Leaves.received
    · simp
  | _ => simp [edits]

/-- A queue that has ended takes nothing in. -/
theorem leaves_of_changes (hend : s.queue.termination = some how) (a : Step α) :
    ∀ e ∈ s.changes a, Leaves s a e := by
  rw [changes]
  refine List.forall_mem_append.mpr ⟨?_, ?_⟩
  · split
    · simp
    · exact leaves_of_edits hend a
  · split
    · next hlapses => simpa using Leaves.released hlapses
    · simp

/-! What the observers of the end are told. -/

/-- A receive that is looked at is told what is found, also one that waits for a call: while nobody
called it, there was nothing. -/
theorem poll_of_recv (hs : s.Sound capacity) (hw : s.Waits) {p : Park} {woken : Bool}
    (hd : s.desk.find? id = some { op := .recv p, finished := false, woken := woken }) :
    (s.poll id).2 = match s.queue.found.settled? with
      | some r => .done (.received r)
      | none => .pending := by
  cases p with
  | parked =>
    have hdry := hw.readers id _ hd rfl rfl
    have hempty : s.queue.found = .empty := by
      rw [found, last, hs.orderly.line_eq_nil_iff.mpr hdry.1, hdry.2]
    rw [hempty]
    exact poll_of_vain hd rfl rfl
  | _ => exact poll_of_receives hs (by simp [receives, hd])

theorem poll_of_closed (hw : s.Waits) {p : Park} {woken : Bool}
    (hd : s.desk.find? id = some { op := .closed p, finished := false, woken := woken }) :
    (s.poll id).2 = match s.queue.termination with
      | some how => .done (.closed how)
      | none => .pending := by
  cases p with
  | parked =>
    have hopen : s.queue.termination = none := hw.watchers id _ hd rfl rfl
    rw [hopen]
    exact poll_of_vain hd rfl rfl
  | _ => cases ht : s.queue.termination <;> simp [poll, hd, lookAt, ht]

structure Reports (s : Session α) : Prop where
  tryRecv : s.held = true → ∀ how, (s.step .tryRecv).2 = .received (.closed how) ↔
    s.queue.termination = some how ∧ s.queue.line = []
  recv : ∀ id p woken,
    s.desk.find? id = some { op := .recv p, finished := false, woken := woken } → ∀ how,
      (s.step (.poll id)).2 = .look (.done (.received how.received)) ↔
        s.queue.termination = some how ∧ s.queue.line = []
  drained : s.queue.closedForReceive = true ↔ s.queue.termination.isSome = true ∧ s.queue.line = []
  closed : ∀ id p woken,
    s.desk.find? id = some { op := .closed p, finished := false, woken := woken } →
      (s.step (.poll id)).2 = .look (match s.queue.termination with
        | some how => .done (.closed how)
        | none => .pending)

theorem settled?_eq_received_iff {r : Received α} :
    r.settled? = some how.received ↔ r = .closed how := by
  cases r with
  | item v => cases how <;> simp [Received.settled?, Termination.received]
  | empty => simp [Received.settled?]
  | closed t => cases t <;> cases how <;> simp [Received.settled?, Termination.received]

theorem reports (hs : s.Sound capacity) (hw : s.Waits) : s.Reports := by
  refine { tryRecv := ?_, recv := ?_, drained := hs.orderly.closedForReceive_iff, closed := ?_ }
  · intro hheld how
    have hanswer : (s.step .tryRecv).2 = .received s.queue.found := answered hs hheld .tryRecv
    rw [hanswer, ← found_eq_closed_iff]
    exact ⟨Answer.received.inj, congrArg _⟩
  · intro id p woken hd how
    rw [step_poll, poll_of_recv hs hw hd, ← found_eq_closed_iff, ← settled?_eq_received_iff]
    cases s.queue.found.settled? <;> simp
  · intro id p woken hd
    rw [step_poll, poll_of_closed hw hd]

structure Ended (how : Termination) (s : Session α) : Prop where
  termination : s.queue.termination = some how
  trySend : s.held = true → ∀ v, (s.step (.trySend v)).2 = .trySent (.error .closed) v
  send : s.held = true → ∀ id v, (s.step (.send id v)).2 = .queued false ∧
    ((s.step (.send id v)).1.step (.poll id)).2 = .look (.done (.sent (.error how.error)))
  leaves : ∀ a, ∀ e ∈ s.changes a, s.Leaves a e

/-- A send on a queue that has ended is not accepted, and its sender is told how the queue ended. -/
theorem send_of_end (hend : s.queue.termination = some how) (hheld : s.held = true) (id : String)
    (v : α) : (s.step (.send id v)).2 = .queued false ∧
      ((s.step (.send id v)).1.step (.poll id)).2 = .look (.done (.sent (.error how.error))) := by
  let e : Enqueue := .settled (.error how.error)
  have happly : s.apply (.send id v) = (s.start id (.send e false), .queued false) := by
    simp only [apply, send_of_ended hend]
    rfl
  rw [step_of_held hheld, happly]
  refine ⟨rfl, ?_⟩
  obtain ⟨g, hg, hroused⟩ := Keeps.tidy (s.start id (.send e false)) id _ (Desk.find?_put_self _ _ _)
  have hlive : g.finished = false := hroused.finished
  have hsender : g.op.enqueue? = some e := hroused.sender
  obtain ⟨w, hop⟩ : ∃ w, g.op = .send e w := by
    cases hop : g.op <;> simp_all [Op.enqueue?]
  rw [step_poll]
  simp [poll, hg, hlive, hop, lookAt, e, pollSend]

theorem ended (hend : s.queue.termination = some how) : s.Ended how := by
  refine { termination := hend, trySend := ?_, send := ?_, leaves := leaves_of_changes hend }
  · intro hheld v
    have hclosed : s.queue.closedForSend = true := by simp [closedForSend, hend]
    simp [step_of_held hheld, apply, Queue.trySend, hclosed]
  · intro hheld id v
    exact send_of_end hend hheld id v

/-- Of all that end a queue the first one decides, whatever the others say, and is the only one told
so. Receivers hear of the end exactly when the line is empty, and those who wait for it hear of it at
once. After it, in every course of events, the end stays; nothing is taken into the line; and what is
received, and what is left, is what the line held when it ended, in its order, but for what a sender
took back and what was discarded. -/
theorem first_end_decides (capacity : Nat) (as : List (Step α)) :
    let o : Session α := opened capacity
    let s := o.after as
    s.queue.termination = (o.endings as).head? ∧
      (s.held = true → ∀ a how, end? a = some how → (s.step a).2 = .flag (o.endings as).isEmpty) ∧
      s.Reports ∧
      ∀ how, s.queue.termination = some how → ∀ bs,
        (s.after bs).Ended how ∧
          s.received bs = Edit.taken (s.changed bs) s.queue.line ∧
          (s.after bs).queue.line = Edit.applyAll (s.changed bs) s.queue.line := by
  intro o s
  have hsound : s.Sound capacity := sound_after capacity as
  have hfirst : s.queue.termination = (o.endings as).head? :=
    (termination_after o as).trans Option.none_or
  refine ⟨hfirst, fun hheld a how hend => ?_, reports hsound (waits_after capacity as).1, ?_⟩
  · rw [flag_step hheld hend, hfirst]
    cases o.endings as <;> rfl
  · intro how hend bs
    have hstays : (s.after bs).queue.termination = some how := by
      rw [termination_after, hend, Option.some_or]
    exact ⟨ended hstays, changed_after hsound bs⟩

/-- A value in a queue with room for one, and another one that waits. The queue is closed, and closing
it once more with a failure changes nothing: both values are received, and then the first end. -/
theorem first_end_decides_drained :
    let s : Session Nat := (opened 1).after [.trySend 1, .send "a" 2, .close .completed]
    let bs : List (Step Nat) := [.close (.failed .localCancelled), .tryRecv, .trySend 3, .tryRecv]
    s.received bs = [1, 2] ∧ (s.after bs).queue.termination = some .completed ∧
      ((s.after bs).step (.trySend 4)).2 = .trySent (.error .closed) 4 := by
  intro s bs
  have h := first_end_decides 1 [.trySend 1, .send "a" 2, .close .completed]
  obtain ⟨hended, hreceived, _⟩ := h.2.2.2 .completed (by decide) bs
  exact ⟨hreceived, hended.termination, hended.trySend rfl 4⟩

end Session
end Queue
end PacedCall
