import PacedCall.Proofs.Queue.Senders
import PacedCall.Proofs.Queue.Standing

/-!
A queue is a plain first-in first-out list, whatever is done to it and in whatever order the
operations under way on it are looked at. Each step edits the list in one way only; the buffer is
its front, those who wait are the rest; and a sender in line is told that its value was taken
exactly when an edit brings the value to a place within the capacity.
-/
namespace PacedCall
namespace Queue

theorem mem_tickets_send {α : Type} {q : Queue α} {v : α} {t : Nat}
    (h : t ∈ (q.send v).1.tickets) : t ∈ q.tickets ∨ t = q.nextTicket := by
  unfold send at h
  split at h
  · exact Or.inl h
  · split at h
    · exact Or.inl h
    · simpa [tickets] using h

/-- Sending leaves every value that was in line where it is. -/
theorem place?_send_of_knows {α : Type} {q : Queue α} (h : q.Orderly) (v : α) {t : Nat}
    (ht : q.Knows t) : (q.send v).1.place? t = q.place? t := by
  cases hp : q.place? t with
  | some k => exact place?_send v hp
  | none =>
    rw [place?_eq_none_iff] at hp ⊢
    intro hm
    obtain hm | rfl := mem_tickets_send hm
    · exact hp hm
    · exact Nat.lt_irrefl _ (h.lt_of_knows ht)

namespace Session
variable {α : Type} {s : Session α} {capacity : Nat}

def place? (s : Session α) (id : String) : Option Nat := (s.ticket? id).bind s.queue.place?

/-- An unfinished receive that has not been looked at in vain since it was last called. -/
def receives (s : Session α) (id : String) : Bool :=
  match s.desk.find? id with
  | some { op := .recv .parked, .. } => false
  | some { op := .recv _, finished := finished, .. } => !finished
  | _ => false

def withdrawal (s : Session α) (id : String) : List (Edit α) :=
  match s.place? id with
  | some k => [.remove k]
  | none => []

/-- What a step does to the line. Starting something under a name gives up what was there. -/
def edits (s : Session α) : Step α → List (Edit α)
  | .trySend v =>
    if !s.queue.closedForSend && decide (s.queue.line.length < s.queue.capacity) then [.append v]
    else []
  | .send id v => (if s.queue.closedForSend then [] else [.append v]) ++ s.withdrawal id
  | .recv id => s.withdrawal id
  | .readable id => s.withdrawal id
  | .closed id => s.withdrawal id
  | .tryRecv => [.take]
  | .drain => List.replicate s.queue.line.length .take
  | .cancel _ => [.clear]
  | .poll id => if s.receives id then [.take] else []
  | .drop id => s.withdrawal id
  | .close _ => []
  | .letGo => []
  | .unknown => []

def queueAfter (s : Session α) : Step α → Queue α
  | .trySend v => (s.queue.trySend v).1
  | .send id v => without { s with queue := (s.queue.send v).1 } id
  | .recv id => s.without id
  | .readable id => s.without id
  | .closed id => s.without id
  | .tryRecv => s.queue.tryRecv.1
  | .drain => s.queue.drain.1
  | .close t => (s.queue.close t).1
  | .cancel st => (s.queue.cancel st).1
  | .poll id =>
    match s.desk.find? id with
    | none => s.queue
    | some h => if h.finished then s.queue else (lookAt s.queue h.op).1
  | .drop id => s.without id
  | .letGo => s.queue
  | .unknown => s.queue

theorem queue_poll (s : Session α) (id : String) :
    (s.poll id).1.queue = s.queueAfter (.poll id) := by
  cases hf : s.desk.find? id with
  | none => simp [poll, queueAfter, hf]
  | some h => by_cases hfin : h.finished = true <;> simp [poll, queueAfter, hf, hfin]

theorem held_remove (s : Session α) (id : String) : (s.remove id).1.held = s.held := by
  unfold remove
  split <;> rfl

theorem apply_eq (s : Session α) (a : Step α) (ha : a ≠ .letGo) :
    (s.apply a).1.queue = s.queueAfter a ∧ (s.apply a).1.held = s.held := by
  cases a with
  | trySend v =>
    simp only [apply]
    split <;> exact ⟨rfl, rfl⟩
  | send id v =>
    have hq := queue_start { s with queue := (s.queue.send v).1 } id
      (.send (s.queue.send v).2 false)
    have hh := held_remove { s with queue := (s.queue.send v).1 } id
    simp only [apply]
    split <;> exact ⟨hq, hh⟩
  | recv id => exact ⟨queue_start s id _, held_remove s id⟩
  | readable id => exact ⟨queue_start s id _, held_remove s id⟩
  | closed id => exact ⟨queue_start s id _, held_remove s id⟩
  | close t =>
    simp only [apply]
    split <;> exact ⟨rfl, rfl⟩
  | cancel st =>
    simp only [apply]
    split <;> exact ⟨rfl, rfl⟩
  | poll id =>
    refine ⟨queue_poll s id, ?_⟩
    simp only [apply, poll]
    split
    · rfl
    · split <;> rfl
  | drop id => exact ⟨queue_remove s id, held_remove s id⟩
  | letGo => exact absurd rfl ha
  | tryRecv => exact ⟨rfl, rfl⟩
  | drain => exact ⟨rfl, rfl⟩
  | unknown => exact ⟨rfl, rfl⟩

theorem queue_step (hheld : s.held = true) {a : Step α} (ha : a ≠ .letGo) :
    (s.step a).1.queue = s.queueAfter a := by
  obtain ⟨hq, hh⟩ := apply_eq s a ha
  have halive : (s.apply a).1.alive = true := by simp [alive, hh, hheld]
  unfold step
  rw [hheld]
  simp only [Bool.not_true, Bool.false_and, Bool.false_eq_true, if_false, tidy, halive, if_true]
  exact hq

theorem line_without (h : s.Sound capacity) (id : String) :
    (s.without id).line = Edit.applyAll (s.withdrawal id) s.queue.line := by
  unfold without withdrawal place?
  cases s.ticket? id with
  | none => rfl
  | some t =>
    simp only [Option.bind_some, line_forget, h.orderly.line_withdraw]
    cases s.queue.place? t <;> rfl

/-- What a send gives up is the same whether or not its own value is in the queue already. -/
theorem withdrawal_send (h : s.Sound capacity) (id : String) (v : α) :
    withdrawal { s with queue := (s.queue.send v).1 } id = s.withdrawal id := by
  have hp : place? { s with queue := (s.queue.send v).1 } id = s.place? id := by
    unfold place?
    have ht : ticket? { s with queue := (s.queue.send v).1 } id = s.ticket? id := rfl
    rw [ht]
    cases hid : s.ticket? id with
    | none => rfl
    | some t => exact place?_send_of_knows h.orderly v (h.known id t hid)
  unfold withdrawal
  rw [hp]

theorem applyAll_replicate_take (n : Nat) (l : List α) :
    Edit.applyAll (List.replicate n .take) l = l.drop n := by
  induction n generalizing l with
  | zero => rfl
  | succ n ih =>
    have hstep : Edit.applyAll (List.replicate (n + 1) .take) l =
        Edit.applyAll (List.replicate n .take) l.tail := rfl
    rw [hstep, ih, List.drop_tail]

/-- Each step acts on the line by its edits. -/
theorem line_queueAfter (h : s.Sound capacity) (a : Step α) :
    (s.queueAfter a).line = Edit.applyAll (s.edits a) s.queue.line := by
  cases a with
  | trySend v =>
    simp only [queueAfter, edits, line_trySend, ← h.orderly.hasRoom_iff, Bool.decide_eq_true]
    split <;> rfl
  | send id v =>
    have hs : Sound capacity { s with queue := (s.queue.send v).1 } :=
      h.queue (capacity_send _ _) (h.orderly.send v) fun _ ht => ht.send v
    simp only [queueAfter, edits, line_without hs, withdrawal_send h, line_send]
    split <;> rfl
  | recv id => exact line_without h id
  | readable id => exact line_without h id
  | closed id => exact line_without h id
  | drop id => exact line_without h id
  | tryRecv => exact (tryRecv_eq h.orderly).1
  | drain =>
    have hd : s.queue.drain.1.line = [] := (drain_eq h.orderly).1
    simp [queueAfter, edits, hd, applyAll_replicate_take]
  | close t => exact line_close _ t
  | cancel st => rfl
  | letGo => rfl
  | unknown => rfl
  | poll id =>
    have hr := (tryRecv_eq h.orderly).1
    cases hf : s.desk.find? id with
    | none => simp [queueAfter, edits, receives, hf, Edit.applyAll]
    | some g =>
      obtain ⟨op, finished, woken⟩ := g
      cases finished with
      | true =>
        cases op with
        | recv p => cases p <;> simp [queueAfter, edits, receives, hf, Edit.applyAll]
        | _ => simp [queueAfter, edits, receives, hf, Edit.applyAll]
      | false =>
        cases op with
        | send e w => simp [queueAfter, edits, receives, hf, lookAt, line_pollSend, Edit.applyAll]
        | recv p =>
          cases p <;>
            simp [queueAfter, edits, receives, hf, lookAt, hr, Edit.applyAll, Edit.apply]
        | readable p =>
          cases p <;> simp [queueAfter, edits, receives, hf, lookAt, Edit.applyAll]
        | closed p =>
          cases p <;> simp [queueAfter, edits, receives, hf, lookAt, Edit.applyAll]

def standing? (s : Session α) (id : String) : Option Standing :=
  (s.ticket? id).bind s.queue.standing?

theorem ticket?_same {r : Session α} (h : SameSenders s.desk r.desk) (id : String) :
    r.ticket? id = s.ticket? id := h.ticket id

theorem ticket?_start_of_ne (s : Session α) {id other : String} (op : Op) (hne : other ≠ id) :
    (s.start id op).ticket? other = s.ticket? other :=
  (ticket?_put_of_ne (desk_start s id op) hne).trans (ticket?_remove_of_ne s hne)

theorem ticket?_poll_of_ne (s : Session α) {id other : String} (hne : other ≠ id) :
    (s.poll id).1.ticket? other = s.ticket? other := by
  unfold poll
  split
  · rfl
  · split
    · exact ticket?_put_of_ne rfl hne
    · exact ticket?_put_of_ne rfl hne

/-- A step leaves everybody on the desk that it is not about. -/
theorem ticket?_apply {a : Step α} {id : String} (hne : name? a ≠ some id) :
    (s.apply a).1.ticket? id = s.ticket? id := by
  have hname : ∀ other, name? a = some other → id ≠ other := by
    rintro other hother rfl
    exact hne hother
  cases a with
  | trySend v =>
    simp only [apply]
    split
    · exact ticket?_same (sameSenders_callReaders _) id
    · rfl
  | send other v =>
    have hstart := ticket?_start_of_ne { s with queue := (s.queue.send v).1 }
      (.send (s.queue.send v).2 false) (hname other rfl)
    simp only [apply]
    split
    · exact (ticket?_same (sameSenders_callReaders _) id).trans hstart
    · exact hstart
  | recv other => exact ticket?_start_of_ne s _ (hname other rfl)
  | readable other => exact ticket?_start_of_ne s _ (hname other rfl)
  | closed other => exact ticket?_start_of_ne s _ (hname other rfl)
  | tryRecv => rfl
  | drain => rfl
  | close t =>
    simp only [apply]
    split
    · exact (ticket?_same (sameSenders_callWatchers _) id).trans
        (ticket?_same (sameSenders_callReaders _) id)
    · rfl
  | cancel st =>
    simp only [apply]
    split
    · exact (ticket?_same (sameSenders_callWatchers _) id).trans
        (ticket?_same (sameSenders_callReaders _) id)
    · exact ticket?_same (sameSenders_callReaders _) id
  | letGo => rfl
  | poll other => exact ticket?_poll_of_ne s (hname other rfl)
  | drop other => exact ticket?_remove_of_ne s (hname other rfl)
  | unknown => rfl

theorem ticket?_tidy (s : Session α) (id : String) : s.tidy.ticket? id = s.ticket? id := by
  unfold tidy
  rw [ticket?_same (sameSenders_callSenders _) id]
  split <;> rfl

theorem ticket?_step {a : Step α} {id : String} (hne : name? a ≠ some id) :
    (s.step a).1.ticket? id = s.ticket? id := by
  unfold step
  split
  · rfl
  · exact (ticket?_tidy _ id).trans (ticket?_apply hne)

theorem standing?_without (h : s.Sound capacity) {id other : String} (hne : id ≠ other) {t : Nat}
    (hid : s.ticket? id = some t) :
    (s.without other).standing? t =
      (s.queue.standing? t).map (·.afterAll s.queue.capacity (s.withdrawal other)) := by
  unfold without withdrawal place?
  cases hother : s.ticket? other with
  | none => exact Option.map_id'.symm
  | some u =>
    have htu : t ≠ u := by
      rintro rfl
      exact hne (h.apart id other t hid hother)
    exact (standing?_forget htu).trans (standing?_withdraw h.orderly htu (h.known id t hid))

theorem standing?_lookAt (h : s.Sound capacity) {id other : String} (hne : id ≠ other) {t : Nat}
    (hid : s.ticket? id = some t) :
    (s.queueAfter (.poll other)).standing? t =
      (s.queue.standing? t).map (·.afterAll s.queue.capacity (s.edits (.poll other))) := by
  have hr := standing?_tryRecv h.orderly (h.known id t hid)
  have hsame : s.queue.standing? t =
      (s.queue.standing? t).map (·.afterAll s.queue.capacity ([] : List (Edit α))) :=
    Option.map_id'.symm
  cases hf : s.desk.find? other with
  | none => simpa [queueAfter, edits, receives, hf] using hsame
  | some g =>
    obtain ⟨op, finished, woken⟩ := g
    cases finished with
    | true =>
      cases op with
      | recv p => cases p <;> simpa [queueAfter, edits, receives, hf] using hsame
      | _ => simpa [queueAfter, edits, receives, hf] using hsame
    | false =>
      cases op with
      | send e w =>
        have hother : e ≠ .inLine t := by
          rintro rfl
          refine hne (h.apart id other t hid ?_)
          rw [ticket?, hf]
          rfl
        have hp := standing?_pollSend_of_ne (q := s.queue) hother
        simpa [queueAfter, edits, receives, hf, lookAt] using hp.trans hsame
      | recv p =>
        cases p with
        | parked => simpa [queueAfter, edits, receives, hf, lookAt] using hsame
        | idle => simpa [queueAfter, edits, receives, hf, lookAt] using hr
        | called => simpa [queueAfter, edits, receives, hf, lookAt] using hr
      | readable p =>
        cases p <;> simpa [queueAfter, edits, receives, hf, lookAt] using hsame
      | closed p =>
        cases p <;> simpa [queueAfter, edits, receives, hf, lookAt] using hsame

theorem standing?_queueAfter (h : s.Sound capacity) {a : Step α} {id : String} {t : Nat}
    (hid : s.ticket? id = some t) (hne : name? a ≠ some id) :
    (s.queueAfter a).standing? t =
      (s.queue.standing? t).map (·.afterAll s.queue.capacity (s.edits a)) := by
  have hknown := h.known id t hid
  have hname : ∀ other, name? a = some other → id ≠ other := by
    rintro other hother rfl
    exact hne hother
  have hsame : s.queue.standing? t =
      (s.queue.standing? t).map (·.afterAll s.queue.capacity ([] : List (Edit α))) :=
    Option.map_id'.symm
  cases a with
  | trySend v =>
    refine (standing?_trySend h.orderly hknown v).trans ?_
    simp only [edits]
    split
    · exact (standing?_append h.orderly t v).symm
    · exact hsame
  | send other v =>
    have hs : Sound capacity { s with queue := (s.queue.send v).1 } :=
      h.queue (capacity_send _ _) (h.orderly.send v) fun _ ht => ht.send v
    refine (standing?_without hs (hname other rfl) hid).trans ?_
    rw [withdrawal_send h, standing?_send h.orderly hknown, capacity_send]
    simp only [edits]
    split
    · rfl
    · conv_lhs => rw [← standing?_append h.orderly t v]
      rw [Option.map_map]
      rfl
  | recv other => exact standing?_without h (hname other rfl) hid
  | readable other => exact standing?_without h (hname other rfl) hid
  | closed other => exact standing?_without h (hname other rfl) hid
  | drop other => exact standing?_without h (hname other rfl) hid
  | tryRecv => exact standing?_tryRecv h.orderly hknown
  | drain =>
    refine standing?_drainWith h.orderly hknown ?_
    rw [length_line]
    exact Nat.lt_succ_self _
  | close how => exact (standing?_close _ t how).trans hsame
  | cancel st => exact standing?_cancel h.orderly hknown st
  | poll other => exact standing?_lookAt h (hname other rfl) hid
  | letGo => exact hsame
  | unknown => exact hsame

theorem poll_of_receives (h : s.Sound capacity) {id : String} (hr : s.receives id = true) :
    (s.poll id).2 = match s.queue.found.settled? with
      | some r => .done (.received r)
      | none => .pending := by
  obtain ⟨g, hf⟩ : ∃ g, s.desk.find? id = some g := by
    cases hf : s.desk.find? id with
    | none => simp [receives, hf] at hr
    | some g => exact ⟨g, rfl⟩
  obtain ⟨op, finished, woken⟩ := g
  have hfound := (tryRecv_eq h.orderly).2
  cases op with
  | recv p =>
    cases p with
    | parked => simp [receives, hf] at hr
    | idle =>
      have hfin : finished = false := by simpa [receives, hf] using hr
      simp only [poll, hf, hfin, lookAt, hfound]
      cases s.queue.found.settled? <;> rfl
    | called =>
      have hfin : finished = false := by simpa [receives, hf] using hr
      simp only [poll, hf, hfin, lookAt, hfound]
      cases s.queue.found.settled? <;> rfl
  | _ => simp [receives, hf] at hr

/-- A sender learns where it stands. -/
theorem poll_of_standing (h : s.Sound capacity) {id : String} {st : Standing}
    (hst : s.standing? id = some st) :
    match st with
    | .inLine _ => (s.poll id).2 = .pending
    | .taken => (s.poll id).2 = .done (.sent (.ok ()))
    | .gone => ∃ e, (s.poll id).2 = .done (.sent (.error e)) := by
  obtain ⟨t, hid, hq⟩ := Option.bind_eq_some_iff.mp hst
  obtain ⟨g, hf, hop⟩ := Option.bind_eq_some_iff.mp hid
  have hfin := h.live id g t hf hop
  obtain ⟨op, finished, woken⟩ := g
  cases hfin
  obtain ⟨w, rfl⟩ : ∃ w, op = .send (.inLine t) w := by
    unfold Op.ticket? at hop
    split at hop
    · next w _ heq =>
      cases hop
      exact ⟨_, heq⟩
    · cases hop
  have hpoll : (s.poll id).2 = (s.queue.fate? t).elim .pending (fun r => .done (.sent r)) := by
    simp only [poll, hf, lookAt, pollSend]
    cases s.queue.fate? t <;> rfl
  rw [hpoll]
  unfold Queue.standing? at hq
  cases hp : s.queue.place? t with
  | some k =>
    rw [hp] at hq
    cases hq
    rw [h.orderly.fate?_eq_none (mem_tickets_of_place? hp)]
    rfl
  | none =>
    rw [hp] at hq
    obtain ⟨r, hr, rfl⟩ := Option.map_eq_some_iff.mp hq
    rw [hr]
    cases r with
    | ok u => rfl
    | error e => exact ⟨e, rfl⟩

def Answered (s : Session α) : Step α → Answer α → Prop
  | .trySend v, r =>
    r = .trySent
      (if s.queue.closedForSend then .error .closed
        else if s.queue.line.length < s.queue.capacity then .ok ()
        else .error .full) v
  | .send _ _, r =>
    r = .queued (!s.queue.closedForSend && decide (s.queue.line.length < s.queue.capacity))
  | .tryRecv, r => r = .received s.queue.found
  | .drain, r => r = .drained s.queue.line s.queue.last
  | .poll id, r =>
    (s.receives id = true → r = .look (match s.queue.found.settled? with
      | some x => .done (.received x)
      | none => .pending)) ∧
    ∀ st, s.standing? id = some st →
      match st with
      | .inLine _ => r = .look .pending
      | .taken => r = .look (.done (.sent (.ok ())))
      | .gone => ∃ e, r = .look (.done (.sent (.error e)))
  | _, _ => True

theorem step_of_held (hheld : s.held = true) (a : Step α) :
    s.step a = ((s.apply a).1.tidy, (s.apply a).2) := by
  unfold step
  rw [hheld]
  rfl

theorem immediate_send (h : s.Sound capacity) (v : α) :
    (s.queue.send v).2.immediate =
      (!s.queue.closedForSend && decide (s.queue.line.length < s.queue.capacity)) := by
  have hroom := h.orderly.hasRoom_iff
  unfold Queue.send closedForSend
  cases s.queue.termination with
  | some t => rfl
  | none =>
    by_cases hr : s.queue.hasRoom = true
    · simp [hr, hroom.mp hr, Enqueue.immediate]
    · have hlen := mt hroom.mpr hr
      simp [hr, hlen, Enqueue.immediate]

theorem answered (h : s.Sound capacity) (hheld : s.held = true) (a : Step α) :
    s.Answered a (s.step a).2 := by
  rw [step_of_held hheld]
  cases a with
  | trySend v =>
    have hroom := h.orderly.hasRoom_iff
    simp only [Answered, apply, trySend]
    by_cases hc : s.queue.closedForSend = true
    · simp [hc]
    · by_cases hr : s.queue.hasRoom = true
      · simp [hc, hr, hroom.mp hr]
      · have hlen := mt hroom.mpr hr
        simp [hc, hr, hlen]
  | send id v => exact congrArg Answer.queued (immediate_send h v)
  | tryRecv => exact congrArg Answer.received (tryRecv_eq h.orderly).2
  | drain =>
    have hd := (drain_eq h.orderly).2
    simp only [Answered, apply, hd]
  | poll id =>
    refine ⟨fun hr => congrArg Answer.look (poll_of_receives h hr), ?_⟩
    intro st hst
    have hp := poll_of_standing h hst
    cases st with
    | inLine k => exact congrArg Answer.look hp
    | taken => exact congrArg Answer.look hp
    | gone =>
      obtain ⟨e, he⟩ := hp
      exact ⟨e, congrArg Answer.look he⟩
  | _ => trivial

theorem ticket?_send {id : String} {v : α} {t : Nat} (hheld : s.held = true)
    (ht : (s.queue.send v).2 = .inLine t) : (s.step (.send id v)).1.ticket? id = some t := by
  have hstart : ticket? (start { s with queue := (s.queue.send v).1 } id
      (.send (s.queue.send v).2 false)) id = some t := by
    rw [ticket?_put_self (desk_start _ id _), ht]
    rfl
  have happly : (s.apply (.send id v)).1 = start { s with queue := (s.queue.send v).1 } id
      (.send (s.queue.send v).2 false) := by
    simp [apply, ht, Enqueue.immediate]
  rw [step_of_held hheld, ticket?_tidy, happly]
  exact hstart

/-- Who has to wait stands behind everybody else, also when the name had stood in line before. -/
theorem standing?_joined (h : s.Sound capacity) (hheld : s.held = true) {id : String} {v : α}
    (hopen : s.queue.closedForSend = false) (hfull : s.queue.capacity ≤ s.queue.line.length) :
    (s.step (.send id v)).1.standing? id =
      some (.inLine ((s.step (.send id v)).1.queue.line.length - 1)) := by
  have hroom : s.queue.hasRoom = false := by
    have hiff := h.orderly.hasRoom_iff
    cases hr : s.queue.hasRoom with
    | false => rfl
    | true => exact absurd (hiff.mp hr) (by omega)
  have ht : (s.queue.send v).2 = .inLine s.queue.nextTicket := by
    rw [send_of_full hopen hroom]
  have hq : (s.step (.send id v)).1.queue = without { s with queue := (s.queue.send v).1 } id :=
    queue_step hheld (by simp)
  have hlast := standing?_send_inLine h.orderly ht
  have hlen : (s.queue.send v).1.line.length = s.queue.line.length + 1 := by
    simp [line_send, hopen]
  rw [standing?, ticket?_send hheld ht, hq, Option.bind_some]
  unfold without
  rw [show ticket? { s with queue := (s.queue.send v).1 } id = s.ticket? id from rfl]
  cases hid : s.ticket? id with
  | none => simp only [hlast, hlen, Nat.add_sub_cancel]
  | some u =>
    have hu := h.known id u hid
    have hne : s.queue.nextTicket ≠ u := by
      rintro rfl
      exact Nat.lt_irrefl _ (h.orderly.lt_of_knows hu)
    have ho := h.orderly.send v
    have hk : (s.queue.send v).1.Knows s.queue.nextTicket := (send_inLine ht).2
    simp only [standing?_forget hne, standing?_withdraw ho hne hk, line_forget, ho.line_withdraw,
      hlast, capacity_send, place?_send_of_knows h.orderly v hu]
    cases hp : s.queue.place? u with
    | none => simp [Standing.afterAll, hlen]
    | some i =>
      obtain ⟨hlow, hhigh⟩ := h.orderly.place?_bounds hp
      have hi : i < (s.queue.send v).1.line.length := by omega
      have hmoved : ¬ s.queue.line.length - 1 < s.queue.capacity := by omega
      have hni : s.queue.line.length ≠ i := by omega
      simp [Standing.afterAll, Standing.after, Edit.moved, List.length_eraseIdx_of_lt hi, hlen,
        hni, hhigh, hmoved]

theorem standing?_bounds (h : s.Sound capacity) {id : String} {k : Nat}
    (hst : s.standing? id = some (.inLine k)) :
    s.queue.capacity ≤ k ∧ k < s.queue.line.length := by
  obtain ⟨t, _, hq⟩ := Option.bind_eq_some_iff.mp hst
  exact h.orderly.place?_bounds (standing?_eq_inLine_iff.mp hq)

theorem standing?_step (h : s.Sound capacity) (hheld : s.held = true) {a : Step α}
    (ha : a ≠ .letGo) {id : String} {st : Standing} (hst : s.standing? id = some st)
    (hne : name? a ≠ some id) :
    (s.step a).1.standing? id = some (st.afterAll s.queue.capacity (s.edits a)) := by
  obtain ⟨t, hid, hq⟩ := Option.bind_eq_some_iff.mp hst
  rw [standing?, ticket?_step hne, hid, Option.bind_some, queue_step hheld ha,
    standing?_queueAfter h hid hne, hq, Option.map_some]

/-- Looking in vain leaves a sender where it stands. -/
theorem standing?_poll_self (h : s.Sound capacity) (hheld : s.held = true) {id : String}
    {k : Nat} (hst : s.standing? id = some (.inLine k)) :
    (s.step (.poll id)).1.standing? id = some (.inLine k) ∧ s.edits (.poll id) = [] := by
  obtain ⟨t, hid, hq⟩ := Option.bind_eq_some_iff.mp hst
  obtain ⟨g, hf, hop⟩ := Option.bind_eq_some_iff.mp hid
  have hfin := h.live id g t hf hop
  obtain ⟨op, finished, woken⟩ := g
  cases hfin
  obtain ⟨w, rfl⟩ : ∃ w, op = .send (.inLine t) w := by
    unfold Op.ticket? at hop
    split at hop
    · next w _ heq =>
      cases hop
      exact ⟨_, heq⟩
    · cases hop
  have hfate : s.queue.fate? t = none :=
    h.orderly.fate?_eq_none (mem_tickets_of_place? (standing?_eq_inLine_iff.mp hq))
  have hpoll : (s.poll id).1 =
      { s with desk := s.desk.put id { op := .send (.inLine t) true } } := by
    simp [poll, hf, lookAt, pollSend, hfate, finishes]
  have hticket : (s.step (.poll id)).1.ticket? id = some t := by
    have hput : (s.poll id).1.ticket? id = some t := by
      rw [hpoll, ticket?_put_self (s := s) (g := { op := .send (.inLine t) true }) rfl]
      rfl
    rw [step_of_held hheld, ticket?_tidy]
    exact hput
  have hqueue : (s.step (.poll id)).1.queue = s.queue := by
    rw [queue_step hheld (by simp), ← queue_poll, hpoll]
  refine ⟨?_, by simp [edits, receives, hf]⟩
  rw [standing?, hticket, hqueue, Option.bind_some, hq]

/-- The two parts of the queue are one list, cut at the capacity; who waits stands behind it. -/
structure Shaped (capacity : Nat) (s : Session α) : Prop where
  capacity_eq : s.queue.capacity = max 1 capacity
  buffer_eq : s.queue.buffer = s.queue.line.take s.queue.capacity
  waiting_eq : s.queue.waiting.map Waiting.value = s.queue.line.drop s.queue.capacity
  sorted : s.queue.tickets.Pairwise (· < ·)
  behind : ∀ id k, s.standing? id = some (.inLine k) →
    s.queue.capacity ≤ k ∧ k < s.queue.line.length

/-- A step seen on the list alone: how the list changes, what is answered, where the senders stand
afterwards and that a place belongs to the same value before and after. -/
structure ActsOnLine (s : Session α) (a : Step α) : Prop where
  line : (s.step a).1.queue.line = Edit.applyAll (s.edits a) s.queue.line
  answer : s.Answered a (s.step a).2
  joined : ∀ id v, a = .send id v → s.queue.closedForSend = false →
    s.queue.capacity ≤ s.queue.line.length →
    (s.step a).1.standing? id = some (.inLine ((s.step a).1.queue.line.length - 1))
  moved : ∀ id st, s.standing? id = some st →
    name? a ≠ some id ∨ (a = .poll id ∧ ∃ k, st = .inLine k) →
    (s.step a).1.standing? id = some (st.afterAll s.queue.capacity (s.edits a))
  value : ∀ k j, k < s.queue.line.length →
    Standing.afterAll s.queue.capacity (.inLine k) (s.edits a) = .inLine j →
    (s.step a).1.queue.line[j]? = s.queue.line[k]?
  receiver : ∀ id g p, s.desk.find? id = some g → g.op = .recv p → a = .drop id →
    (s.step a).1.queue.line = s.queue.line

theorem Sound.shaped (h : s.Sound capacity) : s.Shaped capacity :=
  { capacity_eq := h.size
    buffer_eq := h.orderly.buffer_eq
    waiting_eq := h.orderly.waiting_eq
    sorted := h.orderly.sorted
    behind := fun _ _ hst => standing?_bounds h hst }

theorem Sound.actsOnLine (h : s.Sound capacity) (hheld : s.held = true) {a : Step α}
    (ha : a ≠ .letGo) : s.ActsOnLine a := by
  have hline : (s.step a).1.queue.line = Edit.applyAll (s.edits a) s.queue.line := by
    rw [queue_step hheld ha, line_queueAfter h]
  refine { line := hline, answer := Session.answered h hheld a, joined := ?_, moved := ?_,
           value := ?_, receiver := ?_ }
  · rintro id v rfl hopen hfull
    exact standing?_joined h hheld hopen hfull
  · rintro id st hst (hne | ⟨rfl, k, rfl⟩)
    · exact standing?_step h hheld ha hst hne
    · obtain ⟨hstay, hedits⟩ := standing?_poll_self h hheld hst
      rw [hstay, hedits]
      rfl
  · intro k j hk hj
    rw [hline]
    exact Standing.getElem?_afterAll hk hj
  · rintro id g p hf hop rfl
    have hnone : s.edits (.drop id) = [] := by
      simp [edits, withdrawal, place?, ticket?, hf, hop, Op.ticket?]
    rw [hline, hnone]
    rfl

theorem held_step {a : Step α} (hheld : s.held = true) (ha : a ≠ .letGo) :
    (s.step a).1.held = true := by
  have htidy : ∀ r : Session α, r.tidy.held = r.held := by
    intro r
    unfold tidy
    split <;> rfl
  rw [step_of_held hheld, htidy, (apply_eq s a ha).2, hheld]

theorem held_after {as : List (Step α)} (hkept : .letGo ∉ as) :
    ((opened capacity : Session α).after as).held = true := by
  induction as using List.reverseRecOn with
  | nil => rfl
  | append_singleton as a ih =>
    rw [List.mem_append, not_or, List.mem_singleton] at hkept
    rw [after, List.foldl_append]
    exact held_step (ih hkept.1) (Ne.symm hkept.2)

/-- As long as somebody keeps the queue, it is one first-in first-out list: after any steps, the
next one acts on that list, whoever looks, gives up or receives in whatever order. -/
theorem refines_list (capacity : Nat) (as : List (Step α)) (hkept : .letGo ∉ as) :
    ((opened capacity).after as).Shaped capacity ∧
      ∀ a, a ≠ .letGo → ((opened capacity).after as).ActsOnLine a :=
  ⟨(sound_after capacity as).shaped,
    fun _ ha => (sound_after capacity as).actsOnLine (held_after hkept) ha⟩

/-- Room for one: the second sender waits, and the receive that makes room tells it so. -/
theorem refines_list_promoted :
    let s := (opened 0).after [.send "a" 1, .send "b" 2]
    s.standing? "b" = some (.inLine 1) ∧ (s.step .tryRecv).1.queue.line = [2] ∧
      (s.step .tryRecv).1.standing? "b" = some .taken := by
  intro s
  have hs : s.ActsOnLine .tryRecv :=
    (refines_list 0 [.send "a" 1, .send "b" 2] (by simp)).2 .tryRecv (by simp)
  have hst : s.standing? "b" = some (.inLine 1) := by decide
  exact ⟨hst, hs.line, hs.moved "b" _ hst (Or.inl (by decide))⟩

end Session
end Queue
end PacedCall
