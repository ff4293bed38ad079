import PacedCall.Inbound
import PacedCall.Proofs.Queue.Place

/-!
The inbound side of a call. A value that is delivered while the queue is open is at the end of the
line at once, whether it was taken or deferred, and no task of a deferred value moves it again. So
the line is in the order of delivery, whatever order the tasks run in. Only a completion makes the
queue end normally.
-/
namespace PacedCall

def Pacing.completed : Pacing → Bool
  | .counting f => f.completed
  | .latching _ => false

namespace Inbound
variable {α : Type} {b d : Inbound α}

def Ending (b : Inbound α) : Prop :=
  b.queue.termination = some .completed ∨
    b.queue.termination = none ∧ b.pacing.completed = true

structure Later (b d : Inbound α) : Prop where
  closed : b.queue.closedForSend = true → d.queue.closedForSend = true
  ending : d.Ending → b.Ending

namespace Later

theorem refl (b : Inbound α) : Later b b := ⟨id, id⟩

theorem trans {e : Inbound α} (h : Later b d) (g : Later d e) : Later b e :=
  ⟨fun hc => g.closed (h.closed hc), fun he => h.ending (g.ending he)⟩

theorem of_eq (ht : d.queue.termination = b.queue.termination)
    (hp : d.pacing.completed = b.pacing.completed) : Later b d := by
  constructor
  · intro hc
    rw [Queue.closedForSend, ht]
    exact hc
  · intro he
    rw [Ending, ht, hp] at he
    exact he

end Later

theorem closedForSend_close (q : Queue α) (how : Termination) :
    (q.close how).1.closedForSend = true := q.isSome_close how

/-- A failure does not end the queue normally. -/
theorem later_failed {st : Status}
    (hq : d.queue.termination = (b.queue.close (.failed st)).1.termination) : Later b d := by
  have hclosed : d.queue.termination.isSome = true := hq ▸ b.queue.isSome_close _
  constructor
  · exact fun _ => hclosed
  · rintro (he | ⟨he, _⟩)
    · refine Or.inl ?_
      rw [hq] at he
      unfold Queue.close at he
      split at he
      · exact he
      · cases he
    · simp [he] at hclosed

theorem later_cancel (b : Inbound α) (st : Status) :
    Later b { b with queue := (b.queue.cancel st).1 } := later_failed rfl

theorem later_close (b : Inbound α) (st : Status) :
    Later b { b with queue := (b.queue.close (.failed st)).1 } := later_failed rfl

/-- A queue that closes because its side was drained was about to end. -/
theorem later_next (f : InFlight) {q : Queue α} (ht : q.termination = b.queue.termination)
    (hf : f.completed = b.pacing.completed) :
    Later b { b with queue := (f.next q).1, pacing := .counting f } := by
  have hsame : Later b { b with queue := q, pacing := .counting f } := .of_eq ht hf
  rw [InFlight.next]
  split
  · next hd =>
    simp only [InFlight.drained, Bool.and_eq_true] at hd
    constructor
    · exact fun _ => closedForSend_close q _
    · intro he
      cases hq : q.termination with
      | some t =>
        have hclose : (q.close .completed).1 = q := by simp [Queue.close, hq]
        simp only [hclose] at he
        exact hsame.ending he
      | none => exact Or.inr ⟨ht ▸ hq, hf ▸ hd.1⟩
  · exact hsame

/-! What a delivered value comes to. -/

theorem onValue_of_closed (hc : b.queue.closedForSend = true) (v : α) :
    b.onValue v = (b, .late, false) := by
  simp [onValue, Queue.trySend, hc]

def pushed (b : Inbound α) (v : α) : Queue α :=
  { b.queue with buffer := b.queue.buffer ++ [v] }

theorem onValue_counting_room (ho : b.queue.closedForSend = false) (hr : b.queue.hasRoom = true)
    {f : InFlight} (hp : b.pacing = .counting f) (v : α) :
    b.onValue v = ({ b with queue := (f.next (b.pushed v)).1 }, .taken, (f.next (b.pushed v)).2) := by
  simp [onValue, Queue.trySend, ho, hr, hp, pushed]

theorem onValue_latching_room (ho : b.queue.closedForSend = false) (hr : b.queue.hasRoom = true)
    {l : CreditLatch} (hp : b.pacing = .latching l) (v : α) :
    b.onValue v = ({ b with
      queue := b.pushed v
      pacing := .latching (l.release.next (b.pushed v)).1 }, .taken,
      (l.release.next (b.pushed v)).2) := by
  simp [onValue, Queue.trySend, ho, hr, hp, pushed]

theorem onValue_counting_full (ho : b.queue.closedForSend = false) (hr : b.queue.hasRoom = false)
    {f : InFlight} (hp : b.pacing = .counting f) (v : α) :
    b.onValue v = (defer { b with pacing := .counting f.enter } v, .deferred, false) := by
  simp [onValue, Queue.trySend, ho, hr, hp]

theorem onValue_latching_full (ho : b.queue.closedForSend = false) (hr : b.queue.hasRoom = false)
    {l : CreditLatch} (hp : b.pacing = .latching l) (v : α) :
    b.onValue v = (defer { b with pacing := .latching l.claim } v, .deferred, false) := by
  simp [onValue, Queue.trySend, ho, hr, hp]

/-- What becomes of a value that arrives, and of the side. -/
inductive Arrives (b : Inbound α) (v : α) : Inbound α × Delivery × Bool → Prop where
  | late (hclosed : b.queue.closedForSend = true) : Arrives b v (b, .late, false)
  | counts {f : InFlight} (ho : b.queue.closedForSend = false) (hr : b.queue.hasRoom = true)
      (hp : b.pacing = .counting f) :
      Arrives b v
        ({ b with queue := (f.next (b.pushed v)).1 }, .taken, (f.next (b.pushed v)).2)
  | latches {l : CreditLatch} (ho : b.queue.closedForSend = false)
      (hr : b.queue.hasRoom = true) (hp : b.pacing = .latching l) :
      Arrives b v
        ({ b with
            queue := b.pushed v
            pacing := .latching (l.release.next (b.pushed v)).1 }, .taken,
          (l.release.next (b.pushed v)).2)
  | defersCounted {f : InFlight} (ho : b.queue.closedForSend = false)
      (hr : b.queue.hasRoom = false) (hp : b.pacing = .counting f) :
      Arrives b v (defer { b with pacing := .counting f.enter } v, .deferred, false)
  | defersLatched {l : CreditLatch} (ho : b.queue.closedForSend = false)
      (hr : b.queue.hasRoom = false) (hp : b.pacing = .latching l) :
      Arrives b v (defer { b with pacing := .latching l.claim } v, .deferred, false)

theorem onValue_arrives (b : Inbound α) (v : α) : Arrives b v (b.onValue v) := by
  cases ho : b.queue.closedForSend with
  | true =>
    rw [onValue_of_closed ho]
    exact .late ho
  | false =>
    cases hr : b.queue.hasRoom with
    | true =>
      cases hp : b.pacing with
      | counting f =>
        rw [onValue_counting_room ho hr hp]
        exact .counts ho hr hp
      | latching l =>
        rw [onValue_latching_room ho hr hp]
        exact .latches ho hr hp
    | false =>
      cases hp : b.pacing with
      | counting f =>
        rw [onValue_counting_full ho hr hp]
        exact .defersCounted ho hr hp
      | latching l =>
        rw [onValue_latching_full ho hr hp]
        exact .defersLatched ho hr hp

theorem line_next (f : InFlight) (q : Queue α) : (f.next q).1.line = q.line := by
  rw [InFlight.next]
  split
  · exact Queue.line_close q .completed
  · rfl

theorem line_defer (ho : b.queue.closedForSend = false) (v : α) :
    (b.defer v).queue.line = b.queue.line ++ [v] := by
  simp [defer, Queue.line_send, ho]

/-- An open queue takes every value in, at the end of its line. -/
theorem line_onValue (ho : b.queue.closedForSend = false) (v : α) :
    (b.onValue v).1.queue.line = b.queue.line ++ [v] := by
  have hx := b.onValue_arrives v
  generalize b.onValue v = x at hx ⊢
  cases hx with
  | late hclosed => cases ho.symm.trans hclosed
  | counts _ hr => exact (line_next _ _).trans (Queue.line_buffered v hr)
  | latches _ hr => exact Queue.line_buffered v hr
  | @defersCounted f => exact line_defer (b := { b with pacing := .counting f.enter }) ho v
  | @defersLatched l => exact line_defer (b := { b with pacing := .latching l.claim }) ho v

theorem later_onValue (b : Inbound α) (v : α) : Later b (b.onValue v).1 := by
  have hx := b.onValue_arrives v
  generalize b.onValue v = x at hx ⊢
  cases hx with
  | late => exact .refl b
  | @counts f _ _ hp =>
    have h := later_next (b := b) f (q := b.pushed v) rfl (by rw [hp]; rfl)
    rw [← hp] at h
    exact h
  | latches _ _ hp => exact .of_eq rfl (by rw [hp]; rfl)
  | defersCounted _ _ hp => exact .of_eq (Queue.termination_send _ v) (by rw [hp]; rfl)
  | defersLatched _ _ hp => exact .of_eq (Queue.termination_send _ v) (by rw [hp]; rfl)

/-! What the task of a deferred value comes to. -/

theorem later_onEnqueued (b : Inbound α) (r : SendResult) : Later b (b.onEnqueued r).1 := by
  unfold onEnqueued
  cases hp : b.pacing with
  | counting f =>
    cases r with
    | ok u =>
      simp only
      split
      · exact .of_eq rfl (by rw [hp]; rfl)
      · exact later_next f.leave rfl (by rw [hp]; rfl)
    | error e => exact later_failed rfl
  | latching l =>
    cases r with
    | ok u => exact .of_eq rfl (by rw [hp]; rfl)
    | error e => exact later_failed rfl

theorem line_onEnqueued (b : Inbound α) (r : SendResult) :
    (b.onEnqueued r).1.queue.line = b.queue.line := by
  unfold onEnqueued
  cases b.pacing with
  | counting f =>
    cases r with
    | ok u =>
      simp only
      split
      · rfl
      · exact line_next _ _
    | error e => exact Queue.line_close _ _
  | latching l =>
    cases r with
    | ok u => rfl
    | error e => exact Queue.line_close _ _

theorem deferred_onEnqueued (b : Inbound α) (r : SendResult) :
    (b.onEnqueued r).1.deferred = b.deferred := by
  unfold onEnqueued
  split <;> try rfl
  simp only
  split <;> rfl

/-- A look at the task of a deferred value: nothing to see, or its outcome. -/
theorem pollDeferred_cases (b : Inbound α) (i : Nat) :
    b.pollDeferred i = (b, false, false) ∨ ∃ e r, b.deferred[i]? = some e ∧
      (b.queue.pollSend e).2.2 = some r ∧
      (b.pollDeferred i).1 = (onEnqueued { b with
        queue := (b.queue.pollSend e).1
        deferred := b.deferred.eraseIdx i } r).1 ∧
      (b.pollDeferred i).2.1 = (onEnqueued { b with
        queue := (b.queue.pollSend e).1
        deferred := b.deferred.eraseIdx i } r).2 := by
  rw [pollDeferred]
  cases hi : b.deferred[i]? with
  | none => exact Or.inl rfl
  | some e =>
    simp only
    split
    · exact Or.inl rfl
    · next q e' r heq =>
      refine Or.inr ⟨e, r, rfl, by rw [heq], ?_⟩
      rw [heq]
      exact ⟨rfl, rfl⟩

/-- The same, of the task at a place in the list of all tasks. -/
theorem pollDeferred_split {ds es : List Enqueue} {e : Enqueue} (hd : b.deferred = ds ++ e :: es) :
    b.pollDeferred ds.length =
      match b.queue.pollSend e with
      | (_, _, none) => (b, false, false)
      | (q, _, some r) =>
        let (d, ask) := onEnqueued { b with queue := q, deferred := ds ++ es } r
        (d, ask, true) := by
  have hat : b.deferred[ds.length]? = some e := by simp [hd]
  have herase : b.deferred.eraseIdx ds.length = ds ++ es := by
    simp [hd, List.eraseIdx_append_of_length_le]
  rcases hsend : b.queue.pollSend e with ⟨q, e', _ | r⟩ <;>
    simp [pollDeferred, hat, herase, hsend]

theorem later_pollDeferred (b : Inbound α) (i : Nat) : Later b (b.pollDeferred i).1 := by
  obtain h | ⟨e, r, _, _, h, _⟩ := pollDeferred_cases b i
  · rw [h]
    exact .refl b
  · rw [h]
    refine Later.trans ?_ (later_onEnqueued _ r)
    exact .of_eq (Queue.termination_pollSend b.queue e) rfl

theorem line_pollDeferred (b : Inbound α) (i : Nat) :
    (b.pollDeferred i).1.queue.line = b.queue.line := by
  obtain h | ⟨e, r, _, _, h, _⟩ := pollDeferred_cases b i
  · rw [h]
  · rw [h, line_onEnqueued]
    exact Queue.line_pollSend b.queue e

/-! The rest. -/

theorem queue_onReady (b : Inbound α) (control : Option Bool) :
    (b.onReady control).1.queue = b.queue := by
  unfold onReady
  split <;> rfl

theorem later_onReady (b : Inbound α) (control : Option Bool) : Later b (b.onReady control).1 := by
  refine .of_eq (by rw [queue_onReady]) ?_
  unfold onReady
  split
  · next l ready hp =>
    simp only
    rw [hp]
    rfl
  · rfl

theorem line_onCompleted (b : Inbound α) : b.onCompleted.queue.line = b.queue.line := by
  rw [onCompleted]
  cases b.pacing with
  | counting f =>
    simp only [InFlight.finish]
    split
    · exact Queue.line_close _ _
    · rfl
  | latching l => exact Queue.line_close _ _

theorem closed_onCompleted (b : Inbound α) (hc : b.queue.closedForSend = true) :
    b.onCompleted.queue.closedForSend = true := by
  rw [onCompleted]
  cases b.pacing with
  | counting f =>
    simp only [InFlight.finish]
    split
    · exact closedForSend_close _ _
    · exact hc
  | latching l => exact closedForSend_close _ _

/-- A completion that finds the queue closed comes too late to end it. -/
theorem ending_onCompleted (hc : b.queue.closedForSend = true) (he : b.onCompleted.Ending) :
    b.Ending := by
  have hstay : ∀ how, (b.queue.close how).1 = b.queue := by
    intro how
    rw [Queue.close]
    unfold Queue.closedForSend at hc
    split
    · rfl
    · next hn => simp [hn] at hc
  have hterm : b.onCompleted.queue.termination = b.queue.termination := by
    rw [onCompleted]
    cases b.pacing with
    | counting f =>
      simp only [InFlight.finish]
      split
      · rw [hstay]
      · rfl
    | latching l =>
      simp only [hstay]
  obtain he | ⟨he, _⟩ := he
  · exact Or.inl (hterm ▸ he)
  · rw [hterm] at he
    simp [Queue.closedForSend, he] at hc

/-! The queue keeps its order. -/

theorem orderly_next (f : InFlight) {q : Queue α} (h : q.Orderly) : (f.next q).1.Orderly := by
  rw [InFlight.next]
  split
  · exact h.close .completed
  · exact h

theorem orderly_onValue (h : b.queue.Orderly) (v : α) : (b.onValue v).1.queue.Orderly := by
  have hx := b.onValue_arrives v
  generalize b.onValue v = x at hx ⊢
  cases hx with
  | late => exact h
  | counts _ hr => exact orderly_next _ (h.buffered v hr)
  | latches _ hr => exact h.buffered v hr
  | defersCounted | defersLatched => exact h.send v

theorem orderly_onEnqueued (h : b.queue.Orderly) (r : SendResult) :
    (b.onEnqueued r).1.queue.Orderly := by
  unfold onEnqueued
  cases b.pacing with
  | counting f =>
    cases r with
    | ok u =>
      simp only
      split
      · exact h
      · exact orderly_next _ h
    | error e => exact h.close _
  | latching l =>
    cases r with
    | ok u => exact h
    | error e => exact h.close _

theorem orderly_pollDeferred (h : b.queue.Orderly) (i : Nat) :
    (b.pollDeferred i).1.queue.Orderly := by
  obtain hp | ⟨e, r, _, _, hp, _⟩ := pollDeferred_cases b i
  · rw [hp]
    exact h
  · rw [hp]
    exact orderly_onEnqueued (b := { b with
      queue := (b.queue.pollSend e).1
      deferred := b.deferred.eraseIdx i }) (h.pollSend e) r

theorem orderly_onCompleted (h : b.queue.Orderly) : b.onCompleted.queue.Orderly := by
  rw [onCompleted]
  cases b.pacing with
  | counting f =>
    simp only [InFlight.finish]
    split
    · exact h.close .completed
    · exact h
  | latching l => exact h.close .completed

end Inbound
end PacedCall
