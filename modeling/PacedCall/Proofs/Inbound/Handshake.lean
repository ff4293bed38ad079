import PacedCall.Proofs.Crew
import PacedCall.Proofs.Inbound.Going

/-!
A side that counts, with its callbacks and the tasks of its deferred values taken apart into single
looks and changes. The transport writes down that it has completed and then looks at the count; a
task that leaves writes the count down and then looks for the completion. Whoever is second sees
what the first has written, so somebody is about to close the queue as long as it is to be closed.
-/
namespace PacedCall

def Received.values {α : Type} : Received α → List α
  | .item v => [v]
  | _ => []

namespace Inbound
variable {α : Type}

/-- What those who work on a side share; `reached` while the control is there. What was delivered
and taken so far, and whether the transport has `ended`, is only kept to speak about it. -/
structure Intake (α : Type) where
  queue : Queue α
  flight : InFlight := {}
  requested : Nat := 0
  reached : Bool := true
  ended : Bool := false
  delivered : List α := []
  taken : List α := []

inductive Parting where
  | placed
  | late
  | told (r : SendResult)

inductive Post (α : Type) where
  | entering (v : α)
  | trying (v : α)
  | sending (v : α)
  | spawning (e : Enqueue)
  | waiting (e : Enqueue)
  | leaving (why : Parting)
  | checking
  | asking
  | counting
  | closing
  | requesting
  | failing (st : Status)
  | completing
  | confirming

structure Hand (α : Type) where
  callback : Bool
  post : Post α

namespace Hand

def inside (h : Hand α) : Bool :=
  match h.post with
  | .trying _ => true
  | .sending _ => true
  | .spawning _ => true
  | .waiting _ => true
  | .leaving _ => true
  | _ => false

def closes (h : Hand α) : Bool :=
  match h.post with
  | .checking => true
  | .asking => true
  | .counting => true
  | .closing => true
  | .confirming => true
  | _ => false

def carried (h : Hand α) : List α :=
  match h.post with
  | .entering v => [v]
  | .trying v => [v]
  | .sending v => [v]
  | _ => []

def owns (h : Hand α) (ticket : Nat) : Prop :=
  h.post = .waiting (.inLine ticket) ∨ h.post = .spawning (.inLine ticket)

def deferred? (h : Hand α) : Option Enqueue :=
  match h.post with
  | .waiting e => some e
  | _ => none

end Hand

namespace Intake

def move (t : Intake α) : Post α → Intake α × Option (Post α)
  | .entering v => ({ t with flight := t.flight.enter }, some (.trying v))
  | .trying v =>
    match t.queue.trySend v with
    | (q, .ok _) => ({ t with queue := q }, some (.leaving .placed))
    | (_, .error .closed) => (t, some (.leaving .late))
    | (_, .error .full) => (t, some (.sending v))
  | .sending v => ({ t with queue := (t.queue.send v).1 }, some (.spawning (t.queue.send v).2))
  | .spawning e => (t, some (.waiting e))
  | .waiting e =>
    match t.queue.pollSend e with
    | (_, _, none) => (t, some (.waiting e))
    | (q, _, some r) => ({ t with queue := q }, some (.leaving (.told r)))
  | .leaving why =>
    ({ t with flight := t.flight.leave },
      match why with
      | .placed => some .asking
      | .late => none
      | .told (.ok _) => some .checking
      | .told (.error e) => some (.failing e.status))
  | .checking => (t, if t.queue.closedForReceive then none else some .asking)
  | .asking => (t, some (if t.flight.completed then .counting else .requesting))
  | .counting => (t, some (if t.flight.count == 0 then .closing else .requesting))
  | .closing => ({ t with queue := (t.queue.close .completed).1 }, none)
  | .requesting => (if t.reached then { t with requested := t.requested + 1 } else t, none)
  | .failing st => ({ t with queue := (t.queue.close (.failed st)).1 }, none)
  | .completing => ({ t with flight := { t.flight with completed := true } }, some .confirming)
  | .confirming => (t, if t.flight.count == 0 then some .closing else none)

def onTask : Post α → Bool
  | .waiting _ => true
  | _ => false

def next (t : Intake α) (h : Hand α) : Intake α × Option (Hand α) :=
  ((t.move h.post).1, (t.move h.post).2.map fun p => ⟨h.callback && !onTask p, p⟩)

abbrev Dock (α : Type) := Crew (Intake α) (Hand α)

def idle (c : Dock α) : Bool := c.hands.all fun h => !h.callback

/-- What happens to a side, or one act of somebody who works on it. The transport makes one callback
at a time, and delivers nothing once it has ended. -/
inductive Move (α : Type) where
  | deliver (v : α)
  | complete
  | recv
  | sever
  | act (i : Nat)

def step (c : Dock α) : Move α → Dock α
  | .deliver v =>
    if idle c && !c.common.ended then
      { common := { c.common with delivered := c.common.delivered ++ [v] }
        hands := c.hands ++ [⟨true, .entering v⟩] }
    else c
  | .complete =>
    if idle c then
      { common := { c.common with ended := true }, hands := c.hands ++ [⟨true, .completing⟩] }
    else c
  | .recv =>
    { c with common := { c.common with
        queue := c.common.queue.tryRecv.1
        taken := c.common.taken ++ c.common.queue.tryRecv.2.values } }
  | .sever => { c with common := { c.common with reached := false } }
  | .act i => c.act next i

def run (c : Dock α) (ms : List (Move α)) : Dock α := ms.foldl step c

theorem step_act (c : Dock α) (i : Nat) : step c (.act i) = c.act next i := rfl

theorem run_concat (c : Dock α) (ms : List (Move α)) (m : Move α) :
    run c (ms ++ [m]) = step (run c ms) m := by
  simp [run]

def dock (capacity : Nat) : Dock α := { common := { queue := .new capacity } }

/-! The handshake. -/

/-- What somebody knows at a post. Values are in hand only before the end, and only in callbacks;
whoever counts has seen the completion, and whoever closes has also seen that nothing is in
flight. -/
def Fits (t : Intake α) (h : Hand α) : Prop :=
  match h.post with
  | .entering _ => h.callback = true ∧ t.ended = false
  | .trying _ => h.callback = true ∧ t.ended = false
  | .sending _ => h.callback = true ∧ t.ended = false
  | .spawning e => e = .settled (.ok ()) ∨ ∃ k, e = .inLine k
  | .waiting e => e = .settled (.ok ()) ∨ ∃ k, e = .inLine k
  | .leaving .late => False
  | .leaving (.told r) => r = .ok ()
  | .counting => t.flight.completed = true
  | .confirming => t.flight.completed = true
  | .closing => t.flight.completed = true ∧ t.flight.count = 0
  | .failing _ => False
  | .completing => t.ended = true
  | _ => True

structure Handshake (c : Dock α) : Prop where
  placed : ∀ f ∈ c.common.queue.fates, f.2 = .ok ()
  count : c.common.flight.count = c.hands.countP Hand.inside
  fits : ∀ h ∈ c.hands, c.common.Fits h
  announced : c.common.flight.completed = true → c.common.ended = true
  spoken : c.common.ended = true →
    c.common.flight.completed = true ∨ ∃ h ∈ c.hands, h.post = .completing
  closed : c.common.queue.termination = none ∨
    c.common.queue.termination = some .completed ∧ c.common.flight.completed = true ∧
      c.common.flight.count = 0
  seen : c.common.flight.completed = true → c.common.flight.count = 0 →
    c.common.queue.termination = none → ∃ h ∈ c.hands, h.closes = true

structure Pass (t : Intake α) (h : Hand α) (u : Intake α) (o : Option (Hand α)) : Prop where
  placed : ∀ f ∈ u.queue.fates, f.2 = .ok ()
  ended : u.ended = t.ended
  completed : t.flight.completed = true → u.flight.completed = true
  rest : t.flight.completed = true → t.flight.count = 0 → u.flight.count = 0
  count : u.flight.count + [h].countP Hand.inside = t.flight.count + o.toList.countP Hand.inside
  fits : ∀ q ∈ o, u.Fits q
  announced : u.flight.completed = true → u.ended = true
  spoken : h.post = .completing → u.flight.completed = true
  closed : u.queue.termination = none ∨
    u.queue.termination = some .completed ∧ u.flight.completed = true ∧ u.flight.count = 0
  seen : u.flight.completed = true → u.flight.count = 0 → u.queue.termination = none →
    (∃ q ∈ o, q.closes = true) ∨
      (t.flight.completed = true ∧ t.flight.count = 0 ∧ t.queue.termination = none ∧
        h.closes = false)

theorem Fits.later {t u : Intake α} {h : Hand α} (hf : t.Fits h) (he : u.ended = t.ended)
    (hc : t.flight.completed = true → u.flight.completed = true)
    (hr : t.flight.completed = true → t.flight.count = 0 → u.flight.count = 0) : u.Fits h := by
  obtain ⟨callback, post⟩ := h
  cases post with
  | entering | trying | sending | completing =>
    simp only [Fits, he] at hf ⊢
    exact hf
  | counting => exact hc hf
  | confirming => exact hc hf
  | closing => exact ⟨hc hf.1, hr hf.1 hf.2⟩
  | leaving why => cases why <;> exact hf
  | spawning | waiting | checking | asking | requesting | failing => exact hf

/-- The transport ends while no callback is under way, so no value is in hand. -/
theorem Fits.ending {t : Intake α} {h : Hand α} (hf : t.Fits h) (hb : h.callback = false) :
    Fits { t with ended := true } h := by
  obtain ⟨callback, post⟩ := h
  cases post with
  | entering | trying | sending => exact absurd (hb.symm.trans hf.1) Bool.false_ne_true
  | completing => rfl
  | leaving why => cases why <;> exact hf
  | spawning | waiting | checking | asking | requesting | failing | counting | confirming | closing =>
    exact hf

/-- Neither the flight nor the end of the queue changes. -/
theorem Pass.keep {c : Dock α} (h : Handshake c) {p : Hand α} {u : Intake α} {o : Option (Hand α)}
    (hplaced : ∀ f ∈ u.queue.fates, f.2 = .ok ())
    (ht : u.queue.termination = c.common.queue.termination) (hf : u.flight = c.common.flight)
    (he : u.ended = c.common.ended)
    (hi : o.toList.countP Hand.inside = [p].countP Hand.inside) (ho : ∀ q ∈ o, u.Fits q)
    (hp : p.post ≠ .completing)
    (hs : p.closes = true → c.common.flight.completed = true → c.common.flight.count = 0 →
      c.common.queue.termination = none → ∃ q ∈ o, q.closes = true) :
    Pass c.common p u o :=
  { placed := hplaced
    ended := he
    completed := by rw [hf]; exact id
    rest := by rw [hf]; exact fun _ => id
    count := by rw [hf, hi]
    fits := ho
    announced := by rw [hf, he]; exact h.announced
    spoken := fun hc => absurd hc hp
    closed := by rw [hf, ht]; exact h.closed
    seen := by
      rw [hf, ht]
      intro hc hn hopen
      cases hclose : p.closes with
      | true => exact Or.inl (hs hclose hc hn hopen)
      | false => exact Or.inr ⟨hc, hn, hopen, rfl⟩ }

/-- Whoever only looks goes on to another post, or is done. -/
theorem Pass.look {c : Dock α} (h : Handshake c) {p : Hand α} {o : Option (Hand α)}
    (hi : o.toList.countP Hand.inside = [p].countP Hand.inside)
    (ho : ∀ q ∈ o, c.common.Fits q) (hp : p.post ≠ .completing)
    (hs : p.closes = true → c.common.flight.completed = true → c.common.flight.count = 0 →
      c.common.queue.termination = none → ∃ q ∈ o, q.closes = true) :
    Pass c.common p c.common o :=
  .keep h h.placed rfl rfl rfl hi ho hp hs

/-- While values are in hand the transport has not ended, so the queue is open. -/
theorem Handshake.open_of_not_ended {c : Dock α} (h : Handshake c) (he : c.common.ended = false) :
    c.common.flight.completed = false ∧ c.common.queue.termination = none := by
  have hc : c.common.flight.completed = false := by
    by_contra hne
    rw [h.announced (by simpa using hne)] at he
    cases he
  refine ⟨hc, h.closed.resolve_right ?_⟩
  rintro ⟨_, hcompleted, _⟩
  rw [hc] at hcompleted
  cases hcompleted

/-- A value in flight keeps the queue open. -/
theorem Handshake.of_inside {c : Dock α} (h : Handshake c) {p : Hand α} (hp : p ∈ c.hands)
    (hi : p.inside = true) : 0 < c.common.flight.count ∧ c.common.queue.termination = none := by
  have hpos : 0 < c.common.flight.count := by
    rw [h.count]
    exact List.countP_pos_iff.mpr ⟨p, hp, hi⟩
  refine ⟨hpos, h.closed.resolve_right ?_⟩
  rintro ⟨_, _, hzero⟩
  omega

/-- On an open queue a value is sent at once, or waits in line. -/
theorem send_of_open {q : Queue α} (ho : q.termination = none) (v : α) :
    (q.send v).1.fates = q.fates ∧
      ((q.send v).2 = .settled (.ok ()) ∨ ∃ k, (q.send v).2 = .inLine k) := by
  rw [Queue.send, ho]
  simp only
  split
  · exact ⟨rfl, Or.inl rfl⟩
  · exact ⟨rfl, Or.inr ⟨_, rfl⟩⟩

/-- Whoever waits is told that the value found its place. -/
theorem told_of_fits {q : Queue α} (hq : ∀ f ∈ q.fates, f.2 = .ok ()) {e : Enqueue}
    (he : e = .settled (.ok ()) ∨ ∃ k, e = .inLine k) {r : SendResult}
    (hr : (q.pollSend e).2.2 = some r) : r = .ok () := by
  obtain rfl | ⟨k, rfl⟩ := he
  · exact (Option.some.inj hr).symm
  · exact told_of_placed hq hr

theorem pass_entering {c : Dock α} (h : Handshake c) {b : Bool} {v : α}
    (hp : ⟨b, .entering v⟩ ∈ c.hands) :
    Pass c.common ⟨b, .entering v⟩ (c.common.next ⟨b, .entering v⟩).1
      (c.common.next ⟨b, .entering v⟩).2 := by
  obtain ⟨hcallback, hend⟩ := h.fits _ hp
  obtain ⟨hnot, hopen⟩ := h.open_of_not_ended hend
  exact
    { placed := h.placed
      ended := rfl
      completed := id
      rest := fun hc => absurd hc (by simp [hnot])
      count := by simp [next, move, InFlight.enter, Hand.inside]
      fits := by
        rintro q ⟨rfl⟩
        exact ⟨by simpa [onTask] using hcallback, hend⟩
      announced := h.announced
      spoken := by simp
      closed := Or.inl hopen
      seen := fun hc => absurd hc (by simp [next, move, InFlight.enter, hnot]) }

/-- A value in hand finds the queue open, so it is placed, or is to be sent when there is room. -/
theorem pass_trying {c : Dock α} (h : Handshake c) {b : Bool} {v : α}
    (hp : ⟨b, .trying v⟩ ∈ c.hands) :
    Pass c.common ⟨b, .trying v⟩ (c.common.next ⟨b, .trying v⟩).1
      (c.common.next ⟨b, .trying v⟩).2 := by
  obtain ⟨hcallback, hend⟩ := h.fits _ hp
  obtain ⟨_, hopen⟩ := h.open_of_not_ended hend
  have hsend : c.common.queue.closedForSend = false := by simp [Queue.closedForSend, hopen]
  cases hr : c.common.queue.hasRoom with
  | true =>
    simp only [next, move, Queue.trySend, hsend, hr, Bool.false_eq_true, if_false, if_true]
    refine .keep h h.placed rfl rfl rfl rfl ?_ (by simp) (by simp [Hand.closes])
    rintro _ ⟨rfl⟩
    trivial
  | false =>
    simp only [next, move, Queue.trySend, hsend, hr, Bool.false_eq_true, if_false]
    refine .look h rfl ?_ (by simp) (by simp [Hand.closes])
    rintro _ ⟨rfl⟩
    exact ⟨by simpa [onTask] using hcallback, hend⟩

theorem pass_sending {c : Dock α} (h : Handshake c) {b : Bool} {v : α}
    (hp : ⟨b, .sending v⟩ ∈ c.hands) :
    Pass c.common ⟨b, .sending v⟩ (c.common.next ⟨b, .sending v⟩).1
      (c.common.next ⟨b, .sending v⟩).2 := by
  obtain ⟨_, hend⟩ := h.fits _ hp
  obtain ⟨_, hopen⟩ := h.open_of_not_ended hend
  obtain ⟨hfates, hsent⟩ := send_of_open hopen v
  refine .keep h (u := { c.common with queue := (c.common.queue.send v).1 })
    (hfates ▸ h.placed) (Queue.termination_send _ v) rfl rfl rfl ?_ (by simp) (by simp [Hand.closes])
  rintro _ ⟨rfl⟩
  exact hsent

/-- A task that waits asks again, or learns that its value found its place. -/
theorem pass_waiting {c : Dock α} (h : Handshake c) {b : Bool} {e : Enqueue}
    (hp : ⟨b, .waiting e⟩ ∈ c.hands) :
    Pass c.common ⟨b, .waiting e⟩ (c.common.next ⟨b, .waiting e⟩).1
      (c.common.next ⟨b, .waiting e⟩).2 := by
  have hfits := h.fits _ hp
  rcases hsend : c.common.queue.pollSend e with ⟨q, e', r⟩
  simp only [next, move, hsend]
  cases r with
  | none =>
    refine .look h rfl ?_ (by simp) (by simp [Hand.closes])
    rintro _ ⟨rfl⟩
    exact hfits
  | some r =>
    have htold : r = .ok () := told_of_fits h.placed hfits (by rw [hsend])
    have hfates := placed_pollSend h.placed e
    have hterm := Queue.termination_pollSend c.common.queue e
    rw [hsend] at hfates hterm
    refine .keep h hfates hterm rfl rfl rfl ?_ (by simp) (by simp [Hand.closes])
    rintro _ ⟨rfl⟩
    exact htold

/-- The last one to leave looks for the completion after it has left. -/
theorem pass_leaving {c : Dock α} (h : Handshake c) {b : Bool} {why : Parting}
    (hp : ⟨b, .leaving why⟩ ∈ c.hands) :
    Pass c.common ⟨b, .leaving why⟩ (c.common.next ⟨b, .leaving why⟩).1
      (c.common.next ⟨b, .leaving why⟩).2 := by
  have hfits := h.fits _ hp
  obtain ⟨hpos, hopen⟩ := h.of_inside hp rfl
  have hgoes : ∃ q : Hand α, (c.common.next ⟨b, .leaving why⟩).2 = some q ∧ q.inside = false ∧
      q.closes = true ∧ ∀ u : Intake α, u.Fits q := by
    cases why with
    | placed => exact ⟨_, rfl, rfl, rfl, fun _ => trivial⟩
    | late => exact hfits.elim
    | told r =>
      obtain rfl : r = .ok () := hfits
      exact ⟨_, rfl, rfl, rfl, fun _ => trivial⟩
  obtain ⟨q, hq, hinside, hcloses, hfit⟩ := hgoes
  rw [hq]
  exact
    { placed := h.placed
      ended := rfl
      completed := id
      rest := fun _ hn => absurd hn (Nat.ne_of_gt hpos)
      count := by
        have hme : [⟨b, .leaving why⟩].countP (Hand.inside (α := α)) = 1 := rfl
        have hnext : (some q).toList.countP Hand.inside = 0 := by simp [hinside]
        simp only [next, move, InFlight.leave, hme, hnext]
        omega
      fits := by
        rintro _ ⟨rfl⟩
        exact hfit _
      announced := h.announced
      spoken := by simp
      closed := Or.inl hopen
      seen := fun _ _ _ => Or.inl ⟨q, rfl, hcloses⟩ }

theorem pass_closing {c : Dock α} (h : Handshake c) {b : Bool}
    (hp : ⟨b, .closing⟩ ∈ c.hands) :
    Pass c.common ⟨b, .closing⟩ (c.common.next ⟨b, .closing⟩).1
      (c.common.next ⟨b, .closing⟩).2 := by
  obtain ⟨hcompleted, hzero⟩ := h.fits _ hp
  have hclosed : (c.common.queue.close .completed).1.termination = some .completed := by
    rw [Queue.close]
    obtain hopen | ⟨hdone, _⟩ := h.closed
    · rw [hopen]
    · rw [hdone]
      exact hdone
  exact
    { placed := by
        obtain ⟨t, ht⟩ := Queue.exists_close c.common.queue .completed
        simp only [next, move, ht]
        exact h.placed
      ended := rfl
      completed := id
      rest := fun _ => id
      count := by simp [next, move, Hand.inside]
      fits := by simp [next, move]
      announced := h.announced
      spoken := by simp
      closed := Or.inr ⟨hclosed, hcompleted, hzero⟩
      seen := fun _ _ hopen => absurd (hclosed.symm.trans hopen) (by simp) }

/-- The transport looks at the count after it has written down that it completed. -/
theorem pass_completing {c : Dock α} (h : Handshake c) {b : Bool}
    (hp : ⟨b, .completing⟩ ∈ c.hands) :
    Pass c.common ⟨b, .completing⟩ (c.common.next ⟨b, .completing⟩).1
      (c.common.next ⟨b, .completing⟩).2 :=
  { placed := h.placed
    ended := rfl
    completed := fun _ => rfl
    rest := fun _ => id
    count := by simp [next, move, Hand.inside]
    fits := by
      rintro _ ⟨rfl⟩
      rfl
    announced := fun _ => h.fits _ hp
    spoken := fun _ => rfl
    closed := h.closed.imp_right fun hc => ⟨hc.1, rfl, hc.2.2⟩
    seen := fun _ _ _ => Or.inl ⟨_, rfl, rfl⟩ }

/-- Whoever is to look whether the queue is to be closed goes on until that is settled. -/
theorem pass_closes {c : Dock α} (h : Handshake c) {p : Hand α} (hp : p ∈ c.hands)
    (hcloses : p.closes = true) :
    Pass c.common p (c.common.next p).1 (c.common.next p).2 := by
  have hfits := h.fits p hp
  obtain ⟨callback, post⟩ := p
  cases post with
  | closing => exact pass_closing h hp
  | checking =>
    simp only [next, move]
    split
    · next hdone =>
      refine .look h rfl (by simp) (by simp) ?_
      intro _ _ _ hopen
      simp [Queue.closedForReceive, hopen] at hdone
    · refine .look h rfl ?_ (by simp) fun _ _ _ _ => ⟨_, rfl, rfl⟩
      rintro _ ⟨rfl⟩
      trivial
  | asking =>
    simp only [next, move]
    split
    · next hcompleted =>
      refine .look h rfl ?_ (by simp) fun _ _ _ _ => ⟨_, rfl, rfl⟩
      rintro _ ⟨rfl⟩
      exact hcompleted
    · next hnot =>
      refine .look h rfl ?_ (by simp) fun _ hcompleted => absurd hcompleted hnot
      rintro _ ⟨rfl⟩
      trivial
  | counting =>
    simp only [next, move]
    split
    · next hzero =>
      refine .look h rfl ?_ (by simp) fun _ _ _ _ => ⟨_, rfl, rfl⟩
      rintro _ ⟨rfl⟩
      exact ⟨hfits, by simpa using hzero⟩
    · next hmore =>
      refine .look h rfl ?_ (by simp) fun _ _ hzero => absurd (by simpa using hzero) hmore
      rintro _ ⟨rfl⟩
      trivial
  | confirming =>
    simp only [next, move]
    split
    · next hzero =>
      refine .look h rfl ?_ (by simp) fun _ _ _ _ => ⟨_, rfl, rfl⟩
      rintro _ ⟨rfl⟩
      exact ⟨hfits, by simpa using hzero⟩
    · next hmore =>
      exact .look h rfl (by simp) (by simp) fun _ _ hzero => absurd (by simpa using hzero) hmore
  | entering | trying | sending | spawning | waiting | leaving | requesting | failing | completing =>
    simp [Hand.closes] at hcloses

theorem pass_next {c : Dock α} (h : Handshake c) {p : Hand α} (hp : p ∈ c.hands) :
    Pass c.common p (c.common.next p).1 (c.common.next p).2 := by
  have hfits := h.fits p hp
  obtain ⟨callback, post⟩ := p
  cases post with
  | entering v => exact pass_entering h hp
  | trying v => exact pass_trying h hp
  | sending v => exact pass_sending h hp
  | waiting e => exact pass_waiting h hp
  | leaving why => exact pass_leaving h hp
  | checking | asking | counting | confirming | closing => exact pass_closes h hp rfl
  | completing => exact pass_completing h hp
  | failing st => exact hfits.elim
  | spawning e =>
    refine .look h rfl ?_ (by simp) (by simp [Hand.closes])
    rintro _ ⟨rfl⟩
    exact hfits
  | requesting =>
    simp only [next, move]
    split <;>
      exact .keep h h.placed rfl rfl rfl rfl (by simp) (by simp) (by simp [Hand.closes])

theorem handshake_act {c : Dock α} (h : Handshake c) (i : Nat) : Handshake (c.act next i) := by
  obtain ⟨_, hrest⟩ | ⟨before, p, after, hands, hact⟩ := c.act_cases next i
  · rw [hrest]
    exact h
  · have hp := pass_next h (p := p) (by simp [hands])
    have hother : ∀ q ∈ c.hands, q ≠ p →
        q ∈ before ++ (c.common.next p).2.toList ++ after :=
      fun q hq hne => Crew.mem_of_ne _ (hands ▸ hq) hne
    rw [hact]
    exact
      { placed := hp.placed
        count := by
          have hcount := h.count
          have hpass := hp.count
          rw [hands, Crew.countP_split] at hcount
          simp only [List.countP_append]
          omega
        fits := by
          intro q hq
          simp only [List.mem_append, Option.mem_toList] at hq
          obtain (hq | hq) | hq := hq
          · exact (h.fits q (by simp [hands, hq])).later hp.ended hp.completed hp.rest
          · exact hp.fits q hq
          · exact (h.fits q (by simp [hands, hq])).later hp.ended hp.completed hp.rest
        announced := hp.announced
        spoken := by
          intro he
          obtain hdone | ⟨q, hq, hpost⟩ := h.spoken (hp.ended ▸ he)
          · exact Or.inl (hp.completed hdone)
          · by_cases hne : q = p
            · exact Or.inl (hp.spoken (hne ▸ hpost))
            · exact Or.inr ⟨q, hother q hq hne, hpost⟩
        closed := hp.closed
        seen := by
          intro hc hn hopen
          obtain ⟨q, hq, hcloses⟩ | ⟨hc', hn', hopen', hnot⟩ := hp.seen hc hn hopen
          · exact ⟨q, by simp [Option.mem_def.mp hq], hcloses⟩
          · obtain ⟨q, hq, hcloses⟩ := h.seen hc' hn' hopen'
            refine ⟨q, hother q hq ?_, hcloses⟩
            rintro rfl
            rw [hnot] at hcloses
            cases hcloses }

theorem not_callback_of_idle {c : Dock α} (hi : idle c = true) :
    ∀ h ∈ c.hands, h.callback = false := by
  intro h hh
  simpa using List.all_eq_true.mp hi h hh

/-- A value comes while the transport has not ended, so nobody looks for the end yet. -/
theorem handshake_deliver {c : Dock α} (h : Handshake c) (v : α) :
    Handshake (step c (.deliver v)) := by
  rw [step]
  split
  · next hgoes =>
    simp only [Bool.and_eq_true, Bool.not_eq_true'] at hgoes
    obtain ⟨hnot, _⟩ := h.open_of_not_ended hgoes.2
    exact
      { placed := h.placed
        count := by simp [h.count, Hand.inside]
        fits := by
          intro q hq
          obtain hq | hq := List.mem_append.mp hq
          · exact (h.fits q hq).later rfl id fun _ => id
          · obtain rfl := List.mem_singleton.mp hq
            exact ⟨rfl, hgoes.2⟩
        announced := h.announced
        spoken := fun he => absurd he (by simp [hgoes.2])
        closed := h.closed
        seen := fun hc => absurd hc (by simp [hnot]) }
  · exact h

/-- The transport ends with the callback that is about to write it down. -/
theorem handshake_complete {c : Dock α} (h : Handshake c) : Handshake (step c .complete) := by
  rw [step]
  split
  · next hidle =>
    exact
      { placed := h.placed
        count := by simp [h.count, Hand.inside]
        fits := by
          intro q hq
          obtain hq | hq := List.mem_append.mp hq
          · exact (h.fits q hq).ending (not_callback_of_idle hidle q hq)
          · obtain rfl := List.mem_singleton.mp hq
            rfl
        announced := fun _ => rfl
        spoken := fun _ => Or.inr ⟨_, List.mem_append_right _ (List.mem_singleton.mpr rfl), rfl⟩
        closed := h.closed
        seen := by
          intro hc hn hopen
          obtain ⟨q, hq, hcloses⟩ := h.seen hc hn hopen
          exact ⟨q, List.mem_append_left _ hq, hcloses⟩ }
  · exact h

theorem handshake_step {c : Dock α} (h : Handshake c) (m : Move α) : Handshake (step c m) := by
  cases m with
  | act i => exact handshake_act h i
  | deliver v => exact handshake_deliver h v
  | complete => exact handshake_complete h
  | sever => exact { h with fits := fun q hq => (h.fits q hq).later rfl id fun _ => id }
  | recv =>
    have hterm := Queue.termination_tryRecv c.common.queue
    exact
      { placed := placed_tryRecv h.placed
        count := h.count
        fits := fun q hq => (h.fits q hq).later rfl id fun _ => id
        announced := h.announced
        spoken := h.spoken
        closed := by
          simp only [step, hterm]
          exact h.closed
        seen := by
          simp only [step, hterm]
          exact h.seen }

theorem handshake_dock (capacity : Nat) : Handshake (dock capacity : Dock α) :=
  { placed := by simp [dock, Queue.new]
    count := rfl
    fits := by simp [dock]
    announced := by simp [dock]
    spoken := by simp [dock]
    closed := Or.inl rfl
    seen := by simp [dock] }

theorem handshake_run {c : Dock α} (h : Handshake c) (ms : List (Move α)) :
    Handshake (run c ms) := by
  induction ms using List.reverseRecOn with
  | nil => exact h
  | append_singleton ms m ih =>
    rw [run_concat]
    exact handshake_step ih m

end Intake
end Inbound
end PacedCall
