import Mathlib.Data.List.Induction
import PacedCall.Inbound.Desk
import PacedCall.Proofs.Inbound.Flight

/-!
An inbound side that asks ahead. A claimed latch stands for one thing at a time: a message that was
asked for and has not come, or a value that came and waits for room. A peer that keeps to its credit
always finds it claimed, so every release is one value that found its place, and is followed by the
next request at once.
-/
namespace PacedCall
namespace Inbound
variable {α : Type} {b d : Inbound α} {capacity : Nat}

def claimed (b : Inbound α) : Bool :=
  match b.pacing with
  | .counting _ => false
  | .latching l => l.claimed

structure Latched (capacity : Nat) (b : Inbound α) : Prop where
  orderly : b.queue.Orderly
  size : b.queue.capacity = max 1 capacity
  latch : ∃ l, b.pacing = .latching l
  waits : ∀ t ∈ b.queue.tickets, .inLine t ∈ b.deferred

namespace Latched

theorem length_le (h : b.Latched capacity) :
    b.queue.length ≤ max 1 capacity + b.deferred.length := by
  rw [← h.size]
  exact length_le_of_waits h.orderly h.waits

/-- A change of the queue alone. -/
theorem quiet (h : b.Latched capacity) {q : Queue α} (ho : q.Orderly)
    (hsize : q.capacity = b.queue.capacity) (ht : ∀ t ∈ q.tickets, t ∈ b.queue.tickets) :
    Latched capacity { b with queue := q } :=
  { orderly := ho
    size := hsize.trans h.size
    latch := h.latch
    waits := fun t hm => h.waits t (ht t hm) }

theorem close (h : b.Latched capacity) (how : Termination) :
    Latched capacity { b with queue := (b.queue.close how).1 } :=
  h.quiet (h.orderly.close how) (Queue.capacity_close _ _)
    fun _ ht => Queue.tickets_close b.queue how ▸ ht

theorem cancel (h : b.Latched capacity) (st : Status) :
    Latched capacity { b with queue := (b.queue.cancel st).1 } :=
  h.quiet (h.orderly.cancel st) (Queue.capacity_cancel _ _) fun _ ht => by cases ht

theorem recv (h : b.Latched capacity) : Latched capacity { b with queue := b.queue.tryRecv.1 } :=
  h.quiet h.orderly.tryRecv (Queue.capacity_tryRecv _) (Queue.tickets_tryRecv _)

end Latched

theorem latched_new (capacity : Nat) : (latching capacity : Inbound α).Latched capacity :=
  { orderly := Queue.orderly_new _
    size := rfl
    latch := ⟨{}, rfl⟩
    waits := by simp [latching, Queue.new, Queue.tickets] }

/-- On an open queue a latch that is released is claimed again at once. -/
theorem next_release (l : CreditLatch) {q : Queue α} (ho : q.closedForSend = false) :
    l.release.next q = (⟨true, l.issued + 1⟩, true) := by
  simp [CreditLatch.next, CreditLatch.tryClaim, CreditLatch.release, ho]

/-- A value is there at once, and the next one is asked for; or it waits for room. -/
theorem latched_onValue (h : b.Latched capacity) (ho : b.queue.closedForSend = false) (v : α) :
    (b.onValue v).1.Latched capacity ∧ (b.onValue v).1.claimed = true ∧
      ((b.onValue v).1.deferred = b.deferred ∧ (b.onValue v).2.2 = true ∨
        (b.onValue v).1.deferred = b.deferred ++ [.inLine b.queue.nextTicket] ∧
          (b.onValue v).1.queue.Knows b.queue.nextTicket ∧ (b.onValue v).2.2 = false) := by
  obtain ⟨l, hp⟩ := h.latch
  cases hr : b.queue.hasRoom with
  | true =>
    have hpush : (b.pushed v).Orderly := h.orderly.buffered v hr
    rw [onValue_latching_room ho hr hp, next_release l (q := b.pushed v) ho]
    exact ⟨⟨hpush, h.size, ⟨_, rfl⟩, h.waits⟩, rfl, Or.inl ⟨rfl, rfl⟩⟩
  | false =>
    have hsend := Queue.send_of_full ho hr v
    have hord := h.orderly.send v
    rw [onValue_latching_full ho hr hp, defer, hsend]
    rw [hsend] at hord
    refine ⟨⟨hord, h.size, ⟨_, rfl⟩, ?_⟩, rfl, Or.inr ⟨rfl, Or.inl (by simp [Queue.tickets]), rfl⟩⟩
    intro t ht
    simp only [Queue.tickets, List.map_append, List.map_cons, List.map_nil, List.mem_append,
      List.mem_singleton] at ht
    obtain ht | rfl := ht
    · exact List.mem_append_left _ (h.waits t ht)
    · exact List.mem_append_right _ (List.mem_singleton.mpr rfl)

/-- A deferred value that found its place asks for the next one, unless the queue is closed. -/
theorem latched_onEnqueued (h : b.Latched capacity) (r : SendResult) :
    (b.onEnqueued r).1.Latched capacity ∧ (b.onEnqueued r).1.deferred = b.deferred ∧
      ((b.onEnqueued r).1.queue.closedForSend = true ∧ (b.onEnqueued r).2 = false ∨
        (b.onEnqueued r).1.claimed = true ∧ (b.onEnqueued r).2 = true) := by
  obtain ⟨l, hp⟩ := h.latch
  cases r with
  | ok u =>
    have hplaced : b.onEnqueued (.ok u) =
        ({ b with pacing := .latching (l.release.next b.queue).1 },
          (l.release.next b.queue).2) := by simp [onEnqueued, hp]
    rw [hplaced]
    refine ⟨{ h with latch := ⟨_, rfl⟩ }, rfl, ?_⟩
    cases ho : b.queue.closedForSend with
    | true => exact Or.inl ⟨rfl, by simp [CreditLatch.next, ho]⟩
    | false =>
      rw [next_release l ho]
      exact Or.inr ⟨rfl, rfl⟩
  | error e =>
    have hlost : b.onEnqueued (.error e) =
        ({ b with queue := (b.queue.close (.failed e.status)).1 }, false) := by
      simp [onEnqueued, hp]
    rw [hlost]
    exact ⟨h.close _, rfl, Or.inl ⟨closedForSend_close _ _, rfl⟩⟩

theorem latched_pollDeferred (h : b.Latched capacity) (i : Nat) :
    (b.pollDeferred i).1.Latched capacity ∧
      ((b.pollDeferred i).1 = b ∧ (b.pollDeferred i).2.1 = false ∨
        (b.pollDeferred i).1.deferred.length + 1 = b.deferred.length ∧
          ((b.pollDeferred i).1.queue.closedForSend = true ∧ (b.pollDeferred i).2.1 = false ∨
            (b.pollDeferred i).1.claimed = true ∧ (b.pollDeferred i).2.1 = true)) := by
  obtain hsame | ⟨e, r, he, hr, hside, hask⟩ := pollDeferred_cases b i
  · rw [hsame]
    exact ⟨h, Or.inl ⟨rfl, rfl⟩⟩
  · have hbase : Latched capacity { b with
        queue := (b.queue.pollSend e).1
        deferred := b.deferred.eraseIdx i } :=
      { orderly := h.orderly.pollSend e
        size := (Queue.capacity_pollSend _ _).trans h.size
        latch := h.latch
        waits := waits_of_told h.orderly h.waits he hr }
    obtain ⟨hi, _⟩ := List.getElem?_eq_some_iff.mp he
    have hlen : (b.deferred.eraseIdx i).length + 1 = b.deferred.length := by
      rw [List.length_eraseIdx_of_lt hi]
      omega
    obtain ⟨hlatched, hdef, hnext⟩ := latched_onEnqueued hbase r
    rw [hside, hask]
    exact ⟨hlatched, Or.inr ⟨by rw [hdef]; exact hlen, hnext⟩⟩

theorem onCompleted_latched (h : b.Latched capacity) :
    b.onCompleted = { b with queue := (b.queue.close .completed).1 } := by
  obtain ⟨l, hp⟩ := h.latch
  simp [onCompleted, hp]

/-- Asking ahead needs a call that is ready, an open queue with room and a latch that is free. -/
theorem preload_cases (l : CreditLatch) (q : Queue α) (ready : Bool) :
    l.preload q ready = (l, false) ∨
      l.preload q ready = (⟨true, l.issued + 1⟩, true) ∧ ready = true ∧ q.hasRoom = true ∧
        q.closedForSend = false ∧ l.claimed = false := by
  by_cases hopen : ready = true ∧ q.hasRoom = true ∧ q.closedForSend = false
  · obtain ⟨hready, hroom, ho⟩ := hopen
    cases hfree : l.claimed with
    | true => exact Or.inl (by simp [CreditLatch.preload, CreditLatch.tryClaim, hfree])
    | false =>
      refine Or.inr ⟨?_, hready, hroom, ho, rfl⟩
      simp [CreditLatch.preload, CreditLatch.tryClaim, Queue.isFull, hready, hroom, ho, hfree]
  · refine Or.inl (if_neg ?_)
    simp only [Queue.isFull, Bool.not_not, Bool.and_eq_true, Bool.not_eq_true']
    exact fun h => hopen ⟨h.1.1, h.1.2, h.2⟩

theorem onReady_latched (h : b.Latched capacity) (ready : Bool) :
    b.onReady (some ready) = (b, false) ∨
      (b.onReady (some ready)).2 = true ∧ (b.onReady (some ready)).1.Latched capacity ∧
        (b.onReady (some ready)).1.claimed = true ∧
        (b.onReady (some ready)).1.deferred = b.deferred ∧
        ready = true ∧ b.queue.hasRoom = true ∧ b.queue.closedForSend = false ∧
        b.claimed = false := by
  obtain ⟨l, hp⟩ := h.latch
  have hready : b.onReady (some ready) =
      ({ b with pacing := .latching (l.preload b.queue ready).1 }, (l.preload b.queue ready).2) := by
    simp [onReady, hp]
  have hb : b.claimed = l.claimed := by rw [claimed, hp]
  rw [hready, hb]
  obtain hstays | ⟨hasks, hopen⟩ := preload_cases l b.queue ready
  · rw [hstays, ← hp]
    exact Or.inl rfl
  · rw [hasks]
    exact Or.inr ⟨rfl, { h with latch := ⟨_, rfl⟩ }, rfl, rfl, hopen⟩

structure Feed (α : Type) where
  session : Session α
  offered : Nat := 0

def feed (capacity : Nat) (ready : Bool) : Feed α :=
  { session := { side := .latching capacity, control := some ready } }

namespace Feed

inductive Move (α : Type) where
  | offer (v : α)
  | ready
  | setReady (b : Bool)
  | complete
  | recv
  | close (how : Termination)
  | cancel (st : Status)
  | task (i : Nat)

def Move.act : Move α → Option (Step α)
  | offer v => some (.value v)
  | ready => some .onReady
  | setReady b => some (.setReady b)
  | complete => some .complete
  | recv => some .tryRecv
  | close how => some (.close how)
  | cancel st => some (.cancel st)
  | task _ => none

def Move.offers : Move α → Nat
  | offer _ => 1
  | _ => 0

def step (f : Feed α) (m : Move α) : Feed α :=
  { session :=
      match m, m.act with
      | .task i, _ => (f.session.pollDeferred i).1
      | _, some a => (f.session.apply a).1
      | _, none => f.session
    offered := f.offered + m.offers }

def run (f : Feed α) (ms : List (Move α)) : Feed α := ms.foldl step f

theorem run_concat (f : Feed α) (ms : List (Move α)) (m : Move α) :
    f.run (ms ++ [m]) = (f.run ms).step m := by
  simp [run]

def keepsCredit (f : Feed α) : Move α → Bool
  | .offer _ => decide (f.offered < f.session.requested)
  | _ => true

def paced (f : Feed α) : List (Move α) → Bool
  | [] => true
  | m :: ms => f.keepsCredit m && (f.step m).paced ms

theorem paced_concat (f : Feed α) (ms : List (Move α)) (m : Move α) :
    f.paced (ms ++ [m]) = (f.paced ms && (f.run ms).keepsCredit m) := by
  induction ms generalizing f with
  | nil => simp [paced, run]
  | cons a ms ih => simp [paced, run, ih, Bool.and_assoc]

/-- The control is there, so what is asked for is requested. -/
theorem ask_eq {s : Session α} (hc : s.control.isSome = true) (wanted : Bool) :
    s.ask wanted = { s with
      requested := s.requested + wanted.toNat
      requests := s.requests + wanted.toNat } := by
  cases wanted <;> simp [Session.ask, hc]

structure Exact (capacity : Nat) (f : Feed α) : Prop where
  latched : f.session.side.Latched capacity
  control : f.session.control.isSome = true
  balanced : f.session.side.queue.closedForSend = false →
    f.session.requested + f.session.side.deferred.length =
      f.offered + f.session.side.claimed.toNat
  begun : f.session.side.queue.closedForSend = false → 0 < f.session.requested →
    f.session.side.claimed = true
  atMost : f.session.requested + f.session.side.deferred.length ≤ f.offered + 1
  within : f.offered ≤ f.session.requested
  knows : ∀ e ∈ f.session.side.deferred, ∃ t, e = .inLine t ∧ f.session.side.queue.Knows t

namespace Exact
variable {f : Feed α}

theorem start (capacity : Nat) (ready : Bool) : (feed capacity ready : Feed α).Exact capacity :=
  { latched := latched_new capacity
    control := rfl
    balanced := fun _ => rfl
    begun := fun _ h => absurd h (Nat.lt_irrefl 0)
    atMost := Nat.zero_le _
    within := Nat.le_refl _
    knows := nofun }

/-- A change of the queue that knows of all tickets it knew of, and stays closed. -/
theorem quiet (h : f.Exact capacity) {q : Queue α}
    (hl : Latched capacity { f.session.side with queue := q })
    (hclosed : f.session.side.queue.closedForSend = true → q.closedForSend = true)
    (hk : ∀ t, f.session.side.queue.Knows t → q.Knows t) :
    Exact capacity { f with session := f.session.withQueue q } := by
  have hopen : q.closedForSend = false → f.session.side.queue.closedForSend = false := by
    intro ho
    by_contra hc
    rw [hclosed (by simpa using hc)] at ho
    cases ho
  exact
    { latched := hl
      control := h.control
      balanced := fun ho => h.balanced (hopen ho)
      begun := fun ho => h.begun (hopen ho)
      atMost := h.atMost
      within := h.within
      knows := fun e he => (h.knows e he).imp fun t ht => ⟨ht.1, hk t ht.2⟩ }

/-- A latch that was just claimed stands for exactly one thing. -/
theorem of_claimed {s : Session α} {offered : Nat} {wanted : Bool}
    (hl : s.side.Latched capacity) (hc : s.control.isSome = true)
    (hclaimed : s.side.claimed = true)
    (hone : s.requested + wanted.toNat + s.side.deferred.length = offered + 1)
    (hw : offered ≤ s.requested + wanted.toNat)
    (hk : ∀ e ∈ s.side.deferred, ∃ t, e = .inLine t ∧ s.side.queue.Knows t) :
    Exact capacity { session := s.ask wanted, offered := offered } := by
  rw [ask_eq hc]
  exact
    { latched := hl
      control := hc
      balanced := by
        intro _
        simp only [hclaimed, Bool.toNat_true]
        exact hone
      begun := fun _ _ => hclaimed
      atMost := Nat.le_of_eq hone
      within := hw
      knows := hk }

/-- On a closed queue nothing is asked for any more. -/
theorem of_closed {s : Session α} {offered : Nat} (hl : s.side.Latched capacity)
    (hc : s.control.isSome = true) (hclosed : s.side.queue.closedForSend = true)
    (hle : s.requested + s.side.deferred.length ≤ offered + 1) (hw : offered ≤ s.requested)
    (hk : ∀ e ∈ s.side.deferred, ∃ t, e = .inLine t ∧ s.side.queue.Knows t) :
    Exact capacity { session := s, offered := offered } :=
  { latched := hl
    control := hc
    balanced := fun ho => absurd (hclosed.symm.trans ho) (by simp)
    begun := fun ho => absurd (hclosed.symm.trans ho) (by simp)
    atMost := hle
    within := hw
    knows := hk }

/-- A value comes for the one message that was asked for. -/
theorem offer (h : f.Exact capacity) (v : α) (hp : f.offered < f.session.requested) :
    (f.step (.offer v)).Exact capacity := by
  have hatMost := h.atMost
  have hnil : f.session.side.deferred = [] := List.eq_nil_of_length_eq_zero (by omega)
  simp only [step, Move.act, Session.apply, Move.offers]
  cases ho : f.session.side.queue.closedForSend with
  | true =>
    rw [onValue_of_closed ho, ask_eq (by exact h.control)]
    exact of_closed h.latched h.control ho (Nat.le_succ_of_le hatMost) hp h.knows
  | false =>
    obtain ⟨hlatched, hclaimed, ⟨hdef, hask⟩ | ⟨hdef, hknows, hask⟩⟩ :=
      latched_onValue h.latched ho v
    · rw [hask]
      refine of_claimed hlatched h.control hclaimed ?_ ?_ ?_
      · simp only [hdef, hnil, List.length_nil, Bool.toNat_true]
        omega
      · simp only [Bool.toNat_true]
        omega
      · simp only [hdef, hnil]
        nofun
    · rw [hask]
      refine of_claimed hlatched h.control hclaimed ?_ ?_ ?_
      · simp only [hdef, hnil, List.nil_append, List.length_singleton, Bool.toNat_false]
        omega
      · exact hp
      · simp only [hdef, hnil, List.nil_append, List.mem_singleton]
        rintro e rfl
        exact ⟨_, rfl, hknows⟩

/-- The value that waited has its place, so the latch comes to stand for the next message. -/
theorem task (h : f.Exact capacity) (i : Nat) : (f.step (.task i)).Exact capacity := by
  have hatMost := h.atMost
  have hwithin := h.within
  simp only [step, Session.pollDeferred, Move.offers, Nat.add_zero]
  obtain ⟨hlatched, ⟨hsame, hask⟩ | ⟨hlen, hnext⟩⟩ := latched_pollDeferred h.latched i
  · rw [hsame, hask, ask_eq (by exact h.control)]
    exact h
  · have hnil : (f.session.side.pollDeferred i).1.deferred = [] :=
      List.eq_nil_of_length_eq_zero (by omega)
    rw [hnil] at hlen
    obtain ⟨hclosed, hask⟩ | ⟨hclaimed, hask⟩ := hnext
    · rw [hask, ask_eq (by exact h.control)]
      refine of_closed hlatched h.control hclosed ?_ hwithin ?_
      · simp only [hnil, Bool.toNat_false]
        omega
      · simp only [hnil]
        nofun
    · rw [hask]
      refine of_claimed hlatched h.control hclaimed ?_ ?_ ?_
      · simp only [hnil, List.length_nil, Bool.toNat_true]
        omega
      · simp only [Bool.toNat_true]
        omega
      · simp only [hnil]
        nofun

/-- Asking ahead finds nothing to come and nothing that waits. -/
theorem ready (h : f.Exact capacity) :
    (f.step .ready).Exact capacity ∧
      ((f.step .ready).session.requested = f.session.requested ∨
        (f.step .ready).session.requested = f.session.requested + 1 ∧
          f.session.control = some true ∧ f.session.side.queue.hasRoom = true ∧
          f.session.side.queue.closedForSend = false ∧ f.session.requested = f.offered ∧
          f.session.side.deferred = []) := by
  obtain ⟨r, hr⟩ := Option.isSome_iff_exists.mp h.control
  have hcases := onReady_latched h.latched r
  rw [← hr] at hcases
  simp only [step, Move.act, Session.apply, Move.offers, Nat.add_zero]
  obtain hstays | ⟨hask, hlatched, hclaimed, hdef, rfl, hroom, ho, hfree⟩ := hcases
  · rw [hstays, ask_eq (by exact h.control)]
    exact ⟨h, Or.inl rfl⟩
  · have hbalanced := h.balanced ho
    have hwithin := h.within
    simp only [hfree, Bool.toNat_false] at hbalanced
    have hnil : f.session.side.deferred = [] := List.eq_nil_of_length_eq_zero (by omega)
    rw [hask]
    refine ⟨of_claimed hlatched h.control hclaimed ?_ ?_ ?_, Or.inr ?_⟩
    · simp only [hdef, hnil, List.length_nil, Bool.toNat_true]
      omega
    · simp only [Bool.toNat_true]
      omega
    · simp only [hdef, hnil]
      nofun
    · rw [ask_eq (by exact h.control)]
      exact ⟨rfl, hr, hroom, ho, by omega, hnil⟩

end Exact

theorem exact_step {f : Feed α} (h : f.Exact capacity) (m : Move α)
    (hp : f.keepsCredit m = true) : (f.step m).Exact capacity := by
  cases m with
  | offer v => exact h.offer v (of_decide_eq_true hp)
  | ready => exact h.ready.1
  | setReady b => exact { h with control := by simp [step, Move.act, Session.apply, h.control] }
  | complete =>
    simp only [step, Move.act, Session.apply, onCompleted_latched h.latched]
    exact h.quiet (h.latched.close _) (fun _ => closedForSend_close _ _) fun _ ht => ht.close _
  | recv =>
    have hterm := Queue.termination_tryRecv f.session.side.queue
    refine h.quiet (q := f.session.side.queue.tryRecv.1) h.latched.recv ?_ fun _ ht => ht.tryRecv
    rw [Queue.closedForSend, Queue.closedForSend, hterm]
    exact id
  | close how =>
    exact h.quiet (h.latched.close how) (fun _ => closedForSend_close _ _) fun _ ht => ht.close _
  | cancel st =>
    exact h.quiet (h.latched.cancel st) (fun _ => Queue.isSome_close _ _) fun _ ht => ht.cancel st
  | task i => exact h.task i

theorem exact_run (capacity : Nat) (ready : Bool) (ms : List (Move α))
    (hp : (feed capacity ready).paced ms = true) :
    ((feed capacity ready).run ms).Exact capacity := by
  induction ms using List.reverseRecOn with
  | nil => exact .start capacity ready
  | append_singleton ms m ih =>
    rw [paced_concat, Bool.and_eq_true] at hp
    rw [run_concat]
    exact exact_step (ih hp.1) m hp.2

/-- What the latch is claimed for, whoever moves and in whatever order, while the queue is open. After
the first request there is always exactly one message to come or one value that waits, so the flow
neither stalls nor asks twice, and it only asks ahead when there is neither. -/
theorem preload_exact (capacity : Nat) (ready : Bool) (ms : List (Move α))
    (hp : (feed capacity ready).paced ms = true) :
    let f := (feed capacity ready).run ms
    (f.session.side.queue.closedForSend = false →
      (f.session.requested : Int) - f.offered + f.session.side.deferred.length =
        if f.session.side.claimed then 1 else 0) ∧
    (f.session.side.queue.closedForSend = false → 0 < f.session.requested →
      f.session.side.claimed = true ∧
      (f.session.requested = f.offered + 1 ∧ f.session.side.deferred = [] ∨
        f.session.requested = f.offered ∧
          ∃ t, f.session.side.deferred = [.inLine t] ∧ f.session.side.queue.Knows t)) ∧
    f.session.side.queue.length ≤ max 1 capacity + 1 ∧
    ((f.step .ready).session.requested ≠ f.session.requested →
      (f.step .ready).session.requested = f.session.requested + 1 ∧ f.session.control = some true ∧
      f.session.side.queue.hasRoom = true ∧ f.session.side.queue.closedForSend = false ∧
      f.session.requested = f.offered ∧ f.session.side.deferred = []) := by
  intro f
  have h : f.Exact capacity := exact_run capacity ready ms hp
  have hatMost := h.atMost
  have hwithin := h.within
  refine ⟨?_, ?_, ?_, fun hne => h.ready.2.resolve_left hne⟩
  · intro ho
    have hbalanced := h.balanced ho
    split
    · next hc =>
      simp only [hc, Bool.toNat_true] at hbalanced
      omega
    · next hc =>
      simp only [hc, Bool.toNat_false] at hbalanced
      omega
  · intro ho hfirst
    have hclaimed := h.begun ho hfirst
    have hbalanced := h.balanced ho
    simp only [hclaimed, Bool.toNat_true] at hbalanced
    refine ⟨hclaimed, ?_⟩
    cases hd : f.session.side.deferred with
    | nil =>
      rw [hd] at hbalanced
      exact Or.inl ⟨hbalanced, rfl⟩
    | cons e es =>
      rw [hd, List.length_cons] at hbalanced
      have hnil : es = [] := List.eq_nil_of_length_eq_zero (by omega)
      obtain ⟨t, rfl, hk⟩ := h.knows e (by rw [hd]; exact List.mem_cons_self)
      subst hnil
      exact Or.inr ⟨by simpa using hbalanced, t, rfl, hk⟩
  · have hlen := h.latched.length_le
    omega

/-- Room for one: the second value waits, and the latch stands for it. -/
theorem preload_exact_deferred :
    let ms : List (Move Nat) := [.ready, .offer 1, .offer 2]
    let f := (feed 1 true).run ms
    (feed 1 true : Feed Nat).paced ms = true ∧ f.session.requested = f.offered ∧
      f.session.side.deferred.length = 1 ∧ f.session.side.claimed = true := by
  intro ms f
  have hp : (feed 1 true : Feed Nat).paced ms = true := by decide
  have h := preload_exact 1 true ms hp
  have hdef : f.session.side.deferred ≠ [] := by decide
  obtain ⟨hclaimed, ⟨_, hnil⟩ | ⟨hreq, t, hone, _⟩⟩ := h.2.1 (by decide) (by decide)
  · exact absurd hnil hdef
  · exact ⟨hp, hreq, by rw [hone]; rfl, hclaimed⟩

end Feed
end Inbound
end PacedCall
