import PacedCall.Proofs.Call.Outcome
import PacedCall.Proofs.Inbound.Going

/-!
The tasks of deferred values over a whole course. Each of them waits under a ticket of its own that
the queue knows, so it ends with the fate of its value and with nothing else. Once the peer has
completed, the queue of a side that counts is closed, or some task still has to end before it is;
and as long as nobody ends the call before its time, the queue closes with the last of them.
-/
namespace PacedCall
namespace Inbound
variable {α : Type} {b d : Inbound α} {vs : List α} {capacity : Nat}

theorem queue_next (f : InFlight) (q : Queue α) :
    (f.next q).1 = q ∨ (f.next q).1 = (q.close .completed).1 := by
  rw [InFlight.next]
  split
  · exact .inr rfl
  · exact .inl rfl

theorem queue_onEnqueued (b : Inbound α) (r : SendResult) :
    (b.onEnqueued r).1.queue = b.queue ∨
      ∃ how, (b.onEnqueued r).1.queue = (b.queue.close how).1 := by
  unfold onEnqueued
  cases b.pacing with
  | counting f =>
    cases r with
    | ok u =>
      simp only
      split
      · exact .inl rfl
      · exact (queue_next f.leave b.queue).imp id fun h => ⟨_, h⟩
    | error e => exact .inr ⟨_, rfl⟩
  | latching l =>
    cases r with
    | ok u => exact .inl rfl
    | error e => exact .inr ⟨_, rfl⟩

theorem queue_onCompleted (b : Inbound α) :
    b.onCompleted.queue = b.queue ∨ b.onCompleted.queue = (b.queue.close .completed).1 := by
  rw [onCompleted]
  cases b.pacing with
  | counting f =>
    simp only [InFlight.finish]
    split
    · exact .inr rfl
    · exact .inl rfl
  | latching l => exact .inr rfl

theorem deferred_onReady (b : Inbound α) (control : Option Bool) :
    (b.onReady control).1.deferred = b.deferred := by
  unfold onReady
  split <;> rfl

structure Tasked (b : Inbound α) : Prop where
  orderly : b.queue.Orderly
  waits : ∀ e ∈ b.deferred, ∃ t, e = .inLine t ∧ b.queue.Knows t
  once : b.deferred.Nodup

namespace Tasked

theorem new (capacity : Nat) (p : Pacing) : Tasked ⟨p, (.new capacity : Queue α), []⟩ :=
  ⟨Queue.orderly_new capacity, nofun, .nil⟩

/-- A change of the queue that forgets nobody. -/
theorem queue (h : b.Tasked) (hd : d.deferred = b.deferred) (ho : d.queue.Orderly)
    (hknows : ∀ t, b.queue.Knows t → d.queue.Knows t) : d.Tasked :=
  { orderly := ho
    waits := by
      intro e he
      obtain ⟨t, rfl, ht⟩ := h.waits e (hd ▸ he)
      exact ⟨t, rfl, hknows t ht⟩
    once := hd ▸ h.once }

theorem close (h : b.Tasked) (how : Termination) :
    Tasked { b with queue := (b.queue.close how).1 } :=
  h.queue rfl (h.orderly.close how) fun _ ht => ht.close how

/-- The queue stays as it is, or is closed. -/
theorem same_or_close (h : b.Tasked) (hd : d.deferred = b.deferred)
    (hq : d.queue = b.queue ∨ ∃ how, d.queue = (b.queue.close how).1) : d.Tasked := by
  obtain hq | ⟨how, hq⟩ := hq
  · exact h.queue hd (hq ▸ h.orderly) fun _ ht => hq ▸ ht
  · exact h.queue hd (hq ▸ h.orderly.close how) fun _ ht => hq ▸ ht.close how

theorem defer (h : b.Tasked) (ho : b.queue.closedForSend = false)
    (hr : b.queue.hasRoom = false) (v : α) : (b.defer v).Tasked := by
  have hsend := Queue.send_of_full ho hr v
  have hord := h.orderly.send v
  have hknows : ∀ t, b.queue.Knows t → (b.queue.send v).1.Knows t := fun _ ht => ht.send v
  rw [Inbound.defer, hsend]
  rw [hsend] at hord hknows
  refine ⟨hord, ?_, ?_⟩
  · intro e he
    obtain he | he := List.mem_append.mp he
    · obtain ⟨t, rfl, ht⟩ := h.waits e he
      exact ⟨t, rfl, hknows t ht⟩
    · exact ⟨_, List.mem_singleton.mp he, .inl (by simp [Queue.tickets])⟩
  · refine List.nodup_append.mpr ⟨h.once, List.nodup_singleton _, ?_⟩
    rintro e he e' he' rfl
    obtain ⟨t, ht, hknown⟩ := h.waits e he
    rw [List.mem_singleton.mp he'] at ht
    obtain rfl := Enqueue.inLine.inj ht
    exact Nat.lt_irrefl _ (h.orderly.lt_of_knows hknown)

theorem onValue (h : b.Tasked) (v : α) : (b.onValue v).1.Tasked := by
  have hpush : b.queue.hasRoom = true → Tasked { b with queue := b.pushed v } :=
    fun hr => h.queue rfl (h.orderly.buffered v hr) fun _ ht => ht
  have hx := b.onValue_arrives v
  generalize b.onValue v = x at hx ⊢
  cases hx with
  | late => exact h
  | counts _ hr =>
    exact (hpush hr).same_or_close rfl ((queue_next _ _).imp id fun hq => ⟨_, hq⟩)
  | latches _ hr => exact (hpush hr).same_or_close rfl (.inl rfl)
  | @defersCounted f ho hr =>
    exact Tasked.defer (b := { b with pacing := .counting f.enter })
      (h.same_or_close rfl (.inl rfl)) ho hr v
  | @defersLatched l ho hr =>
    exact Tasked.defer (b := { b with pacing := .latching l.claim })
      (h.same_or_close rfl (.inl rfl)) ho hr v

/-- A task that ends takes only its own answer away. -/
theorem pollDeferred (h : b.Tasked) (i : Nat) : (b.pollDeferred i).1.Tasked := by
  obtain hsame | ⟨e, r, he, hr, hside, _⟩ := pollDeferred_cases b i
  · rw [hsame]
    exact h
  · have hleft : Tasked { b with
        queue := (b.queue.pollSend e).1
        deferred := b.deferred.eraseIdx i } := by
      refine ⟨h.orderly.pollSend e, ?_, h.once.sublist (List.eraseIdx_sublist _ _)⟩
      intro e' he'
      obtain ⟨t, rfl, ht⟩ := h.waits e' (List.mem_of_mem_eraseIdx he')
      refine ⟨t, rfl, (Queue.Lasts.pollSend b.queue e).knows t ?_ ht⟩
      intro hsame
      obtain ⟨u, rfl, _⟩ := h.waits e (List.mem_of_getElem? he)
      obtain rfl := Option.some.inj hsame
      obtain ⟨j, hne, hj⟩ := List.mem_eraseIdx_iff_getElem?.mp he'
      obtain ⟨hlt, _⟩ := List.getElem?_eq_some_iff.mp hj
      exact hne ((List.getElem?_inj hlt h.once).mp (hj.trans he.symm))
    rw [hside]
    exact hleft.same_or_close (deferred_onEnqueued _ r) (queue_onEnqueued _ r)

/-- A task that a look does not end has its value in line. -/
theorem inLine_of_stays (h : b.Tasked) (hstays : ∀ i, (b.pollDeferred i).1 = b) :
    ∀ e ∈ b.deferred, ∃ t ∈ b.queue.tickets, e = .inLine t := by
  intro e he
  obtain ⟨t, rfl, ht⟩ := h.waits e he
  refine ⟨t, ht.resolve_right fun htold => ?_, rfl⟩
  obtain ⟨r, hr⟩ := Option.ne_none_iff_exists'.mp
    fun hnone => Queue.fate?_eq_none_iff.mp hnone htold
  obtain ⟨ds, es, hsplit⟩ := List.append_of_mem he
  have hpoll := pollDeferred_split hsplit
  simp only [Queue.pollSend, hr] at hpoll
  have hleft := congrArg (List.length ∘ deferred) (hstays ds.length)
  rw [hpoll] at hleft
  simp only [Function.comp, deferred_onEnqueued, hsplit, List.length_append,
    List.length_cons] at hleft
  omega

end Tasked

theorem Fares.tasked {ended : Prop} (h : b.Fares ended vs d) (hb : b.Tasked) : d.Tasked := by
  cases h with
  | same => exact hb
  | unheard v => exact hb
  | value v => exact hb.onValue v
  | closes _ how => exact hb.close how
  | cancels _ st => exact hb.queue rfl (hb.orderly.cancel st) fun _ ht => ht.cancel st
  | completed =>
    exact hb.same_or_close (deferred_onCompleted b) ((queue_onCompleted b).imp id fun hq => ⟨_, hq⟩)
  | ready control =>
    exact hb.same_or_close (deferred_onReady b control) (.inl (queue_onReady b control))
  | task i => exact hb.pollDeferred i
  | reads => exact hb.queue rfl hb.orderly.tryRecv fun _ ht => ht.tryRecv

theorem lasts_close {looked : Option Nat} {p q r : Queue α} (hq : Queue.Lasts looked p q)
    (hr : r = q ∨ ∃ how, r = (q.close how).1) : Queue.Lasts looked p r := by
  obtain rfl | ⟨how, rfl⟩ := hr
  · exact hq
  · exact hq.trans (.close q how)

theorem lasts_onValue (b : Inbound α) (v : α) :
    Queue.Lasts none b.queue (b.onValue v).1.queue := by
  have hpush : b.queue.closedForSend = false → b.queue.hasRoom = true →
      Queue.Lasts none b.queue (b.pushed v) := by
    intro ho hr
    have hsend : Queue.Lasts none b.queue (b.queue.trySend v).1 := .trySend b.queue v
    rwa [Queue.trySend, if_neg (by simp [ho]), if_pos hr] at hsend
  have hx := b.onValue_arrives v
  generalize b.onValue v = x at hx ⊢
  cases hx with
  | late => exact .refl _
  | counts ho hr => exact lasts_close (hpush ho hr) ((queue_next _ _).imp id fun hq => ⟨_, hq⟩)
  | latches ho hr => exact hpush ho hr
  | defersCounted | defersLatched => exact .send b.queue v

/-- In one move the queue goes on to a later state, and at most one task takes its answer away. -/
theorem Fares.lasts {ended : Prop} (h : b.Fares ended vs d) :
    ∃ looked, Queue.Lasts looked b.queue d.queue := by
  cases h with
  | same => exact ⟨none, .refl _⟩
  | unheard v => exact ⟨none, .refl _⟩
  | value v => exact ⟨none, lasts_onValue b v⟩
  | closes _ how => exact ⟨none, .close _ how⟩
  | cancels _ st => exact ⟨none, .cancel _ st⟩
  | completed =>
    exact ⟨none, lasts_close (.refl _) ((queue_onCompleted b).imp id fun hq => ⟨_, hq⟩)⟩
  | ready control => exact ⟨none, queue_onReady b control ▸ .refl _⟩
  | task i =>
    obtain hstays | ⟨e, r, _, _, hside, _⟩ := pollDeferred_cases b i
    · rw [hstays]
      exact ⟨none, .refl _⟩
    · rw [hside]
      exact ⟨e.ticket?, lasts_close (.pollSend b.queue e) (queue_onEnqueued _ r)⟩
  | reads => exact ⟨none, .tryRecv _⟩

theorem Fares.closed {ended : Prop} (h : b.Fares ended vs d)
    (hb : b.queue.closedForSend = true) : d.queue.closedForSend = true := by
  obtain ⟨how, hhow⟩ := Option.isSome_iff_exists.mp hb
  obtain ⟨_, hlasts⟩ := h.lasts
  exact Option.isSome_iff_exists.mpr ⟨how, hlasts.ended how hhow⟩

/-- A queue that is closed and empty stays so. -/
theorem Fares.drained {ended : Prop} (h : b.Fares ended vs d)
    (hb : b.queue.closedForReceive = true) : d.queue.closedForReceive = true := by
  obtain ⟨_, hlasts⟩ := h.lasts
  exact hlasts.drained hb

/-! Once the peer has completed. -/

def Finishing (b : Inbound α) : Prop :=
  b.queue.closedForSend = true ∨ b.pacing.completed = true ∧ b.deferred ≠ []

/-- A task that ends closes the queue if it is the last one. -/
theorem finishing_onEnqueued {f : InFlight} (hp : b.pacing = .counting f)
    (hf : f.completed = true) (hcount : f.count = b.deferred.length + 1) (r : SendResult) :
    (b.onEnqueued r).1.Finishing := by
  unfold onEnqueued
  rw [hp]
  cases r with
  | error e => exact .inl (closedForSend_close _ _)
  | ok u =>
    simp only
    split
    · next hclosed =>
      simp only [Queue.closedForReceive, Bool.and_eq_true] at hclosed
      exact .inl hclosed.1.1
    · rw [InFlight.next]
      split
      · exact .inl (closedForSend_close _ _)
      · next hdrained =>
        refine .inr ⟨hf, fun hnone => hdrained ?_⟩
        have hnone' : b.deferred = [] := hnone
        simp [InFlight.drained, InFlight.leave, hf, hcount, hnone']

theorem finishing_onCompleted (hc : b.Counted capacity) : b.onCompleted.Finishing := by
  obtain ⟨f, hp, hcount⟩ := hc.flight
  rw [onCompleted, hp]
  simp only [InFlight.finish]
  split
  · exact .inl (closedForSend_close _ _)
  · next hnone =>
    refine .inr ⟨rfl, fun hd => hnone ?_⟩
    have hd' : b.deferred = [] := hd
    simp [hcount, hd']

theorem finishing_onValue {f : InFlight} (hp : b.pacing = .counting f) (hf : f.completed = true)
    (ho : b.queue.closedForSend = false) (hd : b.deferred ≠ []) (v : α) :
    (b.onValue v).1.Finishing := by
  cases hr : b.queue.hasRoom with
  | true =>
    rw [onValue_counting_room ho hr hp]
    exact .inr ⟨hp ▸ hf, hd⟩
  | false =>
    rw [onValue_counting_full ho hr hp]
    exact .inr ⟨hf, by simp [defer]⟩

theorem finishing_pollDeferred (hc : b.Counted capacity) (hmore : b.pacing.completed = true)
    (hd : b.deferred ≠ []) (i : Nat) : (b.pollDeferred i).1.Finishing := by
  obtain ⟨f, hp, hcount⟩ := hc.flight
  obtain hsame | ⟨e, r, he, _, hside, _⟩ := pollDeferred_cases b i
  · rw [hsame]
    exact .inr ⟨hmore, hd⟩
  · have hf : f.completed = true := by
      rw [hp] at hmore
      exact hmore
    obtain ⟨hi, _⟩ := List.getElem?_eq_some_iff.mp he
    rw [hside]
    refine finishing_onEnqueued (b := { b with
      queue := (b.queue.pollSend e).1
      deferred := b.deferred.eraseIdx i }) hp hf ?_ r
    simp only [List.length_eraseIdx_of_lt hi]
    omega

theorem Fares.finishing {ended : Prop} (h : b.Fares ended vs d) (hc : b.Counted capacity)
    (hb : b.Finishing) : d.Finishing := by
  obtain hclosed | ⟨hmore, hd⟩ := hb
  · exact .inl (h.closed hclosed)
  · cases h with
    | same => exact .inr ⟨hmore, hd⟩
    | unheard v => exact .inr ⟨hmore, hd⟩
    | value v =>
      obtain ⟨f, hp, _⟩ := hc.flight
      cases ho : b.queue.closedForSend with
      | true =>
        rw [onValue_of_closed ho]
        exact .inl ho
      | false =>
        rw [hp] at hmore
        exact finishing_onValue hp hmore ho hd v
    | closes _ how => exact .inl (closedForSend_close _ how)
    | cancels _ st => exact .inl (Queue.isSome_close _ _)
    | completed => exact finishing_onCompleted hc
    | ready control =>
      rw [onReady_counted hc]
      exact .inr ⟨hmore, hd⟩
    | task i => exact finishing_pollDeferred hc hmore hd i
    | reads => exact .inr ⟨hmore, hd⟩

/-! As long as nobody ends the direction before its time. -/

structure Unhurt (b : Inbound α) : Prop where
  waits : ∀ e ∈ b.deferred, ∃ t, e = .inLine t
  placed : ∀ f ∈ b.queue.fates, f.2 = .ok ()
  last : b.queue.closedForSend = true → b.deferred = []

theorem unhurt_new (capacity : Nat) : (counting capacity : Inbound α).Unhurt :=
  ⟨nofun, nofun, nofun⟩

theorem Unhurt.isOpen (h : b.Unhurt) {e : Enqueue} (he : e ∈ b.deferred) :
    b.queue.closedForSend = false := by
  by_contra hc
  rw [h.last (by simpa using hc)] at he
  cases he

/-- The queue is closed after the last value. -/
theorem Unhurt.next (h : b.Unhurt) {f : InFlight} (hcount : f.count = b.deferred.length) :
    Unhurt { b with queue := (f.next b.queue).1, pacing := .counting f } := by
  rw [InFlight.next]
  split
  · next hdrained =>
    simp only [InFlight.drained, Bool.and_eq_true, beq_iff_eq] at hdrained
    have hnone : b.deferred = [] := List.length_eq_zero_iff.mp (hcount ▸ hdrained.2)
    exact ⟨h.waits, fun g hg => h.placed g (Queue.fates_close _ _ ▸ hg), fun _ => hnone⟩
  · exact ⟨h.waits, h.placed, h.last⟩

theorem Unhurt.onValue (h : b.Unhurt) {f : InFlight} (hp : b.pacing = .counting f)
    (hcount : f.count = b.deferred.length) (v : α) : (b.onValue v).1.Unhurt := by
  cases ho : b.queue.closedForSend with
  | true =>
    rw [onValue_of_closed ho]
    exact h
  | false =>
    cases hr : b.queue.hasRoom with
    | true =>
      rw [onValue_counting_room ho hr hp]
      have hpush : Unhurt { b with queue := b.pushed v } := ⟨h.waits, h.placed, h.last⟩
      have hnext := hpush.next (f := f) hcount
      rw [← hp] at hnext
      exact hnext
    | false =>
      rw [onValue_counting_full ho hr hp, defer, Queue.send_of_full ho hr]
      refine ⟨?_, h.placed, fun hclosed => absurd (ho.symm.trans hclosed) (by simp)⟩
      intro e he
      obtain he | he := List.mem_append.mp he
      · exact h.waits e he
      · exact ⟨_, List.mem_singleton.mp he⟩

theorem Unhurt.pollDeferred (h : b.Unhurt) {f : InFlight} (hp : b.pacing = .counting f)
    (hcount : f.count = b.deferred.length) (i : Nat) : (b.pollDeferred i).1.Unhurt := by
  obtain hsame | ⟨e, r, he, hr, hside, _⟩ := pollDeferred_cases b i
  · rw [hsame]
    exact h
  · have hmem := List.mem_of_getElem? he
    obtain ⟨hi, _⟩ := List.getElem?_eq_some_iff.mp he
    obtain ⟨t, rfl⟩ := h.waits e hmem
    obtain rfl := told_of_placed h.placed hr
    have hopen : (b.queue.pollSend (.inLine t)).1.closedForSend = false :=
      (congrArg Option.isSome (Queue.termination_pollSend _ _)).trans (h.isOpen hmem)
    have hleft : Unhurt { b with
        queue := (b.queue.pollSend (.inLine t)).1
        deferred := b.deferred.eraseIdx i } :=
      ⟨fun e he => h.waits e (List.mem_of_mem_eraseIdx he), placed_pollSend h.placed _,
        fun hclosed => absurd (hopen.symm.trans hclosed) (by simp)⟩
    rw [hside]
    simp only [onEnqueued, hp, Queue.not_closedForReceive_of_open hopen, Bool.false_eq_true,
      if_false]
    refine hleft.next (f := f.leave) ?_
    simp only [InFlight.leave, hcount, List.length_eraseIdx_of_lt hi]

theorem Unhurt.onCompleted (h : b.Unhurt) {f : InFlight} (hp : b.pacing = .counting f)
    (hcount : f.count = b.deferred.length) : b.onCompleted.Unhurt := by
  rw [Inbound.onCompleted, hp]
  simp only [InFlight.finish]
  split
  · next hnone =>
    have hnone' : b.deferred = [] := List.length_eq_zero_iff.mp (hcount ▸ beq_iff_eq.mp hnone)
    exact ⟨h.waits, fun g hg => h.placed g (Queue.fates_close _ _ ▸ hg), fun _ => hnone'⟩
  · exact ⟨h.waits, h.placed, h.last⟩

theorem Fares.unhurt {ended : Prop} (h : b.Fares ended vs d) (hc : b.Counted capacity)
    (hb : b.Unhurt) (hgoes : ¬ ended) : d.Unhurt := by
  obtain ⟨f, hp, hcount⟩ := hc.flight
  cases h with
  | same => exact hb
  | unheard v => exact hb
  | value v => exact hb.onValue hp hcount v
  | closes he how => exact absurd he hgoes
  | cancels he st => exact absurd he hgoes
  | completed => exact hb.onCompleted hp hcount
  | ready control =>
    rw [onReady_counted hc]
    exact hb
  | task i => exact hb.pollDeferred hp hcount i
  | reads =>
    exact ⟨hb.waits, placed_tryRecv hb.placed, fun hclosed =>
      hb.last ((congrArg Option.isSome (Queue.termination_tryRecv _)).symm.trans hclosed)⟩

end Inbound

namespace Course
variable {α : Type} {o : Opening α} {ms : List (Move α)}

theorem tasked_run (o : Opening α) (p : CallPlan) (ready : Bool) (acts : List (PeerAct α))
    (ms : List (Move α)) : ((opened o p ready acts).run ms).call.inbound.Tasked := by
  induction ms using List.reverseRecOn with
  | nil =>
    refine o.call_of_idle (P := fun c => c.inbound.Tasked) p _ ?_ ?_ ?_ fun _ _ h => h
    · cases o <;> exact .new _ _
    · intro c h
      simp only [Call.hear]
      split
      · rw [Call.onReady_eq, Call.inbound_ask]
        have hfares : c.inbound.Fares False [] (c.inbound.onReady c.control).1 := .ready c.control
        exact hfares.tasked h
      · exact h
    · intro c h
      rw [Call.inbound_ask]
      exact h
  | append_singleton ms m ih =>
    rw [run_concat]
    exact (fares_step _ m).tasked ih

/-- A completion that is reported closes the queue, or leaves that to the tasks. -/
theorem finishing_run (ho : ∀ request, o ≠ .responses request) (p : CallPlan) (ready : Bool)
    (acts : List (PeerAct α)) (hms : .peer .complete ∈ ms) :
    ((opened o p ready acts).run ms).call.inbound.Finishing := by
  induction ms using List.reverseRecOn with
  | nil => cases hms
  | append_singleton ms m ih =>
    have hcounted := counted_run ho p ready acts ms
    rw [run_concat]
    obtain hms | hm := List.mem_append.mp hms
    · exact (fares_step _ m).finishing hcounted (ih hms)
    · obtain rfl := List.mem_singleton.mp hm
      have hstarted := (role_started_opened o p ready acts).2
      have hordered := ordered_run (ordered_opened o p ready acts) hstarted ms
      cases hopen : ((opened o p ready acts).run ms).call.inbound.queue.closedForSend with
      | true => exact .inl (closed_step _ hopen _)
      | false =>
        rw [step, withCall, Call.peer_complete ((later_run _ ms).started.trans hstarted),
          Call.hear, if_pos (hordered.alive hopen)]
        exact Inbound.finishing_onCompleted hcounted

theorem unhurt_run (ho : ∀ request, o ≠ .responses request) (p : CallPlan) (ready : Bool)
    (acts : List (PeerAct α)) (hfail : ∀ st, .peer (.fail st) ∉ ms) (hstays : ∀ m ∈ ms, ¬ m.givesUp)
    (hgoes : ((opened o p ready acts).run ms).call.scope.cancelled = false) :
    ((opened o p ready acts).run ms).call.inbound.Unhurt := by
  induction ms using List.reverseRecOn with
  | nil =>
    rw [run_nil, inbound_opened ho]
    exact Inbound.unhurt_new _
  | append_singleton ms m ih =>
    rw [run_concat] at hgoes ⊢
    have hbefore := ih (fun st h => hfail st (List.mem_append_left _ h))
      (fun n hn => hstays n (List.mem_append_left _ hn)) ((later_step _ m).goes hgoes)
    refine (fares_step _ m).unhurt (counted_run ho p ready acts ms) hbefore ?_
    rintro (⟨st, rfl⟩ | hm | hs)
    · exact hfail st (by simp)
    · exact hstays m (by simp) hm
    · simp [hgoes] at hs

end Course
end PacedCall
