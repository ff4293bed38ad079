import PacedCall.Proofs.Call.Course
import PacedCall.Proofs.Queue.Place

/-!
The outbound direction of a call as far as its messages are concerned: the queue, what was
written, and what may end it. Nothing that is registered is lost while the call goes on: what was
registered and not withdrawn is what was written, then the buffer, then those who wait. Only the
end of the call discards, and by then nothing more is written.
-/
namespace PacedCall

/-- A registration in the outbound queue, under the ticket of its sender if it had to wait. -/
structure Entry (α : Type) where
  ticket? : Option Nat
  value : α

namespace Entry
variable {α : Type}

def ofWaiting (w : Waiting α) : Entry α := ⟨some w.ticket, w.value⟩

def kept (registered : List (Entry α)) (withdrawn : List Nat) : List (Entry α) :=
  registered.filter fun e => e.ticket?.all fun t => decide (t ∉ withdrawn)

theorem kept_append_registered {R new : List (Entry α)} {D : List Nat}
    (hnew : ∀ e ∈ new, ∀ t, e.ticket? = some t → t ∉ D) :
    kept (R ++ new) D = kept R D ++ new := by
  have hall : new.filter (fun e => e.ticket?.all fun t => decide (t ∉ D)) = new := by
    rw [List.filter_eq_self]
    intro e he
    cases ht : e.ticket? with
    | none => rfl
    | some t => simpa using hnew e he t ht
  rw [kept, List.filter_append, hall, kept]

theorem kept_append_withdrawn (R : List (Entry α)) (D E : List Nat) :
    kept R (D ++ E) = (kept R D).filter fun e => e.ticket?.all fun t => decide (t ∉ E) := by
  rw [kept, kept, List.filter_filter]
  congr 1
  funext e
  cases e.ticket? with
  | none => rfl
  | some t =>
    by_cases hd : t ∈ D <;> by_cases he : t ∈ E <;> simp [hd, he]

end Entry

/-- What decides the outbound direction of a call; `cause` is that of its readiness, `stopped`
says that the pump has ended. -/
structure Outgoing (α : Type) where
  queue : Queue α
  sent : List α
  halfClosed : Bool
  finished : Bool
  outboundDone : Bool
  cancelled : Bool
  remoteClosed : Bool
  scope : Scope
  cause : Option Status
  stopped : Bool

namespace Outgoing
variable {α : Type} {o : Outgoing α} {R : List (Entry α)} {D : List Nat}

def Keeps (o : Outgoing α) (K : List (Entry α)) : Prop :=
  ∃ front, K = front ++ o.queue.waiting.map Entry.ofWaiting ∧
    front.map Entry.value = o.sent ++ o.queue.buffer

def Lost (o : Outgoing α) (K : List (Entry α)) : Prop :=
  o.queue.closedForReceive = true ∧ o.sent <+: K.map Entry.value ∧
    (o.remoteClosed = true ∨ o.scope.cancelled = true)

structure Sound (o : Outgoing α) (R : List (Entry α)) (D : List Nat) : Prop where
  orderly : o.queue.Orderly
  sorted : ((Entry.kept R D).filterMap Entry.ticket?).Pairwise (· < ·)
  fresh : ∀ t ∈ (Entry.kept R D).filterMap Entry.ticket?, t < o.queue.nextTicket
  past : ∀ t ∈ D, t < o.queue.nextTicket
  ledger : o.Keeps (Entry.kept R D) ∨ o.Lost (Entry.kept R D)
  stopped : o.stopped = true → o.queue.closedForReceive = true
  unready : o.cause.isSome = true → o.queue.closedForReceive = true
  cancelled : o.cancelled = true → o.scope.cancelled = true
  done : o.outboundDone = true → o.stopped = true ∨ o.scope.cancelled = true
  finished : o.finished = true → o.cancelled = true ∨ o.outboundDone = true
  recorded : o.scope.cause.isSome = true → o.scope.cancelled = true

namespace Sound

theorem values_of_keeps {K : List (Entry α)} :
    o.Keeps K → K.map Entry.value = o.sent ++ o.queue.line := by
  rintro ⟨front, rfl, hfront⟩
  rw [List.map_append, hfront, Queue.line, List.map_map, List.append_assoc]
  rfl

/-- What was written is the beginning of what was to be written. -/
theorem written (h : o.Sound R D) : o.sent <+: (Entry.kept R D).map Entry.value := by
  obtain hk | hl := h.ledger
  · rw [values_of_keeps hk]
    exact List.prefix_append _ _
  · exact hl.2.1

/-- While the call goes on, what was to be written is what was written and what is in line. -/
theorem written_line (h : o.Sound R D) (hremote : o.remoteClosed = false)
    (hscope : o.scope.cancelled = false) :
    (Entry.kept R D).map Entry.value = o.sent ++ o.queue.line := by
  obtain hk | hl := h.ledger
  · exact values_of_keeps hk
  · obtain hr | hs := hl.2.2
    · simp [hremote] at hr
    · simp [hscope] at hs

/-! What may change beside the queue. -/

theorem markRemote (h : o.Sound R D) : Sound { o with remoteClosed := true } R D :=
  { h with
    ledger := h.ledger.imp id fun hl => ⟨hl.1, hl.2.1, Or.inl rfl⟩ }

theorem scope (h : o.Sound R D) {sc : Scope} (hend : o.scope.cancelled = true → sc.cancelled = true)
    (hcause : sc.cause.isSome = true → sc.cancelled = true) : Sound { o with scope := sc } R D :=
  { h with
    ledger := h.ledger.imp id fun hl => ⟨hl.1, hl.2.1, hl.2.2.imp id hend⟩
    cancelled := fun hc => hend (h.cancelled hc)
    done := fun hd => (h.done hd).imp id hend
    recorded := hcause }

theorem unreadied (h : o.Sound R D) (hc : o.queue.closedForReceive = true) (st : Option Status) :
    Sound { o with cause := st } R D :=
  { h with unready := fun _ => hc }

theorem stop (h : o.Sound R D) (hc : o.queue.closedForReceive = true) :
    Sound { o with stopped := true } R D :=
  { h with
    stopped := fun _ => hc
    done := fun _ => Or.inl rfl }

theorem halfClose (h : o.Sound R D) (hc : o.queue.closedForReceive = true) :
    Sound { o with stopped := true, outboundDone := true, halfClosed := true, finished := true }
      R D :=
  { h with
    stopped := fun _ => hc
    done := fun _ => Or.inl rfl
    finished := fun _ => Or.inr rfl }

theorem tellCancelled (h : o.Sound R D) (hs : o.scope.cancelled = true) :
    Sound { o with cancelled := true, finished := true } R D :=
  { h with
    cancelled := fun _ => hs
    finished := fun _ => Or.inl rfl }

theorem tellClosed (h : o.Sound R D) (hs : o.scope.cancelled = true) :
    Sound { o with outboundDone := true, finished := true } R D :=
  { h with
    done := fun _ => Or.inr hs
    finished := fun _ => Or.inr rfl }

/-! The queue. -/

/-- The end of a call discards what is left. -/
theorem lose (h : o.Sound R D) {q : Queue α} (ho : q.Orderly)
    (hnext : q.nextTicket = o.queue.nextTicket) (hc : q.closedForReceive = true)
    (hend : o.remoteClosed = true ∨ o.scope.cancelled = true) :
    Sound { o with queue := q } R D :=
  { h with
    orderly := ho
    fresh := hnext ▸ h.fresh
    past := hnext ▸ h.past
    ledger := Or.inr ⟨hc, h.written, hend⟩
    stopped := fun _ => hc
    unready := fun _ => hc }

/-- Closing, and looking after a send, leave the values where they are. -/
theorem sameLine (h : o.Sound R D) {q : Queue α} (ho : q.Orderly)
    (hbuffer : q.buffer = o.queue.buffer) (hwaiting : q.waiting = o.queue.waiting)
    (hnext : q.nextTicket = o.queue.nextTicket)
    (hc : o.queue.closedForReceive = true → q.closedForReceive = true) :
    Sound { o with queue := q } R D :=
  { h with
    orderly := ho
    fresh := hnext ▸ h.fresh
    past := hnext ▸ h.past
    ledger := by
      refine h.ledger.imp ?_ fun hl => ⟨hc hl.1, hl.2⟩
      rintro ⟨front, hK, hfront⟩
      exact ⟨front, hwaiting ▸ hK, hbuffer ▸ hfront⟩
    stopped := fun hs => hc (h.stopped hs)
    unready := fun hs => hc (h.unready hs) }

theorem not_closedForReceive {q : Queue α} (hopen : q.closedForSend = false) :
    ¬ q.closedForReceive = true := by
  intro hc
  simp only [Queue.closedForReceive, Bool.and_eq_true] at hc
  rw [Queue.closedForSend, hc.1.1] at hopen
  cases hopen

/-- An open queue belongs to a call that has lost nothing. -/
theorem keeps_of_open (h : o.Sound R D) (hopen : o.queue.closedForSend = false) :
    o.Keeps (Entry.kept R D) :=
  h.ledger.resolve_right fun hl => not_closedForReceive hopen hl.1

theorem buffered (h : o.Sound R D) (v : α) (hopen : o.queue.closedForSend = false)
    (hr : o.queue.hasRoom = true) :
    Sound { o with queue := { o.queue with buffer := o.queue.buffer ++ [v] } }
      (R ++ [⟨none, v⟩]) D := by
  have hkept : Entry.kept (R ++ [⟨none, v⟩]) D = Entry.kept R D ++ [⟨none, v⟩] := by
    refine Entry.kept_append_registered ?_
    intro e he t ht
    rw [List.mem_singleton.mp he] at ht
    cases ht
  have htickets : (Entry.kept (R ++ [⟨none, v⟩]) D).filterMap Entry.ticket? =
      (Entry.kept R D).filterMap Entry.ticket? := by
    rw [hkept, List.filterMap_append]
    exact List.append_nil _
  have hclosed := not_closedForReceive hopen
  exact
    { h with
      orderly := h.orderly.buffered v hr
      sorted := htickets ▸ h.sorted
      fresh := htickets ▸ h.fresh
      ledger := by
        obtain ⟨front, hK, hfront⟩ := h.keeps_of_open hopen
        have hw := Queue.waiting_eq_nil_of_hasRoom hr
        refine Or.inl ⟨front ++ [⟨none, v⟩], ?_, ?_⟩
        · rw [hkept, hK, hw]
          simp
        · rw [List.map_append, hfront, List.append_assoc]
          rfl
      stopped := fun hs => absurd (h.stopped hs) hclosed
      unready := fun hs => absurd (h.unready hs) hclosed }

theorem queued (h : o.Sound R D) (v : α) (hopen : o.queue.closedForSend = false)
    {q : Queue α} (ho : q.Orderly) (hbuffer : q.buffer = o.queue.buffer)
    (hwaiting : q.waiting = o.queue.waiting ++ [⟨o.queue.nextTicket, v⟩])
    (hnext : q.nextTicket = o.queue.nextTicket + 1) :
    Sound { o with queue := q } (R ++ [⟨some o.queue.nextTicket, v⟩]) D := by
  have hkept : Entry.kept (R ++ [⟨some o.queue.nextTicket, v⟩]) D =
      Entry.kept R D ++ [⟨some o.queue.nextTicket, v⟩] := by
    refine Entry.kept_append_registered ?_
    intro e he t ht hm
    rw [List.mem_singleton.mp he] at ht
    cases ht
    exact Nat.lt_irrefl _ (h.past _ hm)
  have htickets : (Entry.kept (R ++ [⟨some o.queue.nextTicket, v⟩]) D).filterMap Entry.ticket? =
      (Entry.kept R D).filterMap Entry.ticket? ++ [o.queue.nextTicket] := by
    rw [hkept, List.filterMap_append]
    rfl
  have hclosed := not_closedForReceive hopen
  exact
    { h with
      orderly := ho
      sorted := by
        rw [htickets, List.pairwise_append]
        refine ⟨h.sorted, List.pairwise_singleton _ _, ?_⟩
        intro t ht u hu
        rw [List.mem_singleton.mp hu]
        exact h.fresh t ht
      fresh := by
        intro t ht
        rw [htickets, List.mem_append, List.mem_singleton] at ht
        rw [hnext]
        obtain ht | rfl := ht
        · exact Nat.lt_succ_of_lt (h.fresh t ht)
        · exact Nat.lt_succ_self _
      past := fun t ht => hnext ▸ Nat.lt_succ_of_lt (h.past t ht)
      ledger := by
        obtain ⟨front, hK, hfront⟩ := h.keeps_of_open hopen
        refine Or.inl ⟨front, ?_, hbuffer ▸ hfront⟩
        rw [hkept, hK, hwaiting, List.map_append, List.append_assoc]
        rfl
      stopped := fun hs => absurd (h.stopped hs) hclosed
      unready := fun hs => absurd (h.unready hs) hclosed }

end Sound
end Outgoing

namespace Queue
variable {α : Type}

def accepts (q : Queue α) (v : α) : List (Entry α) :=
  match (q.trySend v).2 with
  | .ok _ => [⟨none, v⟩]
  | .error _ => []

def admits (q : Queue α) (v : α) : List (Entry α) :=
  match (q.send v).2 with
  | .settled (.ok _) => [⟨none, v⟩]
  | .inLine t => [⟨some t, v⟩]
  | _ => []

def withdraws (q : Queue α) : Send α → List Nat
  | .placed (.inLine t) => if t ∈ q.tickets then [t] else []
  | _ => []

end Queue

namespace Outgoing
namespace Sound
variable {α : Type} {o : Outgoing α} {R : List (Entry α)} {D : List Nat}

theorem same (h : o.Sound R D) : Sound o (R ++ []) D := by
  rw [List.append_nil]
  exact h

theorem trySend (h : o.Sound R D) (v : α) :
    Sound { o with queue := (o.queue.trySend v).1 } (R ++ o.queue.accepts v) D := by
  rw [Queue.accepts, Queue.trySend]
  by_cases hc : o.queue.closedForSend = true
  · simpa [hc] using h.same
  · have hopen : o.queue.closedForSend = false := by simpa using hc
    by_cases hr : o.queue.hasRoom = true
    · simpa [hopen, hr] using h.buffered v hopen hr
    · simpa [hopen, hr] using h.same

theorem send (h : o.Sound R D) (v : α) :
    Sound { o with queue := (o.queue.send v).1 } (R ++ o.queue.admits v) D := by
  have ho := h.orderly.send v
  rw [Queue.admits]
  unfold Queue.send at ho ⊢
  cases ht : o.queue.termination with
  | some t => simpa [ht] using h.same
  | none =>
    have hopen : o.queue.closedForSend = false := by simp [Queue.closedForSend, ht]
    by_cases hr : o.queue.hasRoom = true
    · simpa [ht, hr] using h.buffered v hopen hr
    · simp only [ht, hr] at ho ⊢
      exact h.queued v hopen ho rfl rfl rfl

theorem close (h : o.Sound R D) (how : Termination) :
    Sound { o with queue := (o.queue.close how).1 } R D := by
  have ho := h.orderly.close how
  unfold Queue.close at ho ⊢
  cases ht : o.queue.termination with
  | some t => simpa [ht] using h
  | none =>
    simp only [ht] at ho ⊢
    refine h.sameLine ho rfl rfl rfl ?_
    intro hc
    simp [Queue.closedForReceive, ht] at hc

theorem pollSend (h : o.Sound R D) (e : Enqueue) :
    Sound { o with queue := (o.queue.pollSend e).1 } R D := by
  have ho := h.orderly.pollSend e
  unfold Queue.pollSend at ho ⊢
  cases e with
  | settled r => exact h
  | spent => exact h
  | inLine t =>
    cases hf : o.queue.fate? t with
    | none => simpa [hf] using h
    | some r =>
      simp only [hf] at ho ⊢
      exact h.sameLine ho rfl rfl rfl id

theorem sorted_front {front : List (Entry α)} {ws : List (Waiting α)}
    (hs : ((front ++ ws.map Entry.ofWaiting).filterMap Entry.ticket?).Pairwise (· < ·)) {t : Nat}
    (ht : t ∈ ws.map Waiting.ticket) : ∀ e ∈ front, e.ticket? ≠ some t := by
  rw [List.filterMap_append, List.pairwise_append] at hs
  intro e he het
  have hfront : t ∈ front.filterMap Entry.ticket? := List.mem_filterMap.mpr ⟨e, he, het⟩
  obtain ⟨w, hw, rfl⟩ := List.mem_map.mp ht
  have hback : w.ticket ∈ (ws.map Entry.ofWaiting).filterMap Entry.ticket? :=
    List.mem_filterMap.mpr ⟨Entry.ofWaiting w, List.mem_map_of_mem hw, rfl⟩
  exact Nat.lt_irrefl _ (hs.2.2 _ hfront _ hback)

/-- A send that is given up takes its own registration back and no other. -/
theorem withdraw (h : o.Sound R D) {t : Nat} (ht : t ∈ o.queue.tickets) :
    Sound { o with queue := o.queue.withdraw t } R (D ++ [t]) := by
  have hne : o.queue.waiting ≠ [] := by
    intro hw
    simp [Queue.tickets, hw] at ht
  have hclosed : ¬ o.queue.closedForReceive = true := by
    simp [Queue.closedForReceive, hne]
  have hsub : ((Entry.kept R (D ++ [t])).filterMap Entry.ticket?).Sublist
      ((Entry.kept R D).filterMap Entry.ticket?) := by
    rw [Entry.kept_append_withdrawn]
    exact List.filter_sublist.filterMap _
  exact
    { h with
      orderly := h.orderly.withdraw t
      sorted := h.sorted.sublist hsub
      fresh := fun u hu => h.fresh u (hsub.subset hu)
      past := by
        intro u hu
        obtain hu | hu := List.mem_append.mp hu
        · exact h.past u hu
        · rw [List.mem_singleton.mp hu]
          exact h.orderly.fresh t ht
      ledger := by
        obtain ⟨front, hK, hfront⟩ := h.ledger.resolve_right fun hl => hclosed hl.1
        refine Or.inl ⟨front, ?_, hfront⟩
        have hstay := sorted_front (hK ▸ h.sorted) ht
        rw [Entry.kept_append_withdrawn, hK, List.filter_append]
        congr 1
        · rw [List.filter_eq_self]
          intro e he
          cases het : e.ticket? with
          | none => rfl
          | some u =>
            have hut : u ≠ t := by
              rintro rfl
              exact hstay e he het
            simpa using hut
        · rw [Queue.withdraw, List.filter_map]
          congr 1
          refine List.filter_congr ?_
          intro w _
          by_cases hw : w.ticket = t <;> simp [Entry.ofWaiting, hw]
      stopped := fun hs => absurd (h.stopped hs) hclosed
      unready := fun hs => absurd (h.unready hs) hclosed }

theorem withdraw_of_not_mem {q : Queue α} {t : Nat} (ht : t ∉ q.tickets) : q.withdraw t = q := by
  have hw : q.waiting.filter (fun w => w.ticket != t) = q.waiting := by
    rw [List.filter_eq_self]
    intro w hw
    rw [bne_iff_ne]
    rintro rfl
    exact ht (List.mem_map_of_mem hw)
  rw [Queue.withdraw, hw]

theorem forget (h : o.Sound R D) (t : Nat) : Sound { o with queue := o.queue.forget t } R D :=
  h.sameLine (h.orderly.forget t) rfl rfl rfl id

theorem dropSend (h : o.Sound R D) (e : Enqueue) :
    Sound { o with queue := o.queue.dropSend e } R (D ++ o.queue.withdraws (.placed e)) := by
  cases e with
  | settled r => simpa [Queue.dropSend, Queue.withdraws] using h
  | spent => simpa [Queue.dropSend, Queue.withdraws] using h
  | inLine t =>
    by_cases ht : t ∈ o.queue.tickets
    · simpa [Queue.dropSend, Queue.withdraws, ht] using (h.withdraw ht).forget t
    · simpa [Queue.dropSend, Queue.withdraws, ht, withdraw_of_not_mem ht] using h.forget t

theorem cancel (h : o.Sound R D) (st : Status)
    (hend : o.remoteClosed = true ∨ o.scope.cancelled = true) :
    Sound { o with queue := (o.queue.cancel st).1 } R D :=
  h.lose (h.orderly.cancel st) (Queue.nextTicket_cancel _ _) (Queue.closedForReceive_cancel _ _)
    hend

/-- The head of the buffer is written, and the head of those who wait takes its place. -/
theorem write (h : o.Sound R D) {q : Queue α} {v : α} (hq : o.queue.tryRecv = (q, .item v)) :
    Sound { o with queue := q, sent := o.sent ++ [v] } R D := by
  have hfst : q = o.queue.tryRecv.1 := by rw [hq]
  obtain ⟨rest, hb⟩ : ∃ rest, o.queue.buffer = v :: rest := by
    unfold Queue.tryRecv at hq
    split at hq
    · next w rest hb =>
      cases hq
      exact ⟨rest, hb⟩
    · split at hq <;> cases hq
  have hclosed : ¬ o.queue.closedForReceive = true := by simp [Queue.closedForReceive, hb]
  have hnext : q.nextTicket = o.queue.nextTicket := hfst ▸ Queue.nextTicket_tryRecv _
  exact
    { h with
      orderly := hfst ▸ h.orderly.tryRecv
      fresh := hnext ▸ h.fresh
      past := hnext ▸ h.past
      ledger := by
        obtain ⟨front, hK, hfront⟩ := h.ledger.resolve_right fun hl => hclosed hl.1
        refine Or.inl ?_
        simp only [Queue.tryRecv, hb, Queue.promote] at hfst
        cases hw : o.queue.waiting with
        | nil =>
          simp only [hw] at hfst
          refine ⟨front, ?_, ?_⟩
          · rw [hK, hfst, hw]
          · simp [hfront, hfst, hb]
        | cons w ws =>
          simp only [hw] at hfst
          refine ⟨front ++ [Entry.ofWaiting w], ?_, ?_⟩
          · simp [hK, hfst, hw]
          · simp [hfront, hfst, hb, Entry.ofWaiting]
      stopped := fun hs => absurd (h.stopped hs) hclosed
      unready := fun hs => absurd (h.unready hs) hclosed }

end Sound
end Outgoing

namespace Call
variable {α : Type} {c : Call α} {R : List (Entry α)} {D : List Nat}

def outgoing (c : Call α) : Outgoing α :=
  { queue := c.outbound
    sent := c.wire.sent.toList
    halfClosed := c.wire.halfClosed
    finished := c.wire.finished
    outboundDone := c.handle.outboundDone
    cancelled := c.handle.cancelled
    remoteClosed := c.handle.remoteClosed
    scope := c.scope
    cause := c.readiness.cause
    stopped := c.pump.done }

/-! What the inbound direction does is nothing to the outbound one. -/

theorem outgoing_ask (c : Call α) (wanted : Bool) : (c.ask wanted).outgoing = c.outgoing := by
  rw [ask]
  split
  · rw [Handle.requestCredit]
    split <;> rfl
  · rfl

theorem outgoing_onMessage (c : Call α) (v : α) : (c.onMessage v).outgoing = c.outgoing := by
  rw [onMessage]
  split
  · exact outgoing_ask _ _
  · rfl

theorem outgoing_pollDeferred (c : Call α) (i : Nat) :
    (c.pollDeferred i).1.outgoing = c.outgoing := outgoing_ask _ _

theorem outgoing_onReady (c : Call α) : c.onReady.outgoing = c.outgoing := by
  have hsignal : c.readiness.signal.cause = c.readiness.cause := by
    rw [Readiness.signal]
    split <;> rfl
  refine (outgoing_ask _ _).trans ?_
  simp only [outgoing, hsignal]
  rfl

theorem outgoing_recv (c : Call α) : c.recv.1.outgoing = c.outgoing := by
  rw [recv]
  split <;> rfl

/-- What the peer does to the transport itself, before the call hears of it. -/
theorem outgoing_transport (c : Call α) (a : PeerAct α) :
    ({ c with handle := { c.handle with transport := (c.wire.peer a).1 } } : Call α).outgoing =
      c.outgoing := by
  cases a <;> rfl

/-! The end of a call. -/

theorem sound_cancelScope (h : c.outgoing.Sound R D) (origin : Origin) (st : Status) :
    (c.cancelScope origin st).outgoing.Sound R D :=
  h.scope (fun _ => Scope.cancelled_cancelWith _ _ _) (fun _ => Scope.cancelled_cancelWith _ _ _)

theorem sound_trip (h : c.outgoing.Sound R D) :
    ({ c with scope := c.scope.trip } : Call α).outgoing.Sound R D :=
  h.scope (fun _ => rfl) (fun _ => rfl)

theorem sound_onFailed (h : c.outgoing.Sound R D) (st : Status) :
    (c.onFailed st).outgoing.Sound R D := by
  have hlost := h.markRemote.cancel st (Or.inl rfl)
  exact hlost.unreadied (Queue.closedForReceive_cancel _ _) _

theorem sound_onCompleted (h : c.outgoing.Sound R D) : c.onCompleted.outgoing.Sound R D := by
  have hout : c.onCompleted.outgoing =
      if c.handle.role == .client then { c.outgoing with remoteClosed := true } else c.outgoing := by
    rw [onCompleted]
    split <;> rfl
  rw [hout]
  split
  · exact h.markRemote
  · exact h

theorem sound_onCancelled (h : c.outgoing.Sound R D) : c.onCancelled.outgoing.Sound R D :=
  sound_cancelScope (c := { c with handle := c.handle.markRemoteClosed }) h.markRemote _ _

end Call
end PacedCall
