import PacedCall.Proofs.Queue.Deeds

/-!
One marked value and its sender, while others come and go. The mark waits in line exactly as long as
the sender would hear nothing if it looked, and the mark has come into the buffer exactly as often
as the sender was told that its value was taken. So what the sender hears says where its value went,
although the value and the word about it travel apart.
-/
namespace PacedCall
namespace Queue
variable {α : Type} {q : Queue α} {p : α → Bool} {e : Enqueue} {n : Nat}

def result? (q : Queue α) (e : Enqueue) : Option SendResult := (q.pollSend e).2.2

def places : Option SendResult → Nat
  | some (.ok _) => 1
  | _ => 0

def inLine (p : α → Bool) (q : Queue α) : Bool := q.waiting.any fun w => p w.value

namespace Deed

def Apart (p : α → Bool) (e : Enqueue) : Deed α → Prop
  | trySend v => p v = false
  | send v => p v = false
  | withdraw t => e.ticket? ≠ some t
  | forget t => e.ticket? ≠ some t
  | _ => True

def tells (q : Queue α) (t : Nat) : Deed α → Option SendResult
  | take => if !q.buffer.isEmpty && q.tickets.head? == some t then some (.ok ()) else none
  | cancel st => some (.error (.terminated st))
  | release => some (.error .closed)
  | _ => none

end Deed

/-- The marked value is that of this sender, and no other waits. It has come into the buffer `n`
times. -/
structure Traced (p : α → Bool) (e : Enqueue) (n : Nat) (q : Queue α) : Prop where
  orderly : q.Orderly
  known : ∀ t, e.ticket? = some t → q.Knows t
  marks : ∀ w ∈ q.waiting, p w.value = decide (e.ticket? = some w.ticket)
  entered : n = places (q.result? e)

theorem Orderly.act (h : q.Orderly) (d : Deed α) : (d.act q).Orderly := by
  cases d with
  | trySend v => exact h.trySend v
  | send v => exact h.send v
  | take => exact h.tryRecv
  | close how => exact h.close how
  | cancel st => exact h.cancel st
  | withdraw t => exact h.withdraw t
  | forget t => exact h.forget t
  | release => exact h.release

theorem Knows.act {t : Nat} (ht : q.Knows t) (he : e.ticket? = some t) {d : Deed α}
    (hd : d.Apart p e) : (d.act q).Knows t := by
  have hne : ∀ u, e.ticket? ≠ some u → t ≠ u := fun u hu htu => hu (htu ▸ he)
  cases d with
  | trySend v => exact ht.trySend v
  | send v => exact ht.send v
  | take => exact ht.tryRecv
  | close how => exact ht.close how
  | cancel st => exact ht.cancel st
  | withdraw u => exact ht.withdraw (hne u hd)
  | forget u => exact ht.forget (hne u hd)
  | release => exact ht.dismiss _

/-- A receive tells the first one in line, if there is anything to receive. -/
theorem fate?_tryRecv (q : Queue α) (t : Nat) :
    q.tryRecv.1.fate? t = (q.fate? t).or (Deed.tells q t .take) := by
  cases hb : q.buffer with
  | nil =>
    have hsame : q.tryRecv.1 = q := Session.take_of_nil hb
    simp [hsame, Deed.tells, hb]
  | cons v rest =>
    cases hw : q.waiting with
    | nil => simp [tryRecv, promote, hb, hw, Deed.tells, tickets, fate?]
    | cons w ws =>
      have hfates : q.tryRecv.1.fates = q.fates ++ [(w.ticket, .ok ())] := by
        simp [tryRecv, promote, hb, hw]
      rw [fate?_append hfates]
      by_cases hwt : w.ticket = t <;> simp [Deed.tells, tickets, hb, hw, hwt]

theorem fate?_act {t : Nat} (ht : q.Knows t) {d : Deed α}
    (hd : d.Apart p (.inLine t)) : (d.act q).fate? t = (q.fate? t).or (d.tells q t) := by
  cases d with
  | trySend v => simp [Deed.tells, fate?, fates_trySend]
  | send v => simp [Deed.tells, fate?, fates_send]
  | take => exact fate?_tryRecv q t
  | close how => simp [Deed.tells, fate?_close]
  | cancel st => exact (fate?_dismiss (ht.close _) _).trans (by rw [fate?_close, Deed.tells])
  | withdraw u => simp [Deed.tells, fate?, withdraw]
  | forget u =>
    have hne : t ≠ u := fun htu => hd (congrArg some htu)
    simp [Deed.tells, fate?_forget_of_ne hne]
  | release => exact fate?_dismiss ht _

theorem result?_of_ticket {t : Nat} (he : e.ticket? = some t) : q.result? e = q.fate? t := by
  cases e with
  | inLine u =>
    cases he
    rw [result?, pollSend]
    cases q.fate? t <;> rfl
  | _ => cases he

namespace Traced

/-- What a sender would hear after a deed that is not about it. -/
theorem result?_act (h : Traced p e n q) {d : Deed α} (hd : d.Apart p e) :
    (d.act q).result? e = (q.result? e).or (e.ticket?.bind fun t => d.tells q t) := by
  cases e with
  | settled r => rfl
  | spent => rfl
  | inLine t =>
    rw [result?_of_ticket (e := .inLine t) rfl, result?_of_ticket (e := .inLine t) rfl]
    exact fate?_act (h.known t rfl) hd

/-- A receive that brings the marked value into the buffer tells its sender so. -/
theorem places_take (h : Traced p e n q) :
    places (q.result? e) + (Deed.brings q .take).countP p =
      places ((q.result? e).or (e.ticket?.bind fun t => Deed.tells q t .take)) := by
  cases hb : q.buffer with
  | nil => cases he : e.ticket? <;> simp [Deed.tells, hb]
  | cons v rest =>
    cases hw : q.waiting with
    | nil => cases he : e.ticket? <;> simp [Deed.tells, tickets, hb, hw]
    | cons w ws =>
      have hmark := h.marks w (by simp [hw])
      by_cases he : e.ticket? = some w.ticket
      · have hnone : q.result? e = none := by
          rw [result?_of_ticket he]
          exact h.orderly.fate?_eq_none (by simp [tickets, hw])
        simp [Deed.tells, tickets, hb, hw, hmark, he, hnone, places]
      · have hother : (e.ticket?.bind fun t => Deed.tells q t .take) = none := by
          rw [Option.bind_eq_none_iff]
          intro t ht
          have hne : w.ticket ≠ t := fun hwt => he (hwt ▸ ht)
          simp [Deed.tells, tickets, hw, hne]
        simp [hb, hw, hmark, he, hother]

/-- A marked value comes into the buffer when its sender is told so. -/
theorem places_act (h : Traced p e n q) {d : Deed α} (hd : d.Apart p e) :
    n + (d.brings q).countP p = places ((d.act q).result? e) := by
  rw [h.result?_act hd, h.entered]
  cases d with
  | take => exact h.places_take
  | trySend v =>
    have hv : p v = false := hd
    cases he : e.ticket? <;> cases hr : (q.trySend v).2 <;> simp [Deed.tells, hr, hv]
  | send v =>
    have hv : p v = false := hd
    cases he : e.ticket? <;> cases hr : (q.send v).2.immediate <;> simp [Deed.tells, hr, hv]
  | cancel st =>
    cases he : e.ticket? <;> cases hr : q.result? e <;> simp [Deed.tells, places]
  | release =>
    cases he : e.ticket? <;> cases hr : q.result? e <;> simp [Deed.tells, places]
  | _ => cases he : e.ticket? <;> simp [Deed.tells]

/-- Nobody comes to wait but whoever sends. -/
theorem mem_waiting_act {d : Deed α} {w : Waiting α} (hw : w ∈ (d.act q).waiting) :
    w ∈ q.waiting ∨ ∃ v, d = .send v ∧ w = ⟨q.nextTicket, v⟩ := by
  cases d with
  | send v =>
    rw [Deed.act, send] at hw
    split at hw
    · exact .inl hw
    · split at hw
      · exact .inl hw
      · exact (List.mem_append.mp hw).imp id fun hw => ⟨v, rfl, List.mem_singleton.mp hw⟩
  | trySend v =>
    rw [Deed.act, trySend] at hw
    split at hw
    · exact .inl hw
    · split at hw <;> exact .inl hw
  | take =>
    rw [Deed.act, tryRecv] at hw
    split at hw
    · rw [promote] at hw
      split at hw
      · exact .inl hw
      · next w' ws hws => exact .inl ((show q.waiting = w' :: ws from hws) ▸ List.mem_cons_of_mem _ hw)
    · split at hw <;> exact .inl hw
  | close how =>
    obtain ⟨t, ht⟩ := exists_close q how
    rw [Deed.act, ht] at hw
    exact .inl hw
  | withdraw t => exact .inl (List.mem_filter.mp hw).1
  | forget t => exact .inl hw
  | cancel st => cases hw
  | release => cases hw

theorem marks_act (h : Traced p e n q) {d : Deed α} (hd : d.Apart p e) :
    ∀ w ∈ (d.act q).waiting, p w.value = decide (e.ticket? = some w.ticket) := by
  intro w hw
  obtain hw | ⟨v, rfl, rfl⟩ := mem_waiting_act hw
  · exact h.marks w hw
  · have hv : p v = false := hd
    have hnew : e.ticket? ≠ some q.nextTicket := fun he =>
      Nat.lt_irrefl _ (h.orderly.lt_of_knows (h.known _ he))
    simp [hv, hnew]

end Traced

theorem Traced.act (h : Traced p e n q) {d : Deed α} (hd : d.Apart p e) :
    Traced p e (n + (d.brings q).countP p) (d.act q) :=
  { orderly := h.orderly.act d
    known := fun t ht => (h.known t ht).act ht hd
    marks := h.marks_act hd
    entered := h.places_act hd }

theorem Traced.actAll (h : Traced p e n q) {ds : List (Deed α)} (hds : ∀ d ∈ ds, d.Apart p e) :
    Traced p e (n + (outputs Deed.act Deed.brings q ds).countP p) (q.actAll ds) := by
  induction ds generalizing n q with
  | nil => exact h
  | cons d ds ih =>
    obtain ⟨hd, hds⟩ := List.forall_mem_cons.mp hds
    rw [outputs, List.countP_append, ← Nat.add_assoc]
    exact ih (h.act hd) hds

/-- What a sender would hear it would hear later on, too. -/
theorem Traced.result?_actAll (h : Traced p e n q) {r : SendResult} (hr : q.result? e = some r)
    {ds : List (Deed α)} (hds : ∀ d ∈ ds, d.Apart p e) : (q.actAll ds).result? e = some r := by
  induction ds generalizing n q with
  | nil => exact hr
  | cons d ds ih =>
    obtain ⟨hd, hds⟩ := List.forall_mem_cons.mp hds
    exact ih (h.act hd) (by rw [h.result?_act hd, hr, Option.some_or]) hds

/-- Only a cancel and the end of the queue bring a sender bad news. -/
theorem Traced.result?_of_mild (h : Traced p e n q) (hnone : q.result? e = none)
    {ds : List (Deed α)} (hds : ∀ d ∈ ds, d.Apart p e) (hmild : ∀ d ∈ ds, d.mild = true) :
    (q.actAll ds).result? e = none ∨ (q.actAll ds).result? e = some (.ok ()) := by
  induction ds generalizing n q with
  | nil => exact .inl hnone
  | cons d ds ih =>
    obtain ⟨hd, hds⟩ := List.forall_mem_cons.mp hds
    obtain ⟨hgood, hmild⟩ := List.forall_mem_cons.mp hmild
    have htold : (d.act q).result? e = none ∨ (d.act q).result? e = some (.ok ()) := by
      rw [h.result?_act hd, hnone, Option.none_or]
      cases he : e.ticket? with
      | none => exact .inl rfl
      | some t =>
        cases d with
        | take =>
          simp only [Option.bind_some, Deed.tells]
          split
          · exact .inr rfl
          · exact .inl rfl
        | cancel st => cases hgood
        | release => cases hgood
        | _ => exact .inl rfl
    obtain hnone | hok := htold
    · exact ih (h.act hd) hnone hds hmild
    · exact .inr ((h.act hd).result?_actAll hok hds)

/-- A value waits while its sender would hear nothing. -/
theorem Traced.inLine_iff (h : Traced p e n q) : q.inLine p = true ↔ q.result? e = none := by
  rw [inLine, List.any_eq_true]
  constructor
  · rintro ⟨w, hw, hmark⟩
    have he : e.ticket? = some w.ticket := by simpa [h.marks w hw] using hmark
    rw [result?_of_ticket he]
    exact h.orderly.fate?_eq_none (List.mem_map_of_mem hw)
  · intro hnone
    cases e with
    | inLine t =>
      rw [result?_of_ticket (e := .inLine t) rfl] at hnone
      have hline := (h.known t rfl).resolve_right (fate?_eq_none_iff.mp hnone)
      obtain ⟨w, hw, rfl⟩ := List.mem_map.mp hline
      exact ⟨w, hw, by simp [h.marks w hw, Enqueue.ticket?]⟩
    | _ => cases hnone

theorem ticket?_of_result?_none (hnone : q.result? e = none) : ∃ t, e = .inLine t := by
  cases e with
  | inLine t => exact ⟨t, rfl⟩
  | _ => cases hnone

/-- Once a sender was told, it does not matter any more whether it looks. -/
theorem Traced.settled (h : Traced p e n q) {r : SendResult} (hr : q.result? e = some r) :
    Traced p (.settled r) n q := by
  refine { orderly := h.orderly, known := nofun, marks := ?_, entered := h.entered.trans ?_ }
  · intro w hw
    have hother : e.ticket? ≠ some w.ticket := by
      intro he
      rw [result?_of_ticket he, h.orderly.fate?_eq_none (List.mem_map_of_mem hw)] at hr
      cases hr
    rw [h.marks w hw, decide_eq_false hother]
    rfl
  · rw [hr]
    rfl

/-- A value that was given up while it waited is nowhere. -/
theorem Traced.givenUp (h : Traced p e n q) {t : Nat} (he : e.ticket? = some t)
    (hnone : q.result? e = none) : Traced p .spent n ((q.withdraw t).forget t) := by
  refine { orderly := (h.orderly.withdraw t).forget t, known := nofun, marks := ?_,
           entered := h.entered.trans ?_ }
  · intro w hw
    obtain ⟨hw, hne⟩ := List.mem_filter.mp hw
    have hother : e.ticket? ≠ some w.ticket := by
      intro hsame
      rw [he] at hsame
      cases hsame
      simp at hne
    rw [h.marks w hw, decide_eq_false hother]
    rfl
  · rw [hnone]
    rfl

/-- A send is refused, or finds room, or has to wait. -/
theorem send_cases (q : Queue α) (v : α) :
    (∃ how, q.termination = some how ∧ q.send v = (q, .settled (.error how.error))) ∨
      q.send v = ({ q with buffer := q.buffer ++ [v] }, .settled (.ok ())) ∨
      q.send v =
        ({ q with
            waiting := q.waiting ++ [⟨q.nextTicket, v⟩]
            nextTicket := q.nextTicket + 1 }, .inLine q.nextTicket) := by
  obtain hend | ⟨how, hend⟩ := Option.eq_none_or_eq_some q.termination
  · cases hroom : q.hasRoom with
    | true =>
      refine .inr (.inl ?_)
      simp [send, hend, hroom]
    | false => exact .inr (.inr (send_of_full (by simp [closedForSend, hend]) hroom v))
  · exact .inl ⟨how, hend, send_of_ended hend v⟩

/-- Whoever has just come to wait was told nothing. -/
theorem result?_of_queued (h : q.Orderly) {v : α}
    (hs : (q.send v).2 = .inLine q.nextTicket) :
    (q.send v).1.result? (.inLine q.nextTicket) = none := by
  have hline := (nextTicket_of_inLine (Prod.ext rfl hs)).2.2
  rw [result?_of_ticket (e := .inLine q.nextTicket) rfl]
  exact (h.send v).fate?_eq_none hline

/-- A send that fails at once has met a closed queue. -/
theorem closed_of_result?_send (h : q.Orderly) {v : α} {x : QueueError}
    (hx : (q.send v).1.result? (q.send v).2 = some (.error x)) :
    ∃ how, q.termination = some how ∧ x = how.error := by
  obtain ⟨how, hend, hs⟩ | hs | hs := q.send_cases v
  · rw [hs] at hx
    cases hx
    exact ⟨how, hend, rfl⟩
  · rw [hs] at hx
    cases hx
  · have he := congrArg Prod.snd hs
    rw [he, result?_of_queued h he] at hx
    cases hx

/-- The value of a new sender, where there was no marked one before. -/
theorem Traced.send (h : Traced p .spent n q) {v : α} (hv : p v = true) :
    Traced p (q.send v).2 (n + (Deed.brings q (.send v)).countP p) (q.send v).1 := by
  have hnone : n = 0 := h.entered
  have hmarks : ∀ w ∈ q.waiting, p w.value = false := h.marks
  have hsent := h.orderly.send v
  subst hnone
  obtain ⟨how, _, hs⟩ | hs | hs := q.send_cases v
  · rw [hs] at hsent ⊢
    exact
      { orderly := hsent
        known := by simp [Enqueue.ticket?]
        marks := hmarks
        entered := by simp [hs, Enqueue.immediate, result?, pollSend, places] }
  · rw [hs] at hsent ⊢
    exact
      { orderly := hsent
        known := by simp [Enqueue.ticket?]
        marks := hmarks
        entered := by simp [hs, hv, Enqueue.immediate, result?, pollSend, places] }
  · have he := congrArg Prod.snd hs
    have hnot := result?_of_queued h.orderly he
    have hline := (nextTicket_of_inLine hs).2.2
    refine { orderly := hsent, known := ?_, marks := ?_, entered := ?_ }
    · rintro t ht
      rw [he] at ht
      cases ht
      rw [hs]
      exact .inl hline
    · intro w hw
      rw [he]
      rw [hs] at hw
      obtain hw | hw := List.mem_append.mp hw
      · have hold := h.orderly.fresh _ (List.mem_map_of_mem hw)
        have hne : (Enqueue.inLine q.nextTicket).ticket? ≠ some w.ticket := fun hsame =>
          Nat.ne_of_gt hold (Option.some.inj hsame)
        rw [hmarks w hw, decide_eq_false hne]
      · obtain rfl := List.mem_singleton.mp hw
        rw [hv]
        exact (decide_eq_true rfl).symm
    · rw [he, hnot]
      simp [hs, Enqueue.immediate, places]

end Queue
end PacedCall
