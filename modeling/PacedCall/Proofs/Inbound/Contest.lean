import PacedCall.Loopback
import PacedCall.Proofs.Crew
import PacedCall.Proofs.Inbound

/-!
A side that asks ahead, with everybody who works on it at once. Callbacks and the tasks of deferred
values are taken apart into single looks and changes, so that between the release of the latch and
the claim that follows somebody else may claim it. A value is good for one release at most, and a
claim that is won needs the latch free, so claims run ahead of values by one at most.
-/
namespace PacedCall
namespace Inbound
variable {α : Type}

/-- What those who work on a side share; `reached` while the control is there. -/
structure Gate (α : Type) where
  queue : Queue α
  wire : Loopback α := {}
  latch : CreditLatch := {}
  reached : Bool := true

/-- Where somebody stands in the work on a side: what is to be done next. Whoever is `held` has the
control in hand, others have to reach for it. -/
inductive Stand (α : Type) where
  | offering (v : α)
  | marking (v : α)
  | sending (v : α)
  | waiting (e : Enqueue)
  | failing (st : Status)
  | releasing
  | checking
  | claiming (held : Bool)
  | asking (held : Bool)
  | called
  | polling
  | measuring
  | looking

namespace Stand

def owes : Stand α → Bool
  | offering _ => true
  | marking _ => true
  | sending _ => true
  | waiting _ => true
  | releasing => true
  | _ => false

def won : Stand α → Bool
  | asking _ => true
  | _ => false

def deferred? : Stand α → Option Enqueue
  | waiting e => some e
  | _ => none

end Stand

namespace Gate

def next (g : Gate α) : Stand α → Gate α × Option (Stand α)
  | .offering v =>
    match g.queue.trySend v with
    | (q, .ok _) => ({ g with queue := q }, some .releasing)
    | (_, .error .closed) => (g, none)
    | (_, .error .full) => (g, some (.marking v))
  | .marking v => ({ g with latch := g.latch.claim }, some (.sending v))
  | .sending v => ({ g with queue := (g.queue.send v).1 }, some (.waiting (g.queue.send v).2))
  | .waiting e =>
    match g.queue.pollSend e with
    | (_, _, none) => (g, some (.waiting e))
    | (q, _, some (.ok _)) => ({ g with queue := q }, some .releasing)
    | (q, _, some (.error e)) => ({ g with queue := q }, some (.failing e.status))
  | .failing st => ({ g with queue := (g.queue.close (.failed st)).1 }, none)
  | .releasing => ({ g with latch := g.latch.release }, some .checking)
  | .checking => (g, if g.queue.closedForSend then none else some (.claiming false))
  | .claiming held =>
    ({ g with latch := g.latch.tryClaim.1 },
      if g.latch.tryClaim.2 then some (.asking held) else none)
  | .asking held => (if held || g.reached then { g with wire := g.wire.requestCredit 1 } else g, none)
  | .called => (g, if g.reached then some .polling else none)
  | .polling => (g, if g.wire.ready then some .measuring else none)
  | .measuring => (g, if g.queue.isFull then none else some .looking)
  | .looking => (g, if g.queue.closedForSend then none else some (.claiming true))

abbrev Shop (α : Type) := Crew (Gate α) (Stand α)

inductive Move (α : Type) where
  | offer (v : α)
  | call
  | setReady (b : Bool)
  | sever
  | recv
  | close (how : Termination)
  | cancel (st : Status)
  | act (i : Nat)

def withQueue (c : Shop α) (q : Queue α) : Shop α :=
  { c with common := { c.common with queue := q } }

def step (c : Shop α) : Move α → Shop α
  | .offer v =>
    { common := { c.common with wire := (c.common.wire.peer (.deliver v)).1 }
      hands := c.hands ++ [.offering v] }
  | .call => { c with hands := c.hands ++ [.called] }
  | .setReady b => { c with common := { c.common with wire := (c.common.wire.peer (.setReady b)).1 } }
  | .sever => { c with common := { c.common with reached := false } }
  | .recv => withQueue c c.common.queue.tryRecv.1
  | .close how => withQueue c (c.common.queue.close how).1
  | .cancel st => withQueue c (c.common.queue.cancel st).1
  | .act i => c.act next i

def run (c : Shop α) (ms : List (Move α)) : Shop α := ms.foldl step c

theorem step_act (c : Shop α) (i : Nat) : step c (.act i) = c.act next i := rfl

theorem run_concat (c : Shop α) (ms : List (Move α)) (m : Move α) :
    run c (ms ++ [m]) = step (run c ms) m := by
  simp [run]

def shop (capacity : Nat) (ready : Bool) : Shop α :=
  { common := { queue := .new capacity, wire := { ready := ready } } }

/-! Claims against values. -/

structure Settled (c : Shop α) : Prop where
  issued : c.common.latch.issued + c.hands.countP Stand.owes ≤
    c.common.wire.delivered + c.common.latch.claimed.toNat
  requested : c.common.wire.requested + c.hands.countP Stand.won ≤ c.common.latch.issued
  most : c.common.wire.maxOutstanding ≤ 1

theorem Settled.requested_le {c : Shop α} (h : Settled c) :
    c.common.wire.requested + c.hands.countP Stand.won ≤ c.common.wire.delivered + 1 := by
  have hissued := h.issued
  have hrequested := h.requested
  have hone := c.common.latch.claimed.toNat_le
  omega

structure Trade (g : Gate α) (p : Stand α) (k : Gate α) (o : Option (Stand α)) : Prop where
  delivered : k.wire.delivered = g.wire.delivered
  issued : k.latch.issued + o.toList.countP Stand.owes + g.latch.claimed.toNat ≤
    g.latch.issued + [p].countP Stand.owes + k.latch.claimed.toNat
  requested : k.wire.requested + o.toList.countP Stand.won + g.latch.issued ≤
    g.wire.requested + [p].countP Stand.won + k.latch.issued
  most : k.wire.maxOutstanding ≤ max g.wire.maxOutstanding k.wire.outstanding

/-- The latch and the peer are left alone, and nothing comes to be owed. -/
theorem Trade.idle {g k : Gate α} {p : Stand α} {o : Option (Stand α)} (hw : k.wire = g.wire)
    (hl : k.latch = g.latch) (ho : ∀ q ∈ o, q.won = false ∧ (q.owes = true → p.owes = true)) :
    Trade g p k o := by
  have hwon : o.toList.countP Stand.won = 0 := by
    cases o with
    | none => rfl
    | some q => simp [(ho q rfl).1]
  have howes : o.toList.countP Stand.owes ≤ [p].countP Stand.owes := by
    cases o with
    | none => exact Nat.zero_le _
    | some q =>
      have hq := (ho q rfl).2
      simp only [Option.toList_some, List.countP_singleton]
      split
      · next hyes => simp [hq hyes]
      · exact Nat.zero_le _
  exact
    { delivered := by rw [hw]
      issued := by
        rw [hl]
        omega
      requested := by
        rw [hl, hw, hwon]
        omega
      most := by
        rw [hw]
        exact Nat.le_max_left _ _ }

/-- A latch that is set one way or the other, without a claim being won. -/
theorem Trade.set {g : Gate α} {p q : Stand α} {l : CreditLatch}
    (hi : l.issued = g.latch.issued) (hp : p.owes = true)
    (hq : q.owes = true → l.claimed = true) (hw : q.won = false) :
    Trade g p { g with latch := l } (some q) :=
  { delivered := rfl
    issued := by
      have hone := g.latch.claimed.toNat_le
      simp only [Option.toList_some, List.countP_singleton, hi, hp, if_true]
      split
      · next hyes =>
        simp only [hq hyes, Bool.toNat_true]
        omega
      · omega
    requested := by
      simp only [Option.toList_some, List.countP_singleton, hi, hw, Bool.false_eq_true, if_false]
      omega
    most := Nat.le_max_left _ _ }

theorem trade_next (g : Gate α) (p : Stand α) : Trade g p (g.next p).1 (g.next p).2 := by
  cases p with
  | offering v =>
    simp only [next]
    split <;> exact .idle rfl rfl (by simp [Stand.owes, Stand.won])
  | marking v => exact .set rfl rfl (fun _ => rfl) rfl
  | sending v => exact .idle rfl rfl (by simp [next, Stand.owes, Stand.won])
  | waiting e =>
    simp only [next]
    split <;> exact .idle rfl rfl (by simp [Stand.owes, Stand.won])
  | failing st => exact .idle rfl rfl (by simp [next])
  | releasing => exact .set rfl rfl nofun rfl
  | claiming held =>
    cases hc : g.latch.claimed with
    | true =>
      simp only [next, CreditLatch.tryClaim, hc, if_true]
      exact .idle rfl rfl (by simp)
    | false =>
      simp only [next, CreditLatch.tryClaim, hc, Bool.false_eq_true, if_false, if_true]
      exact
        { delivered := rfl
          issued := by simp [Stand.owes, hc]
          requested := by
            simp only [Option.toList_some, List.countP_singleton, Stand.won, if_true]
            omega
          most := Nat.le_max_left _ _ }
  | asking held =>
    simp only [next]
    split
    · exact
        { delivered := rfl
          issued := by simp [Stand.owes]
          requested := by simp [Loopback.requestCredit, Stand.won]
          most := Nat.le_refl _ }
    · exact .idle rfl rfl (by simp)
  | checking | called | polling | measuring | looking =>
    simp only [next]
    split <;> exact .idle rfl rfl (by simp [Stand.owes, Stand.won])

theorem settled_act {c : Shop α} (h : Settled c) (i : Nat) : Settled (c.act next i) := by
  obtain ⟨_, hrest⟩ | ⟨before, p, after, hands, hact⟩ := c.act_cases next i
  · rw [hrest]
    exact h
  · obtain ⟨hdelivered, htissued, htrequested, htmost⟩ := trade_next c.common p
    have hissued := h.issued
    have hrequested := h.requested
    have hmost := h.most
    rw [hands, Crew.countP_split] at hissued hrequested
    have hnew : (c.common.next p).1.latch.issued +
        (before ++ (c.common.next p).2.toList ++ after).countP Stand.owes ≤
        (c.common.next p).1.wire.delivered + (c.common.next p).1.latch.claimed.toNat := by
      simp only [List.countP_append]
      omega
    have hasked : (c.common.next p).1.wire.requested +
        (before ++ (c.common.next p).2.toList ++ after).countP Stand.won ≤
        (c.common.next p).1.latch.issued := by
      simp only [List.countP_append]
      omega
    rw [hact]
    refine ⟨hnew, hasked, Nat.le_trans htmost (Nat.max_le.mpr ⟨hmost, ?_⟩)⟩
    have hone := (c.common.next p).1.latch.claimed.toNat_le
    simp only [Loopback.outstanding]
    omega

/-- Nothing that the accounts speak of is changed. -/
theorem Settled.quiet {c d : Shop α} (h : Settled c) (hl : d.common.latch = c.common.latch)
    (hd : d.common.wire.delivered = c.common.wire.delivered)
    (hr : d.common.wire.requested = c.common.wire.requested)
    (hm : d.common.wire.maxOutstanding = c.common.wire.maxOutstanding)
    (ho : d.hands.countP Stand.owes = c.hands.countP Stand.owes)
    (hw : d.hands.countP Stand.won = c.hands.countP Stand.won) : Settled d :=
  { issued := by
      rw [hl, hd, ho]
      exact h.issued
    requested := by
      rw [hl, hr, hw]
      exact h.requested
    most := hm ▸ h.most }

theorem settled_step {c : Shop α} (h : Settled c) (m : Move α) : Settled (step c m) := by
  cases m with
  | offer v =>
    exact
      { issued := by
          have hissued := h.issued
          simp only [step, Loopback.peer, List.countP_append, List.countP_singleton, Stand.owes,
            if_true]
          omega
        requested := by
          have hrequested := h.requested
          simp only [step, Loopback.peer, List.countP_append, List.countP_singleton, Stand.won,
            Bool.false_eq_true, if_false]
          exact hrequested
        most := h.most }
  | call =>
    exact h.quiet rfl rfl rfl rfl (by simp [step, Stand.owes]) (by simp [step, Stand.won])
  | act i => exact settled_act h i
  | setReady | sever | recv | close | cancel => exact h.quiet rfl rfl rfl rfl rfl rfl

theorem settled_run {c : Shop α} (h : Settled c) (ms : List (Move α)) : Settled (run c ms) := by
  induction ms using List.reverseRecOn with
  | nil => exact h
  | append_singleton ms m ih =>
    rw [run_concat]
    exact settled_step ih m

theorem settled_shop (capacity : Nat) (ready : Bool) : Settled (shop capacity ready : Shop α) :=
  { issued := Nat.le_refl _
    requested := Nat.le_refl _
    most := Nat.zero_le _ }

/-- Whoever works on the side and however their looks and changes fall between each other, there is
never credit for more than one message, whether or not the peer keeps to it. -/
theorem outstanding_at_most_one (capacity : Nat) (ready : Bool) (ms : List (Move α)) :
    let wire := (run (shop capacity ready) ms).common.wire
    wire.requested ≤ wire.delivered + 1 ∧ wire.outstanding ≤ 1 ∧ wire.maxOutstanding ≤ 1 := by
  intro wire
  have h : Settled (run (shop capacity ready) ms) := settled_run (settled_shop capacity ready) ms
  have hle : wire.requested ≤ wire.delivered + 1 :=
    Nat.le_trans (Nat.le_add_right _ _) h.requested_le
  refine ⟨hle, ?_, h.most⟩
  rw [Loopback.outstanding]
  omega

/-- Between the release for a value and the claim that follows, a callback wins the latch. -/
theorem outstanding_at_most_one_contested :
    let ms : List (Move Nat) :=
      .call :: List.replicate 6 (.act 0) ++ [.offer 7, .act 0, .act 0] ++
        .call :: List.replicate 6 (.act 1) ++ [.act 0, .act 0]
    let c := run (shop 2 true) ms
    c.hands.length = 0 ∧ c.common.wire.requested = 2 ∧ c.common.wire.outstanding = 1 := by
  intro ms c
  have h := (outstanding_at_most_one 2 true ms).2.1
  have hleast : 1 ≤ c.common.wire.outstanding := by decide
  exact ⟨by decide, by decide, Nat.le_antisymm h hleast⟩

/-! What one does without anybody in between is what the side does in one step. -/

def side (c : Shop α) : Inbound α :=
  { pacing := .latching c.common.latch
    queue := c.common.queue
    deferred := c.hands.filterMap Stand.deferred? }

def control (g : Gate α) : Option Bool := if g.reached then some g.wire.ready else none

def grant (g : Gate α) (wanted : Bool) : Loopback α :=
  if wanted && g.reached then g.wire.requestCredit 1 else g.wire

/-- The latch is released, the queue is looked at, the latch claimed and the next message asked
for. -/
theorem alone_releasing (g : Gate α) :
    Crew.Alone next g .releasing
      { g with
        latch := (g.latch.release.next g.queue).1
        wire := g.grant (g.latch.release.next g.queue).2 } none := by
  refine .more (q := .checking) rfl ?_
  cases hc : g.queue.closedForSend with
  | true =>
    refine .last ?_
    simp [next, hc, CreditLatch.next, grant]
  | false =>
    refine .more (q := .claiming false) (by simp [next, hc]; rfl) ?_
    refine .more (q := .asking false) rfl (.last ?_)
    cases hr : g.reached <;>
      simp [next, hr, CreditLatch.next, hc, CreditLatch.tryClaim, CreditLatch.release, grant]

/-- A value that is offered and handled without anybody in between. -/
theorem offer_alone (c : Shop α) (v : α) :
    ∃ n, let d := run c (.offer v :: List.replicate n (.act c.hands.length))
      side d = ((side c).onValue v).1 ∧
        d.common.wire = (step c (.offer v)).common.grant ((side c).onValue v).2.2 := by
  suffices h : ∃ k o, Crew.Alone next (step c (.offer v)).common (.offering v) k o ∧
      side { common := k, hands := c.hands ++ o.toList } = ((side c).onValue v).1 ∧
      k.wire = (step c (.offer v)).common.grant ((side c).onValue v).2.2 by
    obtain ⟨k, o, halone, hside, hwire⟩ := h
    obtain ⟨n, hn⟩ := halone.joins step_act (m := .offer v) rfl
    refine ⟨n, ?_⟩
    rw [run, hn]
    exact ⟨hside, hwire⟩
  set g := (step c (.offer v)).common with hg
  cases ho : c.common.queue.closedForSend with
  | true =>
    have hlate : next g (.offering v) = (g, none) := by simp [next, hg, step, Queue.trySend, ho]
    rw [onValue_of_closed (b := side c) ho]
    exact ⟨_, none, .last hlate, by simp [side, hg, step], rfl⟩
  | false =>
    cases hr : c.common.queue.hasRoom with
    | true =>
      have hplaced : next g (.offering v) =
          ({ g with queue := (side c).pushed v }, some .releasing) := by
        simp [next, hg, step, Queue.trySend, ho, hr, side, pushed]
      rw [onValue_latching_room (b := side c) ho hr rfl]
      exact ⟨_, none, .more hplaced (alone_releasing _), by simp [side, hg, step], rfl⟩
    | false =>
      have hfull : next g (.offering v) = (g, some (.marking v)) := by
        simp [next, hg, step, Queue.trySend, ho, hr]
      rw [onValue_latching_full (b := side c) ho hr rfl]
      exact ⟨{ g with latch := g.latch.claim, queue := (g.queue.send v).1 },
        some (.waiting (g.queue.send v).2), .more hfull (.more rfl (.last rfl)),
        by simp [side, hg, step, defer, Stand.deferred?], rfl⟩

def ahead (g : Gate α) : CreditLatch × Bool :=
  if g.reached then g.latch.preload g.queue g.wire.ready else (g.latch, false)

theorem onReady_side (c : Shop α) :
    (side c).onReady (control c.common) =
      ({ side c with pacing := .latching c.common.ahead.1 }, c.common.ahead.2) := by
  cases hc : c.common.reached <;> simp [control, ahead, onReady, side, hc]

/-- The call is looked at, then the queue twice, then the latch is claimed and a message asked
for. -/
theorem alone_called (g : Gate α) :
    Crew.Alone next g .called { g with latch := g.ahead.1, wire := g.grant g.ahead.2 } none := by
  have hstop : ∀ p, g.ahead = (g.latch, false) → next g p = (g, none) →
      Crew.Alone next g p { g with latch := g.ahead.1, wire := g.grant g.ahead.2 } none := by
    intro p hahead hp
    rw [hahead]
    exact .last hp
  by_cases hc : g.reached = true
  · refine .more (t := g) (q := .polling) (by simp [next, hc]) ?_
    by_cases hready : g.wire.ready = true
    · refine .more (t := g) (q := .measuring) (by simp [next, hready]) ?_
      by_cases hfull : g.queue.isFull = true
      · exact hstop .measuring (by simp [ahead, CreditLatch.preload, hfull]) (by simp [next, hfull])
      · refine .more (t := g) (q := .looking) (by simp [next, hfull]) ?_
        by_cases ho : g.queue.closedForSend = true
        · exact hstop .looking (by simp [ahead, CreditLatch.preload, ho]) (by simp [next, ho])
        · refine .more (t := g) (q := .claiming true) (by simp [next, ho]) ?_
          have hahead : g.ahead = g.latch.tryClaim := by
            simp [ahead, CreditLatch.preload, hc, hready, hfull, ho]
          by_cases hl : g.latch.claimed = true
          · have hlost : g.latch.tryClaim = (g.latch, false) := by simp [CreditLatch.tryClaim, hl]
            exact hstop (.claiming true) (hahead.trans hlost) (by simp [next, hlost])
          · have hwon : g.latch.tryClaim.2 = true := by simp [CreditLatch.tryClaim, hl]
            rw [hahead, hwon]
            refine .more (q := .asking true) (by simp [next, hwon]; rfl) (.last ?_)
            simp [next, grant, hc]
    · exact hstop .polling (by simp [ahead, CreditLatch.preload, hready]) (by simp [next, hready])
  · exact hstop .called (by simp [ahead, hc]) (by simp [next, hc])

/-- A call that tells of its readiness without anybody in between. -/
theorem call_alone (c : Shop α) :
    ∃ n, let d := run c (.call :: List.replicate n (.act c.hands.length))
      side d = ((side c).onReady (control c.common)).1 ∧
        d.common.wire = c.common.grant ((side c).onReady (control c.common)).2 := by
  obtain ⟨n, hn⟩ := (alone_called c.common).joins step_act (m := .call) rfl
  rw [Option.toList_none, List.append_nil] at hn
  refine ⟨n, ?_⟩
  rw [run, hn, onReady_side]
  exact ⟨rfl, rfl⟩

/-- The task of a deferred value that is looked at without anybody in between. -/
theorem task_alone (g : Gate α) (before after : List (Stand α)) (e : Enqueue) :
    let c : Shop α := { common := g, hands := before ++ .waiting e :: after }
    let i := (before.filterMap Stand.deferred?).length
    ∃ n, let d := run c (List.replicate n (.act before.length))
      side d = ((side c).pollDeferred i).1 ∧
        d.common.wire = g.grant ((side c).pollDeferred i).2.1 := by
  intro c i
  have hdeferred : (side c).deferred =
      before.filterMap Stand.deferred? ++ e :: after.filterMap Stand.deferred? := by
    simp [side, c, Stand.deferred?]
  suffices h : ∃ k o, Crew.Alone next g (.waiting e) k o ∧
      side { common := k, hands := before ++ o.toList ++ after } = ((side c).pollDeferred i).1 ∧
      k.wire = g.grant ((side c).pollDeferred i).2.1 by
    obtain ⟨k, o, halone, hside, hwire⟩ := h
    obtain ⟨n, hn⟩ := halone.moves step_act before after
    refine ⟨n, ?_⟩
    rw [run, hn]
    exact ⟨hside, hwire⟩
  rw [pollDeferred_split hdeferred, show (side c).queue = g.queue from rfl]
  rcases hsend : g.queue.pollSend e with ⟨q, _, r⟩
  cases r with
  | none =>
    have hwaits : next g (.waiting e) = (g, some (.waiting e)) := by simp [next, hsend]
    exact ⟨g, _, .last hwaits, by simp [c], rfl⟩
  | some r =>
    cases r with
    | ok u =>
      have hplaced : next g (.waiting e) = ({ g with queue := q }, some .releasing) := by
        simp [next, hsend]
      exact ⟨_, none, .more hplaced (alone_releasing _), by simp [side, onEnqueued, c], rfl⟩
    | error err =>
      have hlost : next g (.waiting e) = ({ g with queue := q }, some (.failing err.status)) := by
        simp [next, hsend]
      exact ⟨_, none, .more hlost (.last rfl), by simp [side, onEnqueued, c], rfl⟩

end Gate
end Inbound
end PacedCall
