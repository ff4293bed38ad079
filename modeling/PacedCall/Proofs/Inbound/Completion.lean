import PacedCall.Proofs.Inbound.Handshake

/-!
The end of a side that counts. Every value that was delivered is in somebody's hand, in line, or
taken, and every value that waits in line has somebody in flight on its account. So the queue is not
closed before all that was delivered has its place, and by the handshake it is closed then.
-/
namespace PacedCall

/-- A receiver takes the head of the line, or leaves it as it is. -/
theorem Queue.line_tryRecv {α : Type} (q : Queue α) :
    q.line = q.tryRecv.2.values ++ q.tryRecv.1.line := by
  rcases hq : q.tryRecv with ⟨r, x⟩
  cases x with
  | item v => exact line_of_tryRecv_item hq
  | empty | closed how => exact congrArg line (tryRecv_of_no_item hq nofun).symm

namespace Inbound
namespace Intake
variable {α : Type}

/-- Every value in line has somebody who waits for it, and every delivered value was taken, is in
line, or is in hand. -/
structure Places (c : Dock α) : Prop where
  orderly : c.common.queue.Orderly
  owned : ∀ k ∈ c.common.queue.tickets, ∃ h ∈ c.hands, h.owns k
  single : c.hands.countP Hand.callback ≤ 1
  order : c.common.taken ++ c.common.queue.line ++ c.hands.flatMap Hand.carried =
    c.common.delivered

structure Shift (t : Intake α) (h : Hand α) (u : Intake α) (o : Option (Hand α)) : Prop where
  orderly : u.queue.Orderly
  owned : ∀ k ∈ u.queue.tickets, k ∈ t.queue.tickets ∧ ¬ h.owns k ∨ ∃ q ∈ o, q.owns k
  taken : u.taken = t.taken
  delivered : u.delivered = t.delivered
  order : u.queue.line = t.queue.line ∧ o.toList.flatMap Hand.carried = h.carried ∨
    h.callback = true ∧
      u.queue.line ++ o.toList.flatMap Hand.carried = t.queue.line ++ h.carried

/-- The line stays as it is, and nobody stops to wait who waits for a value in it. -/
theorem Shift.keep {t u : Intake α} {h : Hand α} {o : Option (Hand α)} (ho : u.queue.Orderly)
    (hl : u.queue.line = t.queue.line) (hk : u.queue.tickets = t.queue.tickets)
    (hp : ∀ k ∈ t.queue.tickets, h.owns k → ∃ q ∈ o, q.owns k)
    (ht : u.taken = t.taken) (hd : u.delivered = t.delivered)
    (hcarried : o.toList.flatMap Hand.carried = h.carried) : Shift t h u o :=
  { orderly := ho
    owned := by
      intro k hkey
      rw [hk] at hkey
      by_cases hown : h.owns k
      · exact Or.inr (hp k hkey hown)
      · exact Or.inl ⟨hkey, hown⟩
    taken := ht
    delivered := hd
    order := Or.inl ⟨hl, hcarried⟩ }

/-- A value in hand comes to the end of the line. -/
theorem Shift.place {t : Intake α} {h : Hand α} {q : Queue α} {g : Hand α} {v : α}
    (ho : q.Orderly) (hb : h.callback = true) (hl : q.line = t.queue.line ++ [v])
    (hp : ∀ k, ¬ h.owns k) (hk : ∀ k ∈ q.tickets, k ∈ t.queue.tickets ∨ g.owns k)
    (hh : h.carried = [v]) (hg : g.carried = []) : Shift t h { t with queue := q } (some g) :=
  { orderly := ho
    owned := fun k hkey => (hk k hkey).imp (fun hin => ⟨hin, hp k⟩) fun hown => ⟨g, rfl, hown⟩
    taken := rfl
    delivered := rfl
    order := Or.inr ⟨hb, by simp [hl, hh, hg]⟩ }

/-- A value that cannot be sent at once is in line under the ticket its sender waits with. -/
theorem tickets_send (q : Queue α) (v : α) :
    ∀ k ∈ (q.send v).1.tickets, k ∈ q.tickets ∨ (q.send v).2 = .inLine k := by
  intro k hk
  unfold Queue.send at hk ⊢
  split at hk
  · exact Or.inl hk
  · split at hk
    · exact Or.inl hk
    · simp only [Queue.tickets, List.map_append, List.map_cons, List.map_nil, List.mem_append,
        List.mem_singleton] at hk
      obtain hk | rfl := hk
      · exact Or.inl hk
      · exact Or.inr (by simp_all)

/-- A value in hand finds the queue open: it is placed, or kept until it is in line. -/
theorem shift_trying {c : Dock α} (h : Handshake c) (hc : Places c) {b : Bool} {v : α}
    (hp : ⟨b, .trying v⟩ ∈ c.hands) :
    Shift c.common ⟨b, .trying v⟩ (c.common.next ⟨b, .trying v⟩).1
      (c.common.next ⟨b, .trying v⟩).2 := by
  obtain ⟨hcallback, hend⟩ := h.fits _ hp
  obtain ⟨_, hopen⟩ := h.open_of_not_ended hend
  have hsend : c.common.queue.closedForSend = false := by simp [Queue.closedForSend, hopen]
  cases hr : c.common.queue.hasRoom with
  | true =>
    simp only [next, move, Queue.trySend, hsend, hr, Bool.false_eq_true, if_false, if_true]
    exact .place (hc.orderly.buffered v hr) hcallback (Queue.line_buffered v hr)
      (by simp [Hand.owns]) (fun k hk => Or.inl hk) rfl rfl
  | false =>
    simp only [next, move, Queue.trySend, hsend, hr, Bool.false_eq_true, if_false]
    exact .keep hc.orderly rfl rfl (by simp [Hand.owns]) rfl rfl rfl

theorem shift_sending {c : Dock α} (h : Handshake c) (hc : Places c) {b : Bool} {v : α}
    (hp : ⟨b, .sending v⟩ ∈ c.hands) :
    Shift c.common ⟨b, .sending v⟩ (c.common.next ⟨b, .sending v⟩).1
      (c.common.next ⟨b, .sending v⟩).2 := by
  obtain ⟨hcallback, hend⟩ := h.fits _ hp
  obtain ⟨_, hopen⟩ := h.open_of_not_ended hend
  have hline : (c.common.queue.send v).1.line = c.common.queue.line ++ [v] := by
    simp [Queue.line_send, Queue.closedForSend, hopen]
  refine .place (hc.orderly.send v) hcallback hline (by simp [Hand.owns]) ?_ rfl rfl
  exact fun k hk => (tickets_send _ v k hk).imp_right fun he => Or.inr (by rw [he])

/-- Whoever was told its fate has no value in line any more. -/
theorem shift_waiting {c : Dock α} (hc : Places c) (b : Bool) (e : Enqueue) :
    Shift c.common ⟨b, .waiting e⟩ (c.common.next ⟨b, .waiting e⟩).1
      (c.common.next ⟨b, .waiting e⟩).2 := by
  rcases hsend : c.common.queue.pollSend e with ⟨q, e', r⟩
  simp only [next, move, hsend]
  cases r with
  | none =>
    refine .keep hc.orderly rfl rfl ?_ rfl rfl rfl
    rintro k _ (hown | hown)
    · exact ⟨_, rfl, Or.inl hown⟩
    · cases hown
  | some r =>
    have hord := hc.orderly.pollSend e
    have hline := Queue.line_pollSend c.common.queue e
    have htickets := Queue.tickets_pollSend c.common.queue e
    rw [hsend] at hord hline htickets
    refine .keep hord hline htickets ?_ rfl rfl rfl
    rintro k hk (hown | hown)
    · cases hown
      simp [Queue.pollSend, hc.orderly.fate?_eq_none hk] at hsend
    · cases hown

theorem shift_next {c : Dock α} (h : Handshake c) (hc : Places c) {p : Hand α} (hp : p ∈ c.hands) :
    Shift c.common p (c.common.next p).1 (c.common.next p).2 := by
  have hfits := h.fits p hp
  obtain ⟨callback, post⟩ := p
  cases post with
  | trying v => exact shift_trying h hc hp
  | sending v => exact shift_sending h hc hp
  | waiting e => exact shift_waiting hc callback e
  | failing st => exact hfits.elim
  | entering | completing => exact .keep hc.orderly rfl rfl (by simp [Hand.owns]) rfl rfl rfl
  | spawning e =>
    refine .keep hc.orderly rfl rfl ?_ rfl rfl rfl
    rintro k _ (hown | hown)
    · cases hown
    · cases hown
      exact ⟨_, rfl, Or.inl rfl⟩
  | leaving why =>
    refine .keep hc.orderly rfl rfl (by simp [Hand.owns]) rfl rfl ?_
    cases why with
    | placed | late => rfl
    | told r => cases r <;> rfl
  | closing =>
    exact .keep (hc.orderly.close _) (Queue.line_close _ _) (Queue.tickets_close _ _)
      (by simp [Hand.owns]) rfl rfl rfl
  | checking | asking | counting | requesting | confirming =>
    simp only [next, move]
    split <;> exact .keep hc.orderly rfl rfl (by simp [Hand.owns]) rfl rfl rfl

/-- A hand that is not that of a callback has no value in hand. -/
theorem carried_eq_nil {t : Intake α} {h : Hand α} (hf : t.Fits h) (hb : h.callback = false) :
    h.carried = [] := by
  obtain ⟨callback, post⟩ := h
  cases post with
  | entering | trying | sending => exact absurd (hb.symm.trans hf.1) Bool.false_ne_true
  | _ => rfl

theorem carried_of_ended {t : Intake α} {h : Hand α} (hf : t.Fits h) (he : t.ended = true) :
    h.carried = [] := by
  obtain ⟨callback, post⟩ := h
  cases post with
  | entering | trying | sending => exact absurd (he.symm.trans hf.2) (by simp)
  | _ => rfl

theorem callback_next (t : Intake α) (h : Hand α) :
    (t.next h).2.toList.countP Hand.callback ≤ [h].countP Hand.callback := by
  cases ho : (t.move h.post).2 with
  | none => simp [next, ho]
  | some p => cases hb : h.callback <;> cases hp : onTask p <;> simp [next, ho, hb, hp]

theorem places_act {c : Dock α} (h : Handshake c) (hc : Places c) (i : Nat) :
    Places (c.act next i) := by
  obtain ⟨_, hrest⟩ | ⟨before, p, after, hands, hact⟩ := c.act_cases next i
  · rw [hrest]
    exact hc
  · have hs := shift_next h hc (p := p) (by simp [hands])
    have hsingle := hc.single
    have horder := hc.order
    rw [hands, Crew.countP_split] at hsingle
    rw [hands] at horder
    rw [hact]
    exact
      { orderly := hs.orderly
        owned := by
          intro k hk
          obtain ⟨hk', hnot⟩ | ⟨q, hq, hown⟩ := hs.owned k hk
          · obtain ⟨q, hq, hown⟩ := hc.owned k hk'
            have hne : q ≠ p := fun he => hnot (he ▸ hown)
            exact ⟨q, Crew.mem_of_ne _ (hands ▸ hq) hne, hown⟩
          · exact ⟨q, by simp [Option.mem_def.mp hq], hown⟩
        single := by
          have hle := callback_next c.common p
          simp only [List.countP_append]
          omega
        order := by
          rw [hs.taken, hs.delivered, ← horder]
          simp only [List.flatMap_append, List.flatMap_cons]
          obtain ⟨hline, hcarried⟩ | ⟨hb, hline⟩ := hs.order
          · rw [hline, hcarried]
            simp only [List.append_assoc]
          · -- The only callback is the one that acts, so nobody else has a value in hand.
            have hnobody : ∀ l, l ⊆ c.hands → l.countP Hand.callback = 0 →
                l.flatMap Hand.carried = [] := by
              intro l hl hzero
              rw [List.flatMap_eq_nil_iff]
              intro q hq
              refine carried_eq_nil (h.fits q (hl hq)) ?_
              simpa using List.countP_eq_zero.mp hzero q hq
            have hone : [p].countP Hand.callback = 1 := by simp [hb]
            rw [hnobody before (by simp [hands]) (by omega),
              hnobody after (by simp [hands]) (by omega)]
            simp only [List.nil_append, List.append_nil, List.append_assoc, hline] }

theorem places_step {c : Dock α} (h : Handshake c) (hc : Places c) (m : Move α) :
    Places (step c m) := by
  cases m with
  | act i => exact places_act h hc i
  | sever => exact { hc with }
  | recv =>
    exact
      { orderly := hc.orderly.tryRecv
        owned := fun k hk => hc.owned k (Queue.tickets_tryRecv _ k hk)
        single := hc.single
        order := by
          have horder := hc.order
          rw [Queue.line_tryRecv] at horder
          simp only [step]
          rw [← horder]
          simp only [List.append_assoc] }
  | deliver v =>
    rw [step]
    split
    · next hgoes =>
      simp only [Bool.and_eq_true, Bool.not_eq_true'] at hgoes
      exact
        { orderly := hc.orderly
          owned := fun k hk => (hc.owned k hk).imp fun q hq => ⟨List.mem_append_left _ hq.1, hq.2⟩
          single := by simpa using not_callback_of_idle hgoes.1
          order := by
            simp only [List.flatMap_append, ← hc.order]
            simp [Hand.carried] }
    · exact hc
  | complete =>
    rw [step]
    split
    · next hidle =>
      exact
        { orderly := hc.orderly
          owned := fun k hk => (hc.owned k hk).imp fun q hq => ⟨List.mem_append_left _ hq.1, hq.2⟩
          single := by simpa using not_callback_of_idle hidle
          order := by
            simp only [List.flatMap_append, ← hc.order]
            simp [Hand.carried] }
    · exact hc

theorem places_dock (capacity : Nat) : Places (dock capacity : Dock α) :=
  { orderly := Queue.orderly_new _
    owned := by simp [Queue.tickets, dock, Queue.new]
    single := Nat.zero_le _
    order := rfl }

theorem places_run {c : Dock α} (h : Handshake c) (hc : Places c) (ms : List (Move α)) :
    Places (run c ms) := by
  induction ms using List.reverseRecOn with
  | nil => exact hc
  | append_singleton ms m ih =>
    rw [run_concat]
    exact places_step (handshake_run h ms) ih m

/-- Where nobody can act, nobody has anything left to do but to wait for room. -/
theorem waits_of_stuck {c : Dock α} (hstuck : ∀ i, c.act next i = c) {h : Hand α}
    (hh : h ∈ c.hands) : (c.common.next h).2 = some h := by
  obtain ⟨before, after, hands⟩ := List.append_of_mem hh
  have hact := Crew.act_split next c.common before after h
  rw [← hands, hstuck] at hact
  have hsame := congrArg Crew.hands hact
  simp only [hands, List.append_assoc, List.append_cancel_left_eq] at hsame
  cases ho : (c.common.next h).2 with
  | none =>
    rw [ho] at hsame
    simp at hsame
  | some q =>
    rw [ho] at hsame
    simp only [Option.toList_some, List.singleton_append, List.cons.injEq, and_true] at hsame
    rw [hsame]

theorem not_closes_of_stuck {t : Intake α} {h : Hand α} (hs : (t.next h).2 = some h) :
    h.closes = false ∧ h.post ≠ .completing := by
  obtain ⟨callback, post⟩ := h
  cases post with
  | checking | asking | counting | confirming =>
    simp only [next, move] at hs
    split at hs <;> simp at hs
  | closing | completing => simp [next, move] at hs
  | entering | trying | sending | spawning | waiting | leaving | requesting | failing =>
    exact ⟨rfl, by simp⟩

/-- Nothing is in flight on a closed queue, so nobody has a value in hand and none waits. -/
theorem all_placed_of_closed {c : Dock α} (h : Handshake c) (hp : Places c) {how : Termination}
    (hhow : c.common.queue.termination = some how) :
    how = .completed ∧ c.common.flight.completed = true ∧ c.common.queue.waiting = [] ∧
      c.common.taken ++ c.common.queue.buffer = c.common.delivered := by
  obtain hopen | ⟨hcompleted, hdone, hzero⟩ := h.closed
  · exact absurd (hopen.symm.trans hhow) (by simp)
  · have hnobody : ∀ q ∈ c.hands, q.inside = false := by
      intro q hq
      simpa using List.countP_eq_zero.mp (h.count.symm.trans hzero) q hq
    have hwaiting : c.common.queue.waiting = [] := by
      rw [List.eq_nil_iff_forall_not_mem]
      intro w hw
      obtain ⟨q, hq, hown⟩ := hp.owned w.ticket (List.mem_map_of_mem hw)
      have hinside : q.inside = true := by
        obtain hown | hown := hown <;> rw [Hand.inside, hown]
      rw [hnobody q hq] at hinside
      cases hinside
    have hcarried : c.hands.flatMap Hand.carried = [] := by
      rw [List.flatMap_eq_nil_iff]
      exact fun q hq => carried_of_ended (h.fits q hq) (h.announced hdone)
    have horder := hp.order
    rw [hcarried, List.append_nil, Queue.line, hwaiting, List.map_nil, List.append_nil] at horder
    exact ⟨Option.some.inj (hhow.symm.trans hcompleted), hdone, hwaiting, horder⟩

/-- Somebody would look for the end if it were not seen, so where nobody can act it was seen. -/
theorem closed_of_stuck {c : Dock α} (h : Handshake c) (hended : c.common.ended = true)
    (hstuck : ∀ i, c.act next i = c) (hzero : c.common.flight.count = 0) :
    c.common.queue.termination = some .completed := by
  have hrests : ∀ q ∈ c.hands, q.closes = false ∧ q.post ≠ .completing :=
    fun q hq => not_closes_of_stuck (waits_of_stuck hstuck hq)
  have hdone : c.common.flight.completed = true := by
    refine (h.spoken hended).resolve_right ?_
    rintro ⟨q, hq, hpost⟩
    exact (hrests q hq).2 hpost
  obtain hopen | ⟨hcompleted, _⟩ := h.closed
  · obtain ⟨q, hq, hcloses⟩ := h.seen hdone hzero hopen
    rw [(hrests q hq).1] at hcloses
    cases hcloses
  · exact hcompleted

/-- The queue of a side is closed when the transport has completed and all that was delivered has
left, and not before, however the looks and changes of callbacks and tasks fall between each
other. -/
theorem completion_exact (capacity : Nat) (ms : List (Move α)) :
    let c := run (dock capacity : Dock α) ms
    let t := c.common
    (∀ how, t.queue.termination = some how →
      how = .completed ∧ t.flight.completed = true ∧ t.queue.waiting = [] ∧
        t.taken ++ t.queue.buffer = t.delivered) ∧
    (t.ended = true → (∀ i, step c (.act i) = c) → t.flight.count = 0 →
      t.queue.termination = some .completed) ∧
    t.flight.count = c.hands.countP Hand.inside ∧
    (∀ h ∈ c.hands, ∀ why, h.post = .leaving why → 0 < t.flight.count) := by
  intro c t
  have h : Handshake c := handshake_run (handshake_dock capacity) ms
  have hp : Places c := places_run (handshake_dock capacity) (places_dock capacity) ms
  refine ⟨fun how => all_placed_of_closed h hp, closed_of_stuck h, h.count, ?_⟩
  intro q hq why hwhy
  exact (h.of_inside hq (by rw [Hand.inside, hwhy])).1

/-- The transport completes while a value waits for room; the task of that value closes the queue. -/
theorem completion_exact_deferred :
    let ms : List (Move Nat) :=
      .deliver 1 :: List.replicate 5 (.act 0) ++ .deliver 2 :: List.replicate 4 (.act 0) ++
        .complete :: List.replicate 2 (.act 1) ++ .recv :: List.replicate 6 (.act 0)
    let c := run (dock 1) ms
    c.common.queue.termination = some .completed ∧
      c.common.taken ++ c.common.queue.buffer = [1, 2] := by
  intro ms c
  obtain ⟨hearly, hmissed, _, _⟩ := completion_exact 1 ms
  have hnobody : c.hands = [] := List.length_eq_zero_iff.mp (by decide)
  have hstuck : ∀ i, step c (.act i) = c := by
    intro i
    rw [step, Crew.act, hnobody]
    rfl
  have hclosed := hmissed (by decide) hstuck (by decide)
  obtain ⟨_, _, _, hall⟩ := hearly _ hclosed
  exact ⟨hclosed, hall.trans (by decide)⟩

/-! What one does without anybody in between is what the side does in one step. -/

def side (c : Dock α) : Inbound α :=
  { pacing := .counting c.common.flight
    queue := c.common.queue
    deferred := c.hands.filterMap Hand.deferred? }

def grant (t : Intake α) (wanted : Bool) : Nat :=
  if wanted && t.reached then t.requested + 1 else t.requested

/-- The completion is looked for, then the count, then the queue is closed or the next message asked
for. -/
theorem alone_asking (t : Intake α) (b : Bool) :
    Crew.Alone next t ⟨b, .asking⟩
      { t with queue := (t.flight.next t.queue).1, requested := t.grant (t.flight.next t.queue).2 }
      none := by
  by_cases hd : t.flight.drained = true
  · have hnext : t.flight.next t.queue = ((t.queue.close .completed).1, false) := if_pos hd
    simp only [InFlight.drained, Bool.and_eq_true] at hd
    rw [hnext]
    refine .more (t := t) (q := ⟨b, .counting⟩) (by simp [next, move, hd.1, onTask]) ?_
    exact .more (t := t) (q := ⟨b, .closing⟩) (by simp [next, move, hd.2, onTask]) (.last rfl)
  · have hnext : t.flight.next t.queue = (t.queue, true) := if_neg hd
    rw [hnext]
    have hrequests : Crew.Alone next t ⟨b, .requesting⟩ { t with requested := t.grant true } none := by
      refine .last ?_
      by_cases hr : t.reached = true
      · simp only [next, move, grant, Bool.true_and, if_pos hr]
        rfl
      · simp only [next, move, grant, Bool.true_and, if_neg hr]
        rfl
    by_cases hc : t.flight.completed = true
    · have hn : (t.flight.count == 0) = false := by simpa [InFlight.drained, hc] using hd
      refine .more (t := t) (q := ⟨b, .counting⟩) (by simp [next, move, hc, onTask]) ?_
      exact .more (t := t) (q := ⟨b, .requesting⟩) (by simp [next, move, hn, onTask]) hrequests
    · exact .more (t := t) (q := ⟨b, .requesting⟩) (by simp [next, move, hc, onTask]) hrequests

/-- A value that is delivered and handled without anybody in between. -/
theorem deliver_alone (c : Dock α) (hi : idle c = true) (he : c.common.ended = false) (v : α) :
    ∃ n, let d := run c (.deliver v :: List.replicate n (.act c.hands.length))
      side d = ((side c).onValue v).1 ∧
        d.common.requested = c.common.grant ((side c).onValue v).2.2 := by
  set t : Intake α := { c.common with delivered := c.common.delivered ++ [v] } with ht
  have hstep : step c (.deliver v) = { common := t, hands := c.hands ++ [⟨true, .entering v⟩] } := by
    simp [step, hi, he, ht]
  suffices h : ∃ u o, Crew.Alone next t ⟨true, .entering v⟩ u o ∧
      side { common := u, hands := c.hands ++ o.toList } = ((side c).onValue v).1 ∧
      u.requested = c.common.grant ((side c).onValue v).2.2 by
    obtain ⟨u, o, halone, hside, hrequested⟩ := h
    obtain ⟨n, hn⟩ := halone.joins step_act hstep
    refine ⟨n, ?_⟩
    rw [run, hn]
    exact ⟨hside, hrequested⟩
  set f : InFlight := c.common.flight with hf
  have henter : next t ⟨true, .entering v⟩ =
      ({ t with flight := f.enter }, some ⟨true, .trying v⟩) := rfl
  cases ho : c.common.queue.closedForSend with
  | true =>
    have hlate : next { t with flight := f.enter } ⟨true, .trying v⟩ =
        ({ t with flight := f.enter }, some ⟨true, .leaving .late⟩) := by
      simp [next, move, ht, Queue.trySend, ho, onTask]
    rw [onValue_of_closed (b := side c) ho]
    exact ⟨t, none, .more henter (.more hlate (.last rfl)), by simp [side, ht], rfl⟩
  | false =>
    cases hr : c.common.queue.hasRoom with
    | true =>
      have hplaced : next { t with flight := f.enter } ⟨true, .trying v⟩ =
          ({ t with flight := f.enter, queue := (side c).pushed v },
            some ⟨true, .leaving .placed⟩) := by
        simp [next, move, ht, Queue.trySend, ho, hr, onTask, side, pushed]
      have hleaves : next { t with flight := f.enter, queue := (side c).pushed v }
          ⟨true, .leaving .placed⟩ = ({ t with queue := (side c).pushed v }, some ⟨true, .asking⟩) := rfl
      rw [onValue_counting_room (b := side c) ho hr rfl]
      exact ⟨_, none, .more henter (.more hplaced (.more hleaves (alone_asking _ _))),
        by simp [side, ht], rfl⟩
    | false =>
      have hfull : next { t with flight := f.enter } ⟨true, .trying v⟩ =
          ({ t with flight := f.enter }, some ⟨true, .sending v⟩) := by
        simp [next, move, ht, Queue.trySend, ho, hr, onTask]
      rw [onValue_counting_full (b := side c) ho hr rfl]
      exact ⟨{ t with flight := f.enter, queue := (t.queue.send v).1 },
        some ⟨false, .waiting (t.queue.send v).2⟩,
        .more henter (.more hfull (.more rfl (.last rfl))),
        by simp [side, ht, hf, defer, Hand.deferred?], rfl⟩

/-- A completion that is handled without anybody in between. -/
theorem complete_alone (c : Dock α) (hi : idle c = true) :
    ∃ n, side (run c (.complete :: List.replicate n (.act c.hands.length))) =
      (side c).onCompleted := by
  set f : InFlight := { c.common.flight with completed := true } with hf
  set t : Intake α := { c.common with ended := true } with ht
  have hstep : step c .complete = { common := t, hands := c.hands ++ [⟨true, .completing⟩] } := by
    simp [step, hi, ht]
  have halone : Crew.Alone next t ⟨true, .completing⟩
      { t with flight := f, queue := (f.finish c.common.queue).2 } none := by
    refine .more (t := { t with flight := f }) (q := ⟨true, .confirming⟩) rfl ?_
    by_cases hzero : (f.count == 0) = true
    · have hfinish : (f.finish c.common.queue).2 = (c.common.queue.close .completed).1 := if_pos hzero
      rw [hfinish]
      refine .more (t := { t with flight := f }) (q := ⟨true, .closing⟩) ?_ (.last rfl)
      simp [next, move, hzero, onTask]
    · have hfinish : (f.finish c.common.queue).2 = c.common.queue := if_neg hzero
      rw [hfinish]
      refine .last ?_
      simp [next, move, hzero, ht]
  obtain ⟨n, hn⟩ := halone.joins step_act hstep
  rw [Option.toList_none, List.append_nil] at hn
  refine ⟨n, ?_⟩
  rw [run, hn]
  rfl

/-- The task of a deferred value that is looked at without anybody in between. -/
theorem task_alone (t : Intake α) (before after : List (Hand α)) (b : Bool) (e : Enqueue) :
    let c : Dock α := { common := t, hands := before ++ ⟨b, .waiting e⟩ :: after }
    let i := (before.filterMap Hand.deferred?).length
    ∃ n, let d := run c (List.replicate n (.act before.length))
      side d = ((side c).pollDeferred i).1 ∧
        d.common.requested = t.grant ((side c).pollDeferred i).2.1 := by
  intro c i
  have hdeferred : (side c).deferred =
      before.filterMap Hand.deferred? ++ e :: after.filterMap Hand.deferred? := by
    simp [side, c, Hand.deferred?]
  suffices h : ∃ u o, Crew.Alone next t ⟨b, .waiting e⟩ u o ∧
      side { common := u, hands := before ++ o.toList ++ after } = ((side c).pollDeferred i).1 ∧
      u.requested = t.grant ((side c).pollDeferred i).2.1 by
    obtain ⟨u, o, halone, hside, hrequested⟩ := h
    obtain ⟨n, hn⟩ := halone.moves step_act before after
    refine ⟨n, ?_⟩
    rw [run, hn]
    exact ⟨hside, hrequested⟩
  rw [pollDeferred_split hdeferred, show (side c).queue = t.queue from rfl]
  rcases hsend : t.queue.pollSend e with ⟨q, _, r⟩
  cases r with
  | none =>
    have hwaits : next t ⟨b, .waiting e⟩ = (t, some ⟨false, .waiting e⟩) := by
      simp [next, move, hsend, onTask]
    exact ⟨t, _, .last hwaits, by simp [side, c, Hand.deferred?], rfl⟩
  | some r =>
    have htold : next t ⟨b, .waiting e⟩ = ({ t with queue := q }, some ⟨b, .leaving (.told r)⟩) := by
      simp [next, move, hsend, onTask]
    set left : Intake α := { t with queue := q, flight := t.flight.leave } with hleft
    cases r with
    | ok u =>
      have hleaves : next { t with queue := q } ⟨b, .leaving (.told (.ok u))⟩ =
          (left, some ⟨b, .checking⟩) := by
        simp [next, move, onTask, hleft]
      by_cases hdone : q.closedForReceive = true
      · have hchecks : next left ⟨b, .checking⟩ = (left, none) := by
          simp [next, move, hleft, hdone]
        exact ⟨left, none, .more htold (.more hleaves (.last hchecks)),
          by simp [side, onEnqueued, c, hdone, hleft], by simp [onEnqueued, side, c, hdone, grant, hleft]⟩
      · have hchecks : next left ⟨b, .checking⟩ = (left, some ⟨b, .asking⟩) := by
          simp [next, move, hleft, hdone, onTask]
        exact ⟨_, none, .more htold (.more hleaves (.more hchecks (alone_asking left b))),
          by simp [side, onEnqueued, c, hdone, hleft], by simp [onEnqueued, side, c, hdone, grant, hleft]⟩
    | error err =>
      have hleaves : next { t with queue := q } ⟨b, .leaving (.told (.error err))⟩ =
          (left, some ⟨b, .failing err.status⟩) := by
        simp [next, move, onTask, hleft]
      exact ⟨{ left with queue := (q.close (.failed err.status)).1 }, none,
        .more htold (.more hleaves (.last rfl)), by simp [side, onEnqueued, c, hleft], rfl⟩

end Intake
end Inbound
end PacedCall
