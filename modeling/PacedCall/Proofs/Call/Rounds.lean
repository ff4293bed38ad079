import PacedCall.Proofs.Call.Lookout

/-!
The pump round by round. A round takes something out of the queue only after it found the call
ready, or if nothing is left to be written; so it never finds the queue empty, each write follows a
look at the readiness of its own, and a look at the pump is over after as many rounds as there are
values, and one more.
-/
namespace PacedCall

namespace Call
variable {α : Type} {c d e : Call α} {told : Prop}

/-- The look at the readiness that a round of the pump makes. None is made while there is nothing
to take, nor before a queue that is closed and drained. -/
def checks? (c : Call α) : Option (Readiness Unit × Readiness.Wait × Option (Except Status Unit)) :=
  match c.pump with
  | .finished => none
  | .readying w => some (c.readiness.poll () c.control w)
  | .reading =>
    if c.outbound.readable && !c.outbound.closedForReceive then
      some (c.readiness.poll () c.control .fresh)
    else none

def concludes (c : Call α) : Bool :=
  match c.pump with
  | .reading => c.outbound.closedForReceive
  | _ => false

def receives? (c : Call α) : Option (Received α) :=
  match c.checks? with
  | some (_, _, some (.ok _)) => some c.outbound.tryRecv.2
  | some _ => none
  | none => if c.concludes then some c.outbound.tryRecv.2 else none

/-- A round is its look at the readiness and what follows from it. -/
theorem pumpTurn_eq (c : Call α) :
    c.pumpTurn =
      match c.checks? with
      | some (r, w, none) => ({ c with readiness := r, pump := .readying w }, false)
      | some (r, _, some (.ok _)) => pumpNext { c with readiness := r }
      | some (r, _, some (.error _)) => (stopPump { c with readiness := r }, false)
      | none => if c.concludes then c.pumpNext else (c, false) := by
  unfold pumpTurn checks? concludes pumpReady
  cases c.pump with
  | finished => simp
  | readying w =>
    simp only
    rcases c.readiness.poll () c.control w with ⟨r, w', _ | _ | u⟩ <;> rfl
  | reading =>
    by_cases hleft : c.outbound.closedForReceive = true
    · simp [hleft, Queue.readable_of_closedForReceive hleft]
    · by_cases hread : c.outbound.readable = true
      · simp only
        rw [if_neg (by simp [hread]), if_neg hleft, if_pos (by simp [hread, hleft])]
        rcases c.readiness.poll () c.control .fresh with ⟨r, w', _ | _ | u⟩ <;> rfl
      · simp [hleft, hread]

/-! A round that writes. -/

def Supplied (c : Call α) : Prop :=
  c.outbound.buffer ≠ [] ∨ c.readiness.cause.isSome = true

/-- What a round of the pump can rely on: a value it waits to write is not taken from it, and it was
`told` of the readiness that it goes by. -/
structure Primed (told : Prop) (c : Call α) : Prop where
  orderly : c.outbound.Orderly
  supplied : ∀ w, c.pump = .readying w → c.Supplied
  heard : c.readiness.heard = true → told

/-- What a round of the pump comes to: what it takes and after which look, what it writes, and that
it goes on only with one value less. -/
structure Works (told : Prop) (c : Call α) : Prop where
  found : c.receives? ≠ some .empty
  checked : ∀ v, c.receives? = some (.item v) →
    c.handle.ready = true ∧ told ∧ ∃ r w, c.checks? = some (r, w, some (.ok ()))
  unchecked : ∀ how, c.receives? = some (.closed how) → c.checks? = none
  written : c.pumpTurn.1.wire.sent = c.wire.sent ∨
    ∃ v, c.receives? = some (.item v) ∧ c.pumpTurn.1.wire.sent = c.wire.sent.push v
  goes : c.pumpTurn.2 = true → c.pumpTurn.1.outbound.length + 1 = c.outbound.length
  stops : c.pumpTurn.2 = false → c.receives?.isSome = true → c.pumpTurn.1.pump.done = true

theorem closedForReceive_of_concludes (h : c.concludes = true) :
    c.outbound.closedForReceive = true := by
  unfold concludes at h
  split at h
  · exact h
  · cases h

/-- A look at the readiness is made by a pump that runs, for a value that is there. -/
theorem Primed.of_checks (h : c.Primed told)
    {x : Readiness Unit × Readiness.Wait × Option (Except Status Unit)} (hx : c.checks? = some x) :
    c.Supplied ∧ ∃ w, x = c.readiness.poll () (some c.handle.ready) w := by
  have hcontrol : c.pump.done = false → c.control = some c.handle.ready := fun hp => by
    rw [control, if_pos (alive_of_pump hp)]
  unfold checks? at hx
  cases hp : c.pump with
  | finished => simp [hp] at hx
  | readying w =>
    simp only [hp, Option.some.injEq] at hx
    rw [hcontrol (by rw [hp]; rfl)] at hx
    exact ⟨h.supplied w hp, w, hx.symm⟩
  | reading =>
    simp only [hp] at hx
    split at hx
    · next hread =>
      simp only [Bool.and_eq_true, Bool.not_eq_true'] at hread
      rw [hcontrol (by rw [hp]; rfl)] at hx
      exact ⟨.inl (Queue.buffer_of_readable h.orderly hread.1 hread.2), .fresh,
        (Option.some.inj hx).symm⟩
    · cases hx

/-- A round receives the value it may write, or the end of a queue that is closed and drained. -/
theorem Primed.of_receives (h : c.Primed told) {x : Received α} (hx : c.receives? = some x) :
    (∃ v, x = .item v ∧ c.handle.ready = true ∧ told ∧
        ∃ r w, c.checks? = some (r, w, some (.ok ()))) ∨
      ∃ how, x = .closed how ∧ c.checks? = none := by
  unfold receives? at hx
  split at hx
  · next r w u hcheck =>
    obtain ⟨hsupplied, w', hpoll⟩ := h.of_checks hcheck
    -- A look that succeeds finds the wait not cancelled, so the value it is for is still there.
    obtain ⟨hgoes, hready, hheard⟩ := Readiness.poll_ok (by rw [← hpoll])
    obtain ⟨v, hv⟩ := Queue.item_tryRecv (hsupplied.resolve_right (by simp [hgoes]))
    exact .inl ⟨v, (Option.some.inj hx).symm.trans hv, Option.some.inj hready, h.heard hheard, r, w,
      hcheck⟩
  · cases hx
  · next hcheck =>
    split at hx
    · next hend =>
      obtain ⟨how, hhow⟩ := Queue.closed_tryRecv (closedForReceive_of_concludes hend)
      exact .inr ⟨how, (Option.some.inj hx).symm.trans hhow, hcheck⟩
    · cases hx

/-- A round that receives goes on with what it received. -/
theorem next_of_receives {x : Received α} (hx : c.receives? = some x) :
    c.outbound.tryRecv.2 = x ∧ ∃ r, Next { c with readiness := r } c.pumpTurn := by
  have hturn := pumpTurn_eq c
  unfold receives? at hx
  split at hx
  · next r w u hcheck =>
    rw [hcheck] at hturn
    exact ⟨Option.some.inj hx, r, hturn ▸ pumpNext_next { c with readiness := r }⟩
  · cases hx
  · next hcheck =>
    split at hx
    · next hend =>
      rw [hcheck, if_pos hend] at hturn
      exact ⟨Option.some.inj hx, c.readiness, hturn ▸ pumpNext_next c⟩
    · cases hx

/-- A round that receives nothing is the last one, and writes nothing. -/
theorem rest_of_receives (hx : c.receives? = none) :
    c.pumpTurn.2 = false ∧ c.pumpTurn.1.wire = c.wire := by
  have hturn := pumpTurn_eq c
  unfold receives? at hx
  split at hx
  · cases hx
  · next x hnot hcheck =>
    rw [hcheck] at hturn
    obtain ⟨r, w, _ | st | u⟩ := x
    · rw [hturn]
      exact ⟨rfl, rfl⟩
    · rw [hturn]
      exact ⟨rfl, rfl⟩
    · exact absurd rfl (hnot r w u)
  · next hcheck =>
    split at hx
    · cases hx
    · next hend =>
      rw [hcheck, if_neg hend] at hturn
      rw [hturn]
      exact ⟨rfl, rfl⟩

theorem sent_halfClose (h : Handle α) : h.halfClose.1.transport.sent = h.transport.sent := by
  rw [Handle.halfClose]
  split <;> rfl

/-- What is taken is written and one value less is left, or the pump ends and writes nothing. -/
theorem next_writes {b : Bool} (hsome : c.outbound.tryRecv.2 ≠ .empty) (hx : Next c (d, b)) :
    b = true ∧ d.outbound.length + 1 = c.outbound.length ∧
        (∃ v, c.outbound.tryRecv.2 = .item v ∧ d.wire.sent = c.wire.sent.push v) ∨
      b = false ∧ d.pump.done = true ∧ d.wire.sent = c.wire.sent := by
  cases hx with
  | @wrote q v h hq hs =>
    obtain ⟨_, _, _, rfl⟩ := Handle.sendMessage_ok hs
    exact .inl ⟨rfl, Queue.length_of_tryRecv_item hq, v, by rw [hq], rfl⟩
  | refused hq hs => exact .inr ⟨rfl, rfl, congrArg Loopback.sent (wire_failOutbound _ _)⟩
  | empty hq => exact absurd hq hsome
  | completed hq =>
    refine .inr ⟨rfl, rfl, ?_⟩
    split
    · rfl
    · exact sent_halfClose c.handle
  | failed hq => exact .inr ⟨rfl, rfl, congrArg Loopback.sent (wire_failOutbound c _)⟩

theorem Primed.found (h : c.Primed told) : c.receives? ≠ some .empty := by
  intro hx
  obtain ⟨v, hv, _⟩ | ⟨how, hhow, _⟩ := h.of_receives hx
  · cases hv
  · cases hhow

/-- A round receives nothing and stops, or takes a value and goes on, or takes the end or a value
that is refused, and ends the pump. -/
theorem Primed.turn (h : c.Primed told) :
    c.receives? = none ∧ c.pumpTurn.2 = false ∧ c.pumpTurn.1.wire = c.wire ∨
      ∃ x, c.receives? = some x ∧
        (c.pumpTurn.2 = true ∧ c.pumpTurn.1.outbound.length + 1 = c.outbound.length ∧
            (∃ v, x = .item v ∧ c.pumpTurn.1.wire.sent = c.wire.sent.push v) ∨
          c.pumpTurn.2 = false ∧ c.pumpTurn.1.pump.done = true ∧
            c.pumpTurn.1.wire.sent = c.wire.sent) := by
  cases hx : c.receives? with
  | none => exact .inl ⟨rfl, rest_of_receives hx⟩
  | some x =>
    obtain ⟨rfl, r, hnext⟩ := next_of_receives hx
    have hsome : c.outbound.tryRecv.2 ≠ .empty := fun he => h.found (hx.trans (congrArg some he))
    exact .inr ⟨_, rfl, next_writes (c := { c with readiness := r }) hsome hnext⟩

theorem Primed.works (h : c.Primed told) : c.Works told := by
  refine ⟨h.found, ?_, ?_, ?_, ?_, ?_⟩
  · intro v hx
    obtain ⟨_, _, hchecked⟩ | ⟨how, hhow, _⟩ := h.of_receives hx
    · exact hchecked
    · cases hhow
  · intro how hx
    obtain ⟨v, hv, _⟩ | ⟨_, _, hnone⟩ := h.of_receives hx
    · cases hv
    · exact hnone
  · obtain ⟨_, _, hwire⟩ | ⟨x, hx, ⟨_, _, v, rfl, hsent⟩ | ⟨_, _, hsent⟩⟩ := h.turn
    · exact .inl (congrArg Loopback.sent hwire)
    · exact .inr ⟨v, hx, hsent⟩
    · exact .inl hsent
  · intro hgoes
    obtain ⟨_, hstops, _⟩ | ⟨x, hx, ⟨_, hlen, _⟩ | ⟨hstops, _⟩⟩ := h.turn
    · simp [hgoes] at hstops
    · exact hlen
    · simp [hgoes] at hstops
  · intro hstops hsome
    obtain ⟨hnone, _⟩ | ⟨x, hx, ⟨hgoes, _⟩ | ⟨_, hdone, _⟩⟩ := h.turn
    · simp [hnone] at hsome
    · simp [hgoes] at hstops
    · exact hdone

/-! What a round leaves to the next one. -/

theorem next_running {x : Call α × Bool} (hx : Next c x) :
    x.1.readiness = c.readiness ∧ ∀ w, x.1.pump ≠ .readying w := by
  cases hx with
  | wrote | empty => exact ⟨rfl, by simp⟩
  | refused | failed =>
    refine ⟨?_, by simp [stopPump]⟩
    simp only [stopPump, failOutbound]
    split <;> rfl
  | completed =>
    refine ⟨?_, by simp [stopPump]⟩
    simp only [stopPump]
    split <;> rfl

theorem Primed.pumpTurn {R : List (Entry α)} {D : List Nat} (h : c.Primed told)
    (hsound : c.outgoing.Sound R D) : c.pumpTurn.1.Primed told := by
  have horderly : c.pumpTurn.1.outbound.Orderly := (sound_turn hsound (pumpTurn_turn c)).orderly
  have hturn := pumpTurn_eq c
  cases hcheck : c.checks? with
  | none =>
    rw [hcheck] at hturn
    by_cases hend : c.concludes = true
    · rw [if_pos hend] at hturn
      obtain ⟨hr, hp⟩ := next_running (pumpNext_next c)
      rw [hturn] at horderly ⊢
      exact ⟨horderly, fun w hw => absurd hw (hp w), fun hheard => h.heard (hr ▸ hheard)⟩
    · rw [if_neg hend] at hturn
      rw [hturn]
      exact h
  | some x =>
    rw [hcheck] at hturn
    obtain ⟨hsupplied, w, hpoll⟩ := h.of_checks hcheck
    have hheard : x.1.heard = true → told := fun hx =>
      h.heard (Readiness.heard_of_poll (by rw [← hpoll]; exact hx))
    obtain ⟨r, w', _ | st | u⟩ := x
    · -- Only here the pump comes to wait, on a value that it leaves in the queue.
      have hgoes := Readiness.poll_none (by rw [← hpoll])
      rw [hturn] at horderly ⊢
      exact ⟨horderly, fun _ _ => .inl (hsupplied.resolve_right (by simp [hgoes])), hheard⟩
    · rw [hturn] at horderly ⊢
      exact ⟨horderly, nofun, hheard⟩
    · obtain ⟨hr, hp⟩ := next_running (pumpNext_next { c with readiness := r })
      rw [hturn] at horderly ⊢
      exact ⟨horderly, fun w hw => absurd hw (hp w), fun hx => hheard (by rwa [hr] at hx)⟩

inductive Rounds : Call α → List (Call α) → Call α → Prop where
  | stops {c d : Call α} (ht : c.pumpTurn = (d, false)) : Rounds c [c] d
  | goes {c d e : Call α} {cs : List (Call α)} (ht : c.pumpTurn = (d, true))
      (hrest : Rounds d cs e) : Rounds c (c :: cs) e

theorem exists_rounds {R : List (Entry α)} {D : List Nat} (h : c.Primed told)
    (hsound : c.outgoing.Sound R D) {fuel : Nat} (hf : c.outbound.length < fuel) :
    ∃ cs, Rounds c cs (pumpWith fuel c).1 ∧ cs.length ≤ c.outbound.length + 1 ∧
      (∀ r ∈ cs, r.Works told) ∧ (pumpWith fuel c).1.Primed told := by
  induction fuel generalizing c with
  | zero => omega
  | succ fuel ih =>
    have hworks := h.works
    have hprimed := h.pumpTurn hsound
    have hturn := pumpTurn_turn c
    rw [pumpWith]
    split
    · next d heq =>
      have hlen : d.outbound.length + 1 = c.outbound.length := by
        have hgoes := hworks.goes (by rw [heq])
        rwa [heq] at hgoes
      rw [heq] at hprimed hturn
      obtain ⟨cs, hrounds, hbound, hall, hlast⟩ :=
        ih (c := d) hprimed (sound_turn hsound hturn) (by omega)
      refine ⟨c :: cs, .goes heq hrounds, ?_, ?_, hlast⟩
      · rw [List.length_cons]
        omega
      · rintro r (_ | ⟨_, hr⟩)
        · exact hworks
        · exact hall r hr
    · next d heq =>
      rw [heq] at hprimed
      refine ⟨[c], .stops heq, by simp, ?_, hprimed⟩
      rintro r (_ | ⟨_, hr⟩)
      · exact hworks
      · cases hr

/-! Whatever happens beside the pump. -/

theorem readiness_ask (c : Call α) (wanted : Bool) : (c.ask wanted).readiness = c.readiness := by
  rw [ask]
  split <;> rfl

/-- What the pump relies on is left to it: what it waits to write is discarded only together with
its wait, and no signal comes without word of the readiness. -/
structure Minds (told : Prop) (c d : Call α) : Prop where
  supplied : c.Supplied → d.Supplied
  heard : d.readiness.heard = true → c.readiness.heard = true ∨ told

namespace Minds

theorem trans (h : Minds told c d) (g : Minds told d e) : Minds told c e :=
  ⟨fun hc => g.supplied (h.supplied hc), fun he => (g.heard he).elim h.heard .inr⟩

theorem imp {told' : Prop} (h : Minds told c d) (htold : told → told') : Minds told' c d :=
  ⟨h.supplied, fun hd => (h.heard hd).imp_right htold⟩

theorem of_same (hout : d.outbound = c.outbound) (hready : d.readiness = c.readiness) :
    Minds told c d :=
  ⟨fun hc => by rwa [Supplied, hout, hready], fun hd => .inl (hready ▸ hd)⟩

theorem refl (c : Call α) : Minds told c c := of_same rfl rfl

/-- The outbound direction ends, and the wait with it. -/
theorem of_end (st : Status) (hready : d.readiness = c.readiness.cancel st) : Minds told c d :=
  ⟨fun _ => .inr (by rw [hready]; rfl), fun hd => .inl (by rw [hready] at hd; exact hd)⟩

/-- The sending half takes nothing out of the buffer. -/
theorem of_buffer (hbuffer : c.outbound.buffer <+: d.outbound.buffer)
    (hready : d.readiness = c.readiness) : Minds told c d := by
  refine ⟨?_, fun hd => .inl (hready ▸ hd)⟩
  rintro (hc | hc)
  · exact .inl fun hd => hc (List.prefix_nil.mp (hd ▸ hbuffer))
  · exact .inr (hready ▸ hc)

theorem ask (c : Call α) (wanted : Bool) : Minds told c (c.ask wanted) := by
  refine of_same ?_ (readiness_ask c wanted)
  rw [Call.ask]
  split <;> rfl

theorem hear (c : Call α) (n : Notice α) : Minds (n = .ready) c (c.hear n) := by
  have hx := hear_hears c n
  generalize c.hear n = d at hx ⊢
  cases hx with
  | message _ v =>
    refine Minds.trans ?_ (ask _ _)
    exact of_same rfl rfl
  | late | completed | cancelled => exact of_same rfl rfl
  | gone => exact refl c
  | failed _ st => exact of_end st rfl
  | ready =>
    refine Minds.trans ?_ (ask _ _)
    refine ⟨?_, fun _ => .inr rfl⟩
    rintro (hc | hc)
    · exact .inl hc
    · exact .inr (by rw [Readiness.signal_cause]; exact hc)

theorem peer (c : Call α) (a : PeerAct α) : Minds (a.notice? = some .ready) c (c.peer a) := by
  rw [peer_eq]
  have hwire : Minds (a.notice? = some .ready) c (c.withWire (c.wire.peer a).1) := of_same rfl rfl
  cases hn : (c.wire.peer a).2 with
  | none => exact hwire
  | some n =>
    have hnotice := Loopback.notice_of_peer hn
    refine hwire.trans ((hear _ n).imp ?_)
    rintro rfl
    exact hnotice

theorem tearDown (c : Call α) : Minds told c c.tearDown := by
  rw [Call.tearDown]
  obtain ⟨origin, st⟩ := c.scope.cause.getD (.here, .localCancelled)
  exact of_end st rfl

theorem watch {now : Nat} (hw : Watch c now d) : Minds told c d := by
  cases hw with
  | tornDown hs => exact tearDown c
  | expired =>
    have hcancel : Minds told c (c.cancelScope .here .deadlineElapsed) := of_same rfl rfl
    exact hcancel.trans (tearDown _)
  | rest | settled | watching => exact of_same rfl rfl

theorem cancelInbound (c : Call α) : Minds told c c.cancelInbound := by
  unfold Call.cancelInbound
  simp only
  split <;> exact of_same rfl rfl

theorem dropInbound (c : Call α) : Minds told c c.dropInbound := by
  rw [Call.dropInbound]
  split
  · exact refl c
  · split
    · exact cancelInbound c
    · exact of_same rfl rfl

theorem trySend (c : Call α) (v : α) : Minds told c (c.trySend v).1 := by
  rw [Call.trySend]
  split
  · exact refl c
  · exact of_buffer (c.outbound.buffer_trySend v) rfl

theorem close (c : Call α) (how : Termination) : Minds told c (c.closeOutbound how).1 :=
  of_buffer (c.outbound.buffer_close how ▸ List.prefix_rfl) rfl

theorem dropSend (c : Call α) (sd : Send α) : Minds told c (c.dropSend sd) := by
  cases sd with
  | fresh v => exact refl c
  | placed e => exact of_buffer (c.outbound.buffer_dropSend e ▸ List.prefix_rfl) rfl

theorem pollSend (c : Call α) (sd : Send α) : Minds told c (c.pollSend sd).1 := by
  have hlook : ∀ (q : Queue α) (e : Enqueue), c.outbound.buffer <+: q.buffer →
      Minds told c { c with outbound := (q.pollSend e).1 } := fun q e hq =>
    of_buffer (hq.trans (q.buffer_pollSend e ▸ List.prefix_rfl)) rfl
  unfold Call.pollSend
  split
  · exact dropSend c sd
  · cases sd with
    | fresh v => exact hlook _ _ (c.outbound.buffer_send v)
    | placed e => exact hlook _ e List.prefix_rfl

theorem dropSink (c : Call α) : Minds told c c.dropSink := by
  rw [Call.dropSink]
  have hless : Minds told c { c with sinks := c.sinks - 1 } := of_same rfl rfl
  simp only
  split
  · exact hless.trans (close _ .completed)
  · exact hless

end Minds

theorem Primed.imp {told' : Prop} (h : c.Primed told) (htold : told → told') : c.Primed told' :=
  ⟨h.orderly, h.supplied, fun hheard => htold (h.heard hheard)⟩

theorem Primed.beside (h : c.Primed told) (hm : Minds told c d) (hp : d.pump = c.pump)
    (ho : d.outbound.Orderly) : d.Primed told :=
  ⟨ho, fun w hw => hm.supplied (h.supplied w (hp ▸ hw)),
    fun hd => (hm.heard hd).elim h.heard id⟩

/-! A pump with nothing left to write. -/

theorem pollPump_of_stops (h : c.pumpTurn.2 = false) : c.pollPump = c.pumpTurn.1 := by
  rw [pollPump, pumpWith]
  split
  · next heq => simp [heq] at h
  · next heq => rw [heq]

def concluded (c : Call α) : Termination → Call α
  | .completed => if c.scope.cancelled then c else { c with handle := c.handle.halfClose.1 }
  | .failed st => c.failOutbound st

/-- Before a queue that is closed and drained the pump ends at once, whatever the readiness. -/
theorem pollPump_of_drained (hp : c.pump = .reading) {how : Termination}
    (ht : c.outbound.termination = some how) (hl : c.outbound.line = []) :
    c.checks? = none ∧ c.pollPump = (c.concluded how).stopPump := by
  obtain ⟨hb, hw⟩ := List.append_eq_nil_iff.mp hl
  have hclosed : c.outbound.closedForReceive = true := by
    simp [Queue.closedForReceive, ht, hb, List.map_eq_nil_iff.mp hw]
  have hcheck : c.checks? = none := by simp [checks?, hp, hclosed]
  have hend : c.concludes = true := by simp [concludes, hp, hclosed]
  have hrecv : c.outbound.tryRecv = (c.outbound, .closed how) := by simp [Queue.tryRecv, hb, ht]
  have hturn := pumpTurn_eq c
  rw [hcheck, if_pos hend, pumpNext, hrecv] at hturn
  refine ⟨hcheck, ?_⟩
  cases how with
  | completed =>
    rw [pollPump_of_stops (by rw [hturn]), hturn]
    rfl
  | failed st =>
    rw [pollPump_of_stops (by rw [hturn]), hturn]
    rfl

theorem done_of_drained (h : c.Primed told) (hclosed : c.outbound.closedForReceive = true) :
    c.pollPump.pump.done = true := by
  obtain ⟨hterm, hl⟩ := h.orderly.closedForReceive_iff.mp hclosed
  cases hp : c.pump with
  | finished =>
    have hdone : c.pump.done = true := by rw [hp]; rfl
    rw [pollPump_of_done hdone]
    exact hdone
  | reading =>
    obtain ⟨how, ht⟩ := Option.isSome_iff_exists.mp hterm
    rw [(pollPump_of_drained hp ht hl).2]
    rfl
  | readying w =>
    -- The value it waited to write was discarded, so the wait was told to end.
    have hb : c.outbound.buffer = [] := (List.append_eq_nil_iff.mp hl).1
    obtain ⟨st, hst⟩ := Option.isSome_iff_exists.mp ((h.supplied w hp).resolve_left (by simp [hb]))
    have hcheck : c.checks? = some ((c.readiness.poll () c.control w).1, .fresh,
        some (.error st)) := by
      rw [checks?, hp, ← Readiness.error_of_cause (w := w) hst]
    have hturn := pumpTurn_eq c
    rw [hcheck] at hturn
    rw [pollPump_of_stops (by rw [hturn]), hturn]
    rfl

end Call

/-- A transport that is not ready says nothing when a call takes it over. -/
theorem CallPlan.start_of_unready {α : Type} (p : CallPlan) {wire : Loopback α}
    (hready : wire.ready = false) (inbound : Inbound α) (q : Queue α) (sinks : Nat) :
    p.start wire inbound q sinks = p.idle wire inbound q sinks := by
  rw [start_eq]
  simp [Loopback.start, Loopback.watch, Loopback.disableAutomaticCredit, hready, Call.hear?]

/-! A whole run. -/

namespace Course
variable {α : Type} {s : Course α} {told : Prop}

/-- The call was told of the readiness of its transport: when it took it over, or by the peer
later. -/
def Notified (ready : Bool) (acts : List (PeerAct α)) (ms : List (Move α)) : Prop :=
  (Loopback.before ready acts).ready = true ∨ ∃ a, .peer a ∈ ms ∧ a.notice? = some .ready

theorem minds_step (s : Course α) {m : Move α} (hm : m ≠ .pump)
    (htold : ∀ a, m = .peer a → a.notice? = some .ready → told) :
    s.call.Minds told (s.step m).call := by
  cases m with
  | pump => exact absurd rfl hm
  | peer a => exact (Call.Minds.peer s.call a).imp (htold a rfl)
  | supervise => exact .watch (Call.pollSupervisor_watch _ _)
  | enqueue i =>
    rw [step, withCall, Call.pollDeferred_eq]
    refine Call.Minds.trans ?_ (.ask _ _)
    exact .of_same rfl rfl
  | recv =>
    rw [step, withCall, Call.recv]
    split <;> exact .of_same rfl rfl
  | cancelInbound => exact .cancelInbound _
  | dropInbound => exact .dropInbound _
  | trySend v => exact .trySend _ v
  | pollSend i =>
    rw [step, call_pollSend]
    cases s.sends[i]? with
    | none => exact .refl _
    | some sd => exact .pollSend _ sd
  | dropSend i =>
    rw [step, call_dropSend]
    cases s.sends[i]? with
    | none => exact .refl _
    | some sd => exact .dropSend _ sd
  | close how => exact .close _ how
  | dropSink => exact .dropSink _
  | advance | openSend | cloneSink | cancel | endParent => exact .of_same rfl rfl

theorem primed_opened (o : Opening α) (p : CallPlan) (ready : Bool) (acts : List (PeerAct α)) :
    (opened o p ready acts).call.Primed
      ((Loopback.before ready acts : Loopback α).ready = true) := by
  have hreading : (opened o p ready acts).call.pump = .reading :=
    o.call_of_idle (P := fun c => c.pump = .reading) p _ (by cases o <;> rfl)
      (fun c hc => (Call.beside_hear c .ready).samePump.trans hc)
      (fun c hc => (Call.beside_ask c true).samePump.trans hc) fun _ _ => id
  refine ⟨(sound_opened o p ready acts []).orderly, fun w hw => ?_, fun hheard => ?_⟩
  · rw [hreading] at hw
    cases hw
  · by_contra hready
    have hunready : (Loopback.before ready acts : Loopback α).ready = false := by simpa using hready
    have hstart := p.start_of_unready hunready
    have hbidi : (p.bidi (.before ready acts : Loopback α)).readiness = {} := by
      rw [CallPlan.bidi, hstart, Call.readiness_ask]
      rfl
    have hnone : (opened o p ready acts).call.readiness = {} := by
      cases o with
      | bidi => exact hbidi
      | serve => exact hbidi
      | responses request => exact congrArg Call.readiness (hstart _ _ 0)
    rw [hnone] at hheard
    cases hheard

theorem primed_run (o : Opening α) (p : CallPlan) (ready : Bool) (acts : List (PeerAct α))
    (ms : List (Move α)) :
    ((opened o p ready acts).run ms).call.Primed (Notified ready acts ms) := by
  induction ms using List.reverseRecOn with
  | nil => exact (primed_opened o p ready acts).imp .inl
  | append_singleton ms m ih =>
    have hlater : Notified ready acts ms → Notified ready acts (ms ++ [m]) :=
      Or.imp_right fun ⟨a, ha, hn⟩ => ⟨a, List.mem_append_left _ ha, hn⟩
    have hprimed := ih.imp hlater
    rw [run_concat]
    by_cases hm : m = .pump
    · subst hm
      obtain ⟨_, _, _, _, hlast⟩ :=
        Call.exists_rounds hprimed (sound_opened o p ready acts ms) (Nat.lt_succ_self _)
      exact hlast
    · have horderly := (sound_step (sound_opened o p ready acts ms) m).orderly
      refine hprimed.beside (minds_step _ hm ?_) (beside_step _ hm).samePump horderly
      rintro a rfl hn
      exact .inr ⟨a, by simp, hn⟩

/-- The pump writes only when it may, and never spins. A look at the pump is a chain of rounds, of
which all but the last take a value. What a round takes is a value or the end of the queue; a value
only after a look, in the same round and so after every earlier write, that found the transport
ready after word of its readiness; the end of the queue without any look. -/
theorem writes_follow_readiness (o : Opening α) (p : CallPlan) (ready : Bool)
    (acts : List (PeerAct α)) (ms : List (Move α)) :
    let c := ((opened o p ready acts).run ms).call
    (∃ rounds, c.Rounds rounds c.pollPump ∧ rounds.length ≤ c.outbound.length + 1 ∧
      ∀ r ∈ rounds, r.Works (Notified ready acts ms)) ∧
    (c.outbound.closedForReceive = true → c.pollPump.pump.done = true) ∧
    ∀ how, c.pump = .reading → c.outbound.termination = some how → c.outbound.line = [] →
      c.checks? = none ∧ c.pollPump = (c.concluded how).stopPump := by
  intro c
  have hprimed := primed_run o p ready acts ms
  obtain ⟨rounds, hrounds, hbound, hworks, _⟩ :=
    Call.exists_rounds hprimed (sound_opened o p ready acts ms) (Nat.lt_succ_self _)
  exact ⟨⟨rounds, hrounds, hbound, hworks⟩, Call.done_of_drained hprimed,
    fun _ hp ht hl => Call.pollPump_of_drained hp ht hl⟩

/-- A message waits for readiness, and goes out once the peer reports it; a call that has nothing
to send is half-closed without. -/
theorem writes_follow_readiness_late :
    let opening := opened .bidi { role := .client } false ([] : List (PeerAct Nat))
    let c := (opening.run [.openSend 7, .pollSend 0, .pump, .peer (.setReady true)]).call
    let idle := (opening.run [.close .completed]).call
    (c.receives? = some (.item 7) ∧ c.handle.ready = true ∧
        ∃ r w, c.checks? = some (r, w, some (.ok ()))) ∧
      idle.handle.ready = false ∧ idle.checks? = none ∧ idle.pollPump.pump.done = true ∧
      idle.pollPump.wire.halfClosed = true := by
  intro opening c idle
  obtain ⟨⟨rounds, hrounds, _, hworks⟩, _⟩ := writes_follow_readiness .bidi { role := .client }
    false ([] : List (PeerAct Nat)) [.openSend 7, .pollSend 0, .pump, .peer (.setReady true)]
  obtain ⟨_, hdone, hends⟩ := writes_follow_readiness .bidi { role := .client } false
    ([] : List (PeerAct Nat)) [.close .completed]
  have hfirst : c ∈ rounds := by
    cases hrounds <;> exact List.mem_cons_self
  have hitem : c.receives? = some (.item 7) := rfl
  obtain ⟨hready, _, hchecked⟩ := (hworks c hfirst).checked 7 hitem
  exact ⟨⟨hitem, hready, hchecked⟩, rfl, (hends .completed rfl rfl rfl).1, hdone rfl, rfl⟩

end Course
end PacedCall
