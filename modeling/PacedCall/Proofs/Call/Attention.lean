import PacedCall.Proofs.Call.Lookout

/-!
A pump that waits for readiness misses nothing. Every report that readiness may have changed calls
the one who waits, or is kept for whoever looks next; so a pump that waits and was not called waits
on a transport that is not ready.
-/
namespace PacedCall

namespace Readiness

/-- Where the one writer of a call stands, whose transport is `ready` or not: before a wait, with a
signal kept for it if there is something to see; in line, on a transport that is not ready; or
called out of the line. -/
def Heeds (r : Readiness Unit) (ready : Bool) : Wait → Prop
  | .fresh =>
    r.line = [] ∧ r.called = [] ∧ (ready = true → r.observed = true ∨ r.permit = true)
  | .inLine observed =>
    (observed = true → r.observed = true) ∧
      (r.line = [()] ∧ r.called = [] ∧ ready = false ∨ r.line = [] ∧ r.called = [()])

variable {r : Readiness Unit} {ready : Bool} {w : Wait}

/-- A signal may come with any change of readiness. -/
theorem heeds_signal (h : r.Heeds ready w) (later : Bool) : r.signal.Heeds later w := by
  unfold signal
  cases w with
  | fresh =>
    obtain ⟨hline, hcalled, _⟩ := h
    simp only [hline]
    exact ⟨rfl, hcalled, fun _ => .inr rfl⟩
  | inLine observed =>
    obtain ⟨hobserved, ⟨hline, hcalled, _⟩ | ⟨hline, hcalled⟩⟩ := h
    · simp only [hline, hcalled]
      exact ⟨hobserved, .inr ⟨rfl, rfl⟩⟩
    · simp only [hline]
      exact ⟨hobserved, .inr ⟨rfl, hcalled⟩⟩

/-- What a wait leaves behind that was not cancelled: it goes on in line, without a call, on a
transport that is not ready; or it is over, and the next one will look. -/
def Leaves (ready : Bool) (x : Readiness Unit × Wait × Option (Except Status Unit)) : Prop :=
  match x with
  | (r, w, none) =>
    (∃ observed, w = .inLine observed) ∧ r.Heeds ready w ∧ r.called = []
  | (r, _, some (.ok _)) => r.Heeds ready .fresh
  | (_, _, some (.error _)) => True

/-- A look at a call that was looked at before. -/
theorem leaves_check (hline : r.line = []) (hcalled : r.called = []) (hobserved : r.observed = true)
    (ready : Bool) : Leaves ready (r.check () (some ready)) := by
  unfold check
  split
  · exact trivial
  · next heq => cases heq
  · exact ⟨hline, hcalled, fun _ => .inl hobserved⟩
  · next heq =>
    obtain rfl := Option.some.inj heq
    refine ⟨⟨true, rfl⟩, ⟨fun _ => hobserved, .inl ⟨?_, hcalled, rfl⟩⟩, hcalled⟩
    simp [enter, hline]

theorem leaves_poll (h : r.Heeds ready w) : Leaves ready (r.poll () (some ready) w) := by
  unfold poll
  cases w with
  | fresh =>
    obtain ⟨hline, hcalled, hkept⟩ := h
    simp only
    split
    · next hobserved => exact leaves_check hline hcalled hobserved ready
    · next hfirst =>
      split
      · exact trivial
      · split
        · exact leaves_check (r := { r with permit := false, observed := true }) hline hcalled rfl
            ready
        · next hpermit =>
          -- No signal was kept, so there was nothing to see.
          have hready : ready = false := by
            by_contra hr
            exact (hkept (by simpa using hr)).elim hfirst hpermit
          refine ⟨⟨false, rfl⟩, ⟨nofun, .inl ⟨?_, hcalled, hready⟩⟩, hcalled⟩
          simp [enter, hline]
  | inLine observed =>
    obtain ⟨hobserved, hplace⟩ := h
    simp only
    split
    · exact trivial
    · obtain ⟨hline, hcalled, hready⟩ | ⟨hline, hcalled⟩ := hplace
      · rw [if_neg (by simp [hcalled])]
        exact ⟨⟨observed, rfl⟩, ⟨hobserved, .inl ⟨hline, hcalled, hready⟩⟩, hcalled⟩
      · have herased : r.called.erase () = [] := by simp [hcalled]
        rw [if_pos (by simp [hcalled])]
        split
        · next hseen =>
          exact leaves_check (r := { r with called := r.called.erase () }) hline herased
            (hobserved hseen) ready
        · exact leaves_check (r := { r with called := r.called.erase (), observed := true }) hline
            herased rfl ready

end Readiness

namespace Call
variable {α : Type} {c d e : Call α}

def Attentive (c : Call α) : Prop :=
  match c.pump with
  | .reading => c.readiness.Heeds c.handle.ready .fresh
  | .readying w => (∃ observed, w = .inLine observed) ∧ c.readiness.Heeds c.handle.ready w
  | .finished => True

theorem attentive_of_done (hp : c.pump.done = true) : c.Attentive := by
  unfold Attentive
  cases h : c.pump with
  | finished => trivial
  | reading => simp [h] at hp
  | readying w => simp [h] at hp

def Asleep (c : Call α) : Prop :=
  match c.pump with
  | .reading => c.outbound.readable = false
  | .readying _ => c.readiness.called = []
  | .finished => True

theorem asleep_of_done (hp : c.pump.done = true) : c.Asleep := by
  unfold Asleep
  cases h : c.pump with
  | finished => trivial
  | reading => simp [h] at hp
  | readying w => simp [h] at hp

/-- A pump that waits without being called waits on a transport that is not ready. -/
theorem unready_of_asleep (h : c.Attentive) (hsleeps : c.Asleep) {w : Readiness.Wait}
    (hp : c.pump = .readying w) : c.handle.ready = false := by
  simp only [Attentive, Asleep, hp] at h hsleeps
  obtain ⟨⟨observed, rfl⟩, _, ⟨_, _, hready⟩ | ⟨_, hcalled⟩⟩ := h
  · exact hready
  · rw [hsleeps] at hcalled
    cases hcalled

theorem asleep_of_unreadable (hp : c.pump = .reading) (hread : c.outbound.readable = false) :
    c.Asleep := by
  unfold Asleep
  rw [hp]
  exact hread

/-! The pump. -/

theorem attentive_next (h : c.readiness.Heeds c.handle.ready .fresh) {b : Bool}
    (hx : Next c (d, b)) : d.Attentive ∧ (b = false → d.Asleep) := by
  cases hx with
  | wrote hq hs =>
    obtain ⟨_, _, _, rfl⟩ := Handle.sendMessage_ok hs
    exact ⟨h, nofun⟩
  | refused hq hs => exact ⟨attentive_of_done rfl, fun _ => asleep_of_done rfl⟩
  | empty hq => exact ⟨h, nofun⟩
  | completed hq => exact ⟨attentive_of_done rfl, fun _ => asleep_of_done rfl⟩
  | failed hq => exact ⟨attentive_of_done rfl, fun _ => asleep_of_done rfl⟩

theorem attentive_pumpReady (hp : c.pump.done = false) {w : Readiness.Wait}
    (h : c.readiness.Heeds c.handle.ready w) :
    (c.pumpReady w).1.Attentive ∧ ((c.pumpReady w).2 = false → (c.pumpReady w).1.Asleep) := by
  have hcontrol : c.control = some c.handle.ready := by rw [control, if_pos (alive_of_pump hp)]
  have hleaves := Readiness.leaves_poll h
  unfold pumpReady
  rw [hcontrol]
  generalize c.readiness.poll () (some c.handle.ready) w = x at hleaves ⊢
  rcases x with ⟨r, w', _ | _ | u⟩
  · obtain ⟨hline, hheeds, hcalled⟩ := hleaves
    exact ⟨⟨hline, hheeds⟩, fun _ => hcalled⟩
  · exact ⟨attentive_of_done rfl, fun _ => asleep_of_done rfl⟩
  · exact attentive_next (c := { c with readiness := r }) hleaves (pumpNext_next _)

theorem attentive_pumpTurn (h : c.Attentive) :
    c.pumpTurn.1.Attentive ∧ (c.pumpTurn.2 = false → c.pumpTurn.1.Asleep) := by
  have hheeds := h
  unfold Attentive at hheeds
  rw [pumpTurn]
  cases hp : c.pump with
  | finished => exact ⟨h, fun _ => asleep_of_done (by rw [hp]; rfl)⟩
  | readying w =>
    simp only [hp] at hheeds
    exact attentive_pumpReady (by rw [hp]; rfl) hheeds.2
  | reading =>
    simp only [hp] at hheeds ⊢
    split
    · next hread => exact ⟨h, fun _ => asleep_of_unreadable hp (by simpa using hread)⟩
    · split
      · exact attentive_next hheeds (pumpNext_next c)
      · exact attentive_pumpReady (by rw [hp]; rfl) hheeds

theorem attentive_pollPump (h : c.Attentive) : c.pollPump.Attentive ∧ c.pollPump.Asleep :=
  pollPump_of_turns (fun _ => attentive_pumpTurn) h

/-! Whatever happens beside the pump. -/

def Heeded (c d : Call α) : Prop :=
  ∀ w, c.readiness.Heeds c.handle.ready w → d.readiness.Heeds d.handle.ready w

theorem Heeded.refl (c : Call α) : Heeded c c := fun _ => id

theorem Heeded.trans (h : Heeded c d) (g : Heeded d e) : Heeded c e := fun w hw => g w (h w hw)

theorem attentive_of_heeded (h : c.Attentive) (hp : d.pump = c.pump)
    (hd : c.pump.done = false → Heeded c d) : d.Attentive := by
  unfold Attentive at h ⊢
  rw [hp]
  cases hc : c.pump with
  | finished => trivial
  | reading =>
    simp only [hc] at h
    exact hd (by rw [hc]; rfl) _ h
  | readying w =>
    simp only [hc] at h
    exact ⟨h.1, hd (by rw [hc]; rfl) _ h.2⟩

theorem heeded_ask (c : Call α) (wanted : Bool) : Heeded c (c.ask wanted) := by
  rw [ask]
  split
  · rw [Handle.requestCredit]
    split <;> exact fun _ => id
  · exact .refl c

theorem heeded_hear (c : Call α) (n : Notice α) : Heeded c (c.hear n) := by
  have hx := hear_hears c n
  generalize c.hear n = d at hx ⊢
  cases hx with
  | message _ v =>
    refine Heeded.trans ?_ (heeded_ask _ _)
    exact fun _ => id
  | late | failed | cancelled => exact fun _ => id
  | gone => exact .refl c
  | completed =>
    rw [onCompleted]
    split <;> exact fun _ => id
  | ready =>
    refine Heeded.trans ?_ (heeded_ask _ _)
    exact fun _ hw => Readiness.heeds_signal hw _

/-- A transport that is listened to says so when its readiness may have changed. -/
theorem heeded_peer (hw : c.wire.watched = true) (halive : c.alive = true) (a : PeerAct α) :
    Heeded c (c.peer a) := by
  have hready : ∀ t : Loopback α, Heeded c ((c.withWire t).hear .ready) := by
    intro t
    have hsignals : (c.withWire t).hear .ready = (c.withWire t).onReady := if_pos halive
    rw [hsignals, onReady_eq]
    refine Heeded.trans ?_ (heeded_ask _ _)
    exact fun _ hw => Readiness.heeds_signal hw _
  have hnotice : c.wire.readyNotice = some .ready := by rw [Loopback.readyNotice, if_pos hw]
  have hother : ∀ (t : Loopback α) (n : Option (Notice α)), t.ready = c.wire.ready →
      Heeded c ((c.withWire t).hear? n) := by
    intro t n ht
    have hwire : Heeded c (c.withWire t) := by
      intro w hc
      rw [show (c.withWire t).handle.ready = c.handle.ready from ht]
      exact hc
    cases n with
    | none => exact hwire
    | some n => exact hwire.trans (heeded_hear _ n)
  rw [peer_eq]
  cases a with
  | setReady b =>
    simp only [Loopback.peer, hnotice]
    exact hready _
  | fireReady =>
    simp only [Loopback.peer, hnotice]
    exact hready _
  | _ => exact hother _ _ rfl

theorem heeded_fail (c : Call α) (st : Status) :
    Heeded c { c with handle := (c.handle.fail st).1 } := by
  rw [Handle.fail]
  split
  · rw [Handle.cancel]
    split <;> exact fun _ => id
  · rw [Handle.closeWithError]
    split <;> exact fun _ => id

theorem heeded_tearDown (c : Call α) : Heeded c c.tearDown := by
  rw [tearDown]
  obtain ⟨origin, st⟩ := c.scope.cause.getD (.here, .localCancelled)
  simp only
  split
  · exact heeded_fail c st
  · exact fun _ => id

theorem heeded_watch {now : Nat} (hw : Watch c now d) : Heeded c d := by
  cases hw with
  | rest => exact .refl c
  | tornDown hs => exact heeded_tearDown c
  | expired =>
    have hcancel : Heeded c (c.cancelScope .here .deadlineElapsed) := fun _ => id
    exact hcancel.trans (heeded_tearDown _)
  | settled hin hp hs => exact fun _ => id
  | watching e hs => exact fun _ => id

theorem heeded_cancelInbound (c : Call α) : Heeded c c.cancelInbound := by
  unfold cancelInbound
  simp only
  split <;> exact fun _ => id

theorem heeded_dropInbound (c : Call α) : Heeded c c.dropInbound := by
  rw [dropInbound]
  split
  · exact .refl c
  · split
    · exact heeded_cancelInbound c
    · exact fun _ => id

end Call

/-! A whole run. -/

namespace Course
variable {α : Type}

theorem heeded_step (s : Course α) (hw : s.call.wire.watched = true) (hp : s.call.pump.done = false)
    {m : Move α} (hm : m ≠ .pump) : s.call.Heeded (s.step m).call := by
  by_cases hout : m.outward = true
  · have houtlet := outlet_step s hout
    generalize (s.step m).call = d at houtlet ⊢
    cases houtlet <;> exact fun _ => id
  · cases m with
    | pump => exact absurd rfl hm
    | peer a => exact Call.heeded_peer hw (Call.alive_of_pump hp) a
    | supervise => exact Call.heeded_watch (Call.pollSupervisor_watch _ _)
    | enqueue i =>
      rw [step, withCall, Call.pollDeferred_eq]
      refine Call.Heeded.trans ?_ (Call.heeded_ask _ _)
      exact fun _ => id
    | recv =>
      rw [step, withCall, Call.recv]
      split <;> exact fun _ => id
    | cancelInbound => exact Call.heeded_cancelInbound _
    | dropInbound => exact Call.heeded_dropInbound _
    | _ => exact absurd rfl hout

theorem watched_opened (o : Opening α) (p : CallPlan) (ready : Bool) (acts : List (PeerAct α)) :
    (opened o p ready acts).call.wire.watched = true :=
  o.call_of_idle (P := fun c => c.wire.watched = true) p _ (by cases o <;> rfl)
    (fun c hc => (Call.beside_hear c .ready).watched.trans hc)
    (fun c hc => (Call.beside_ask c true).watched.trans hc) fun _ _ => id

/-- A call hears at once of a transport that is ready. -/
theorem attentive_start (p : CallPlan) (wire : Loopback α) (inbound : Inbound α) (q : Queue α)
    (sinks : Nat) : (p.start wire inbound q sinks).Attentive := by
  rw [p.start_eq]
  cases hr : wire.ready with
  | false =>
    have hnone : wire.disableAutomaticCredit.watch.start.2 = none := by
      simp [Loopback.start, Loopback.watch, Loopback.disableAutomaticCredit, hr]
    rw [hnone]
    exact ⟨rfl, rfl, fun hready => absurd (hr.symm.trans hready) Bool.false_ne_true⟩
  | true =>
    have hsome : wire.disableAutomaticCredit.watch.start.2 = some .ready := by
      simp [Loopback.start, Loopback.watch, Loopback.disableAutomaticCredit, hr,
        Loopback.readyNotice]
    rw [hsome]
    have hhears : (p.idle wire inbound q sinks).hear .ready =
        (p.idle wire inbound q sinks).onReady := rfl
    rw [Call.hear?, hhears, Call.onReady_eq]
    refine Call.attentive_of_heeded ?_ (Call.beside_ask _ _).samePump fun _ => Call.heeded_ask _ _
    exact ⟨rfl, rfl, fun _ => .inr rfl⟩

theorem attentive_opened (o : Opening α) (p : CallPlan) (ready : Bool) (acts : List (PeerAct α)) :
    (opened o p ready acts).call.Attentive := by
  have hbidi : (p.bidi (.before ready acts)).Attentive :=
    Call.attentive_of_heeded (attentive_start p _ _ _ _) (Call.beside_ask _ _).samePump
      fun _ => Call.heeded_ask _ _
  cases o with
  | bidi => exact hbidi
  | serve => exact hbidi
  | responses request => exact attentive_start p _ _ _ _

theorem attentive_run (o : Opening α) (p : CallPlan) (ready : Bool) (acts : List (PeerAct α))
    (ms : List (Move α)) : ((opened o p ready acts).run ms).call.Attentive := by
  induction ms using List.reverseRecOn with
  | nil => exact attentive_opened o p ready acts
  | append_singleton ms m ih =>
    rw [run_concat]
    by_cases hm : m = .pump
    · subst hm
      exact (Call.attentive_pollPump ih).1
    · have hwatched := (later_run (opened o p ready acts) ms).watched.trans
        (watched_opened o p ready acts)
      exact Call.attentive_of_heeded ih (beside_step _ hm).samePump
        fun hp => heeded_step _ hwatched hp hm

end Course

/-! A pump that is not called. -/

namespace Call
variable {α : Type} {c d : Call α}

theorem asleep_of_quiet (h : c.Asleep) (hp : d.pump = c.pump) (hquiet : c.callsPump d = false) :
    d.Asleep := by
  unfold Asleep at h ⊢
  unfold callsPump at hquiet
  rw [hp]
  cases hc : c.pump with
  | finished => trivial
  | reading =>
    simp only [hc, Queue.readable, Queue.callsReader, Queue.closes, Bool.or_eq_false_iff,
      Bool.not_eq_false'] at h hquiet ⊢
    obtain ⟨hbuffer, hterm⟩ := h
    rw [List.isEmpty_iff] at hbuffer
    simp only [hbuffer, List.length_nil, decide_eq_false_iff_not, Nat.not_lt, Nat.le_zero,
      List.length_eq_zero_iff] at hquiet
    have hopen : c.outbound.termination.isNone = true := by
      simpa using hterm
    rw [hopen, Bool.true_and] at hquiet
    exact ⟨by simp [hquiet.2], hquiet.1⟩
  | readying w =>
    simp only [hc, Bool.or_eq_false_iff, decide_eq_false_iff_not] at h hquiet ⊢
    rw [List.eq_nil_iff_forall_not_mem]
    rintro ⟨⟩ hcalled
    exact hquiet.2 ⟨by simp [h], hcalled⟩

end Call
end PacedCall
