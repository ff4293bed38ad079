import PacedCall.Handle

/-!
What a transport is told through its handle. Each operation of a handle tells its transport one
thing or nothing, and the three flags of the handle say which. So the flags are the books of all
that was told: the end of the outbound direction once, a cancellation once and as the last thing
of all, and after an end that the transport reported itself, nothing.
-/
namespace PacedCall

inductive Signal (α : Type) where
  | write (v : α)
  | halfClose
  | closeWithError (st : Status)
  | cancel (st : Status)
  | credit (n : Nat)

namespace Signal
variable {α : Type}

def writes : Signal α → Bool
  | write _ => true
  | _ => false

def closes : Signal α → Bool
  | halfClose => true
  | closeWithError _ => true
  | _ => false

def cancels : Signal α → Bool
  | cancel _ => true
  | _ => false

def ends (x : Signal α) : Bool := x.closes || x.cancels

def halves : Signal α → Bool
  | halfClose => true
  | _ => false

def error? : Signal α → Option Status
  | closeWithError st => some st
  | _ => none

def cancel? : Signal α → Option Status
  | cancel st => some st
  | _ => none

def status? (x : Signal α) : Option Status := x.error?.or x.cancel?

theorem status?_of_error? {x : Signal α} {st : Status} (hx : x.error? = some st) :
    x.status? = some st := by
  rw [status?, hx, Option.some_or]

theorem status?_of_cancel? {x : Signal α} {st : Status} (hx : x.cancel? = some st) :
    x.status? = some st := by
  cases x with
  | cancel st' => exact hx
  | _ => cases hx

/-- A call that was ended at most once was ended by this and nothing else. -/
theorem filter_ends {l : List (Signal α)} {x : Signal α} (hx : x ∈ l)
    (hends : x.ends = true) (hl : l.countP Signal.ends ≤ 1) : l.filter Signal.ends = [x] := by
  have hmem : x ∈ l.filter Signal.ends := List.mem_filter.mpr ⟨hx, hends⟩
  rw [List.countP_eq_length_filter] at hl
  obtain ⟨y, hy⟩ := List.length_eq_one_iff.mp (Nat.le_antisymm hl (List.length_pos_of_mem hmem))
  rw [hy] at hmem ⊢
  rw [List.mem_singleton.mp hmem]

end Signal

namespace Loopback
variable {α : Type}

def told (t : Loopback α) : Signal α → Loopback α
  | .write v => (t.sendMessage v).1
  | .halfClose => t.halfClose
  | .closeWithError st => t.closeWithError st
  | .cancel st => t.cancel st
  | .credit n => t.requestCredit n

theorem exists_sendMessage (t : Loopback α) (v : α) :
    ∃ sent, (t.sendMessage v).1 = { t with sent := sent } := by
  rw [sendMessage]
  split
  · exact ⟨_, rfl⟩
  · split <;> exact ⟨_, rfl⟩

theorem cancellations_told (t : Loopback α) (x : Signal α) :
    (t.told x).cancellations = t.cancellations ++ x.cancel?.toList := by
  cases x with
  | write v =>
    obtain ⟨sent, hw⟩ := t.exists_sendMessage v
    simp [told, hw, Signal.cancel?]
  | cancel st => rfl
  | _ => exact (List.append_nil _).symm

theorem halfClosed_told (t : Loopback α) (x : Signal α) :
    (t.told x).halfClosed = (t.halfClosed || x.halves) := by
  cases x with
  | write v =>
    obtain ⟨sent, hw⟩ := t.exists_sendMessage v
    simp [told, hw, Signal.halves]
  | halfClose => exact (Bool.or_true _).symm
  | _ => exact (Bool.or_false _).symm

theorem closedWith_told (t : Loopback α) (x : Signal α) :
    (t.told x).closedWith = x.error?.or t.closedWith := by
  cases x with
  | write v =>
    obtain ⟨sent, hw⟩ := t.exists_sendMessage v
    simp [told, hw, Signal.error?]
  | _ => rfl

/-- What was written stays. -/
theorem sent_told (t : Loopback α) (x : Signal α) : t.sent.toList <+: (t.told x).sent.toList := by
  cases x with
  | write v =>
    rw [told, sendMessage]
    split
    · exact List.prefix_rfl
    · split
      · exact List.prefix_rfl
      · simp
  | _ => exact List.prefix_rfl

end Loopback

namespace Handle
variable {α : Type} {h g e : Handle α} {l k : List (Signal α)}

inductive Act (α : Type) where
  | send (v : α)
  | halfClose
  | closeWithError (st : Status)
  | cancel (st : Status)
  | fail (st : Status)
  | requestCredit (n : Nat)
  | markRemoteClosed
  | peer (a : PeerAct α)

def on (h : Handle α) (t : Loopback α) : Handle α := { h with transport := t }

def Act.finds : Act α → Loopback α → Loopback α
  | .peer a, t => (t.peer a).1
  | _, t => t

def perform (h : Handle α) : Act α → Handle α
  | .send v => (h.sendMessage v).1
  | .halfClose => h.halfClose.1
  | .closeWithError st => (h.closeWithError st).1
  | .cancel st => (h.cancel st).1
  | .fail st => (h.fail st).1
  | .requestCredit n => h.requestCredit n
  | .markRemoteClosed => h.markRemoteClosed
  | .peer a => h.on (h.transport.peer a).1

def flag? (h : Handle α) : Act α → Option Bool
  | .halfClose => some h.halfClose.2
  | .closeWithError st => some (h.closeWithError st).2
  | .cancel st => some (h.cancel st).2
  | .fail st => some (h.fail st).2
  | _ => none

def cancellable (h : Handle α) : Bool :=
  !(h.remoteClosed || (h.role == .server && h.outboundDone) || h.cancelled)

def signals (h : Handle α) : Act α → List (Signal α)
  | .send v => if h.terminated then [] else [.write v]
  | .halfClose => if h.terminated then [] else [.halfClose]
  | .closeWithError st => if h.terminated then [] else [.closeWithError st]
  | .cancel st => if h.cancellable then [.cancel st] else []
  | .fail st =>
    match h.role with
    | .client => if h.cancellable then [.cancel st] else []
    | .server => if h.terminated then [] else [.closeWithError st]
  | .requestCredit n => if h.cancelled || h.remoteClosed then [] else [.credit n]
  | .markRemoteClosed => []
  | .peer _ => []

def after (h : Handle α) (as : List (Act α)) : Handle α := as.foldl perform h

def told : Handle α → List (Act α) → List (Signal α)
  | _, [] => []
  | h, a :: as => h.signals a ++ told (h.perform a) as

theorem told_append (h : Handle α) (as bs : List (Act α)) :
    h.told (as ++ bs) = h.told as ++ (h.after as).told bs := by
  induction as generalizing h with
  | nil => rfl
  | cons a as ih =>
    rw [List.cons_append, told, told, ih, List.append_assoc]
    rfl

/-! One act. -/

theorem terminated_iff (h : Handle α) :
    h.terminated = false ↔
      h.cancelled = false ∧ h.remoteClosed = false ∧ h.outboundDone = false := by
  simp [terminated, and_assoc]

theorem cancellable_iff (h : Handle α) :
    h.cancellable = true ↔
      h.remoteClosed = false ∧ (h.role = .server → h.outboundDone = false) ∧
        h.cancelled = false := by
  cases hr : h.role <;> simp [cancellable, hr, and_assoc]

theorem cancel_eq (h : Handle α) (st : Status) :
    h.cancel st =
      if h.cancellable then
        ({ h with cancelled := true, transport := h.transport.cancel st }, true)
      else (h, false) := by
  unfold Handle.cancel cancellable
  cases h.remoteClosed || (h.role == .server && h.outboundDone) || h.cancelled <;> rfl

theorem halfClose_eq (h : Handle α) :
    h.halfClose =
      if h.terminated then (h, false)
      else ({ h with outboundDone := true, transport := h.transport.halfClose }, true) := rfl

theorem closeWithError_eq (h : Handle α) (st : Status) :
    h.closeWithError st =
      if h.terminated then (h, false)
      else ({ h with outboundDone := true, transport := h.transport.closeWithError st }, true) :=
  rfl

def Act.ofFail (role : Role) (st : Status) : Act α :=
  match role with
  | .client => .cancel st
  | .server => .closeWithError st

theorem perform_fail (h : Handle α) (st : Status) :
    h.perform (.fail st) = h.perform (.ofFail h.role st) := by
  cases hr : h.role <;> simp [perform, Handle.fail, Act.ofFail, hr]

theorem flag?_fail (h : Handle α) (st : Status) :
    h.flag? (.fail st) = h.flag? (.ofFail h.role st) := by
  cases hr : h.role <;> simp [flag?, Handle.fail, Act.ofFail, hr]

theorem signals_fail (h : Handle α) (st : Status) :
    h.signals (.fail st) = h.signals (.ofFail h.role st) := by
  cases hr : h.role <;> simp [signals, Act.ofFail, hr]

/-- A write leaves all flags as they are. -/
theorem exists_sendMessage (h : Handle α) (v : α) :
    ∃ t stats, (h.sendMessage v).1 = { h with transport := t, stats := stats } := by
  rw [sendMessage]
  split
  · exact ⟨_, _, rfl⟩
  · split <;> exact ⟨_, _, rfl⟩

/-- A write that is refused leaves the transport as it was. -/
theorem transport_sendMessage (h : Handle α) (v : α) (ht : h.terminated = false) :
    (h.sendMessage v).1.transport = h.transport.told (.write v) := by
  rw [sendMessage, if_neg (by simp [ht]), Loopback.told, Loopback.sendMessage]
  cases h.transport.rejecting with
  | some st => rfl
  | none => cases h.transport.finished <;> rfl

structure Tells (h g : Handle α) (x : Signal α) : Prop where
  transport : g.transport = h.transport.told x
  role : g.role = h.role
  wasOpen : h.cancelled = false
  wasThere : h.remoteClosed = false
  wasUndone : x.writes = true ∨ x.closes = true ∨ (x.cancels = true ∧ h.role = .server) →
    h.outboundDone = false
  outboundDone : g.outboundDone = (h.outboundDone || x.closes)
  cancelled : g.cancelled = x.cancels

/-- What an act comes to: the handle after it, what the transport is told, and what is returned. -/
inductive Comes (h : Handle α) (a : Act α) : Handle α → List (Signal α) → Option Bool → Prop where
  | silent {closed : Bool} {f : Option Bool} (hclosed : h.remoteClosed = true → closed = true)
      (hf : f ≠ some true) :
      Comes h a { h with transport := a.finds h.transport, remoteClosed := closed } [] f
  | told {g : Handle α} {x : Signal α} {f : Option Bool} (ht : Tells h g x)
      (hfinds : a.finds h.transport = h.transport) (hf : f ≠ some false) : Comes h a g [x] f

theorem Comes.congr {a b : Act α} {f : Option Bool} (hc : Comes h a g l f)
    (hfinds : b.finds h.transport = a.finds h.transport) : Comes h b g l f := by
  cases hc with
  | silent hclosed hf =>
    rw [← hfinds]
    exact .silent hclosed hf
  | told ht ha hf => exact .told ht (hfinds.trans ha) hf

/-- What goes out to an open call, and is no cancellation. -/
theorem tells_of_goes {x : Signal α} (hgoes : h.terminated = false) (hrole : g.role = h.role)
    (htold : g.transport = h.transport.told x)
    (hdone : g.outboundDone = (h.outboundDone || x.closes))
    (hcancelled : g.cancelled = h.cancelled) (hx : x.cancels = false) : Tells h g x := by
  obtain ⟨hopen, hthere, hundone⟩ := h.terminated_iff.mp hgoes
  exact
    { transport := htold
      role := hrole
      wasOpen := hopen
      wasThere := hthere
      wasUndone := fun _ => hundone
      outboundDone := hdone
      cancelled := by rw [hcancelled, hopen, hx] }

theorem comes_send (h : Handle α) (v : α) :
    Comes h (.send v) (h.perform (.send v)) (h.signals (.send v)) (h.flag? (.send v)) := by
  obtain ⟨t, stats, hsame⟩ := h.exists_sendMessage v
  rw [perform, signals]
  cases hgoes : h.terminated with
  | true =>
    rw [sendMessage, if_pos hgoes]
    exact .silent id (by simp [flag?])
  | false =>
    have htold := h.transport_sendMessage v hgoes
    rw [hsame] at htold ⊢
    exact .told (tells_of_goes hgoes rfl htold (Bool.or_false _).symm rfl rfl) rfl
      (by simp [flag?])

theorem comes_halfClose (h : Handle α) :
    Comes h .halfClose (h.perform .halfClose) (h.signals .halfClose) (h.flag? .halfClose) := by
  rw [perform, signals, flag?, halfClose_eq]
  cases hgoes : h.terminated with
  | true => exact .silent id (by simp)
  | false => exact .told (tells_of_goes hgoes rfl rfl (Bool.or_true _).symm rfl rfl) rfl (by simp)

theorem comes_closeWithError (h : Handle α) (st : Status) :
    Comes h (.closeWithError st) (h.perform (.closeWithError st)) (h.signals (.closeWithError st))
      (h.flag? (.closeWithError st)) := by
  rw [perform, signals, flag?, closeWithError_eq]
  cases hgoes : h.terminated with
  | true => exact .silent id (by simp)
  | false => exact .told (tells_of_goes hgoes rfl rfl (Bool.or_true _).symm rfl rfl) rfl (by simp)

/-- A client may still cancel a call whose outbound direction has ended. -/
theorem comes_cancel (h : Handle α) (st : Status) :
    Comes h (.cancel st) (h.perform (.cancel st)) (h.signals (.cancel st))
      (h.flag? (.cancel st)) := by
  rw [perform, signals, flag?, cancel_eq]
  cases hc : h.cancellable with
  | false => exact .silent id (by simp)
  | true =>
    obtain ⟨hthere, hserver, hopen⟩ := h.cancellable_iff.mp hc
    refine .told ?_ rfl (by simp)
    exact
      { transport := rfl
        role := rfl
        wasOpen := hopen
        wasThere := hthere
        wasUndone := by
          rintro (hx | hx | ⟨_, hrole⟩)
          · cases hx
          · cases hx
          · exact hserver hrole
        outboundDone := (Bool.or_false _).symm
        cancelled := rfl }

theorem comes_requestCredit (h : Handle α) (n : Nat) :
    Comes h (.requestCredit n) (h.perform (.requestCredit n)) (h.signals (.requestCredit n))
      (h.flag? (.requestCredit n)) := by
  rw [perform, signals, requestCredit]
  cases hover : h.cancelled || h.remoteClosed with
  | true => exact .silent id (by simp [flag?])
  | false =>
    obtain ⟨hopen, hthere⟩ := Bool.or_eq_false_iff.mp hover
    refine .told ?_ rfl (by simp [flag?])
    exact
      { transport := rfl
        role := rfl
        wasOpen := hopen
        wasThere := hthere
        wasUndone := by
          rintro (hx | hx | ⟨hx, _⟩) <;> cases hx
        outboundDone := (Bool.or_false _).symm
        cancelled := hopen }

theorem comes_perform (h : Handle α) (a : Act α) :
    Comes h a (h.perform a) (h.signals a) (h.flag? a) := by
  cases a with
  | send v => exact h.comes_send v
  | halfClose => exact h.comes_halfClose
  | closeWithError st => exact h.comes_closeWithError st
  | cancel st => exact h.comes_cancel st
  | fail st =>
    rw [perform_fail, signals_fail, flag?_fail]
    cases h.role with
    | client => exact (h.comes_cancel st).congr rfl
    | server => exact (h.comes_closeWithError st).congr rfl
  | requestCredit n => exact h.comes_requestCredit n
  | markRemoteClosed => exact .silent (fun _ => rfl) (by simp [flag?])
  | peer a => exact .silent id (by simp [flag?])

theorem role_perform (h : Handle α) (a : Act α) : (h.perform a).role = h.role := by
  have hcomes := h.comes_perform a
  generalize h.perform a = g, h.signals a = l at hcomes ⊢
  cases hcomes with
  | silent => rfl
  | told ht => exact ht.role

theorem role_after (h : Handle α) (as : List (Act α)) : (h.after as).role = h.role := by
  induction as generalizing h with
  | nil => rfl
  | cons a as ih => exact (ih _).trans (h.role_perform a)

/-- A failed call is ended with the status it failed with. -/
theorem status?_of_fail (h : Handle α) {st : Status} {x : Signal α}
    (hx : x ∈ h.signals (.fail st)) : x.status? = some st := by
  rw [signals] at hx
  split at hx
  · split at hx
    · rw [List.mem_singleton.mp hx]
      rfl
    · cases hx
  · split at hx
    · cases hx
    · rw [List.mem_singleton.mp hx]
      rfl

/-- Nothing but its signals reaches the transport. -/
theorem transport_perform (h : Handle α) (a : Act α) :
    (h.perform a).transport = (h.signals a).foldl Loopback.told (a.finds h.transport) := by
  have hcomes := h.comes_perform a
  generalize h.perform a = g, h.signals a = l at hcomes ⊢
  cases hcomes with
  | silent => rfl
  | told ht hfinds =>
    rw [hfinds]
    exact ht.transport

theorem signals_on (h : Handle α) (t : Loopback α) (a : Act α) :
    (h.on t).signals a = h.signals a := by
  cases a <;> rfl

/-- An operation says that it told the transport exactly when it did. -/
theorem flag?_eq (h : Handle α) {a : Act α} {b : Bool} (hf : h.flag? a = some b) :
    b = true ↔ h.signals a ≠ [] := by
  have hcomes := h.comes_perform a
  generalize h.perform a = g, h.signals a = l, h.flag? a = f at hcomes hf ⊢
  subst hf
  cases hcomes with
  | silent _ hb => simpa using hb
  | told _ _ hb => simpa using hb

/-- What does not reach the transport is not counted. -/
theorem stats_perform (h : Handle α) (a : Act α) (ha : h.signals a = []) :
    (h.perform a).stats = h.stats := by
  have hcomes := h.comes_perform a
  generalize h.perform a = g, h.signals a = l at hcomes ha ⊢
  cases hcomes with
  | silent => rfl
  | told => cases ha

/-- After an end that the transport reported, it is told nothing. -/
theorem remoteClosed_perform (h : Handle α) (a : Act α) (hr : h.remoteClosed = true) :
    (h.perform a).remoteClosed = true ∧ h.signals a = [] := by
  have hcomes := h.comes_perform a
  generalize h.perform a = g, h.signals a = l at hcomes ⊢
  cases hcomes with
  | silent hclosed _ => exact ⟨hclosed hr, rfl⟩
  | told ht => cases hr.symm.trans ht.wasThere

theorem told_of_remoteClosed (h : Handle α) (hr : h.remoteClosed = true) (as : List (Act α)) :
    h.told as = [] := by
  induction as generalizing h with
  | nil => rfl
  | cons a as ih =>
    obtain ⟨hstays, hsilent⟩ := h.remoteClosed_perform a hr
    rw [told, hsilent, List.nil_append]
    exact ih _ hstays

/-! The books. -/

structure Books (h : Handle α) (l : List (Signal α)) : Prop where
  closes : l.countP Signal.closes = h.outboundDone.toNat
  cancels : l.countP Signal.cancels = h.cancelled.toNat
  either : h.role = .server → h.outboundDone = true → h.cancelled = false
  last : l.Pairwise fun x _ => x.cancels = false
  written : l.Pairwise fun x y => x.closes = true → y.writes = false

theorem books_fresh (role : Role) (t : Loopback α) :
    Books { role := role, transport := t } [] :=
  { closes := rfl
    cancels := rfl
    either := fun _ _ => rfl
    last := .nil
    written := .nil }

namespace Books

theorem tell (b : Books h l) {x : Signal α} (ht : Tells h g x) : Books g (l ++ [x]) := by
  have hone : ∀ p : Signal α → Bool, [x].countP p = (p x).toNat := by
    intro p
    cases hp : p x <;> simp [hp]
  have hnone : ∀ y ∈ l, y.cancels = false := by
    have hc := b.cancels
    rw [ht.wasOpen] at hc
    simpa using List.countP_eq_zero.mp hc
  exact
    { closes := by
        rw [List.countP_append, b.closes, hone, ht.outboundDone]
        cases hx : x.closes with
        | false => simp
        | true => simp [ht.wasUndone (.inr (.inl hx))]
      cancels := by simp [List.countP_append, b.cancels, hone, ht.wasOpen, ht.cancelled]
      either := by
        rw [ht.role, ht.outboundDone, ht.cancelled]
        intro hrole hdone
        cases hx : x.cancels with
        | false => rfl
        | true =>
          have hcloses : x.closes = false := by cases x <;> first | rfl | cases hx
          simp [ht.wasUndone (.inr (.inr ⟨hx, hrole⟩)), hcloses] at hdone
      last := by
        rw [List.pairwise_append]
        exact ⟨b.last, List.pairwise_singleton _ _, fun y hy _ _ => hnone y hy⟩
      written := by
        rw [List.pairwise_append]
        refine ⟨b.written, List.pairwise_singleton _ _, ?_⟩
        intro y hy z hz hcloses
        rw [List.mem_singleton.mp hz]
        cases hw : x.writes with
        | false => rfl
        | true =>
          -- A write goes only to a call that nothing has closed.
          have hc := b.closes
          rw [ht.wasUndone (.inl hw)] at hc
          exact absurd hcloses (List.countP_eq_zero.mp hc y hy) }

theorem perform (b : Books h l) (a : Act α) : Books (h.perform a) (l ++ h.signals a) := by
  have hcomes := h.comes_perform a
  generalize h.perform a = g, h.signals a = k at hcomes ⊢
  cases hcomes with
  | silent =>
    rw [List.append_nil]
    exact { b with }
  | told ht => exact b.tell ht

theorem told (b : Books h l) (as : List (Act α)) : Books (h.after as) (l ++ h.told as) := by
  induction as generalizing h l with
  | nil =>
    rw [Handle.told, List.append_nil]
    exact b
  | cons a as ih =>
    rw [Handle.told, ← List.append_assoc]
    exact ih (b.perform a)

/-- A server ends its call once. -/
theorem ends (b : Books h l) (hrole : h.role = .server) : l.countP Signal.ends ≤ 1 := by
  have hsplit : l.countP Signal.ends = l.countP Signal.closes + l.countP Signal.cancels := by
    clear b
    induction l with
    | nil => rfl
    | cons x l ih =>
      simp only [List.countP_cons, ih]
      cases x <;> simp [Signal.ends, Signal.closes, Signal.cancels] <;> omega
  rw [hsplit, b.closes, b.cancels]
  cases hd : h.outboundDone with
  | false =>
    have := Bool.toNat_le h.cancelled
    simpa using this
  | true => simp [b.either hrole hd]

end Books

/-! What the transport itself recorded. -/

/-- The peer's acts are not the call's ends. -/
theorem Act.finds_records (a : Act α) (t : Loopback α) :
    (a.finds t).cancellations = t.cancellations ∧ (a.finds t).halfClosed = t.halfClosed ∧
      (a.finds t).closedWith = t.closedWith := by
  cases a with
  | peer a => cases a <;> exact ⟨rfl, rfl, rfl⟩
  | _ => exact ⟨rfl, rfl, rfl⟩

theorem Act.finds_sent (a : Act α) (t : Loopback α) : (a.finds t).sent = t.sent := by
  cases a with
  | peer a => cases a <;> rfl
  | _ => rfl

structure Recorded (h : Handle α) : Prop where
  cancellations : h.transport.cancellations.length = h.cancelled.toNat
  outboundDone : h.outboundDone = (h.transport.halfClosed || h.transport.closedWith.isSome)
  either : h.transport.halfClosed = true → h.transport.closedWith = none

theorem Recorded.perform (r : h.Recorded) (a : Act α) : (h.perform a).Recorded := by
  have hcomes := h.comes_perform a
  generalize h.perform a = g, h.signals a = l at hcomes ⊢
  cases hcomes with
  | silent =>
    obtain ⟨hcancels, hhalf, hclosed⟩ := a.finds_records h.transport
    exact
      { cancellations := hcancels ▸ r.cancellations
        outboundDone := hhalf ▸ hclosed ▸ r.outboundDone
        either := hhalf ▸ hclosed ▸ r.either }
  | @told _ x _ ht =>
    have hfresh : x.closes = true →
        h.transport.halfClosed = false ∧ h.transport.closedWith = none := by
      intro hx
      simpa [ht.wasUndone (.inr (.inl hx))] using r.outboundDone
    refine ⟨?_, ?_, ?_⟩
    · rw [ht.transport, ht.cancelled, Loopback.cancellations_told, List.length_append,
        r.cancellations, ht.wasOpen]
      cases x <;> rfl
    · rw [ht.transport, ht.outboundDone, Loopback.halfClosed_told, Loopback.closedWith_told,
        r.outboundDone]
      cases x <;> simp [Signal.closes, Signal.halves, Signal.error?]
    · rw [ht.transport, Loopback.halfClosed_told, Loopback.closedWith_told]
      cases x with
      | halfClose => exact fun _ => (hfresh rfl).2
      | closeWithError st => simp [Signal.halves, (hfresh rfl).1]
      | _ => simpa [Signal.halves, Signal.error?] using r.either

/-! Handles in use. -/

inductive Uses (h : Handle α) : List (Signal α) → Handle α → Prop where
  | none : Uses h [] h
  | act {l : List (Signal α)} {g : Handle α} (hu : Uses h l g) (a : Act α) :
      Uses h (l ++ g.signals a) (g.perform a)
  | count {l : List (Signal α)} {g : Handle α} (hu : Uses h l g) (stats : Stats) :
      Uses h l { g with stats := stats }

namespace Uses

theorem one (h : Handle α) (a : Act α) : Uses h (h.signals a) (h.perform a) := .act .none a

theorem trans (hu : Uses h l g) (hv : Uses g k e) : Uses h (l ++ k) e := by
  induction hv with
  | none =>
    rw [List.append_nil]
    exact hu
  | act _ a ih =>
    rw [← List.append_assoc]
    exact ih.act a
  | count _ stats ih => exact ih.count stats

theorem books (hu : Uses h l g) (b : Books h k) : Books g (k ++ l) := by
  induction hu with
  | none =>
    rw [List.append_nil]
    exact b
  | act _ a ih =>
    rw [← List.append_assoc]
    exact ih.perform a
  | count _ stats ih => exact { ih with }

theorem recorded (hu : Uses h l g) (r : h.Recorded) : g.Recorded := by
  induction hu with
  | none => exact r
  | act _ a ih => exact ih.perform a
  | count _ stats ih => exact { ih with }

theorem cancellations (hu : Uses h l g) :
    g.transport.cancellations = h.transport.cancellations ++ l.filterMap Signal.cancel? := by
  induction hu with
  | none => exact (List.append_nil _).symm
  | @act l e _ a ih =>
    have hcomes := e.comes_perform a
    generalize e.perform a = g, e.signals a = k at hcomes ⊢
    cases hcomes with
    | silent => rw [(a.finds_records e.transport).1, ih, List.append_nil]
    | @told _ x _ ht =>
      rw [ht.transport, Loopback.cancellations_told, ih, List.append_assoc, List.filterMap_append]
      cases x <;> rfl
  | count _ stats ih => exact ih

theorem closedWith (hu : Uses h l g) {st : Status} (hst : g.transport.closedWith = some st) :
    h.transport.closedWith = some st ∨ ∃ x ∈ l, x.error? = some st := by
  induction hu with
  | none => exact .inl hst
  | @act l e _ a ih =>
    have hcomes := e.comes_perform a
    generalize e.perform a = g, e.signals a = k at hcomes hst ⊢
    cases hcomes with
    | silent =>
      rw [List.append_nil]
      exact ih ((a.finds_records e.transport).2.2 ▸ hst)
    | @told _ x _ ht =>
      rw [ht.transport, Loopback.closedWith_told] at hst
      cases hx : x.error? with
      | some st' =>
        rw [hx, Option.some_or] at hst
        exact .inr ⟨x, by simp, hx.trans hst⟩
      | none =>
        rw [hx, Option.none_or] at hst
        refine (ih hst).imp id ?_
        rintro ⟨y, hy, hst⟩
        exact ⟨y, List.mem_append_left _ hy, hst⟩
  | count _ stats ih => exact ih hst

theorem sent (hu : Uses h l g) : h.transport.sent.toList <+: g.transport.sent.toList := by
  induction hu with
  | none => exact List.prefix_rfl
  | @act l e _ a ih =>
    refine ih.trans ?_
    have hcomes := e.comes_perform a
    generalize e.perform a = g, e.signals a = k at hcomes ⊢
    cases hcomes with
    | silent => exact (a.finds_sent e.transport).symm ▸ List.prefix_rfl
    | @told _ x _ ht => exact ht.transport ▸ e.transport.sent_told x
  | count _ stats ih => exact ih

end Uses

/-- A transport hears of each end of its call at most once, whatever its handle is asked to do and
in whatever order. -/
theorem ends_once (role : Role) (t : Loopback α) (as : List (Act α)) :
    let h₀ : Handle α := { role := role, transport := t }
    let h := h₀.after as
    let l := h₀.told as
    l.countP Signal.closes ≤ 1 ∧
    l.countP Signal.cancels ≤ 1 ∧
    (role = .server → l.countP Signal.ends ≤ 1) ∧
    (l.Pairwise fun x y => x.closes = true → y.writes = false) ∧
    (l.Pairwise fun x _ => x.cancels = false) ∧
    (∀ before after, as = before ++ .markRemoteClosed :: after → l = h₀.told before) ∧
    (∀ a t', ((h.on t').perform a).transport = (h.signals a).foldl Loopback.told (a.finds t')) ∧
    (∀ a b, h.flag? a = some b → (b = true ↔ h.signals a ≠ [])) ∧
    (∀ a, h.signals a = [] → (h.perform a).stats = h.stats) := by
  intro h₀ h l
  have b : Books h l := (books_fresh role t).told as
  refine ⟨?_, ?_, ?_, b.written, b.last, ?_, ?_, ?_, ?_⟩
  · rw [b.closes]
    exact Bool.toNat_le _
  · rw [b.cancels]
    exact Bool.toNat_le _
  · intro hrole
    exact b.ends ((h₀.role_after as).trans hrole)
  · intro before after has
    have hsilent := told_of_remoteClosed ((h₀.after before).perform .markRemoteClosed) rfl after
    calc l = h₀.told (before ++ .markRemoteClosed :: after) := congrArg h₀.told has
      _ = h₀.told before ++ (h₀.after before).told (.markRemoteClosed :: after) :=
        h₀.told_append before _
      _ = h₀.told before := by rw [Handle.told, hsilent, signals]; simp
  · intro a t'
    rw [transport_perform, signals_on]
    rfl
  · intro a f hf
    exact h.flag?_eq hf
  · intro a ha
    exact h.stats_perform a ha

/-- A server that has half-closed its call can still ask for more, but cannot cancel it; once the
peer is done, it tells its transport nothing at all. -/
theorem ends_once_half_closed :
    let h₀ : Handle Nat := { role := .server, transport := {} }
    let before : List (Act Nat) :=
      [.send 7, .halfClose, .requestCredit 1, .cancel .localCancelled, .fail .localCancelled]
    h₀.told (before ++ [.markRemoteClosed, .requestCredit 1]) =
        [.write 7, .halfClose, .credit 1] ∧
      (h₀.after before).signals (.cancel .localCancelled) = [] := by
  intro h₀ before
  have h := ends_once .server ({} : Loopback Nat) (before ++ [.markRemoteClosed, .requestCredit 1])
  have hlast := h.2.2.2.2.2.1 before [.requestCredit 1] rfl
  have hflag := (ends_once .server ({} : Loopback Nat) before).2.2.2.2.2.2.2.1
    (.cancel .localCancelled) false rfl
  exact ⟨hlast.trans rfl, by simpa using hflag⟩

end Handle
end PacedCall
