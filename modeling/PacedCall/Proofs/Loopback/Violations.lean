import PacedCall.Loopback.Desk
import PacedCall.Proofs.Handle

/-!
What the count of violations tells of deliveries that were made without credit. The count is a debt:
such a delivery adds one to it, and credit that is granted while there is a debt pays it off first.
So the count and what was paid off make up all deliveries without credit, whatever else is done to
the transport and in whatever order the waits on it are looked at; and the count alone is right only
as long as nobody grants credit to a peer in debt.
-/
namespace PacedCall
namespace Loopback
namespace Session
variable {α : Type} {s : Session α}

def opened (ready : Bool) : Session α := { wire := { ready := ready } }

def after (s : Session α) (as : List (Step α)) : Session α := as.foldl (fun s a => (s.step a).1) s

def total (f : Session α → Step α → Nat) : Session α → List (Step α) → Nat
  | _, [] => 0
  | s, a :: as => f s a + total f (s.step a).1 as

def delivers (s : Session α) : Step α → Bool
  | .peer (.deliver _) => true
  | .poll id =>
    match s.desk.find? id with
    | some { op := (.deliver v, p), finished := false, .. } =>
      p != .parked && s.wire.settles (.deliver v)
    | _ => false
  | _ => false

def grants : Step α → Nat
  | .requestCredit n => n
  | _ => 0

def uncredited (s : Session α) (a : Step α) : Nat :=
  if s.delivers a && s.wire.outstanding == 0 then 1 else 0

def repaid (s : Session α) (a : Step α) : Nat := min (grants a) s.wire.violations

@[simp] theorem wire_touch (s : Session α) : s.touch.wire = s.wire := rfl

@[simp] theorem wire_note (s : Session α) (n : Option (Notice α)) : (s.note n).wire = s.wire := by
  cases n with
  | none => rfl
  | some n => cases n <;> rfl

theorem wire_peer (s : Session α) (a : PeerAct α) : (s.peer a).wire = (s.wire.peer a).1 := by
  cases hm : a.moves <;> simp [peer, hm]

/-- A look at a wait leaves the transport as it is, unless it delivers. -/
theorem wire_poll (s : Session α) (id : String) :
    (s.poll id).1.wire =
      if s.delivers (.poll id) then { s.wire with delivered := s.wire.delivered + 1 }
      else s.wire := by
  cases hf : s.desk.find? id with
  | none => simp [poll, delivers, hf]
  | some h =>
    obtain ⟨⟨w, p⟩, finished, woken⟩ := h
    cases finished with
    | true => simp [poll, delivers, hf]
    | false =>
      cases hs : p != .parked && s.wire.settles w with
      | false => cases w <;> simp [poll, delivers, hf, hs]
      | true => cases w <;> simp [poll, delivers, hf, hs, wire_peer, Loopback.peer]

/-- What a step makes of the transport. -/
theorem wire_step (s : Session α) (a : Step α) :
    (s.step a).1.wire = match a with
      | .peer b => (s.wire.peer b).1
      | .start => s.wire.start.1
      | .watch => s.wire.watch
      | .disableAutomaticCredit => s.wire.disableAutomaticCredit
      | .requestCredit n => s.wire.requestCredit n
      | .sendMessage v => (s.wire.sendMessage v).1
      | .halfClose => s.wire.halfClose
      | .closeWithError st => s.wire.closeWithError st
      | .cancel st => s.wire.cancel st
      | .poll id =>
        if s.delivers (.poll id) then { s.wire with delivered := s.wire.delivered + 1 } else s.wire
      | .wait _ _ => s.wire
      | .drop _ => s.wire
      | .unknown => s.wire := by
  cases a with
  | peer b => exact wire_peer { s with notices := [] } b
  | poll id => exact wire_poll { s with notices := [] } id
  | start => exact wire_note _ _
  | sendMessage v =>
    simp only [step, apply]
    split <;> rfl
  | _ => rfl

def totals (s : Session α) : Nat × Nat := (s.wire.requested, s.wire.delivered)

theorem totals_step (s : Session α) (a : Step α) :
    (s.step a).1.totals =
      (s.wire.requested + grants a, s.wire.delivered + if s.delivers a then 1 else 0) := by
  rw [totals, wire_step]
  cases a with
  | peer b => cases b <;> rfl
  | poll id => cases hd : s.delivers (.poll id) <;> simp [hd, grants]
  | sendMessage v =>
    obtain ⟨sent, hsent⟩ := s.wire.exists_sendMessage v
    simp only [hsent]
    rfl
  | _ => rfl

/-- A delivery without credit makes the debt larger by one, and credit pays it off. -/
theorem violations_step (s : Session α) (a : Step α) :
    (s.step a).1.wire.violations + s.repaid a = s.wire.violations + s.uncredited a := by
  have htotals := totals_step s a
  simp only [totals, Prod.mk.injEq] at htotals
  have hcredit : s.delivers a = true → grants a = 0 := by
    cases a <;> simp [delivers, grants]
  simp only [violations, repaid, uncredited, outstanding, htotals]
  cases hd : s.delivers a with
  | false =>
    simp only [Bool.false_and, Bool.false_eq_true, if_false]
    omega
  | true =>
    have hnone := hcredit hd
    simp only [Bool.true_and, if_true, beq_iff_eq]
    split <;> omega

theorem violations_after (s : Session α) (as : List (Step α)) :
    (s.after as).wire.violations + total repaid s as =
      s.wire.violations + total uncredited s as := by
  induction as generalizing s with
  | nil => rfl
  | cons a as ih =>
    have hstep := violations_step s a
    have hrest := ih (s.step a).1
    have hafter : s.after (a :: as) = (s.step a).1.after as := rfl
    simp only [total, hafter]
    omega

/-- Nothing is paid off exactly when no credit is granted while there is a debt. -/
theorem repaid_eq_zero_iff (s : Session α) (as : List (Step α)) :
    total repaid s as = 0 ↔
      ∀ before a after, as = before ++ a :: after →
        grants a = 0 ∨ (s.after before).wire.violations = 0 := by
  induction as generalizing s with
  | nil => simp [total]
  | cons a as ih =>
    simp only [total, Nat.add_eq_zero_iff, ih, repaid]
    constructor
    · rintro ⟨hfirst, hrest⟩ before b after hsplit
      cases before with
      | nil =>
        obtain ⟨rfl, rfl⟩ := List.cons.inj hsplit
        exact (Nat.min_eq_zero_iff).mp hfirst
      | cons c before =>
        obtain ⟨rfl, rfl⟩ := List.cons.inj hsplit
        exact hrest before b after rfl
    · intro h
      refine ⟨Nat.min_eq_zero_iff.mpr (h [] a as rfl), ?_⟩
      rintro before b after rfl
      exact h (a :: before) b after rfl

/-- The count of violations after any script is the number of deliveries that were made without
credit, less what credit that was granted later has paid off. So it is that number exactly when no
credit came while there was a debt, and such credit, and nothing else, makes it smaller. -/
theorem violations_balance (ready : Bool) (as : List (Step α)) :
    let o : Session α := opened ready
    let s := o.after as
    s.wire.violations + total repaid o as = total uncredited o as ∧
      (s.wire.violations = total uncredited o as ↔
        ∀ before a after, as = before ++ a :: after →
          grants a = 0 ∨ (o.after before).wire.violations = 0) ∧
      ∀ a, (s.step a).1.wire.violations < s.wire.violations ↔
        0 < grants a ∧ 0 < s.wire.violations := by
  intro o s
  have hbalance : s.wire.violations + total repaid o as = 0 + total uncredited o as :=
    violations_after o as
  refine ⟨by omega, ?_, fun a => ?_⟩
  · rw [← repaid_eq_zero_iff]
    omega
  · have hstep := violations_step s a
    have hnone : 0 < grants a → s.uncredited a = 0 := by
      cases a <;> simp [grants, uncredited, delivers]
    simp only [repaid] at hstep
    omega

/-- One delivery without credit, and one credit after it: no violation is left. -/
theorem violations_forgotten :
    let o : Session Nat := opened true
    let as : List (Step Nat) := [.peer (.deliver 1), .requestCredit 1]
    (o.after [.peer (.deliver 1)]).wire.violations = 1 ∧ total uncredited o as = 1 ∧
      (o.after as).wire.violations = 0 := by
  decide

end Session
end Loopback
end PacedCall
