import Mathlib.Data.List.Induction
import PacedCall.Proofs.Desk
import PacedCall.Proofs.Queue.Place
import PacedCall.Queue.Desk

/-!
A queue together with the operations under way on it, in any order of steps. Every sender in line
is on the desk under one name only, and the queue knows its ticket: its value still waits, or the
sender was told what became of it.
-/
namespace PacedCall
namespace Queue

/-- Draining is receiving again and again. -/
theorem drainWith_of_tryRecv {α : Type} {P : Queue α → Prop} (hstep : ∀ q, P q → P q.tryRecv.1)
    {q : Queue α} (h : P q) (fuel : Nat) : P (q.drainWith fuel).1 := by
  induction fuel generalizing q with
  | zero => exact h
  | succ fuel ih =>
    have hr := hstep q h
    rw [drainWith]
    split
    · next heq => exact ih (by simpa [heq] using hr)
    · next heq => simpa [heq] using hr

theorem Orderly.drainWith {α : Type} {q : Queue α} (h : q.Orderly) (fuel : Nat) :
    (q.drainWith fuel).1.Orderly :=
  drainWith_of_tryRecv (P := Orderly) (fun _ hq => hq.tryRecv) h fuel

theorem Knows.drainWith {α : Type} {q : Queue α} {t : Nat} (h : q.Knows t) (fuel : Nat) :
    (q.drainWith fuel).1.Knows t :=
  drainWith_of_tryRecv (P := fun p => p.Knows t) (fun _ hq => hq.tryRecv) h fuel

@[simp] theorem capacity_drainWith {α : Type} (fuel : Nat) (q : Queue α) :
    (q.drainWith fuel).1.capacity = q.capacity :=
  drainWith_of_tryRecv (P := fun p => p.capacity = q.capacity)
    (fun p => p.capacity_tryRecv.trans) rfl fuel

def Op.ticket? : Op → Option Nat
  | .send (.inLine t) _ => some t
  | _ => none

namespace Session
variable {α : Type} {s : Session α}

def opened (capacity : Nat) : Session α := { queue := .new capacity }

def after (s : Session α) (as : List (Step α)) : Session α := as.foldl (fun s a => (s.step a).1) s

def ticket? (s : Session α) (id : String) : Option Nat :=
  (s.desk.find? id).bind fun h => h.op.ticket?

def name? : Step α → Option String
  | .send id _ => some id
  | .recv id => some id
  | .readable id => some id
  | .closed id => some id
  | .poll id => some id
  | .drop id => some id
  | _ => none

structure Sound (capacity : Nat) (s : Session α) : Prop where
  size : s.queue.capacity = max 1 capacity
  orderly : s.queue.Orderly
  live : ∀ id h t, s.desk.find? id = some h → h.op.ticket? = some t → h.finished = false
  known : ∀ id t, s.ticket? id = some t → s.queue.Knows t
  apart : ∀ id other t, s.ticket? id = some t → s.ticket? other = some t → id = other

theorem sound_opened (capacity : Nat) : (opened capacity : Session α).Sound capacity :=
  { size := rfl
    orderly := orderly_new capacity
    live := by simp [opened, Desk.find?]
    known := by simp [opened, ticket?, Desk.find?]
    apart := by simp [opened, ticket?, Desk.find?] }

/-! The desk. Waking leaves every sender where it stands, so only what is put under a name or
taken from it matters. -/

structure SameSenders (d e : Desk Op) : Prop where
  ticket : ∀ id, ((e.find? id).bind fun h => h.op.ticket?) = (d.find? id).bind fun h => h.op.ticket?
  live : ∀ id h t, e.find? id = some h → h.op.ticket? = some t →
    ∃ g, d.find? id = some g ∧ g.op.ticket? = some t ∧ g.finished = h.finished

theorem SameSenders.refl (d : Desk Op) : SameSenders d d :=
  ⟨fun _ => rfl, fun _ h _ hh ht => ⟨h, hh, ht, rfl⟩⟩

theorem sameSenders_wake {d e : Desk Op} (moved : String → Op → Option Op) (he : e = d.wake moved)
    (hm : ∀ id op op', moved id op = some op' → op'.ticket? = op.ticket?) :
    SameSenders d e := by
  subst he
  have hop : ∀ id h, (Desk.roused moved id h).op.ticket? = h.op.ticket? ∧
      (Desk.roused moved id h).finished = h.finished := by
    intro id h
    rw [Desk.roused]
    split
    · exact ⟨rfl, rfl⟩
    · split
      · next op heq => exact ⟨hm id _ op heq, rfl⟩
      · exact ⟨rfl, rfl⟩
  constructor
  · intro id
    rw [Desk.find?_wake]
    cases d.find? id with
    | none => rfl
    | some h => exact (hop id h).1
  · intro id h t hh ht
    rw [Desk.find?_wake] at hh
    obtain ⟨g, hg, rfl⟩ := Option.map_eq_some_iff.mp hh
    exact ⟨g, hg, (hop id g).1 ▸ ht, ((hop id g).2).symm⟩

theorem sameSenders_callReaders (s : Session α) : SameSenders s.desk s.callReaders.desk := by
  refine sameSenders_wake (fun _ op => op.callReader) rfl ?_
  intro _ op op' h
  cases op with
  | send e w => cases h
  | recv p => cases p <;> cases h; rfl
  | readable p => cases p <;> cases h; rfl
  | closed p => cases h

theorem sameSenders_callWatchers (s : Session α) : SameSenders s.desk s.callWatchers.desk := by
  refine sameSenders_wake (fun _ op => op.callWatcher) rfl ?_
  intro _ op op' h
  cases op with
  | closed p => cases p <;> cases h; rfl
  | _ => cases h

theorem sameSenders_callSenders (s : Session α) : SameSenders s.desk s.callSenders.desk := by
  simp only [callSenders]
  refine sameSenders_wake _ rfl ?_
  intro _ op op' h
  split at h
  · split at h <;> cases h
    rfl
  · cases h

/-- A change of the queue that forgets no ticket, with every sender where it stood. -/
theorem Sound.same {capacity : Nat} (h : s.Sound capacity) {r : Session α}
    (hd : SameSenders s.desk r.desk) (hsize : r.queue.capacity = s.queue.capacity)
    (ho : r.queue.Orderly) (hk : ∀ t, s.queue.Knows t → r.queue.Knows t) : r.Sound capacity := by
  have hticket : ∀ id, r.ticket? id = s.ticket? id := hd.ticket
  refine { size := hsize.trans h.size, orderly := ho, live := ?_, known := ?_, apart := ?_ }
  · intro id x t hx ht
    obtain ⟨g, hg, hgt, hgf⟩ := hd.live id x t hx ht
    exact hgf ▸ h.live id g t hg hgt
  · intro id t ht
    exact hk t (h.known id t (hticket id ▸ ht))
  · intro id other t h1 h2
    exact h.apart id other t (hticket id ▸ h1) (hticket other ▸ h2)

theorem Sound.tidy {capacity : Nat} (h : s.Sound capacity) : s.tidy.Sound capacity := by
  rw [Session.tidy]
  split
  · exact h.same (sameSenders_callSenders s) rfl h.orderly fun _ ht => ht
  · refine Sound.same (s := { s with queue := s.queue.release }) ?_
      (sameSenders_callSenders _) rfl h.orderly.release fun _ ht => ht
    exact h.same (.refl _) rfl h.orderly.release fun _ ht => ht.dismiss _

theorem ticket?_put_self {r : Session α} {id : String} {g : Held Op}
    (hd : r.desk = s.desk.put id g) : r.ticket? id = g.op.ticket? := by
  rw [ticket?, hd, Desk.find?_put_self, Option.bind_some]

theorem ticket?_put_of_ne {r : Session α} {id other : String} {g : Held Op}
    (hd : r.desk = s.desk.put id g) (hne : other ≠ id) : r.ticket? other = s.ticket? other := by
  rw [ticket?, hd, Desk.find?_put_of_ne _ _ hne, ticket?]

/-- Something new under a name. The ticket that stood there before may be forgotten, and a new one
must be nobody else's. -/
theorem Sound.put {capacity : Nat} (h : s.Sound capacity) {r : Session α} {id : String}
    {g : Held Op} (hd : r.desk = s.desk.put id g) (hsize : r.queue.capacity = s.queue.capacity)
    (ho : r.queue.Orderly)
    (hk : ∀ t, s.queue.Knows t → s.ticket? id ≠ some t → r.queue.Knows t)
    (hg : ∀ t, g.op.ticket? = some t →
      g.finished = false ∧ r.queue.Knows t ∧ ∀ other, other ≠ id → s.ticket? other ≠ some t) :
    r.Sound capacity := by
  refine { size := hsize.trans h.size, orderly := ho, live := ?_, known := ?_, apart := ?_ }
  · intro other x t hx ht
    by_cases hne : other = id
    · subst hne
      rw [hd, Desk.find?_put_self] at hx
      cases hx
      exact (hg t ht).1
    · rw [hd, Desk.find?_put_of_ne _ _ hne] at hx
      exact h.live other x t hx ht
  · intro other t ht
    by_cases hne : other = id
    · subst hne
      rw [ticket?_put_self hd] at ht
      exact (hg t ht).2.1
    · rw [ticket?_put_of_ne hd hne] at ht
      exact hk t (h.known other t ht) fun hid => hne (h.apart other id t ht hid)
  · intro a b t ha hb
    by_cases hai : a = id <;> by_cases hbi : b = id
    · rw [hai, hbi]
    · subst hai
      rw [ticket?_put_self hd] at ha
      rw [ticket?_put_of_ne hd hbi] at hb
      exact absurd hb ((hg t ha).2.2 b hbi)
    · subst hbi
      rw [ticket?_put_self hd] at hb
      rw [ticket?_put_of_ne hd hai] at ha
      exact absurd ha ((hg t hb).2.2 a hai)
    · rw [ticket?_put_of_ne hd hai] at ha
      rw [ticket?_put_of_ne hd hbi] at hb
      exact h.apart a b t ha hb

def without (s : Session α) (id : String) : Queue α :=
  match s.ticket? id with
  | some t => (s.queue.withdraw t).forget t
  | none => s.queue

theorem queue_remove (s : Session α) (id : String) : (s.remove id).1.queue = s.without id := by
  rw [remove, without, ticket?]
  cases hf : s.desk.find? id with
  | none => rfl
  | some h =>
    cases hop : h.op with
    | send e w => cases e <;> simp [hop, Op.ticket?, dropSend]
    | recv p => simp [hop, Op.ticket?]
    | readable p => simp [hop, Op.ticket?]
    | closed p => simp [hop, Op.ticket?]

theorem ticket?_remove_self (s : Session α) (id : String) : (s.remove id).1.ticket? id = none := by
  rw [remove, ticket?]
  cases hf : s.desk.find? id with
  | none => simp [hf]
  | some h => simp [Desk.find?_erase_self]

theorem ticket?_remove_of_ne (s : Session α) {id other : String} (hne : other ≠ id) :
    (s.remove id).1.ticket? other = s.ticket? other := by
  unfold remove ticket?
  cases hf : s.desk.find? id with
  | none => rfl
  | some h => simp [Desk.find?_erase_of_ne _ hne]

theorem orderly_without {capacity : Nat} (h : s.Sound capacity) (id : String) :
    (s.without id).Orderly := by
  rw [Session.without]
  split
  · exact (h.orderly.withdraw _).forget _
  · exact h.orderly

theorem knows_without {t : Nat} (ht : s.queue.Knows t) {id : String}
    (hne : s.ticket? id ≠ some t) : (s.without id).Knows t := by
  rw [without]
  split
  · next u hu =>
    have htu : t ≠ u := by
      rintro rfl
      exact hne hu
    exact (ht.withdraw htu).forget htu
  · exact ht

theorem capacity_without (s : Session α) (id : String) :
    (s.without id).capacity = s.queue.capacity := by
  rw [without]
  split <;> rfl

theorem Sound.remove {capacity : Nat} (h : s.Sound capacity) (id : String) :
    (s.remove id).1.Sound capacity := by
  have hq := queue_remove s id
  have hback : ∀ other t, (s.remove id).1.ticket? other = some t →
      other ≠ id ∧ s.ticket? other = some t := by
    intro other t ht
    by_cases hne : other = id
    · subst hne
      rw [ticket?_remove_self] at ht
      cases ht
    · exact ⟨hne, ticket?_remove_of_ne s hne ▸ ht⟩
  refine { size := ?_, orderly := hq ▸ orderly_without h id, live := ?_, known := ?_,
           apart := ?_ }
  · rw [hq, capacity_without, h.size]
  · intro other x t hx ht
    have hne : other ≠ id := (hback other t (by rw [ticket?, hx, Option.bind_some, ht])).1
    refine h.live other x t ?_ ht
    revert hx
    rw [Session.remove]
    cases hf : s.desk.find? id with
    | none => exact fun hx => hx
    | some g => simp [Desk.find?_erase_of_ne _ hne]
  · intro other t ht
    obtain ⟨hne, ht⟩ := hback other t ht
    rw [hq]
    exact knows_without (h.known other t ht) fun hid => hne (h.apart other id t ht hid)
  · intro a b t ha hb
    exact h.apart a b t (hback a t ha).2 (hback b t hb).2

theorem desk_start (s : Session α) (id : String) (op : Op) :
    (s.start id op).desk = (s.remove id).1.desk.put id { op := op } := rfl

theorem queue_start (s : Session α) (id : String) (op : Op) :
    (s.start id op).queue = s.without id := queue_remove s id

theorem Sound.start {capacity : Nat} (h : s.Sound capacity) (id : String) {op : Op}
    (hop : ∀ t, op.ticket? = some t →
      (s.without id).Knows t ∧ ∀ other, other ≠ id → s.ticket? other ≠ some t) :
    (s.start id op).Sound capacity := by
  refine (h.remove id).put (desk_start s id op) rfl (h.remove id).orderly (fun _ ht _ => ht) ?_
  intro t ht
  obtain ⟨hk, hother⟩ := hop t ht
  refine ⟨rfl, queue_start s id op ▸ hk, ?_⟩
  intro other hne
  rw [ticket?_remove_of_ne s hne]
  exact hother other hne

/-- A sender that has to wait gets a ticket nobody had before. -/
theorem send_inLine {q : Queue α} {v : α} {t : Nat} (h : (q.send v).2 = .inLine t) :
    t = q.nextTicket ∧ (q.send v).1.Knows t := by
  unfold Queue.send at h ⊢
  split at h
  · cases h
  · split at h
    · cases h
    · next hr =>
      cases h
      rw [if_neg hr]
      exact ⟨rfl, Or.inl (by simp [tickets])⟩

theorem Sound.send {capacity : Nat} (h : s.Sound capacity) (id : String) (v : α) :
    (Session.start { s with queue := (s.queue.send v).1 } id
      (.send (s.queue.send v).2 false)).Sound capacity := by
  have hs : Sound capacity { s with queue := (s.queue.send v).1 } :=
    h.same (.refl _) (capacity_send _ _) (h.orderly.send v) fun _ ht => ht.send v
  refine hs.start id ?_
  intro t ht
  have he : (s.queue.send v).2 = .inLine t := by
    cases hq : (s.queue.send v).2 <;> simp_all [Op.ticket?]
  obtain ⟨rfl, hk⟩ := send_inLine he
  -- Every ticket on the desk was given out before this one.
  have hnew : ∀ other, s.ticket? other ≠ some s.queue.nextTicket := by
    intro other hother
    exact Nat.lt_irrefl _ (h.orderly.lt_of_knows (h.known other _ hother))
  exact ⟨knows_without hk (hnew id), fun other _ => hnew other⟩

theorem Sound.poll {capacity : Nat} (h : s.Sound capacity) (id : String) :
    (s.poll id).1.Sound capacity := by
  rw [Session.poll]
  cases hf : s.desk.find? id with
  | none => exact h
  | some g =>
    by_cases hfin : g.finished = true
    · simp only [hfin, if_true]
      refine h.put rfl rfl h.orderly (fun _ ht _ => ht) ?_
      intro t ht
      have hlive := h.live id g t hf ht
      simp [hfin] at hlive
    · have hticket : s.ticket? id = g.op.ticket? := by rw [ticket?, hf, Option.bind_some]
      simp only [hfin, if_false, Bool.false_eq_true]
      cases hop : g.op with
      | send e w =>
        cases e with
        | settled r =>
          exact h.put rfl rfl h.orderly (fun _ ht _ => ht) (by simp [lookAt, pollSend, Op.ticket?])
        | spent =>
          exact h.put rfl rfl h.orderly (fun _ ht _ => ht) (by simp [lookAt, pollSend, Op.ticket?])
        | inLine t =>
          have hid : s.ticket? id = some t := by rw [hticket, hop, Op.ticket?]
          cases hfate : s.queue.fate? t with
          | some r =>
            simp only [lookAt, pollSend, hfate]
            refine h.put rfl rfl (h.orderly.forget t) ?_ (by simp [Op.ticket?])
            intro u hu hne
            exact hu.forget fun hut => hne (hut ▸ hid)
          | none =>
            simp only [lookAt, pollSend, hfate]
            refine h.put rfl rfl h.orderly (fun _ ht _ => ht) ?_
            intro u hu
            cases hu
            exact ⟨rfl, h.known id t hid, fun other hne ho => hne (h.apart other id t ho hid)⟩
      | recv p =>
        cases p with
        | parked => exact h.put rfl rfl h.orderly (fun _ ht _ => ht) (by simp [lookAt, Op.ticket?])
        | idle =>
          exact h.put rfl (capacity_tryRecv _) h.orderly.tryRecv (fun _ ht _ => ht.tryRecv)
            (by simp [lookAt, Op.ticket?])
        | called =>
          exact h.put rfl (capacity_tryRecv _) h.orderly.tryRecv (fun _ ht _ => ht.tryRecv)
            (by simp [lookAt, Op.ticket?])
      | readable p =>
        cases p <;> exact h.put rfl rfl h.orderly (fun _ ht _ => ht) (by simp [lookAt, Op.ticket?])
      | closed p =>
        cases p <;> exact h.put rfl rfl h.orderly (fun _ ht _ => ht) (by simp [lookAt, Op.ticket?])

/-- A change of the queue alone. -/
theorem Sound.queue {capacity : Nat} (h : s.Sound capacity) {q : Queue α}
    (hsize : q.capacity = s.queue.capacity) (ho : q.Orderly)
    (hk : ∀ t, s.queue.Knows t → q.Knows t) : Sound capacity { s with queue := q } :=
  h.same (.refl _) hsize ho hk

theorem Sound.callReaders {capacity : Nat} (h : s.Sound capacity) :
    s.callReaders.Sound capacity :=
  h.same (sameSenders_callReaders s) rfl h.orderly fun _ ht => ht

theorem Sound.callWatchers {capacity : Nat} (h : s.Sound capacity) :
    s.callWatchers.Sound capacity :=
  h.same (sameSenders_callWatchers s) rfl h.orderly fun _ ht => ht

theorem Sound.apply {capacity : Nat} (h : s.Sound capacity) (a : Step α) :
    (s.apply a).1.Sound capacity := by
  cases a with
  | trySend v =>
    have hq : Sound capacity { s with queue := (s.queue.trySend v).1 } :=
      h.queue (capacity_trySend _ _) (h.orderly.trySend v) fun _ ht => ht.trySend v
    simp only [Session.apply]
    split
    · exact hq.callReaders
    · exact hq
  | send id v =>
    simp only [Session.apply]
    split
    · exact (h.send id v).callReaders
    · exact h.send id v
  | recv id => exact h.start id (by simp [Op.ticket?])
  | readable id => exact h.start id (by simp [Op.ticket?])
  | closed id => exact h.start id (by simp [Op.ticket?])
  | tryRecv => exact h.queue (capacity_tryRecv _) h.orderly.tryRecv fun _ ht => ht.tryRecv
  | drain =>
    have hsize : s.queue.drain.1.capacity = s.queue.capacity := capacity_drainWith _ _
    have ho : s.queue.drain.1.Orderly := h.orderly.drainWith _
    have hk : ∀ t, s.queue.Knows t → s.queue.drain.1.Knows t := fun _ ht => ht.drainWith _
    exact h.queue hsize ho hk
  | close t =>
    have hq : Sound capacity { s with queue := (s.queue.close t).1 } :=
      h.queue (capacity_close _ _) (h.orderly.close t) fun _ ht => ht.close t
    simp only [Session.apply]
    split
    · exact hq.callReaders.callWatchers
    · exact hq
  | cancel st =>
    have hq : Sound capacity { s with queue := (s.queue.cancel st).1 } :=
      h.queue (capacity_cancel _ _) (h.orderly.cancel st) fun _ ht => ht.cancel st
    simp only [Session.apply]
    split
    · exact hq.callReaders.callWatchers
    · exact hq.callReaders
  | letGo => exact h.same (.refl _) rfl h.orderly fun _ ht => ht
  | poll id => exact h.poll id
  | drop id => exact h.remove id
  | unknown => exact h

theorem Sound.step {capacity : Nat} (h : s.Sound capacity) (a : Step α) :
    (s.step a).1.Sound capacity := by
  rw [Session.step]
  split
  · exact h
  · exact (h.apply a).tidy

/-- The order holds whatever is done to the queue and in whatever order its senders are looked
at. -/
theorem sound_after (capacity : Nat) (as : List (Step α)) :
    ((opened capacity : Session α).after as).Sound capacity := by
  induction as using List.reverseRecOn with
  | nil => exact sound_opened capacity
  | append_singleton as a ih =>
    rw [Session.after, List.foldl_append]
    exact ih.step a

end Session
end Queue
end PacedCall
