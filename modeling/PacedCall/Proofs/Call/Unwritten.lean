import PacedCall.Proofs.Call.Lasting
import PacedCall.Proofs.Call.Lookout

/-!
What becomes of a message whose send fails. A send fails on a closed queue, where it registers
nothing; with the end of its scope, when it takes back a value still in line; or because the whole
line was discarded, after which nothing is written any more. Only a value that the queue took out of
the line before its sender looked again may be written although the send fails with its scope.
-/
namespace PacedCall

namespace Queue
variable {α : Type} {q : Queue α} {t : Nat}

def took (q : Queue α) (ticket : Nat) : Bool :=
  match q.fate? ticket with
  | some (.ok _) => true
  | _ => false

theorem took_of_discarded (h : q.Discarded t) : q.took t = false := by
  obtain ⟨e, he⟩ := h
  rw [took, he]

/-- Taking the next value out tells nobody that a value is gone. -/
theorem discarded_of_tryRecv (h : q.tryRecv.1.Discarded t) : q.Discarded t := by
  obtain ⟨e, he⟩ := h
  obtain ⟨more, hfates, hok⟩ := q.told_tryRecv
  rw [fate?_append hfates, Option.or_eq_some_iff] at he
  obtain he | ⟨_, hmore⟩ := he
  · exact ⟨e, he⟩
  · obtain ⟨x, hx, hxe⟩ := Option.map_eq_some_iff.mp hmore
    rw [hok x (List.mem_of_find?_eq_some hx)] at hxe
    cases hxe

/-- A sender that waits, and whose value was not taken, has it in line or was told that it is
gone. -/
theorem Knows.of_not_took (h : q.Knows t) (ht : q.took t = false) :
    t ∈ q.tickets ∨ q.Discarded t := by
  refine h.imp id fun htold => ?_
  cases hf : q.fate? t with
  | none => exact absurd htold (fate?_eq_none_iff.mp hf)
  | some r =>
    cases r with
    | ok u => simp [took, hf] at ht
    | error e => exact ⟨e, hf⟩

end Queue

namespace Outgoing
variable {α : Type} {o : Outgoing α} {R : List (Entry α)} {D F : List Nat}

def handed (o : Outgoing α) (R : List (Entry α)) (D : List Nat) : List (Entry α) :=
  (Entry.kept R D).take o.sent.length

/-- No failed send, and none that will learn that its value is gone, was written. `F` holds the
tickets of the sends that failed so far. -/
structure Spared (o : Outgoing α) (R : List (Entry α)) (D F : List Nat) : Prop where
  discarded : ∀ t, o.queue.Discarded t → o.queue.closedForReceive = true
  failed : ∀ t ∈ F, t ∈ D ∨ o.queue.closedForReceive = true
  handed : ∀ x ∈ o.handed R D, ∀ t, x.ticket? = some t → ¬ o.queue.Discarded t ∧ t ∉ F

theorem Sound.map_handed (h : o.Sound R D) : (o.handed R D).map Entry.value = o.sent := by
  rw [Outgoing.handed, List.map_take]
  exact (List.prefix_iff_eq_take.mp h.written).symm

theorem Sound.length_handed (h : o.Sound R D) : (o.handed R D).length = o.sent.length := by
  rw [← h.map_handed, List.length_map]

/-- What was written is not in line any more. -/
theorem Sound.past_handed (h : o.Sound R D) {x : Entry α} (hx : x ∈ o.handed R D) {t : Nat}
    (ht : x.ticket? = some t) : t ∉ o.queue.tickets ∧ t < o.queue.nextTicket := by
  have hkept : x ∈ Entry.kept R D := List.mem_of_mem_take hx
  refine ⟨fun hline => ?_, h.fresh t (List.mem_filterMap.mpr ⟨x, hkept, ht⟩)⟩
  obtain ⟨front, hK, hfront⟩ | hl := h.ledger
  · have hlen : o.sent.length ≤ front.length := by
      rw [← List.length_map (f := Entry.value), hfront, List.length_append]
      exact Nat.le_add_right _ _
    rw [Outgoing.handed, hK, List.take_append_of_le_length hlen] at hx
    exact Sound.sorted_front (hK ▸ h.sorted) hline x (List.mem_of_mem_take hx) ht
  · have hnil := h.orderly.closedForReceive_iff.mp hl.1
    simp_all [Queue.line, Queue.tickets]

namespace Spared

/-- What was written is the beginning of what was neither withdrawn nor failed. -/
theorem written (h : o.Spared R D F) (hs : o.Sound R D) :
    o.sent <+: (Entry.kept R (D ++ F)).map Entry.value := by
  have hall : (o.handed R D).filter (fun x => x.ticket?.all fun t => decide (t ∉ F)) =
      o.handed R D := by
    rw [List.filter_eq_self]
    intro x hx
    cases ht : x.ticket? with
    | none => rfl
    | some t => simpa using (h.handed x hx t ht).2
  rw [Entry.kept_append_withdrawn, ← hs.map_handed, ← hall]
  exact ((List.take_prefix _ _).filter _).map _

/-- A move that writes nothing. What it withdraws was in line, and who fails by it has withdrawn
its value or was told that it is gone. -/
theorem step {o' : Outgoing α} {looked : Option Nat} {R' : List (Entry α)} {D' G : List Nat}
    (h : o.Spared R D F) (hs : o.Sound R D) (hsent : o'.sent = o.sent)
    (hl : o.queue.Lasts looked o'.queue) (hline : ∀ t ∈ D', t ∈ o.queue.tickets)
    (hfails : ∀ t ∈ G, t ∈ D' ∨ o.queue.Discarded t) :
    o'.Spared (R ++ R') (D ++ D') (F ++ G) := by
  have hstay : o'.handed (R ++ R') (D ++ D') = o.handed R D := by
    have hall : (o.handed R D).filter (fun x => x.ticket?.all fun t => decide (t ∉ D')) =
        o.handed R D := by
      rw [List.filter_eq_self]
      intro x hx
      cases ht : x.ticket? with
      | none => rfl
      | some t => simpa using fun hd => (hs.past_handed hx ht).1 (hline t hd)
    have hsplit : Entry.kept R D = o.handed R D ++ (Entry.kept R D).drop o.sent.length :=
      (List.take_append_drop _ _).symm
    have hmore : Entry.kept (R ++ R') D = Entry.kept R D ++ Entry.kept R' D :=
      List.filter_append ..
    rw [Outgoing.handed, hsent, Entry.kept_append_withdrawn, hmore, hsplit, List.append_assoc,
      List.filter_append, hall]
    exact List.take_left' hs.length_handed
  have hdiscarded : ∀ t, o'.queue.Discarded t → o'.queue.closedForReceive = true := by
    intro t ht
    obtain hbefore | hnow := hl.discarded t ht
    · exact hl.drained (h.discarded t hbefore)
    · exact hnow.2
  refine ⟨hdiscarded, ?_, ?_⟩
  · intro t ht
    obtain ht | ht := List.mem_append.mp ht
    · exact (h.failed t ht).imp (List.mem_append_left _) hl.drained
    · exact (hfails t ht).imp (List.mem_append_right _) fun hgone =>
        hl.drained (h.discarded t hgone)
  · intro x hx t ht
    rw [hstay] at hx
    obtain ⟨hkeeps, hF⟩ := h.handed x hx t ht
    obtain ⟨hpast, hgiven⟩ := hs.past_handed hx ht
    refine ⟨fun hgone => ?_, fun hmem => ?_⟩
    · obtain hbefore | ⟨hline | hnew, _⟩ := hl.discarded t hgone
      · exact hkeeps hbefore
      · exact hpast hline
      · exact Nat.lt_irrefl _ (Nat.lt_of_lt_of_le hgiven hnew)
    · obtain hmem | hmem := List.mem_append.mp hmem
      · exact hF hmem
      · obtain hd | hgone := hfails t hmem
        · exact hpast (hline t hd)
        · exact hkeeps hgone

/-- A write finds a queue that has discarded nothing, so whoever failed until then has withdrawn
its value. -/
theorem write {o' : Outgoing α} {v : α} {q : Queue α} (h : o.Spared R D F)
    (hq : o.queue.tryRecv = (q, .item v)) (hq' : o'.queue = q) : o'.Spared R D F := by
  have hopen : ¬ o.queue.closedForReceive = true := by
    rw [Queue.tryRecv] at hq
    split at hq
    · next hb => simp [Queue.closedForReceive, hb]
    · split at hq <;> cases hq
  have hkeeps : ∀ t, ¬ o'.queue.Discarded t := by
    intro t ht
    have hfst : q = o.queue.tryRecv.1 := by rw [hq]
    rw [hq', hfst] at ht
    exact hopen (h.discarded t (Queue.discarded_of_tryRecv ht))
  have hwithdrawn : ∀ t ∈ F, t ∈ D := fun t ht => (h.failed t ht).resolve_right hopen
  refine ⟨fun t ht => absurd ht (hkeeps t), fun t ht => .inl (hwithdrawn t ht), ?_⟩
  intro x hx t ht
  refine ⟨hkeeps t, fun hF => ?_⟩
  have hkept := (List.mem_filter.mp (List.mem_of_mem_take hx)).2
  rw [ht] at hkept
  simp [hwithdrawn t hF] at hkept

end Spared
end Outgoing

namespace Call
variable {α : Type} {c d : Call α} {R : List (Entry α)} {D F : List Nat}

theorem spared_same (h : c.outgoing.Spared R D F) (hs : c.outgoing.Sound R D)
    (hsent : d.wire.sent = c.wire.sent) {looked : Option Nat} (hl : c.Lasts looked d) :
    d.outgoing.Spared R D F := by
  have hstep : d.outgoing.Spared (R ++ []) (D ++ []) (F ++ []) :=
    h.step hs (congrArg Array.toList hsent) hl.outbound nofun nofun
  simpa using hstep

theorem spared_next (h : c.outgoing.Spared R D F) (hs : c.outgoing.Sound R D) {b : Bool}
    (hx : Next c (d, b)) : d.outgoing.Spared R D F := by
  have hlasts : c.Lasts none d := .next hx
  have hsame : d.wire.sent = c.wire.sent → d.outgoing.Spared R D F := fun hsent =>
    spared_same h hs hsent hlasts
  cases hx with
  | wrote hq hsend => exact h.write hq rfl
  | refused hq hsend => exact hsame (congrArg Loopback.sent (wire_failOutbound _ _))
  | empty hq => exact hsame rfl
  | completed hq =>
    refine hsame ?_
    split
    · rfl
    · rw [Handle.halfClose]
      split <;> rfl
  | failed hq => exact hsame (congrArg Loopback.sent (wire_failOutbound _ _))

theorem spared_turn (h : c.outgoing.Spared R D F) (hs : c.outgoing.Sound R D) {b : Bool}
    (ht : Turn c (d, b)) : d.outgoing.Spared R D F := by
  cases ht with
  | rest => exact h
  | waits hp hr => exact ⟨h.discarded, h.failed, h.handed⟩
  | unready hp hr hend => exact ⟨h.discarded, h.failed, h.handed⟩
  | @next r _ hp hr hx =>
    exact spared_next (c := { c with readiness := r }) ⟨h.discarded, h.failed, h.handed⟩
      (outgoing_readiness hr ▸ hs) hx

theorem spared_pollPump (h : c.outgoing.Spared R D F) (hs : c.outgoing.Sound R D) :
    c.pollPump.outgoing.Spared R D F :=
  (pollPump_of_turn (P := fun c => c.outgoing.Spared R D F ∧ c.outgoing.Sound R D)
    (fun _ _ _ hc ht => ⟨spared_turn hc.1 hc.2 ht, sound_turn hc.2 ht⟩) ⟨h, hs⟩).1

def failures (c : Call α) (sd : Send α) : List Nat :=
  match sd.ticket?, (c.pollSend sd).2.2 with
  | some t, some (.error _) => if c.outbound.took t then [] else [t]
  | _, _ => []

/-- A send fails with its scope, or because its value is gone. -/
theorem pollSend_error {sd : Send α} {t : Nat} {e : QueueError} (hsd : sd.ticket? = some t)
    (he : (c.pollSend sd).2.2 = some (.error e)) :
    (∃ st, c.scope.status = some st ∧ e = .terminated st) ∨
      c.scope.status = none ∧ c.outbound.Discarded t := by
  cases hs : c.scope.status with
  | some st =>
    rw [pollSend_of_status hs] at he
    cases he
    exact .inl ⟨st, rfl, rfl⟩
  | none =>
    refine .inr ⟨rfl, ?_⟩
    cases sd with
    | fresh v => cases hsd
    | placed w =>
      cases w with
      | inLine u =>
        cases hsd
        simp only [pollSend, hs, Queue.pollSend] at he
        cases hf : c.outbound.fate? t with
        | none => simp [hf] at he
        | some r =>
          simp only [hf, Option.some.injEq] at he
          exact ⟨e, hf.trans (congrArg some he)⟩
      | _ => cases hsd

/-- A send that fails at its first look has registered nothing. -/
theorem registers_of_error (ho : c.outbound.Orderly) {v : α} {e : QueueError}
    (he : (c.pollSend (.fresh v)).2.2 = some (.error e)) : c.registers (.fresh v) = [] := by
  cases hs : c.scope.status with
  | some st => simp [registers, hs]
  | none =>
    have hor := ho.send v
    simp only [registers, hs, Queue.admits]
    unfold pollSend at he
    simp only [hs] at he
    rcases hsend : c.outbound.send v with ⟨q, w⟩
    rw [hsend] at hor
    simp only [hsend] at he
    cases w with
    | settled r =>
      cases r with
      | ok u => simp [Queue.pollSend] at he
      | error e => rfl
    | spent => rfl
    | inLine t =>
      have hline : t ∈ q.tickets := (Queue.nextTicket_of_inLine hsend).2.2
      simp [Queue.pollSend, hor.fate?_eq_none hline] at he

/-- A value that is not taken fails by being withdrawn, or was gone before. -/
theorem failures_spared {sd : Send α} (hknows : ∀ t, sd.ticket? = some t → c.outbound.Knows t) :
    ∀ t ∈ c.failures sd, t ∈ c.withdraws sd ∨ c.outbound.Discarded t := by
  intro t ht
  rw [failures] at ht
  split at ht
  · next u e hsd he =>
    split at ht
    · cases ht
    · next htook =>
      cases List.mem_singleton.mp ht
      obtain ⟨st, hst, _⟩ | ⟨_, hgone⟩ := pollSend_error hsd he
      · refine ((hknows t hsd).of_not_took (by simpa using htook)).imp ?_ id
        intro hline
        cases sd with
        | fresh v => cases hsd
        | placed w =>
          cases w with
          | inLine u =>
            cases hsd
            simp [withdraws, hst, Queue.withdraws, hline]
          | _ => cases hsd
      · exact .inr hgone
  · cases ht

theorem withdraws_inLine (c : Call α) (sd : Send α) :
    ∀ t ∈ c.outbound.withdraws sd, t ∈ c.outbound.tickets := by
  intro t ht
  unfold Queue.withdraws at ht
  split at ht
  · split at ht
    · next hline => exact List.mem_singleton.mp ht ▸ hline
    · cases ht
  · cases ht

/-- A send that goes on waiting does so under its ticket, or has just been registered under one. -/
theorem pollSend_waits {sd sd' : Send α} (h : c.pollSend sd = (d, sd', none)) :
    (sd' = sd ∧ ∃ t, sd = .placed (.inLine t)) ∨
      ∃ v t, sd = .fresh v ∧ sd' = .placed (.inLine t) ∧ c.registers sd = [⟨some t, v⟩] := by
  unfold pollSend at h
  cases hs : c.scope.status with
  | some st => simp [hs] at h
  | none =>
    simp only [hs] at h
    cases sd with
    | placed e =>
      rcases hpoll : c.outbound.pollSend e with ⟨q, f, _ | r⟩
      · obtain ⟨_, rfl, t, rfl, _⟩ := Queue.pollSend_pending hpoll
        simp only [hpoll] at h
        cases h
        exact .inl ⟨rfl, t, rfl⟩
      · simp [hpoll] at h
    | fresh v =>
      rcases hsend : c.outbound.send v with ⟨p, e⟩
      simp only [hsend] at h
      rcases hpoll : p.pollSend e with ⟨q, f, _ | r⟩
      · obtain ⟨_, rfl, t, rfl, _⟩ := Queue.pollSend_pending hpoll
        simp only [hpoll] at h
        cases h
        refine .inr ⟨v, t, rfl, rfl, ?_⟩
        simp [registers, hs, Queue.admits, hsend]
      · simp [hpoll] at h

end Call

namespace Course
variable {α : Type} {s : Course α} {R : List (Entry α)} {D F : List Nat}

def failures (s : Course α) : Move α → List Nat
  | .pollSend i => (s.sends[i]?).elim [] s.call.failures
  | _ => []

theorem knows_of_get (hknows : ∀ k ∈ s.waiters, s.call.outbound.Knows k) {i : Nat} {sd : Send α}
    (hi : s.sends[i]? = some sd) (t : Nat) (ht : sd.ticket? = some t) :
    s.call.outbound.Knows t :=
  hknows t (List.mem_filterMap.mpr ⟨sd, List.mem_of_getElem? hi, ht⟩)

theorem spared_step (h : s.call.outgoing.Spared R D F) (hs : s.call.outgoing.Sound R D)
    (hknows : ∀ k ∈ s.waiters, s.call.outbound.Knows k) (m : Move α) :
    (s.step m).call.outgoing.Spared (R ++ s.registers m) (D ++ s.withdraws m)
      (F ++ s.failures m) := by
  by_cases hm : m = .pump
  · subst hm
    simpa [registers, withdraws, failures, step, withCall] using Call.spared_pollPump h hs
  · obtain ⟨looked, hl⟩ := exists_lasts_step s m
    refine h.step hs (congrArg Array.toList (beside_step s hm).sent) hl.outbound ?_ ?_
    · cases m with
      | pollSend i =>
        cases hi : s.sends[i]? with
        | none => simp [withdraws, hi]
        | some sd =>
          simp only [withdraws, hi, Option.elim_some, Call.withdraws]
          split
          · exact Call.withdraws_inLine _ sd
          · exact List.forall_mem_nil _
      | dropSend i =>
        cases hi : s.sends[i]? with
        | none => simp [withdraws, hi]
        | some sd =>
          simp only [withdraws, hi, Option.elim_some]
          exact Call.withdraws_inLine _ sd
      | _ => exact List.forall_mem_nil _
    · cases m with
      | pollSend i =>
        cases hi : s.sends[i]? with
        | none => simp [failures, hi]
        | some sd =>
          simp only [failures, withdraws, hi, Option.elim_some]
          exact Call.failures_spared (knows_of_get hknows hi)
      | _ => exact List.forall_mem_nil _

end Course

namespace Opening
variable {α : Type}

/-- Before the first move the outbound direction is as it was built. -/
theorem outgoing_call (o : Opening α) (p : CallPlan) (wire : Loopback α) :
    (o.call p wire).outgoing = (o.idle p wire).outgoing := by
  refine o.call_of_idle (P := fun c => c.outgoing = (o.idle p wire).outgoing) p wire rfl ?_ ?_
    fun _ _ h => h
  · intro c h
    simp only [Call.hear]
    split
    · rw [Call.outgoing_onReady, h]
    · exact h
  · intro c h
    rw [Call.outgoing_ask, h]

theorem spared_call (o : Opening α) (p : CallPlan) {wire : Loopback α} (hwire : wire.Unused)
    (R : List (Entry α)) : (o.call p wire).outgoing.Spared R [] [] := by
  have hnew : (o.idle p wire).outgoing.queue.fates = [] ∧ (o.idle p wire).outgoing.sent = [] := by
    cases o with
    | bidi => exact ⟨rfl, congrArg Outgoing.sent (p.outgoing_idle hwire _ _ 1)⟩
    | serve => exact ⟨rfl, congrArg Outgoing.sent (p.outgoing_idle hwire _ _ 1)⟩
    | responses request => exact ⟨rfl, congrArg Outgoing.sent (p.outgoing_idle hwire _ _ 0)⟩
  rw [outgoing_call]
  refine ⟨?_, nofun, ?_⟩
  · rintro t ⟨e, he⟩
    simp [Queue.fate?, hnew.1] at he
  · intro x hx
    rw [Outgoing.handed, hnew.2] at hx
    cases hx

end Opening

/-! Which message a send carries. -/

namespace Queue
variable {α : Type}

/-- Whatever a send registers under a ticket, it registers under the next one. -/
theorem tickets_admits (q : Queue α) (v : α) :
    (q.admits v).filterMap Entry.ticket? = [] ∨
      (q.admits v).filterMap Entry.ticket? = [q.nextTicket] ∧
        (q.send v).1.nextTicket = q.nextTicket + 1 := by
  rw [admits]
  rcases hsend : q.send v with ⟨r, e⟩
  cases e with
  | settled res => cases res <;> exact .inl rfl
  | spent => exact .inl rfl
  | inLine t =>
    obtain ⟨rfl, hgiven, _⟩ := nextTicket_of_inLine hsend
    exact .inr ⟨rfl, hgiven⟩

theorem tickets_accepts (q : Queue α) (v : α) :
    (q.accepts v).filterMap Entry.ticket? = [] := by
  rw [accepts]
  split <;> rfl

end Queue

namespace Call
variable {α : Type}

theorem tickets_registers (c : Call α) (sd : Send α) :
    (c.registers sd).filterMap Entry.ticket? = [] ∨
      (c.registers sd).filterMap Entry.ticket? = [c.outbound.nextTicket] ∧
        (c.pollSend sd).1.outbound.nextTicket = c.outbound.nextTicket + 1 := by
  cases sd with
  | placed e => exact .inl (by simp [registers])
  | fresh v =>
    cases hs : c.scope.status with
    | some st => exact .inl (by simp [registers, hs])
    | none =>
      simp only [registers, hs, pollSend]
      refine (c.outbound.tickets_admits v).imp id fun h => ⟨h.1, ?_⟩
      obtain ⟨fates, hpoll⟩ := Queue.exists_pollSend (c.outbound.send v).1 (c.outbound.send v).2
      rw [hpoll]
      exact h.2

end Call

namespace Course
variable {α : Type} {s : Course α} {R : List (Entry α)}

/-- Every send under way still has its message in hand, or has registered it under its ticket; and
no two messages are registered under one ticket. -/
structure Named (s : Course α) (R : List (Entry α)) : Prop where
  once : (R.filterMap Entry.ticket?).Nodup
  given : ∀ t ∈ R.filterMap Entry.ticket?, t < s.call.outbound.nextTicket
  sends : ∀ sd ∈ s.sends,
    (∃ v, sd = .fresh v) ∨ ∃ t v, sd = .placed (.inLine t) ∧ ⟨some t, v⟩ ∈ R

theorem tickets_registers (s : Course α) (m : Move α) :
    (s.registers m).filterMap Entry.ticket? = [] ∨
      (s.registers m).filterMap Entry.ticket? = [s.call.outbound.nextTicket] ∧
        (s.step m).call.outbound.nextTicket = s.call.outbound.nextTicket + 1 := by
  cases m with
  | trySend v =>
    refine .inl ?_
    rw [registers]
    split
    · rfl
    · exact Queue.tickets_accepts _ v
  | pollSend i =>
    simp only [registers, step, call_pollSend]
    cases s.sends[i]? with
    | none => exact .inl rfl
    | some sd => exact s.call.tickets_registers sd
  | _ => exact .inl rfl

theorem named_sends_step (h : s.Named R) (m : Move α) :
    ∀ sd ∈ (s.step m).sends, (∃ v, sd = .fresh v) ∨
      ∃ t v, sd = .placed (.inLine t) ∧ ⟨some t, v⟩ ∈ R ++ s.registers m := by
  have hkept : ∀ sd ∈ s.sends, (∃ v, sd = .fresh v) ∨
      ∃ t v, sd = .placed (.inLine t) ∧ ⟨some t, v⟩ ∈ R ++ s.registers m := by
    intro sd hsd
    refine (h.sends sd hsd).imp id ?_
    rintro ⟨t, v, rfl, hreg⟩
    exact ⟨t, v, rfl, List.mem_append_left _ hreg⟩
  cases m with
  | openSend v =>
    intro sd hsd
    obtain hsd | hsd := List.mem_append.mp hsd
    · exact hkept sd hsd
    · exact .inl ⟨v, List.mem_singleton.mp hsd⟩
  | dropSend i =>
    intro sd hsd
    rw [step, dropSend] at hsd
    split at hsd
    · exact hkept sd hsd
    · exact hkept sd (List.mem_of_mem_eraseIdx hsd)
  | pollSend i =>
    intro sd hsd
    rw [step, pollSend] at hsd
    split at hsd
    · exact hkept sd hsd
    · next sd₀ hi =>
      split at hsd
      · next c sd' heq =>
        obtain hsd | rfl := List.mem_or_eq_of_mem_set hsd
        · exact hkept sd hsd
        · obtain ⟨rfl, _⟩ | ⟨v, t, rfl, rfl, hreg⟩ := Call.pollSend_waits heq
          · exact hkept _ (List.mem_of_getElem? hi)
          · refine .inr ⟨t, v, rfl, List.mem_append_right _ ?_⟩
            simp [registers, hi, hreg]
      · exact hkept sd (List.mem_of_mem_eraseIdx hsd)
  | _ => exact hkept

theorem named_step (h : s.Named R) (m : Move α) : (s.step m).Named (R ++ s.registers m) := by
  obtain ⟨looked, hl⟩ := exists_lasts_step s m
  refine ⟨?_, ?_, named_sends_step h m⟩
  · rw [List.filterMap_append]
    obtain hnone | ⟨hone, _⟩ := s.tickets_registers m
    · rw [hnone, List.append_nil]
      exact h.once
    · rw [hone]
      exact List.nodup_append.mpr ⟨h.once, List.nodup_singleton _, fun t ht u hu heq =>
        Nat.lt_irrefl _ (List.mem_singleton.mp hu ▸ heq ▸ h.given t ht)⟩
  · intro t ht
    rw [List.filterMap_append] at ht
    obtain ht | ht := List.mem_append.mp ht
    · exact Nat.lt_of_lt_of_le (h.given t ht) hl.outbound.given
    · obtain hnone | ⟨hone, hgiven⟩ := s.tickets_registers m
      · rw [hnone] at ht
        cases ht
      · rw [hone] at ht
        rw [hgiven, List.mem_singleton.mp ht]
        exact Nat.lt_succ_self _

def registered (o : Opening α) (s : Course α) (ms : List (Move α)) : List (Entry α) :=
  o.registers ++ collect registers s ms

theorem spared_run (o : Opening α) (p : CallPlan) (ready : Bool) (acts : List (PeerAct α))
    (ms : List (Move α)) :
    let s₀ := opened o p ready acts
    (s₀.run ms).call.outgoing.Spared (registered o s₀ ms) (collect withdraws s₀ ms)
      (collect failures s₀ ms) := by
  intro s₀
  induction ms using List.reverseRecOn with
  | nil => exact o.spared_call p (Loopback.unused_before ready acts) _
  | append_singleton ms m ih =>
    have hstep := spared_step ih (sound_opened o p ready acts ms) (knows_run o p ready acts ms) m
    rw [run_concat, registered, collect_concat, collect_concat, collect_concat,
      ← List.append_assoc]
    exact hstep

theorem named_run (o : Opening α) (p : CallPlan) (ready : Bool) (acts : List (PeerAct α))
    (ms : List (Move α)) :
    let s₀ := opened o p ready acts
    (s₀.run ms).Named (registered o s₀ ms) := by
  intro s₀
  induction ms using List.reverseRecOn with
  | nil =>
    rw [registered, collect_nil, List.append_nil]
    refine ⟨?_, ?_, nofun⟩ <;> cases o <;> simp [Opening.registers]
  | append_singleton ms m ih =>
    rw [run_concat, registered, collect_concat, ← List.append_assoc]
    exact named_step ih m

/-- A message whose send failed is never written, neither before nor after: what is written is the
beginning of what was registered and neither withdrawn nor failed. A send that fails registered
nothing at all, or it carries the one message under its ticket, and the ticket is among those that
failed; except that a send which fails with its scope after the queue took its message out of the
line gives up a message that counts as accepted. -/
theorem failed_unwritten (o : Opening α) (p : CallPlan) (ready : Bool) (acts : List (PeerAct α))
    (ms : List (Move α)) :
    let s₀ := opened o p ready acts
    let s := s₀.run ms
    let R := registered o s₀ ms
    let F := collect failures s₀ ms
    s.written <+: (Entry.kept R (collect withdraws s₀ ms ++ F)).map Entry.value ∧
    (∀ v, (∀ x ∈ R, x.value = v → ∃ t ∈ F, x.ticket? = some t) → v ∉ s.written) ∧
    (R.filterMap Entry.ticket?).Nodup ∧
    ∀ i sd e, s.sends[i]? = some sd → (s.call.pollSend sd).2.2 = some (.error e) →
      (∃ v, sd = .fresh v ∧ s.registers (.pollSend i) = []) ∨
      ∃ t v, sd = .placed (.inLine t) ∧ ⟨some t, v⟩ ∈ R ∧
        (s.failures (.pollSend i) = [t] ∨
          s.call.outbound.took t = true ∧
            ∃ st, s.call.scope.status = some st ∧ e = .terminated st) := by
  intro s₀ s R F
  have hsound := sound_opened o p ready acts ms
  have hnamed := named_run o p ready acts ms
  have hwritten := (spared_run o p ready acts ms).written hsound
  refine ⟨hwritten, ?_, hnamed.once, ?_⟩
  · intro v hall hv
    obtain ⟨x, hx, hxv⟩ := List.mem_map.mp (hwritten.subset hv)
    obtain ⟨hxR, hxk⟩ := List.mem_filter.mp hx
    obtain ⟨t, ht, hxt⟩ := hall x hxR hxv
    have hF : t ∈ collect withdraws s₀ ms ++ F := List.mem_append_right _ ht
    rw [hxt, Option.all_some, decide_eq_true_eq] at hxk
    exact hxk hF
  · intro i sd e hi he
    obtain ⟨v, rfl⟩ | ⟨t, v, rfl, hreg⟩ := hnamed.sends sd (List.mem_of_getElem? hi)
    · have hnone := Call.registers_of_error hsound.orderly he
      exact .inl ⟨v, rfl, by simpa [registers, hi] using hnone⟩
    · refine .inr ⟨t, v, rfl, hreg, ?_⟩
      cases htook : s.call.outbound.took t with
      | false =>
        refine .inl ?_
        simp only [failures, hi, Option.elim_some, Call.failures, he, Send.ticket?,
          Enqueue.ticket?, htook]
        rfl
      | true =>
        refine .inr ⟨rfl, (Call.pollSend_error rfl he).resolve_right ?_⟩
        rintro ⟨_, hgone⟩
        cases htook.symm.trans (Queue.took_of_discarded hgone)

/-- The call is cancelled while a message waits behind another one. Its send fails, and the pump
that looks before the supervisor writes the first message only. -/
theorem failed_unwritten_waiting :
    let s₀ := opened .bidi { role := .client } false ([] : List (PeerAct Nat))
    let ms : List (Move Nat) := [.openSend 1, .pollSend 0, .openSend 2, .pollSend 0,
      .cancel .localCancelled, .pollSend 0, .peer (.setReady true), .pump]
    collect failures s₀ ms = [0] ∧ (s₀.run ms).written = [1] ∧ 2 ∉ (s₀.run ms).written := by
  intro s₀ ms
  have hone : (s₀.run ms).written = [1] := by decide
  have hnever := (failed_unwritten .bidi { role := .client } false [] ms).2.1
  exact ⟨by decide, hone, hnever 2 (by decide)⟩

/-- One look at the pump writes the message in the buffer and the one that waited behind it, and
then fails the call as its sink was failed. The send that waited finds a cancelled scope, and fails
although its message was written. -/
theorem failed_written :
    let s₀ := opened .bidi { role := .client } false ([] : List (PeerAct Nat))
    let st : Status := ⟨.internal, "stop", []⟩
    let ms : List (Move Nat) := [.openSend 1, .pollSend 0, .openSend 2, .pollSend 0,
      .close (.failed st), .peer (.setReady true), .pump]
    let s := s₀.run ms
    registered .bidi s₀ ms = [⟨none, 1⟩, ⟨some 0, 2⟩] ∧ s.waiters = [0] ∧
      (∀ sd ∈ s.sends, (s.call.pollSend sd).2.2 = some (.error (.terminated st))) ∧
      2 ∈ s.written := by
  intro s₀ st ms s
  have hstatus : s.call.scope.status = some st := by decide
  have hboth : s.written = [1, 2] := by decide
  exact ⟨rfl, by decide, fun sd _ => Call.pollSend_of_status hstatus sd, by simp [hboth]⟩

end Course
end PacedCall
