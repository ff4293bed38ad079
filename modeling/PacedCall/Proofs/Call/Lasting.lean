import PacedCall.Proofs.Call.Later
import PacedCall.Proofs.Inbound
import PacedCall.Proofs.Queue.Lasting

/-!
What the two queues of a call never take back, whoever moves: the way each of them ended, and what a
sender that waited in line was told, until it looks. A sender looks under a ticket that nobody else
holds, so no other send takes its answer away.
-/
namespace PacedCall

namespace Inbound
variable {α : Type} {b : Inbound α} {how : Termination}

/-! An inbound queue that has ended keeps its end. -/

theorem termination_next (f : InFlight) {q : Queue α} (hq : q.termination = some how) :
    (f.next q).1.termination = some how := by
  rw [InFlight.next]
  split
  · rw [Queue.termination_close, hq, Option.some_or]
  · exact hq

theorem termination_onValue (hb : b.queue.termination = some how) (v : α) :
    (b.onValue v).1.queue.termination = some how := by
  rw [onValue_of_closed (by rw [Queue.closedForSend, hb]; rfl)]
  exact hb

theorem termination_onCompleted (hb : b.queue.termination = some how) :
    b.onCompleted.queue.termination = some how := by
  have hclose : (b.queue.close .completed).1.termination = some how := by
    rw [Queue.termination_close, hb, Option.some_or]
  rw [onCompleted]
  cases b.pacing with
  | counting f =>
    simp only [InFlight.finish]
    split
    · exact hclose
    · exact hb
  | latching l => exact hclose

theorem termination_onEnqueued (hb : b.queue.termination = some how) (r : SendResult) :
    (b.onEnqueued r).1.queue.termination = some how := by
  have hclose : ∀ k, (b.queue.close k).1.termination = some how := fun k => by
    rw [Queue.termination_close, hb, Option.some_or]
  unfold onEnqueued
  cases b.pacing with
  | counting f =>
    cases r with
    | ok u =>
      simp only
      split
      · exact hb
      · exact termination_next _ hb
    | error e => exact hclose _
  | latching l =>
    cases r with
    | ok u => exact hb
    | error e => exact hclose _

theorem termination_pollDeferred (hb : b.queue.termination = some how) (i : Nat) :
    (b.pollDeferred i).1.queue.termination = some how := by
  obtain h | ⟨e, r, _, _, h, _⟩ := pollDeferred_cases b i
  · rw [h]
    exact hb
  · rw [h]
    exact termination_onEnqueued ((b.queue.termination_pollSend e).trans hb) r

end Inbound

def Send.ticket? {α : Type} : Send α → Option Nat
  | .placed e => e.ticket?
  | .fresh _ => none

namespace Call
variable {α : Type} {c d e : Call α} {looked : Option Nat}

/-- The call goes on, and at most the sender with the ticket `looked` is answered meanwhile. -/
structure Lasts (looked : Option Nat) (c d : Call α) : Prop where
  inbound : ∀ how, c.inbound.queue.termination = some how →
    d.inbound.queue.termination = some how
  outbound : c.outbound.Lasts looked d.outbound

namespace Lasts

theorem refl (c : Call α) : Lasts looked c c := ⟨fun _ => id, .refl _⟩

theorem trans (h : Lasts looked c d) (g : Lasts looked d e) : Lasts looked c e :=
  ⟨fun how hc => g.inbound how (h.inbound how hc), h.outbound.trans g.outbound⟩

theorem of_same (hin : d.inbound = c.inbound) (hout : d.outbound = c.outbound) :
    Lasts looked c d :=
  ⟨fun _ hc => hin ▸ hc, hout ▸ .refl _⟩

theorem of_outbound (hin : d.inbound = c.inbound) (hout : c.outbound.Lasts looked d.outbound) :
    Lasts looked c d :=
  ⟨fun _ hc => hin ▸ hc, hout⟩

theorem of_inbound (hout : d.outbound = c.outbound)
    (hin : ∀ how, c.inbound.queue.termination = some how →
      d.inbound.queue.termination = some how) : Lasts looked c d :=
  ⟨hin, hout ▸ .refl _⟩

theorem ask (c : Call α) (wanted : Bool) : Lasts looked c (c.ask wanted) := by
  rw [Call.ask]
  split <;> exact .of_same rfl rfl

theorem hear (c : Call α) (n : Notice α) : Lasts looked c (c.hear n) := by
  have hx := hear_hears c n
  generalize c.hear n = d at hx ⊢
  cases hx with
  | message _ v =>
    refine Lasts.trans ?_ (.ask _ _)
    exact .of_inbound rfl fun _ hc => Inbound.termination_onValue hc v
  | late | cancelled => exact .of_same rfl rfl
  | gone => exact .refl c
  | failed _ st =>
    refine ⟨fun how hc => ?_, .cancel _ st⟩
    exact (Queue.termination_close _ _).trans (by rw [hc, Option.some_or])
  | completed => exact .of_inbound rfl fun _ hc => Inbound.termination_onCompleted hc
  | ready =>
    refine Lasts.trans ?_ (.ask _ _)
    exact .of_inbound rfl fun _ hc => c.inbound.queue_onReady c.control ▸ hc

theorem peer (c : Call α) (a : PeerAct α) : Lasts looked c (c.peer a) := by
  have hwire : Lasts looked c (c.withWire (c.wire.peer a).1) := .of_same rfl rfl
  rw [peer_eq]
  cases (c.wire.peer a).2 with
  | none => exact hwire
  | some n => exact hwire.trans (.hear _ n)

theorem failOutbound (c : Call α) (st : Status) : Lasts looked c (c.failOutbound st) := by
  rw [Call.failOutbound]
  split <;> exact .of_same rfl rfl

theorem next {b : Bool} (hx : Next c (d, b)) : Lasts looked c d := by
  have hrecv : ∀ {q : Queue α} {v : α}, c.outbound.tryRecv = (q, .item v) →
      c.outbound.Lasts looked q := by
    intro q v hq
    have h : c.outbound.Lasts looked c.outbound.tryRecv.1 := .tryRecv c.outbound
    rw [hq] at h
    exact h
  cases hx with
  | wrote hq hs => exact .of_outbound rfl (hrecv hq)
  | @refused q v st hq hs =>
    have hcancel : Lasts looked c { c with outbound := (q.cancel st).1 } :=
      .of_outbound rfl ((hrecv hq).trans (.cancel q st))
    exact (hcancel.trans (.failOutbound _ st)).trans (.of_same rfl rfl)
  | empty hq => exact .of_same rfl rfl
  | completed hq => split <;> exact .of_same rfl rfl
  | @failed st hq => exact (Lasts.failOutbound c st).trans (.of_same rfl rfl)

theorem turn {b : Bool} (ht : Turn c (d, b)) : Lasts looked c d := by
  cases ht with
  | rest => exact .refl c
  | waits hp hr => exact .of_same rfl rfl
  | unready hp hr hend => exact .of_same rfl rfl
  | @next r _ hp hr hx =>
    have hrest : Lasts looked c { c with readiness := r } := .of_same rfl rfl
    exact hrest.trans (.next hx)

theorem pollPump (c : Call α) : Lasts looked c c.pollPump :=
  pollPump_of_turn (P := Lasts looked c) (fun _ _ _ hd ht => hd.trans (.turn ht)) (.refl c)

theorem tearDown (c : Call α) : Lasts looked c c.tearDown :=
  ⟨fun how hc => (Queue.termination_cancel _ _).trans (by rw [hc, Option.some_or]), .cancel _ _⟩

theorem watch {now : Nat} (hw : Watch c now d) : Lasts looked c d := by
  cases hw with
  | rest => exact .refl c
  | tornDown hs => exact .tearDown c
  | expired =>
    refine Lasts.trans ?_ (.tearDown _)
    exact .of_same rfl rfl
  | settled hin hp hs => exact .of_same rfl rfl
  | watching e hs => exact .of_same rfl rfl

theorem pollDeferred (c : Call α) (i : Nat) : Lasts looked c (c.pollDeferred i).1 := by
  rw [pollDeferred_eq]
  refine Lasts.trans ?_ (.ask _ _)
  exact .of_inbound rfl fun _ hc => Inbound.termination_pollDeferred hc i

theorem recv (c : Call α) : Lasts looked c c.recv.1 := by
  rw [Call.recv]
  split
  · exact .refl c
  · exact .of_inbound rfl fun _ hc => (Queue.termination_tryRecv _).trans hc

theorem discardInbound (c : Call α) : Lasts looked c c.discardInbound :=
  .of_inbound rfl fun how hc => (Queue.termination_cancel _ _).trans (by rw [hc, Option.some_or])

theorem cancelInbound (c : Call α) : Lasts looked c c.cancelInbound := by
  unfold Call.cancelInbound
  simp only
  split
  · exact (discardInbound c).trans (.of_same rfl rfl)
  · exact discardInbound c

theorem dropInbound (c : Call α) : Lasts looked c c.dropInbound := by
  rw [Call.dropInbound]
  split
  · exact .refl c
  · split
    · exact .cancelInbound c
    · exact .discardInbound c

theorem trySend (c : Call α) (v : α) : Lasts looked c (c.trySend v).1 := by
  rw [Call.trySend]
  split
  · exact .refl c
  · exact .of_outbound rfl (.trySend _ v)

theorem dropSend (c : Call α) (sd : Send α) : Lasts sd.ticket? c (c.dropSend sd) := by
  cases sd with
  | fresh v => exact .refl c
  | placed e => exact .of_outbound rfl (.dropSend _ e)

theorem dropSink (c : Call α) : Lasts looked c c.dropSink := by
  rw [Call.dropSink]
  simp only
  split
  · exact .of_outbound rfl (.close _ _)
  · exact .of_same rfl rfl

end Lasts

inductive Look (c : Call α) (sd : Send α) : Call α × Send α × Option SendResult → Prop where
  | waits {t : Nat} (hsd : sd.ticket? = some t) : Look c sd (c, sd, none)
  | enters {d : Call α} {sd' : Send α} (hlasts : Lasts none c d) (hfresh : sd.ticket? = none)
      (hticket : sd'.ticket? = some c.outbound.nextTicket)
      (hgiven : d.outbound.nextTicket = c.outbound.nextTicket + 1)
      (hknows : d.outbound.Knows c.outbound.nextTicket) : Look c sd (d, sd', none)
  | answered {d : Call α} {sd' : Send α} {r : SendResult}
      (hlasts : Lasts (sd.ticket?.or (some c.outbound.nextTicket)) c d) : Look c sd (d, sd', some r)

theorem pollSend_look (c : Call α) (sd : Send α) : c.Look sd (c.pollSend sd) := by
  have hor : ∀ o : Option Nat, ∀ t, o = some t → o.or (some c.outbound.nextTicket) = some t := by
    rintro _ t rfl
    rfl
  unfold Call.pollSend
  cases c.scope.status with
  | some st =>
    have hdrop := Lasts.dropSend c sd
    exact .answered ⟨hdrop.inbound, hdrop.outbound.imp (hor _)⟩
  | none =>
    cases sd with
    | placed e =>
      have hlasts := Queue.Lasts.pollSend c.outbound e
      rcases hpoll : c.outbound.pollSend e with ⟨q, f, _ | r⟩
      · obtain ⟨rfl, rfl, t, rfl, _⟩ := Queue.pollSend_pending hpoll
        simp only [hpoll]
        have hwaits : Look c (.placed (.inLine t)) (c, .placed (.inLine t), none) := .waits rfl
        exact hwaits
      · rw [hpoll] at hlasts
        simp only [hpoll]
        exact .answered ⟨fun _ => id, hlasts.imp (hor _)⟩
    | fresh v =>
      rcases hsend : c.outbound.send v with ⟨p, e⟩
      have hsent : ∀ k, c.outbound.Lasts k (c.outbound.send v).1 := fun _ => .send c.outbound v
      have hlasts := Queue.Lasts.pollSend p e
      simp only [hsend] at hsent ⊢
      rcases hpoll : p.pollSend e with ⟨q, f, _ | r⟩
      · obtain ⟨rfl, rfl, t, rfl, _⟩ := Queue.pollSend_pending hpoll
        obtain ⟨rfl, hgiven, hline⟩ := Queue.nextTicket_of_inLine hsend
        exact .enters ⟨fun _ => id, hsent none⟩ rfl rfl hgiven (.inl hline)
      · rw [hpoll] at hlasts
        refine .answered ⟨fun _ => id, (hsent _).trans (hlasts.imp ?_)⟩
        intro t ht
        cases e with
        | inLine u =>
          obtain ⟨rfl, _⟩ := Queue.nextTicket_of_inLine hsend
          exact ht
        | _ => cases ht

end Call

namespace Course
variable {α : Type} {s t u : Course α} {looked : Option Nat}

def waiters (s : Course α) : List Nat := s.sends.filterMap Send.ticket?

structure Distinct (s : Course α) : Prop where
  once : s.waiters.Nodup
  given : ∀ k ∈ s.waiters, k < s.call.outbound.nextTicket

/-- What a later state still knows: how each queue ended, what was told to a sender that has waited
since, and of every sender that waits at all. -/
structure Recalls (s t : Course α) : Prop where
  inbound : ∀ how, s.call.inbound.queue.termination = some how →
    t.call.inbound.queue.termination = some how
  outbound : ∀ how, s.call.outbound.termination = some how →
    t.call.outbound.termination = some how
  given : s.call.outbound.nextTicket ≤ t.call.outbound.nextTicket
  distinct : t.Distinct
  fate : ∀ k ∈ t.waiters, k < s.call.outbound.nextTicket →
    k ∈ s.waiters ∧ ∀ x, s.call.outbound.fate? k = some x → t.call.outbound.fate? k = some x
  knows : (∀ k ∈ s.waiters, s.call.outbound.Knows k) → ∀ k ∈ t.waiters, t.call.outbound.Knows k

namespace Recalls

theorem refl (h : s.Distinct) : Recalls s s :=
  ⟨fun _ => id, fun _ => id, Nat.le_refl _, h, fun _ hk _ => ⟨hk, fun _ => id⟩, id⟩

theorem trans (h : Recalls s t) (g : Recalls t u) : Recalls s u :=
  { inbound := fun how hs => g.inbound how (h.inbound how hs)
    outbound := fun how hs => g.outbound how (h.outbound how hs)
    given := Nat.le_trans h.given g.given
    distinct := g.distinct
    fate := by
      intro k hk hlt
      obtain ⟨hkt, hgf⟩ := g.fate k hk (Nat.lt_of_lt_of_le hlt h.given)
      obtain ⟨hks, hhf⟩ := h.fate k hkt hlt
      exact ⟨hks, fun x hx => hgf x (hhf x hx)⟩
    knows := fun hs => g.knows (h.knows hs) }

/-- Some of the sends that wait go on waiting, and whoever is answered is not among them. -/
theorem of_sublist (h : s.Distinct) (hl : s.call.Lasts looked t.call)
    (hsub : t.waiters.Sublist s.waiters)
    (hlooked : ∀ k ∈ t.waiters, looked ≠ some k) : Recalls s t :=
  { inbound := hl.inbound
    outbound := hl.outbound.ended
    given := hl.outbound.given
    distinct :=
      { once := h.once.sublist hsub
        given := fun k hk => Nat.lt_of_lt_of_le (h.given k (hsub.subset hk)) hl.outbound.given }
    fate := fun k hk _ => ⟨hsub.subset hk, fun x => hl.outbound.fate k x (hlooked k hk)⟩
    knows := fun hs k hk => hl.outbound.knows k (hlooked k hk) (hs k (hsub.subset hk)) }

theorem of_same (h : s.Distinct) (hl : s.call.Lasts none t.call) (hw : t.waiters = s.waiters) :
    Recalls s t :=
  .of_sublist h hl (hw ▸ List.Sublist.refl _) fun _ _ => nofun

end Recalls

/-- The sends under way, around one of them. -/
theorem waiters_split {l₁ l₂ : List (Send α)} {sd : Send α} (hs : s.sends = l₁ ++ sd :: l₂) :
    s.waiters = l₁.filterMap Send.ticket? ++ (sd.ticket?.toList ++ l₂.filterMap Send.ticket?) := by
  rw [waiters, hs, List.filterMap_append, List.filterMap_cons]
  cases sd.ticket? <;> rfl

/-- A send that is answered, or given up, is over; only its own answer is taken away. -/
theorem recalls_erased (h : s.Distinct) {l₁ l₂ : List (Send α)} {sd : Send α} {c : Call α}
    (hs : s.sends = l₁ ++ sd :: l₂)
    (hl : s.call.Lasts (sd.ticket?.or (some s.call.outbound.nextTicket)) c) :
    Recalls s { s with call := c, sends := l₁ ++ l₂ } := by
  have hsplit := waiters_split hs
  have herased : waiters { s with call := c, sends := l₁ ++ l₂ } =
      l₁.filterMap Send.ticket? ++ l₂.filterMap Send.ticket? := List.filterMap_append ..
  have hsub : (l₁.filterMap Send.ticket? ++ l₂.filterMap Send.ticket?).Sublist s.waiters := by
    rw [hsplit]
    exact (List.sublist_append_right _ _).append_left _
  refine .of_sublist h hl (herased ▸ hsub) ?_
  intro k hk hlooked
  rw [herased] at hk
  cases hsd : sd.ticket? with
  | none =>
    rw [hsd, Option.none_or, Option.some.injEq] at hlooked
    exact Nat.lt_irrefl _ (hlooked ▸ h.given k (hsub.subset hk))
  | some j =>
    rw [hsd, Option.some_or, Option.some.injEq] at hlooked
    have honce := h.once
    rw [hsplit, hsd, Option.toList_some, List.singleton_append] at honce
    exact (List.nodup_middle.mp honce).notMem (hlooked ▸ hk)

/-- A send that enters the line gets a ticket that nobody has. -/
theorem recalls_entered (h : s.Distinct) {l₁ l₂ : List (Send α)} {sd sd' : Send α} {c : Call α}
    (hs : s.sends = l₁ ++ sd :: l₂) (hl : s.call.Lasts none c) (hfresh : sd.ticket? = none)
    (hticket : sd'.ticket? = some s.call.outbound.nextTicket)
    (hgiven : c.outbound.nextTicket = s.call.outbound.nextTicket + 1)
    (hknows : c.outbound.Knows s.call.outbound.nextTicket) :
    Recalls s { s with call := c, sends := l₁ ++ sd' :: l₂ } := by
  have hbefore := waiters_split hs
  have hafter := waiters_split (s := { s with call := c, sends := l₁ ++ sd' :: l₂ }) rfl
  rw [hfresh, Option.toList_none, List.nil_append] at hbefore
  rw [hticket, Option.toList_some, List.singleton_append] at hafter
  have hmem : ∀ k, k ∈ waiters { s with call := c, sends := l₁ ++ sd' :: l₂ } ↔
      k = s.call.outbound.nextTicket ∨ k ∈ s.waiters := by
    intro k
    rw [hafter, hbefore, List.mem_append, List.mem_cons, List.mem_append]
    exact or_left_comm
  have hnew : s.call.outbound.nextTicket ∉ s.waiters :=
    fun hk => Nat.lt_irrefl _ (h.given _ hk)
  exact
    { inbound := hl.inbound
      outbound := hl.outbound.ended
      given := hl.outbound.given
      distinct :=
        { once := by
            rw [hafter, List.nodup_middle, ← hbefore, List.nodup_cons]
            exact ⟨hnew, h.once⟩
          given := by
            intro k hk
            simp only [hgiven]
            obtain rfl | hk := (hmem k).mp hk
            · exact Nat.lt_succ_self _
            · exact Nat.lt_succ_of_lt (h.given k hk) }
      fate := by
        intro k hk hlt
        obtain rfl | hk := (hmem k).mp hk
        · exact absurd hlt (Nat.lt_irrefl _)
        · exact ⟨hk, fun x => hl.outbound.fate k x nofun⟩
      knows := by
        intro hs k hk
        obtain rfl | hk := (hmem k).mp hk
        · exact hknows
        · exact hl.outbound.knows k nofun (hs k hk) }

theorem recalls_pollSend (h : s.Distinct) (i : Nat) : Recalls s (s.pollSend i) := by
  rw [pollSend]
  cases hi : s.sends[i]? with
  | none => exact .refl h
  | some sd =>
    obtain ⟨hlt, hget⟩ := List.getElem?_eq_some_iff.mp hi
    have hs : s.sends = s.sends.take i ++ sd :: s.sends.drop (i + 1) := by
      rw [← hget, List.getElem_cons_drop, List.take_append_drop]
    have hlook := s.call.pollSend_look sd
    simp only
    generalize s.call.pollSend sd = x at hlook ⊢
    cases hlook with
    | waits hsd =>
      have hset : s.sends.set i sd = s.sends := by rw [← hget, List.set_getElem_self]
      refine .of_same h (.refl _) ?_
      simp only [waiters, hset]
    | enters hl hfresh hticket hgiven hknows =>
      simp only [List.set_eq_take_append_cons_drop, hlt, if_true]
      exact recalls_entered h hs hl hfresh hticket hgiven hknows
    | answered hl =>
      simp only [List.eraseIdx_eq_take_drop_succ]
      exact recalls_erased h hs hl

theorem recalls_dropSend (h : s.Distinct) (i : Nat) : Recalls s (s.dropSend i) := by
  rw [dropSend]
  cases hi : s.sends[i]? with
  | none => exact .refl h
  | some sd =>
    obtain ⟨hlt, hget⟩ := List.getElem?_eq_some_iff.mp hi
    have hs : s.sends = s.sends.take i ++ sd :: s.sends.drop (i + 1) := by
      rw [← hget, List.getElem_cons_drop, List.take_append_drop]
    have hdrop := Call.Lasts.dropSend s.call sd
    simp only [List.eraseIdx_eq_take_drop_succ]
    refine recalls_erased h hs ⟨hdrop.inbound, hdrop.outbound.imp ?_⟩
    intro t ht
    rw [ht, Option.some_or]

theorem recalls_step (h : s.Distinct) (m : Move α) : Recalls s (s.step m) := by
  cases m with
  | peer a => exact .of_same h (.peer _ a) rfl
  | pump => exact .of_same h (.pollPump _) rfl
  | supervise => exact .of_same h (.watch (Call.pollSupervisor_watch _ _)) rfl
  | enqueue i => exact .of_same h (.pollDeferred _ i) rfl
  | advance ticks => exact .of_same h (.refl _) rfl
  | recv => exact .of_same h (.recv _) rfl
  | cancelInbound => exact .of_same h (.cancelInbound _) rfl
  | dropInbound => exact .of_same h (.dropInbound _) rfl
  | trySend v => exact .of_same h (.trySend _ v) rfl
  | openSend v =>
    refine .of_same h (.refl _) ?_
    rw [waiters, step, List.filterMap_append]
    exact List.append_nil _
  | pollSend i => exact recalls_pollSend h i
  | dropSend i => exact recalls_dropSend h i
  | close how => exact .of_same h (.of_outbound rfl (.close _ how)) rfl
  | cloneSink => exact .of_same h (.of_same rfl rfl) rfl
  | dropSink => exact .of_same h (.dropSink _) rfl
  | cancel st => exact .of_same h (.of_same rfl rfl) rfl
  | endParent => exact .of_same h (.of_same rfl rfl) rfl

theorem recalls_run (h : s.Distinct) (ms : List (Move α)) : Recalls s (s.run ms) := by
  induction ms using List.reverseRecOn with
  | nil => exact .refl h
  | append_singleton ms m ih =>
    rw [run_concat]
    exact ih.trans (recalls_step ih.distinct m)

theorem distinct_opened (o : Opening α) (p : CallPlan) (ready : Bool) (acts : List (PeerAct α)) :
    (opened o p ready acts).Distinct := ⟨.nil, nofun⟩

/-- The queue knows of every send that waits on it. -/
theorem knows_run (o : Opening α) (p : CallPlan) (ready : Bool) (acts : List (PeerAct α))
    (ms : List (Move α)) :
    let s := (opened o p ready acts).run ms
    ∀ k ∈ s.waiters, s.call.outbound.Knows k :=
  (recalls_run (distinct_opened o p ready acts) ms).knows nofun

/-- Whoever moves, the queues of the call go on, and at most one sender is answered. -/
theorem exists_lasts_step (s : Course α) (m : Move α) :
    ∃ looked, s.call.Lasts looked (s.step m).call := by
  cases m with
  | peer a => exact ⟨none, .peer _ a⟩
  | pump => exact ⟨none, .pollPump _⟩
  | supervise => exact ⟨none, .watch (Call.pollSupervisor_watch _ _)⟩
  | enqueue i => exact ⟨none, .pollDeferred _ i⟩
  | advance ticks => exact ⟨none, .refl _⟩
  | recv => exact ⟨none, .recv _⟩
  | cancelInbound => exact ⟨none, .cancelInbound _⟩
  | dropInbound => exact ⟨none, .dropInbound _⟩
  | trySend v => exact ⟨none, .trySend _ v⟩
  | openSend v => exact ⟨none, .refl _⟩
  | pollSend i =>
    simp only [step, call_pollSend]
    cases s.sends[i]? with
    | none => exact ⟨none, .refl _⟩
    | some sd =>
      have hlook := s.call.pollSend_look sd
      simp only [Option.elim_some]
      generalize s.call.pollSend sd = x at hlook ⊢
      cases hlook with
      | waits hsd => exact ⟨none, .refl _⟩
      | enters hl hfresh hticket hgiven hknows => exact ⟨none, hl⟩
      | answered hl => exact ⟨_, hl⟩
  | dropSend i =>
    simp only [step, dropSend]
    cases s.sends[i]? with
    | none => exact ⟨none, .refl _⟩
    | some sd => exact ⟨_, .dropSend _ sd⟩
  | close how => exact ⟨none, .of_outbound rfl (.close _ how)⟩
  | cloneSink => exact ⟨none, .of_same rfl rfl⟩
  | dropSink => exact ⟨none, .dropSink _⟩
  | cancel st => exact ⟨none, .of_same rfl rfl⟩
  | endParent => exact ⟨none, .of_same rfl rfl⟩

end Course
end PacedCall
