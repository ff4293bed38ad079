import PacedCall.Proofs.Call.Conduct

/-!
The sinks of a call, and the end of the queue that they send on. Whatever is not done with a sink
itself leaves their number as it is, and ends the queue only by failing it; so while a sink is left
that nobody closes or lets go, the queue is not completed.
-/
namespace PacedCall

/-- Moves with a sink itself: they count the sinks, or close the queue that the sinks send on. -/
def Move.onSink {α : Type} : Move α → Bool
  | .close _ => true
  | .cloneSink => true
  | .dropSink => true
  | _ => false

namespace Call
variable {α : Type} {c d e : Call α}

structure Spares (c d : Call α) : Prop where
  sinks : d.sinks = c.sinks
  ended : c.outbound.termination.isSome = true → d.outbound.termination.isSome = true
  completed : d.outbound.termination = some .completed → c.outbound.termination = some .completed

namespace Spares

theorem of_same (hsinks : d.sinks = c.sinks)
    (ht : d.outbound.termination = c.outbound.termination) : Spares c d :=
  ⟨hsinks, fun h => ht ▸ h, fun h => ht ▸ h⟩

theorem refl (c : Call α) : Spares c c := of_same rfl rfl

theorem trans (h : Spares c d) (g : Spares d e) : Spares c e :=
  { sinks := g.sinks.trans h.sinks
    ended := fun hc => g.ended (h.ended hc)
    completed := fun hc => h.completed (g.completed hc) }

/-- A queue that is cancelled was ended before, or fails now. -/
theorem of_cancelled (hsinks : d.sinks = c.sinks) {q : Queue α} {st : Status}
    (hq : q.termination = c.outbound.termination) (hd : d.outbound = (q.cancel st).1) :
    Spares c d := by
  have ht : d.outbound.termination = c.outbound.termination.or (some (.failed st)) := by
    rw [hd, Queue.termination_cancel, hq]
  refine ⟨hsinks, ?_, ?_⟩
  · intro _
    simp [ht]
  · intro hd
    cases hc : c.outbound.termination with
    | none => simp [ht, hc] at hd
    | some how => simpa [ht, hc] using hd

theorem ask (c : Call α) (wanted : Bool) : Spares c (c.ask wanted) := by
  rw [Call.ask]
  split <;> exact .of_same rfl rfl

theorem hear (c : Call α) (n : Notice α) : Spares c (c.hear n) := by
  have hx := hear_hears c n
  generalize c.hear n = d at hx ⊢
  cases hx with
  | message | ready =>
    refine Spares.trans ?_ (.ask _ _)
    exact .of_same rfl rfl
  | late | gone | completed | cancelled => exact .of_same rfl rfl
  | failed _ st => exact .of_cancelled rfl rfl rfl

theorem hear? (c : Call α) (n : Option (Notice α)) : Spares c (c.hear? n) := by
  cases n with
  | none => exact .refl c
  | some n => exact .hear c n

theorem peer (c : Call α) (a : PeerAct α) : Spares c (c.peer a) := by
  rw [peer_eq]
  refine Spares.trans ?_ (.hear? _ _)
  exact .of_same rfl rfl

theorem failOutbound (c : Call α) (st : Status) : Spares c (c.failOutbound st) := by
  rw [Call.failOutbound]
  split <;> exact .of_same rfl rfl

theorem next {b : Bool} (hx : Next c (d, b)) : Spares c d := by
  cases hx with
  | @wrote q v h hq hs =>
    have ht := c.outbound.termination_tryRecv
    rw [hq] at ht
    exact .of_same rfl ht
  | @refused q v st hq hs =>
    have ht := c.outbound.termination_tryRecv
    rw [hq] at ht
    have hcancel : Spares c { c with outbound := (q.cancel st).1 } := .of_cancelled rfl ht rfl
    exact (hcancel.trans (.failOutbound _ st)).trans (.of_same rfl rfl)
  | empty hq => exact .of_same rfl rfl
  | completed hq => split <;> exact .of_same rfl rfl
  | @failed st hq => exact (Spares.failOutbound c st).trans (.of_same rfl rfl)

theorem turn {b : Bool} (ht : Turn c (d, b)) : Spares c d := by
  cases ht with
  | rest => exact .refl c
  | waits hp hr => exact .of_same rfl rfl
  | unready hp hr hend => exact .of_same rfl rfl
  | @next r _ hp hr hx =>
    have hrest : Spares c { c with readiness := r } := .of_same rfl rfl
    exact hrest.trans (.next hx)

theorem pollPump (c : Call α) : Spares c c.pollPump :=
  pollPump_of_turn (P := Spares c) (fun _ _ _ hd ht => hd.trans (.turn ht)) (.refl c)

theorem tearDown (c : Call α) : Spares c c.tearDown := .of_cancelled rfl rfl rfl

theorem watch {now : Nat} (hw : Watch c now d) : Spares c d := by
  cases hw with
  | rest => exact .refl c
  | tornDown hs => exact .tearDown c
  | expired =>
    refine Spares.trans ?_ (.tearDown _)
    exact .of_same rfl rfl
  | settled hin hp hs => exact .of_same rfl rfl
  | watching e hs => exact .of_same rfl rfl

theorem pollDeferred (c : Call α) (i : Nat) : Spares c (c.pollDeferred i).1 := by
  rw [pollDeferred_eq]
  refine Spares.trans ?_ (.ask _ _)
  exact .of_same rfl rfl

theorem recv (c : Call α) : Spares c c.recv.1 := by
  rw [Call.recv]
  split <;> exact .of_same rfl rfl

theorem cancelInbound (c : Call α) : Spares c c.cancelInbound := by
  unfold Call.cancelInbound
  simp only
  split <;> exact .of_same rfl rfl

theorem dropInbound (c : Call α) : Spares c c.dropInbound := by
  rw [Call.dropInbound]
  split
  · exact .refl c
  · split
    · exact .cancelInbound c
    · exact .of_same rfl rfl

theorem trySend (c : Call α) (v : α) : Spares c (c.trySend v).1 := by
  rw [Call.trySend]
  split
  · exact .refl c
  · refine .of_same rfl ?_
    simp only [Queue.trySend]
    split
    · rfl
    · split <;> rfl

theorem dropSend (c : Call α) (sd : Send α) : Spares c (c.dropSend sd) := by
  cases sd with
  | fresh v => exact .refl c
  | placed e => cases e <;> exact .of_same rfl rfl

theorem pollSend (c : Call α) (sd : Send α) : Spares c (c.pollSend sd).1 := by
  unfold Call.pollSend
  split
  · exact .dropSend c sd
  · cases sd with
    | fresh v =>
      refine .of_same rfl ?_
      exact (Queue.termination_pollSend _ _).trans (Queue.termination_send _ v)
    | placed e => exact .of_same rfl (Queue.termination_pollSend _ e)

end Spares

/-- A sink that goes away while another is left only counts. -/
theorem dropSink_of_two (hc : c.sinks = 2) : c.dropSink = { c with sinks := 1 } := by
  simp [dropSink, hc]

/-- A queue that has ended stays as it ended, whoever lets his sink go. -/
theorem termination_dropSink (hended : c.outbound.termination.isSome = true) :
    c.dropSink.outbound.termination = c.outbound.termination := by
  obtain ⟨how, ht⟩ := Option.isSome_iff_exists.mp hended
  rw [Call.dropSink]
  simp only
  split
  · simp [Call.closeSink, Call.closeOutbound, Queue.termination_close, ht]
  · rfl

end Call

/-- A served call begins with two sinks: its handler's and its own. -/
theorem Opening.serve_begins {α : Type} (p : CallPlan) (wire : Loopback α) :
    (Opening.serve.call p wire).sinks = 2 ∧
      (Opening.serve.call p wire).outbound.termination ≠ some .completed := by
  have hbidi : (Opening.serve.idle p wire).Spares (p.bidi wire) :=
    (Call.Spares.hear? _ _).trans (.ask _ true)
  refine ⟨congrArg (· + 1) hbidi.sinks, ?_⟩
  intro hc
  cases hbidi.completed hc

theorem Course.spares_step {α : Type} (s : Course α) {m : Move α} (hm : m.onSink = false) :
    s.call.Spares (s.step m).call := by
  cases m with
  | peer a => exact .peer _ a
  | pump => exact .pollPump _
  | supervise => exact .watch (Call.pollSupervisor_watch _ _)
  | enqueue i => exact .pollDeferred _ i
  | recv => exact .recv _
  | cancelInbound => exact .cancelInbound _
  | dropInbound => exact .dropInbound _
  | trySend v => exact .trySend _ v
  | pollSend i =>
    rw [step, call_pollSend]
    cases s.sends[i]? with
    | none => exact .refl _
    | some sd => exact .pollSend _ sd
  | dropSend i =>
    rw [step, call_dropSend]
    cases s.sends[i]? with
    | none => exact .refl _
    | some sd => exact .dropSend _ sd
  | advance ticks => exact .refl _
  | openSend v => exact .refl _
  | cancel st => exact .of_same rfl rfl
  | endParent => exact .of_same rfl rfl
  | _ => cases hm

end PacedCall
