import PacedCall.Bench.Echo
import PacedCall.Proofs.Call.Smooth

/-!
The echo benchmark under every schedule. Its peer, its handler, the two tasks of its call and the
tasks of the values that wait for room are looked at in any order; whatever that is, the messages
come back in order, and when nobody can do anything more they have all come back and the call has
ended well.
-/
namespace PacedCall
namespace Bench
namespace Echo

inductive Poll where
  | peer
  | handler
  | pump
  | supervisor
  | deferred (task : Nat)

def poll (s : Echo) : Poll → Echo
  | .peer => (s.pollTask 0).1
  | .handler => s.pollHandler.1
  | .pump => s.pollPump.1
  | .supervisor => s.pollSupervisor.1
  | .deferred i => s.mapCall fun c => (c.pollDeferred i).1

def run (s : Echo) (ps : List Poll) : Echo := ps.foldl poll s

def Stuck (s : Echo) : Prop := ∀ p, s.poll p = s

def handler (program : List (Instr Nat)) : Handler Nat :=
  { shape := .bidi, phase := .running, program := program, textOnly := true }

def spent : Handler Nat :=
  { handler [] with inbound := false, sink := false, phase := .returned }

variable {c d : Call Nat} {h : Handler Nat} {held : List Nat} {completed closed : Bool}
  {now k capacity : Nat}

inductive Stage (now : Nat) (c : Call Nat) : Handler Nat → List Nat → Bool → Prop where
  | reads : Stage now c (handler [.echo 0]) [] false
  | pauses (v : Nat) : Stage now c (handler [.sleep 0, .sendStrict v, .echo 0]) [v] false
  | sleeps (v : Nat) {time : Nat} (ht : time ≤ now) :
      Stage now c (handler [.asleep time, .sendStrict v, .echo 0]) [v] false
  | wakes (v : Nat) : Stage now c (handler [.sendStrict v, .echo 0]) [v] false
  | offers (v : Nat) : Stage now c (handler [.sending (.fresh v) true, .echo 0]) [v] false
  | waits {t : Nat} (ht : c.outbound.Knows t) :
      Stage now c (handler [.sending (.placed (.inLine t)) true, .echo 0]) [] false
  | hasRead (hread : c.inbound.queue.closedForReceive = true) : Stage now c (handler []) [] false
  | returned (hread : c.inbound.queue.closedForReceive = true) : Stage now c spent [] true

inductive Blocked (c : Call Nat) : Handler Nat → Prop where
  | empty (hline : c.inbound.queue.line = []) (hopen : c.inbound.queue.termination = none) :
      Blocked c (handler [.echo 0])
  | full {t : Nat} (ht : t ∈ c.outbound.tickets) :
      Blocked c (handler [.sending (.placed (.inLine t)) true, .echo 0])
  | returned : Blocked c spent

namespace Stage

/-- The handler has nothing else to do with what goes on around it. -/
theorem later (h : Stage now c hd held closed)
    (hknows : ∀ t, c.outbound.Knows t → d.outbound.Knows t)
    (hread : c.inbound.queue.closedForReceive = true →
      d.inbound.queue.closedForReceive = true) : Stage now d hd held closed := by
  cases h with
  | reads => exact .reads
  | pauses v => exact .pauses v
  | sleeps v ht => exact .sleeps v ht
  | wakes v => exact .wakes v
  | offers v => exact .offers v
  | waits ht => exact .waits (hknows _ ht)
  | hasRead hr => exact .hasRead (hread hr)
  | returned hr => exact .returned (hread hr)

theorem plain (h : Stage now c hd held closed) : hd.notes = [] ∧ hd.kept = [] := by
  cases h <;> exact ⟨rfl, rfl⟩

end Stage

def turnsLeft (h : Handler Nat) : Nat :=
  match h.phase, h.program with
  | .returned, _ => 0
  | _, [] => 1
  | _, .echo _ :: _ => 2
  | _, .sending (.placed _) _ :: _ => 3
  | _, .sending (.fresh _) _ :: _ => 4
  | _, .sendStrict _ :: _ => 5
  | _, .asleep _ :: _ => 6
  | _, _ => 7

def work (c : Call Nat) (h : Handler Nat) : Nat :=
  8 * c.inbound.queue.line.length + turnsLeft h

def Advances (now k capacity : Nat) (completed : Bool) (c : Call Nat) (h : Handler Nat) : Prop :=
  ∃ d g held closed, Handler.turn now c h = .moved d g ∧
    d.Smooth completed closed (List.range k) held ∧ d.Owes capacity 0 True ∧
    Stage now d g held closed ∧ work d g < work c h

theorem advances_of_aside {g : Handler Nat} (hturn : Handler.turn now c h = .moved d g)
    (hd : d.Smooth completed false (List.range k) held) (howes : c.Owes capacity 0 True)
    (haside : Call.Aside c d) (hstage : Stage now d g held false)
    (hlt : turnsLeft g < turnsLeft h) : Advances now k capacity completed c h := by
  refine ⟨d, g, held, false, hturn, hd, howes.aside haside, hstage, ?_⟩
  rw [work, work, haside.inbound]
  exact Nat.add_lt_add_left hlt _

theorem turn_echo (now : Nat) (c : Call Nat) :
    Handler.turn now c (handler [.echo 0]) =
      match c.recv with
      | (_, none) => .blocked
      | (d, some (.error st)) => .ended (Handler.conclude d (handler []) (.error (.ofStatus st)))
      | (d, some (.ok none)) => .moved d (handler [])
      | (d, some (.ok (some v))) => .moved d (handler [.sleep 0, .sendStrict v, .echo 0]) := by
  rcases hc : c.recv with ⟨d, _ | _ | _ | v⟩ <;>
    simp [Handler.turn, handler, Handler.execute, Handler.canRead, Handler.canWrite, Shape.reads,
      Shape.writes, hc]

theorem turn_reads (hsmooth : c.Smooth completed false (List.range k) [])
    (howes : c.Owes capacity 0 True) :
    Handler.turn now c (handler [.echo 0]) = .blocked ∧ Blocked c (handler [.echo 0]) ∨
      Advances now k capacity completed c (handler [.echo 0]) := by
  have hord := howes.counted.orderly
  have howed := howes.recv
  have hrecv : c.recv =
      (c.withInbound c.inbound.queue.tryRecv.1, c.inbound.queue.tryRecv.2.settled?) := by
    rw [Call.recv, hsmooth.status]
  rcases hq : c.inbound.queue.tryRecv with ⟨q, v | _ | how⟩
  · rw [hq] at hrecv
    rw [hrecv] at howed
    refine .inr ⟨c.withInbound q, handler [.sleep 0, .sendStrict v, .echo 0], [v], false, ?_,
      hsmooth.recv hq, howed, .pauses v, ?_⟩
    · rw [turn_echo, hrecv]
      rfl
    · rw [work, work, Queue.line_of_tryRecv_item hq, List.length_cons]
      simp only [Call.withInbound, turnsLeft, handler]
      omega
  · obtain ⟨hline, hopen⟩ := Queue.empty_of_tryRecv hord (by rw [hq])
    rw [hq] at hrecv
    refine .inl ⟨?_, .empty hline hopen⟩
    rw [turn_echo, hrecv]
    rfl
  · obtain rfl := Queue.tryRecv_of_no_item hq (by simp)
    have hfound : c.inbound.queue.tryRecv.2 = .closed how := by rw [hq]
    obtain ⟨hdrained, hclosed⟩ := Queue.closed_of_tryRecv hord hfound
    have hended := hsmooth.inbound.ends
    rw [hclosed] at hended
    rw [hq] at hrecv
    cases how with
    | failed st => split at hended <;> cases hended
    | completed =>
      have hread : c.inbound.queue.closedForReceive = true := by
        rw [hord.closedForReceive_iff, hclosed]
        exact ⟨rfl, hdrained⟩
      refine .inr (advances_of_aside ?_ hsmooth howes (.refl c) (.hasRead hread)
        (Nat.lt_succ_self _))
      rw [turn_echo, hrecv]
      rfl

/-- A value finds its place in the outbound queue, or waits for room there. -/
theorem turn_offers {v : Nat} (hsmooth : c.Smooth completed false (List.range k) [v])
    (howes : c.Owes capacity 0 True) :
    Advances now k capacity completed c (handler [.sending (.fresh v) true, .echo 0]) := by
  have haside := (Call.outward_pollSend c (.fresh v)).toAside
  obtain ⟨d, hd, ⟨e, hpoll⟩ | ⟨t, hpoll, hknows⟩⟩ := hsmooth.sendFresh
  · rw [hpoll] at haside
    refine advances_of_aside ?_ hd howes haside .reads (by simp [turnsLeft, handler])
    simp [Handler.turn, handler, Handler.execute, hpoll]
  · rw [hpoll] at haside
    refine advances_of_aside ?_ hd howes haside (.waits hknows) (Nat.lt_succ_self _)
    simp [Handler.turn, handler, Handler.execute, hpoll]

theorem turn_waits {t : Nat} (hsmooth : c.Smooth completed false (List.range k) [])
    (howes : c.Owes capacity 0 True) (ht : c.outbound.Knows t) :
    let h := handler [.sending (.placed (.inLine t)) true, .echo 0]
    Handler.turn now c h = .blocked ∧ Blocked c h ∨ Advances now k capacity completed c h := by
  have haside := (Call.outward_pollSend c (.placed (.inLine t))).toAside
  obtain ⟨hpoll, hwaits⟩ | ⟨d, e, hpoll, hd, _⟩ := hsmooth.sendPlaced ht
  · refine .inl ⟨?_, .full hwaits⟩
    simp [Handler.turn, handler, Handler.execute, hpoll]
  · rw [hpoll] at haside
    refine .inr (advances_of_aside ?_ hd howes haside .reads (Nat.lt_succ_self _))
    simp [Handler.turn, handler, Handler.execute, hpoll]

theorem turn_hasRead (hsmooth : c.Smooth completed false (List.range k) [])
    (howes : c.Owes capacity 0 True) (hread : c.inbound.queue.closedForReceive = true) :
    Advances now k capacity completed c (handler []) := by
  have hin : (handler []).inbound = true := rfl
  obtain ⟨d, hfinish, hd, haside⟩ := hsmooth.finish hread hin rfl
  have hturn : Handler.turn now c (handler []) =
      .ended (Handler.finish c (handler []) (.ok ())) := rfl
  rw [hfinish] at hturn
  refine ⟨d, spent, [], true, hturn, hd, howes.aside haside, ?_, ?_⟩
  · exact .returned (haside.inbound ▸ hread)
  · rw [work, work, haside.inbound]
    exact Nat.lt_succ_self _

/-- One turn of the handler: it moves on by a step, or there is a reason why not. -/
theorem turn_cases (hsmooth : c.Smooth completed closed (List.range k) held)
    (howes : c.Owes capacity 0 True) (hstage : Stage now c h held closed) :
    Handler.turn now c h = .blocked ∧ Blocked c h ∨ Advances now k capacity completed c h := by
  cases hstage with
  | reads => exact turn_reads hsmooth howes
  | pauses v =>
    exact .inr (advances_of_aside rfl hsmooth howes (.refl c) (.sleeps v (Nat.le_refl now))
      (Nat.lt_succ_self _))
  | sleeps v ht =>
    refine .inr (advances_of_aside ?_ hsmooth howes (.refl c) (.wakes v) (Nat.lt_succ_self _))
    simp [Handler.turn, handler, Handler.execute, ht]
  | wakes v =>
    exact .inr (advances_of_aside rfl hsmooth howes (.refl c) (.offers v) (Nat.lt_succ_self _))
  | offers v => exact .inr (turn_offers hsmooth howes)
  | waits ht => exact turn_waits hsmooth howes ht
  | hasRead hread => exact .inr (turn_hasRead hsmooth howes hread)
  | returned hread => exact .inl ⟨rfl, .returned⟩

/-- A look at the handler finds it blocked, or leaves it with less to do. -/
theorem pollWith_cases (fuel : Nat) (hsmooth : c.Smooth completed closed (List.range k) held)
    (howes : c.Owes capacity 0 True) (hstage : Stage now c h held closed) :
    let x := Handler.pollWith now fuel c h
    ∃ held' closed', x.1.Smooth completed closed' (List.range k) held' ∧
      x.1.Owes capacity 0 True ∧ Stage now x.1 x.2.1 held' closed' ∧
      work x.1 x.2.1 ≤ work c h ∧ (0 < fuel → Blocked c h ∨ work x.1 x.2.1 < work c h) := by
  induction fuel generalizing c h held closed with
  | zero =>
    exact ⟨held, closed, hsmooth, howes, hstage, Nat.le_refl _, fun hf => absurd hf (by simp)⟩
  | succ fuel ih =>
    obtain ⟨hturn, hblocked⟩ | ⟨d, g, held', closed', hturn, hd, ho, hst, hwork⟩ :=
      turn_cases hsmooth howes hstage
    · rw [Handler.pollWith, hturn]
      exact ⟨held, closed, hsmooth, howes, hstage, Nat.le_refl _, fun _ => .inl hblocked⟩
    · rw [Handler.pollWith, hturn]
      obtain ⟨held'', closed'', hlast, holast, hstlast, hle, _⟩ := ih hd ho hst
      have hless := Nat.lt_of_le_of_lt hle hwork
      exact ⟨held'', closed'', hlast, holast, hstlast, Nat.le_of_lt hless, fun _ => .inr hless⟩

/-! The whole. -/

def peerTask (messages : List Nat) : Session.Task Nat := ⟨"peer", 0, .play messages true, false⟩

/-- Where the benchmark stands: the peer has delivered the first `k` messages, and is still to
deliver the others or has completed. -/
structure Stands (o : Options) (k : Nat) (completed closed : Bool) (held : List Nat) (c : Call Nat)
    (h : Handler Nat) (s : Echo) : Prop where
  call : s.call? = some c
  handler : s.handler? = some h
  smooth : c.Smooth completed closed (List.range k) held
  owes : c.Owes o.config.inboundCapacity 0 True
  stage : Stage s.now c h held closed
  count : k ≤ o.messages
  peer : s.tasks = if completed then [] else [peerTask (List.range' k (o.messages - k))]
  all : completed = true → k = o.messages

variable {o : Options} {s : Echo}

theorem peer_of_call (hs : s.call? = some c) (a : PeerAct Nat) :
    s.peer a = s.withCall (c.peer a) := by
  rw [Session.peer, hs]

theorem transport_of_call (hs : s.call? = some c) : s.transport = c.wire := by
  rw [Session.transport, hs]

theorem withCall_of_call (hs : s.call? = some c) : s.withCall c = s := by
  cases s
  cases hs
  rfl

theorem outbound_deliver (hs : c.wire.started = true) (v : Nat) :
    (c.peer (.deliver v)).outbound = c.outbound := by
  rw [Call.peer_deliver hs]
  exact congrArg Outgoing.queue (Call.outgoing_onMessage (c.withWire _) v)

theorem outbound_complete (hs : c.wire.started = true) :
    (c.peer .complete).outbound = c.outbound := by
  rw [Call.peer_complete hs, Call.hear]
  split <;> rfl

/-- The peer delivers as much as it has credit for, and stops for want of credit only. -/
theorem play_cases (n : Nat) (hs : s.call? = some c)
    (hsmooth : c.Smooth false closed (List.range k) held) (howes : c.Owes capacity 0 True) :
    ∃ d j, k ≤ j ∧ j ≤ k + n ∧ (Session.play (List.range' k n) s).1 = s.withCall d ∧
      (Session.play (List.range' k n) s).2.1 = List.range' j (k + n - j) ∧
      d.Smooth false closed (List.range j) held ∧ d.Owes capacity 0 True ∧
      d.outbound = c.outbound ∧ (j < k + n → d.wire.outstanding = 0) := by
  induction n generalizing k s c with
  | zero =>
    exact ⟨c, k, Nat.le_refl k, Nat.le_refl k, (withCall_of_call hs).symm, by simp [Session.play],
      hsmooth, howes, rfl, fun hlt => absurd hlt (Nat.lt_irrefl k)⟩
  | succ n ih =>
    have hsettles : s.transport.settles (.deliver k) = decide (0 < c.wire.outstanding) := by
      rw [transport_of_call hs]
      simp [Loopback.settles, Loopback.terminated, hsmooth.unclosed, hsmooth.unended]
    rw [List.range'_succ, Session.play, hsettles]
    by_cases hcredit : 0 < c.wire.outstanding
    · have hdelivered := hsmooth.deliver howes k
      rw [← List.range_succ] at hdelivered
      have howed : (c.peer (.deliver k)).Owes capacity 0 True :=
        howes.peer hsmooth.started (.deliver k) fun _ => ⟨trivial, fun _ _ => hcredit⟩
      obtain ⟨d, j, hkj, hjn, hplay, hleft, hd, ho, hout, hstop⟩ :=
        ih (s := s.withCall (c.peer (.deliver k))) rfl hdelivered howed
      rw [decide_eq_true hcredit, if_pos rfl, peer_of_call hs]
      refine ⟨d, j, by omega, by omega, hplay, ?_, hd, ho,
        hout.trans (outbound_deliver hsmooth.started k), fun hlt => hstop (by omega)⟩
      rw [show k + (n + 1) - j = k + 1 + n - j by omega]
      exact hleft
    · rw [decide_eq_false hcredit, if_neg Bool.false_ne_true]
      refine ⟨c, k, Nat.le_refl k, by omega, (withCall_of_call hs).symm, ?_, hsmooth, howes, rfl,
        fun _ => Nat.eq_zero_of_not_pos hcredit⟩
      rw [Nat.add_sub_cancel_left, List.range'_succ]

/-- What is delivered reaches the handler through the inbound queue only. -/
theorem Stage.delivered (h : Stage now c hd held closed)
    (hopen : c.inbound.queue.closedForSend = false)
    (hout : d.outbound = c.outbound) : Stage now d hd held closed := by
  refine h.later (fun t ht => hout ▸ ht) fun hread => ?_
  have hended := (Bool.and_eq_true_iff.mp (Bool.and_eq_true_iff.mp hread).1).1
  cases hopen.symm.trans hended

theorem poll_peer_of_left {vs left : List Nat} (htask : s.tasks = [peerTask vs])
    (hplay : (Session.play vs s).1 = s.withCall d) (hleft : (Session.play vs s).2.1 = left)
    (hne : left ≠ []) : s.poll .peer = { s.withCall d with tasks := [peerTask left] } := by
  have hsome : left.isEmpty = false := List.isEmpty_eq_false_iff.mpr hne
  rcases hx : Session.play vs s with ⟨t, left', moved⟩
  rw [hx] at hplay hleft
  obtain rfl : t = s.withCall d := hplay
  obtain rfl : left' = left := hleft
  simp [poll, Session.pollTask, Session.pollJob, htask, peerTask, hx, hsome, Session.withCall]

/-- A peer that has delivered everything completes the call. -/
theorem poll_peer_of_played {vs : List Nat} (htask : s.tasks = [peerTask vs])
    (hplay : (Session.play vs s).1 = s.withCall d) (hleft : (Session.play vs s).2.1 = []) :
    ∃ done, s.poll .peer =
      { s.withCall (d.peer .complete) with tasks := [], done := done } := by
  rcases hx : Session.play vs s with ⟨t, left, moved⟩
  rw [hx] at hplay hleft
  obtain rfl : t = s.withCall d := hplay
  obtain rfl : left = [] := hleft
  refine ⟨s.done ++ [("peer", .played true)], ?_⟩
  simp [poll, Session.pollTask, Session.pollJob, htask, peerTask, hx, Session.withCall,
    Session.peer]

theorem stands_peer (h : Stands o k completed closed held c hd s) :
    ∃ j completed' d, Stands o j completed' closed held d hd (s.poll .peer) ∧
      (s.poll .peer = s → completed = true ∨ k < o.messages ∧ c.wire.outstanding = 0) := by
  have htasks := h.peer
  cases completed with
  | true =>
    have hnone : s.tasks = [] := htasks
    have hstays : s.poll .peer = s := by simp [poll, Session.pollTask, hnone]
    rw [hstays]
    exact ⟨k, true, c, h, fun _ => .inl rfl⟩
  | false =>
    have hopen := h.smooth.inbound.isOpen
    obtain ⟨d, j, hkj, hjn, hplay, hleft, hd, ho, hout, hstop⟩ :=
      play_cases (o.messages - k) h.call h.smooth h.owes
    rw [Nat.add_sub_cancel' h.count] at hjn hleft hstop
    have hstage := h.stage.delivered hopen hout
    have htask : s.tasks = [peerTask (List.range' k (o.messages - k))] := htasks
    obtain hlt | rfl := Nat.lt_or_eq_of_le hjn
    · have hne : List.range' j (o.messages - j) ≠ [] := by
        rw [Ne, List.range'_eq_nil_iff]
        omega
      rw [poll_peer_of_left htask hplay hleft hne]
      refine ⟨j, false, d, ?_, fun hsame => .inr ⟨by omega, ?_⟩⟩
      · exact
          { call := rfl
            handler := h.handler
            smooth := hd
            owes := ho
            stage := hstage
            count := hjn
            peer := rfl
            all := nofun }
      · have hcall : some d = s.call? := congrArg Session.call? hsame
        rw [h.call, Option.some.injEq] at hcall
        exact hcall ▸ hstop hlt
    · rw [Nat.sub_self] at hleft
      obtain ⟨done, hpoll⟩ := poll_peer_of_played htask hplay hleft
      rw [hpoll]
      have hcompleted : (d.peer .complete).Owes o.config.inboundCapacity 0 True :=
        ho.peer hd.started .complete fun _ => ⟨trivial, nofun⟩
      refine ⟨o.messages, true, d.peer .complete, ?_, fun hsame => ?_⟩
      · exact
          { call := rfl
            handler := h.handler
            smooth := hd.complete ho
            owes := hcompleted
            stage := h.stage.delivered hopen ((outbound_complete hd.started).trans hout)
            count := Nat.le_refl _
            peer := rfl
            all := fun _ => rfl }
      · have hempty : [] = s.tasks := congrArg Session.tasks hsame
        rw [htask] at hempty
        cases hempty

theorem stands_handler (h : Stands o k completed closed held c hd s) :
    ∃ closed' held' d g, Stands o k completed closed' held' d g (s.poll .handler) ∧
      (s.poll .handler = s → Blocked c hd) := by
  obtain ⟨held', closed', hsmooth, howes, hstage, _, hwork⟩ :=
    pollWith_cases (Handler.budget c hd) h.smooth h.owes h.stage
  have hpositive : 0 < Handler.budget c hd := by
    rw [Handler.budget]
    exact Nat.mul_pos (Nat.mul_pos (by decide) (Nat.succ_pos _)) (Nat.succ_pos _)
  have hlook := hwork hpositive
  rcases hx : Handler.pollWith s.now (Handler.budget c hd) c hd with ⟨d, g, moved⟩
  rw [hx] at hsmooth howes hstage hlook
  obtain ⟨hnotes, hkept⟩ : g.notes = [] ∧ g.kept = [] := hstage.plain
  have hsame : { g with notes := [], kept := [] } = g := by
    cases g
    cases hnotes
    cases hkept
    rfl
  have hpoll : s.poll .handler = { s with call? := some d, handler? := some g } := by
    simp only [poll, Session.pollHandler, h.call, h.handler, Handler.poll, hx, hsame, hnotes,
      hkept, List.append_nil, List.foldl_nil]
  rw [hpoll]
  refine ⟨closed', held', d, g, ?_, fun hstays => ?_⟩
  · exact
      { call := rfl
        handler := rfl
        smooth := hsmooth
        owes := howes
        stage := hstage
        count := h.count
        peer := h.peer
        all := h.all }
  · have hcall : some d = s.call? := congrArg Session.call? hstays
    have hhandler : some g = s.handler? := congrArg Session.handler? hstays
    rw [h.call, Option.some.injEq] at hcall
    rw [h.handler, Option.some.injEq] at hhandler
    subst hcall hhandler
    exact hlook.resolve_right (Nat.lt_irrefl _)

/-- Something is done to the call alone. -/
theorem Stands.withCall (h : Stands o k completed closed held c hd s)
    (hsmooth : d.Smooth completed closed (List.range k) held)
    (howes : d.Owes o.config.inboundCapacity 0 True) (hstage : Stage s.now d hd held closed) :
    Stands o k completed closed held d hd (s.withCall d) :=
  { h with
    call := rfl
    smooth := hsmooth
    owes := howes
    stage := hstage }

theorem stands_pump (h : Stands o k completed closed held c hd s) :
    ∃ d, Stands o k completed closed held d hd (s.poll .pump) ∧
      (s.poll .pump = s → c.pump.done = true ∨ c.outbound.readable = false) := by
  rw [poll, Session.pollPump, h.call]
  simp only
  split
  · obtain ⟨hsmooth, hknows, hrest⟩ := h.smooth.pollPump
    have haside := Call.aside_pollPump c
    have hstage := h.stage.later hknows fun hread => haside.inbound ▸ hread
    refine ⟨c.pollPump, h.withCall hsmooth (h.owes.aside haside) hstage, fun hstays => ?_⟩
    have hcall : some c.pollPump = s.call? := congrArg Session.call? hstays
    rw [h.call, Option.some.injEq] at hcall
    rw [hcall] at hrest
    exact hrest
  · next hmoves =>
    refine ⟨c, h, fun _ => ?_⟩
    obtain ⟨hp, _⟩ | ⟨hp, _⟩ := h.smooth.pump
    · rw [Call.pumpMoves, hp] at hmoves
      exact .inr (by simpa using hmoves)
    · exact .inl (by rw [hp]; rfl)

theorem stands_supervisor (h : Stands o k completed closed held c hd s) :
    ∃ d, Stands o k completed closed held d hd (s.poll .supervisor) ∧
      (s.poll .supervisor = s → c.settled = true → c.supervisor.done = true) := by
  rw [poll, Session.pollSupervisor, h.call]
  simp only
  split
  · obtain ⟨sup, hsup, hsmooth⟩ := h.smooth.pollSupervisor s.now
    have howes := h.owes.watch (Call.pollSupervisor_watch c s.now)
    rw [hsup] at howes ⊢
    refine ⟨_, h.withCall hsmooth howes (h.stage.later (fun _ => id) id), ?_⟩
    intro hstays hsettled
    have hcall : some { c with supervisor := sup } = s.call? := congrArg Session.call? hstays
    rw [h.call, Option.some.injEq] at hcall
    have hdone := Call.done_pollSupervisor_of_settled hsettled s.now
    rw [hsup, hcall] at hdone
    exact hdone
  · next hmoves =>
    refine ⟨c, h, fun _ hsettled => ?_⟩
    obtain hs | ⟨hs, _⟩ := h.smooth.supervisor
    · simp [Call.supervisorMoves, hs, hsettled] at hmoves
    · rw [hs]
      rfl

theorem stands_deferred (h : Stands o k completed closed held c hd s) (i : Nat) :
    ∃ d, Stands o k completed closed held d hd (s.poll (.deferred i)) ∧
      (s.poll (.deferred i) = s → (c.pollDeferred i).1 = c) := by
  rw [poll, Session.mapCall, h.call]
  have hsmooth := h.smooth.pollDeferred h.owes i
  have hout : (c.pollDeferred i).1.outbound = c.outbound :=
    congrArg Outgoing.queue (Call.outgoing_pollDeferred c i)
  have hread : c.inbound.queue.closedForReceive = true →
      (c.pollDeferred i).1.inbound.queue.closedForReceive = true := by
    intro hread
    have hnone : c.inbound.deferred = [] := by
      have hended := h.smooth.inbound.ends
      rw [h.owes.counted.orderly.closedForReceive_iff] at hread
      by_contra hsome
      simp [hended, hsome] at hread
    have hsame : c.inbound.pollDeferred i = (c.inbound, false, false) := by
      rw [Inbound.pollDeferred, hnone]
      rfl
    rw [Call.pollDeferred_eq, hsame]
    exact (Call.inbound_ask _ _).symm ▸ hread
  refine ⟨_, h.withCall hsmooth (h.owes.pollDeferred i)
    (h.stage.later (fun t ht => hout ▸ ht) hread), fun hstays => ?_⟩
  have hcall : some (c.pollDeferred i).1 = s.call? := congrArg Session.call? hstays
  rw [h.call, Option.some.injEq] at hcall
  exact hcall

theorem stands_start (hdeadline : o.config.deadlineMs = none) (hdelay : o.delayMicros = 0) :
    ∃ c, Stands o 0 false false [] c (handler [.echo 0]) (start o) := by
  have hplan : (plan o).deadline = none := by rw [plan, hdeadline]; rfl
  have howes : (Course.opened .serve (plan o) true ([] : List (PeerAct Nat))).call.Owes
      o.config.inboundCapacity 0 True := Course.owes_opened nofun (plan o) true nofun
  refine ⟨Opening.serve.call (plan o) {}, ?_⟩
  exact
    { call := rfl
      handler := by rw [start, hdelay]; rfl
      smooth := .opened rfl hplan rfl
      owes := howes
      stage := .reads
      count := Nat.zero_le _
      peer := by rw [Nat.sub_zero, ← List.range_eq_range']; rfl
      all := nofun }

theorem stands_poll (h : Stands o k completed closed held c hd s) (p : Poll) :
    ∃ k completed closed held c hd, Stands o k completed closed held c hd (s.poll p) := by
  cases p with
  | peer =>
    obtain ⟨_, _, _, hnext, _⟩ := stands_peer h
    exact ⟨_, _, _, _, _, _, hnext⟩
  | handler =>
    obtain ⟨_, _, _, _, hnext, _⟩ := stands_handler h
    exact ⟨_, _, _, _, _, _, hnext⟩
  | pump =>
    obtain ⟨_, hnext, _⟩ := stands_pump h
    exact ⟨_, _, _, _, _, _, hnext⟩
  | supervisor =>
    obtain ⟨_, hnext, _⟩ := stands_supervisor h
    exact ⟨_, _, _, _, _, _, hnext⟩
  | deferred i =>
    obtain ⟨_, hnext, _⟩ := stands_deferred h i
    exact ⟨_, _, _, _, _, _, hnext⟩

theorem stands_run (h : Stands o k completed closed held c hd s) (ps : List Poll) :
    ∃ k completed closed held c hd, Stands o k completed closed held c hd (s.run ps) := by
  induction ps using List.reverseRecOn with
  | nil => exact ⟨k, completed, closed, held, c, hd, h⟩
  | append_singleton ps p ih =>
    obtain ⟨_, _, _, _, _, _, hrun⟩ := ih
    rw [run, List.foldl_append]
    exact stands_poll hrun p

/-- Somebody can always go on until the handler has returned: a handler that waits for a value
waits for the peer, who then has credit, or for a value whose place is free; one that waits for
room waits for the pump, which then has something to write. -/
theorem returned_of_stuck (h : Stands o k completed closed held c hd s) (hstuck : s.Stuck) :
    hd = spent := by
  obtain ⟨_, _, _, _, hpeer⟩ := stands_peer h
  obtain ⟨_, _, _, _, _, hhandler⟩ := stands_handler h
  obtain ⟨_, _, hpump⟩ := stands_pump h
  obtain ⟨_, _, hdeferred⟩ := stands_deferred h 0
  have hblocked := hhandler (hstuck .handler)
  cases hblocked with
  | returned => rfl
  | empty hline hopen =>
    have hstays : (c.inbound.pollDeferred 0).1 = c.inbound := by
      have hsame := congrArg Call.inbound (hdeferred (hstuck (.deferred 0)))
      rwa [Call.pollDeferred_eq, Call.inbound_ask] at hsame
    have hnone := h.smooth.inbound.settles h.owes.counted hline hstays
    have hmore : completed = false := by
      have hends := h.smooth.inbound.ends
      rw [hopen, hnone] at hends
      cases completed with
      | true => cases hends
      | false => rfl
    obtain hdone | ⟨_, hout⟩ := hpeer (hstuck .peer)
    · cases hdone.symm.trans hmore
    · have hforwards : c.forwards = true := by
        simp [Call.forwards, h.smooth.uncancelled, h.smooth.there]
      have hbalanced := h.owes.balanced (by rw [Queue.closedForSend, hopen]; rfl) hforwards
      rw [hnone, List.length_nil] at hbalanced
      rw [Loopback.outstanding] at hout
      omega
  | full ht =>
    cases h.stage with
    | waits _ =>
      have hreading := h.smooth.reading.1
      obtain hdone | hread := hpump (hstuck .pump)
      · rw [hreading] at hdone
        cases hdone
      · have hbuffer : c.outbound.buffer = [] := by
          rw [Queue.readable, Bool.or_eq_false_iff] at hread
          simpa using hread.1
        rw [Queue.tickets, h.smooth.orderly.waiting_eq_nil hbuffer] at ht
        cases ht

/-- What a benchmark without a deadline and without pauses comes to, whoever is looked at and in
whatever order: what it has written are the first messages in order, and when nobody can do anything
more these are all of them, and everybody has ended well. -/
theorem echo_exact (o : Options) (hdeadline : o.config.deadlineMs = none)
    (hdelay : o.delayMicros = 0) (ps : List Poll) :
    let s := (start o).run ps
    ∃ c, s.call? = some c ∧
      c.wire.sent.toList <+: List.range o.messages ∧
      (s.Stuck →
        c.wire.sent.toList = List.range o.messages ∧
        c.wire.halfClosed = true ∧ c.wire.closedWith = none ∧ c.wire.cancellations = [] ∧
        c.scope.cancelled = false ∧ s.ended = true ∧
        c.handle.stats.messagesReceived = o.messages ∧
        c.handle.stats.messagesSent = o.messages ∧
        c.handle.stats.lateDeliveries = 0 ∧ c.wire.violations = 0 ∧ c.wire.maxOutstanding = 1 ∧
        (c.handle.stats.creditsRequested = o.messages ∨
          c.handle.stats.creditsRequested = o.messages + 1)) := by
  intro s
  obtain ⟨c₀, hstart⟩ := stands_start hdeadline hdelay
  obtain ⟨k, completed, closed, held, c, hd, h⟩ := stands_run hstart ps
  refine ⟨c, h.call, ?_, fun hstuck => ?_⟩
  · have hsome : c.wire.sent.toList <+: List.range k := ⟨_, h.smooth.chain⟩
    have hall : List.range k <+: List.range o.messages := by
      rw [← Nat.add_sub_of_le h.count, List.range_add]
      exact List.prefix_append _ _
    exact hsome.trans hall
  · obtain rfl := returned_of_stuck h hstuck
    obtain ⟨_, _, hpump⟩ := stands_pump h
    obtain ⟨_, _, hsupervisor⟩ := stands_supervisor h
    cases h.stage with
    | returned hread =>
      obtain ⟨hclosed, hline⟩ := h.owes.counted.orderly.closedForReceive_iff.mp hread
      obtain ⟨rfl, hnone⟩ : completed = true ∧ c.inbound.deferred = [] := by
        have hends := h.smooth.inbound.ends
        by_contra hopen
        rw [hends] at hclosed
        simp_all
      obtain rfl := h.all rfl
      have hdone : c.pump.done = true := by
        obtain hdone | hread := hpump (hstuck .pump)
        · exact hdone
        · simp [Queue.readable, h.smooth.ended] at hread
      obtain ⟨hp, _⟩ | ⟨_, hhalf, hdrained⟩ := h.smooth.pump
      · rw [hp] at hdone
        cases hdone
      obtain ⟨_, hout⟩ := h.smooth.orderly.closedForReceive_iff.mp hdrained
      have hsettled : c.settled = true := Bool.and_eq_true_iff.mpr ⟨hclosed, hdone⟩
      have hsup := hsupervisor (hstuck .supervisor) hsettled
      have hsent : c.wire.sent.toList = List.range o.messages := by
        have hchain := h.smooth.chain
        simpa [hout, hline] using hchain
      have hdelivered : c.wire.delivered = o.messages := by
        rw [h.smooth.delivered, List.length_range]
      have hended : s.ended = true := by
        simp [ended, Session.joined, s, h.call, h.handler, h.peer, hdone, hsup, hnone, spent,
          Handler.done]
      have hwithin := h.owes.within trivial
      have hatMost := h.owes.atMost
      refine ⟨hsent, h.smooth.half.trans hhalf, h.smooth.unclosed, h.smooth.unended,
        h.smooth.goes, hended, ?_, ?_, h.smooth.late, ?_, ?_, ?_⟩
      · exact h.smooth.received.trans hdelivered
      · rw [h.smooth.sent, ← Array.length_toList, hsent, List.length_range]
      · exact Nat.sub_eq_zero_of_le hwithin
      · exact Nat.le_antisymm h.owes.most h.smooth.asked
      · rw [h.smooth.requested]
        omega

/-- Who has ended does nothing more. -/
theorem stuck_of_ended (h : Stands o k completed closed held c hd s) (hended : s.ended = true) :
    s.Stuck := by
  simp only [ended, Session.joined, h.call, h.handler, Bool.and_eq_true, List.isEmpty_iff] at hended
  obtain ⟨⟨⟨⟨hpump, hsup⟩, hnone⟩, hdone⟩, htasks⟩ := hended
  have hspent : hd = spent := by
    cases h.stage with
    | returned => rfl
    | _ => cases hdone
  have hp : c.pump = .finished := by
    obtain ⟨hp, _⟩ | ⟨hp, _⟩ := h.smooth.pump
    · rw [hp] at hpump
      cases hpump
    · exact hp
  have hs : c.supervisor = .finished := by
    obtain hs | ⟨hs, _⟩ := h.smooth.supervisor
    · rw [hs] at hsup
      cases hsup
    · exact hs
  subst hspent
  intro p
  cases p with
  | peer => simp [poll, Session.pollTask, htasks]
  | handler =>
    have hrest : Handler.poll s.now c spent = (c, spent, false) := by
      rw [Handler.poll]
      cases Handler.budget c spent <;> rfl
    have hpoll : s.poll .handler = { s with call? := some c, handler? := some spent } := by
      simp only [poll, Session.pollHandler, h.call, h.handler, hrest]
      simp [spent, handler]
    rw [hpoll, ← h.call, ← h.handler]
  | pump => simp [poll, Session.pollPump, h.call, Call.pumpMoves, hp]
  | supervisor => simp [poll, Session.pollSupervisor, h.call, Call.supervisorMoves, hs]
  | deferred i =>
    have hrest : (c.pollDeferred i).1 = c := by
      rw [Call.pollDeferred_eq, Inbound.pollDeferred, hnone]
      rfl
    rw [poll, Session.mapCall, h.call]
    simp only [hrest, withCall_of_call h.call]

/-- Room for one in each direction: one value waits for room on its way in, and one on its way
out. -/
theorem echo_exact_three :
    let o : Options := { messages := 3 }
    let s := (start o).run [.peer, .handler, .pump, .handler, .deferred 0, .peer, .handler, .pump,
      .supervisor]
    s.Stuck ∧ ∃ c, s.call? = some c ∧ c.wire.sent.toList = [0, 1, 2] ∧ c.wire.halfClosed = true ∧
      s.ended = true := by
  intro o s
  have hall : s.ended = true := by decide
  obtain ⟨_, hstart⟩ := stands_start (o := o) rfl rfl
  obtain ⟨_, _, _, _, _, _, hrun⟩ := stands_run hstart [.peer, .handler, .pump, .handler,
    .deferred 0, .peer, .handler, .pump, .supervisor]
  have hstuck : s.Stuck := stuck_of_ended hrun hall
  obtain ⟨c, hc, _, hend⟩ := echo_exact o rfl rfl [.peer, .handler, .pump, .handler,
    .deferred 0, .peer, .handler, .pump, .supervisor]
  obtain ⟨hsent, hhalf, _, _, _, hended, _⟩ := hend hstuck
  exact ⟨hstuck, c, hc, hsent, hhalf, hended⟩

end Echo
end Bench
end PacedCall
