import Mathlib.Data.List.Induction
import PacedCall.Call.Handler
import PacedCall.Call.Pump
import PacedCall.Call.Supervisor

/-!
The course of a call: what its peer, its owner and its tasks do to it, one move at a time and in
any order. A move is one report of the transport, one operation on a half of the call, or one look
at a task; nothing is assumed about who moves when, nor that an operation is only used while it
makes sense.
-/
namespace PacedCall

inductive Move (α : Type) where
  | peer (a : PeerAct α)
  | pump
  | supervise
  | enqueue (task : Nat)
  | advance (ticks : Nat)
  | recv
  | cancelInbound
  | dropInbound
  | trySend (v : α)
  | openSend (v : α)
  | pollSend (send : Nat)
  | dropSend (send : Nat)
  | close (how : Termination)
  | cloneSink
  | dropSink
  | cancel (st : Status)
  | endParent

/-- What is true of a place in a longer list is true of one in the list, or of its end. -/
theorem exists_split_concat {β : Type} {P : List β → Prop} {l : List β} {a x : β} :
    (∃ before after, l ++ [a] = before ++ x :: after ∧ P before) ↔
      (∃ before after, l = before ++ x :: after ∧ P before) ∨ a = x ∧ P l := by
  constructor
  · rintro ⟨before, after, hsplit, hp⟩
    cases after using List.reverseRecOn with
    | nil =>
      obtain ⟨rfl, ha⟩ := List.append_inj' hsplit rfl
      exact .inr ⟨(List.cons.inj ha).1, hp⟩
    | append_singleton after b _ =>
      rw [← List.cons_append, ← List.append_assoc] at hsplit
      exact .inl ⟨before, after, (List.append_inj' hsplit rfl).1, hp⟩
  · rintro (⟨before, after, rfl, hp⟩ | ⟨rfl, hp⟩)
    · exact ⟨before, after ++ [a], by simp, hp⟩
    · exact ⟨l, [], rfl, hp⟩

structure Course (α : Type) where
  call : Call α
  sends : List (Send α) := []
  now : Nat := 0

namespace Course
variable {α : Type}

def withCall (s : Course α) (c : Call α) : Course α := { s with call := c }

def pollSend (s : Course α) (i : Nat) : Course α :=
  match s.sends[i]? with
  | none => s
  | some sd =>
    match s.call.pollSend sd with
    | (c, sd, none) => { s with call := c, sends := s.sends.set i sd }
    | (c, _, some _) => { s with call := c, sends := s.sends.eraseIdx i }

def dropSend (s : Course α) (i : Nat) : Course α :=
  match s.sends[i]? with
  | none => s
  | some sd => { s with call := s.call.dropSend sd, sends := s.sends.eraseIdx i }

def step (s : Course α) : Move α → Course α
  | .peer a => s.withCall (s.call.peer a)
  | .pump => s.withCall s.call.pollPump
  | .supervise => s.withCall (s.call.pollSupervisor s.now)
  | .enqueue i => s.withCall (s.call.pollDeferred i).1
  | .advance ticks => { s with now := s.now + ticks }
  | .recv => s.withCall s.call.recv.1
  | .cancelInbound => s.withCall s.call.cancelInbound
  | .dropInbound => s.withCall s.call.dropInbound
  | .trySend v => s.withCall (s.call.trySend v).1
  | .openSend v => { s with sends := s.sends ++ [.fresh v] }
  | .pollSend i => s.pollSend i
  | .dropSend i => s.dropSend i
  | .close how => s.withCall (s.call.closeOutbound how).1
  | .cloneSink => s.withCall s.call.cloneSink
  | .dropSink => s.withCall s.call.dropSink
  | .cancel st => s.withCall (s.call.cancelScope .here st)
  | .endParent => s.withCall { s.call with scope := s.call.scope.trip }

def run (s : Course α) (ms : List (Move α)) : Course α := ms.foldl step s

def collect {β : Type} (f : Course α → Move α → List β) : Course α → List (Move α) → List β
  | _, [] => []
  | s, m :: ms => f s m ++ collect f (s.step m) ms

@[simp] theorem run_nil (s : Course α) : s.run [] = s := rfl

@[simp] theorem run_concat (s : Course α) (ms : List (Move α)) (m : Move α) :
    s.run (ms ++ [m]) = (s.run ms).step m := by
  rw [run, List.foldl_append]
  rfl

theorem run_append (s : Course α) (ms ns : List (Move α)) :
    s.run (ms ++ ns) = (s.run ms).run ns := List.foldl_append

@[simp] theorem collect_nil {β : Type} (f : Course α → Move α → List β) (s : Course α) :
    collect f s [] = [] := rfl

theorem collect_append {β : Type} (f : Course α → Move α → List β) (s : Course α)
    (ms ns : List (Move α)) :
    collect f s (ms ++ ns) = collect f s ms ++ collect f (s.run ms) ns := by
  induction ms generalizing s with
  | nil => rfl
  | cons m ms ih => simp [collect, run, ih]

@[simp] theorem collect_concat {β : Type} (f : Course α → Move α → List β) (s : Course α)
    (ms : List (Move α)) (m : Move α) :
    collect f s (ms ++ [m]) = collect f s ms ++ f (s.run ms) m := by
  simp [collect_append, collect]

end Course

/-- How a call comes to be. A served call keeps one sink for itself, with which it ends when its
handler returns. -/
inductive Opening (α : Type) where
  | bidi
  | serve
  | responses (request : α)

namespace Opening
variable {α : Type}

def call (o : Opening α) (p : CallPlan) (wire : Loopback α) : Call α :=
  match o with
  | bidi => p.bidi wire
  | serve => (p.bidi wire).cloneSink
  | responses request => p.responses wire request

end Opening

namespace CallPlan
variable {α : Type}

def idle (p : CallPlan) (wire : Loopback α) (inbound : Inbound α) (outbound : Queue α)
    (sinks : Nat) : Call α :=
  { handle := { role := p.role, transport := wire.disableAutomaticCredit.watch.start.1 }
    scope := { cancelled := p.parentCancelled }
    inbound := inbound
    outbound := outbound
    supervisor := .watching p.expiry
    sinks := sinks }

theorem start_eq (p : CallPlan) (wire : Loopback α) (inbound : Inbound α) (outbound : Queue α)
    (sinks : Nat) :
    p.start wire inbound outbound sinks =
      (p.idle wire inbound outbound sinks).hear? wire.disableAutomaticCredit.watch.start.2 := rfl

end CallPlan

def Loopback.before {α : Type} (ready : Bool) (acts : List (PeerAct α)) : Loopback α :=
  acts.foldl (fun t a => (t.peer a).1) { ready := ready }

structure Loopback.Unused {α : Type} (t : Loopback α) : Prop where
  started : t.started = false
  requested : t.requested = 0
  maxOutstanding : t.maxOutstanding = 0
  sent : t.sent = #[]
  halfClosed : t.halfClosed = false
  closedWith : t.closedWith = none
  cancellations : t.cancellations = []

theorem Loopback.Unused.peer {α : Type} {t : Loopback α} (h : t.Unused) (a : PeerAct α) :
    (t.peer a).1.Unused := by
  cases a <;> exact { h with }

theorem Loopback.unused_before {α : Type} (ready : Bool) (acts : List (PeerAct α)) :
    (Loopback.before ready acts).Unused := by
  exact List.foldlRecOn acts _ ⟨rfl, rfl, rfl, rfl, rfl, rfl, rfl⟩ fun _ h a _ => h.peer a

def Course.opened {α : Type} (o : Opening α) (p : CallPlan) (ready : Bool)
    (acts : List (PeerAct α)) : Course α :=
  { call := o.call p (.before ready acts) }

/-! A handler that returns makes the moves of its two halves and of the call's own sink. -/

namespace Course
variable {α : Type}

def wrapUp (r : Except Failure Unit) : List (Move α) :=
  match r with
  | .ok _ => [.close .completed, .dropSink]
  | .error f => [.cancel f.toStatus, .close (.failed f.toStatus), .dropSink]

theorem finish_eq_run (s : Course α) (h : Handler α) (r : Except Failure Unit) :
    (Handler.finish s.call h r).1 =
      (s.run ((if h.inbound then [.dropInbound] else []) ++
        (if h.sink then [.dropSink] else []) ++ wrapUp r)).call := by
  cases hi : h.inbound <;> cases hs : h.sink <;> cases r <;>
    simp [Handler.finish, Handler.dropInbound, Handler.dropSink, wrapUp, run, step, withCall, hi,
      hs, Call.closeSink]

end Course
end PacedCall
