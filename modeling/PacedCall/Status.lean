import PacedCall.Text.Quoted

/-!
Statuses, the errors a call can meet, and the one status an error is reported as. An error is a
link together with the links behind it, outermost first; reporting keeps the outermost status of
the chain and makes up a new one only where the chain holds none.
-/
namespace PacedCall

inductive Code where
  | ok
  | cancelled
  | unknown
  | invalidArgument
  | deadlineExceeded
  | notFound
  | alreadyExists
  | permissionDenied
  | resourceExhausted
  | failedPrecondition
  | aborted
  | outOfRange
  | unimplemented
  | internal
  | unavailable
  | dataLoss
  | unauthenticated
deriving DecidableEq

namespace Code

def all : List Code :=
  [.ok, .cancelled, .unknown, .invalidArgument, .deadlineExceeded, .notFound, .alreadyExists,
    .permissionDenied, .resourceExhausted, .failedPrecondition, .aborted, .outOfRange,
    .unimplemented, .internal, .unavailable, .dataLoss, .unauthenticated]

def name : Code → String
  | ok => "Ok"
  | cancelled => "Cancelled"
  | unknown => "Unknown"
  | invalidArgument => "InvalidArgument"
  | deadlineExceeded => "DeadlineExceeded"
  | notFound => "NotFound"
  | alreadyExists => "AlreadyExists"
  | permissionDenied => "PermissionDenied"
  | resourceExhausted => "ResourceExhausted"
  | failedPrecondition => "FailedPrecondition"
  | aborted => "Aborted"
  | outOfRange => "OutOfRange"
  | unimplemented => "Unimplemented"
  | internal => "Internal"
  | unavailable => "Unavailable"
  | dataLoss => "DataLoss"
  | unauthenticated => "Unauthenticated"

def ofNumber (n : Nat) : Code := all[n]?.getD .unknown

def ofName (s : String) : Code := (all.find? fun c => c.name == s).getD .unknown

theorem mem_all (c : Code) : c ∈ all := by cases c <;> decide

theorem ofName_name (c : Code) : ofName c.name = c := by cases c <;> rfl

end Code

structure Status where
  code : Code
  message : String
  details : List UInt8 := []
deriving DecidableEq

namespace Status

def peerCancelled : Status := ⟨.cancelled, "Peer has cancelled the call", []⟩
def localCancelled : Status := ⟨.cancelled, "Call was cancelled locally", []⟩
def inboundAbandoned : Status := ⟨.cancelled, "Inbound stream was cancelled by the consumer", []⟩
def deadlineElapsed : Status := ⟨.deadlineExceeded, "Call deadline elapsed", []⟩
def callReleased : Status := ⟨.cancelled, "call has been released", []⟩
def alreadyTerminated : Status := ⟨.failedPrecondition, "call already terminated", []⟩
def alreadyClosed : Status := ⟨.failedPrecondition, "loopback call already closed", []⟩
def queueClosed : Status := ⟨.failedPrecondition, "queue is closed", []⟩

end Status

inductive QueueError where
  | closed
  | terminated (status : Status)
deriving DecidableEq

namespace QueueError

def shown : QueueError → String
  | closed => "queue is closed"
  | terminated st => "queue terminated: " ++ st.message

def status : QueueError → Status
  | closed => .queueClosed
  | terminated st => st

end QueueError

inductive Refusal where
  | full
  | closed
deriving DecidableEq

namespace Refusal

def shown : Refusal → String
  | full => "queue is full"
  | closed => "queue is closed"

def label : Refusal → String
  | full => "Full(..)"
  | closed => "Closed(..)"

end Refusal

inductive Link where
  | status (status : Status)
  | cancelled (reason : String)
  | queue (error : QueueError)
  | refused (why : Refusal)
  | text (shown : String)
deriving DecidableEq

namespace Link

def status? : Link → Option Status
  | status st => some st
  | _ => none

def isCancelled : Link → Bool
  | cancelled _ => true
  | _ => false

def bytesShown (bytes : List UInt8) : String :=
  "[" ++ ", ".intercalate (bytes.map fun b => toString b.toNat) ++ "]"

def shown : Link → String
  | status st =>
    "status: " ++ st.code.name ++ ", message: " ++ Text.quoted st.message ++ ", details: "
      ++ bytesShown st.details ++ ", metadata: MetadataMap \x7b headers: \x7b\x7d \x7d"
  | cancelled reason => reason
  | queue e => e.shown
  | refused why => why.shown
  | text s => s

end Link

structure Failure where
  head : Link
  behind : List Link := []
deriving DecidableEq

namespace Failure

def links (f : Failure) : List Link := f.head :: f.behind

def ofStatus (st : Status) : Failure := ⟨.status st, []⟩
def ofQueue (e : QueueError) : Failure := ⟨.queue e, []⟩

end Failure

def outermostStatus : List Link → Option (Status × List Link)
  | [] => none
  | l :: rest =>
    match l.status? with
    | some st => some (st, rest)
    | none => outermostStatus rest

/-- The status an error is reported as, with the chain behind it. A chain that holds a status is
reported as the outermost one, unchanged; any other error stands behind a new status that shows
its text, and counts as a cancellation only if the outermost link says so. -/
def Failure.report (f : Failure) : Status × List Link :=
  match outermostStatus f.links with
  | some found => found
  | none => (⟨if f.head.isCancelled then .cancelled else .unknown, f.head.shown, []⟩, f.links)

def Failure.toStatus (f : Failure) : Status := f.report.1

theorem Failure.toStatus_ofStatus (st : Status) : (ofStatus st).toStatus = st := rfl

end PacedCall
