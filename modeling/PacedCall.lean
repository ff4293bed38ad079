import PacedCall.Config.Document
import PacedCall.Loopback.Desk
import PacedCall.Main
import PacedCall.Queue.Line
import PacedCall.Readiness.Desk
import PacedCall.Scope.Desk
import PacedCall.Proofs.Desk
import PacedCall.Proofs.Queue.Fates
import PacedCall.Proofs.Inbound.Preload
import PacedCall.Proofs.Inbound.Contest
import PacedCall.Proofs.Inbound.Completion
import PacedCall.Proofs.Call.Outbound
import PacedCall.Proofs.Call.Incoming
import PacedCall.Proofs.Call.Credit
import PacedCall.Proofs.Call.Departure
import PacedCall.Proofs.Call.Abandonment
import PacedCall.Proofs.Call.WindDown
import PacedCall.Proofs.Call.Overdue
import PacedCall.Proofs.Call.Program
import PacedCall.Proofs.Call.Failure
import PacedCall.Proofs.Call.Response
import PacedCall.Proofs.Call.Answer
import PacedCall.Proofs.Call.Unwritten
import PacedCall.Proofs.Bench.Echo
import PacedCall.Proofs.Call.Accounts
import PacedCall.Proofs.Call.Withheld
import PacedCall.Proofs.Loopback.Violations
import PacedCall.Proofs.Readiness.Waits
import PacedCall.Proofs.Call.Rounds
import PacedCall.Proofs.Queue.Closing
import PacedCall.Proofs.Loopback.Waits
import PacedCall.Proofs.Status
import PacedCall.Proofs.Call.Propagation
import PacedCall.Proofs.Scope.Family
