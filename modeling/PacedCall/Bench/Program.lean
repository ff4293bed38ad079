import PacedCall.Bench.Echo
import PacedCall.Config.Document

/-!
The benchmark as a program: from arguments and environment to what it prints, what it logs and how
it exits. A command line that is not run exits with 2, a call that failed with 1.
-/
namespace PacedCall
namespace Bench
open CommandLine

inductive Shown where
  | nothing
  | help
  | version
  | report (r : Report) (f : Format)

structure Outcome where
  shown : Shown
  events : List Event := []
  logFormat : Format := .text
  complaint : Option String := none
  exitCode : Nat := 0

def stopped : Stop → Outcome
  | .help => { shown := .help }
  | .version => { shown := .version }
  | s => { shown := .nothing, complaint := s.message, exitCode := 2 }

/-- A run of the program, interrupted so many milliseconds after its call started if at all. -/
def program (args : List String) (env : List (String × String)) (interruptMs : Option Nat) :
    Outcome :=
  match Options.ofArgs args env with
  | .error s => stopped s
  | .ok o =>
    let r := run o interruptMs
    { shown := .report r.report o.output
      events := r.logged (.ofEnv env)
      logFormat := o.logFormat
      complaint := r.complaint
      exitCode := r.exitCode }

def variableNames : List String := Filter.variableName :: Options.spec.options.filterMap Opt.env

def Options.helpLine (o : Opt) : String :=
  let short := match o.short with
    | some c => "-" ++ c.toString ++ ", "
    | none => "    "
  let env := match o.env with
    | some name => "  [env: " ++ name ++ "]"
    | none => ""
  "  " ++ short ++ o.shown ++ env

def helpLines : List String :=
  [programAbout, "", "Usage: " ++ programName ++ " [OPTIONS]", "", "Options:"]
    ++ Options.spec.options.map Options.helpLine
    ++ ["  -h, --help", "  -V, --version"]

namespace Report

def elapsedMs (r : Report) : Nat := r.elapsedMicros / 1000

def rate (r : Report) : Nat := r.echoed * 1000000 / max 1 r.elapsedMicros

def fieldLine (depth : Nat) (name value : String) : String :=
  "".pushn ' ' (2 * depth) ++ "\"" ++ name ++ "\": " ++ value

def listed : List String → List String
  | [] => []
  | [l] => [l]
  | l :: ls => (l ++ ",") :: listed ls

def document (r : Report) : List String :=
  let number := fun (depth : Nat) (f : String × Nat) => fieldLine depth f.1 (toString f.2)
  ["\x7b", fieldLine 1 "messages" (toString r.messages) ++ ",",
    fieldLine 1 "echoed" (toString r.echoed) ++ ",",
    fieldLine 1 "interrupted" (toString r.interrupted) ++ ",",
    fieldLine 1 "elapsed_ms" (toString r.elapsedMs) ++ ",",
    fieldLine 1 "messages_per_sec" (toString r.rate ++ ".0") ++ ",",
    fieldLine 1 "max_outstanding_credit" (toString r.maxOutstanding) ++ ",",
    fieldLine 1 "credit_violations" (toString r.violations) ++ ",", fieldLine 1 "stats" "\x7b"]
    ++ listed ([("credits_requested", r.stats.creditsRequested),
      ("messages_received", r.stats.messagesReceived), ("messages_sent", r.stats.messagesSent),
      ("late_deliveries", r.stats.lateDeliveries),
      ("deferred_enqueues", r.stats.deferredEnqueues)].map (number 2))
    ++ ["  \x7d,", fieldLine 1 "config" "\x7b"]
    ++ listed (r.config.fields.map fun f =>
      fieldLine 2 f.1 ((f.2.map toString).getD "null"))
    ++ ["  \x7d", "\x7d"]

end Report

namespace Event

def line (f : Format) (e : Event) : String :=
  match f with
  | .text =>
    e.level.label ++ " " ++ e.target ++ ": "
      ++ " ".intercalate (e.fields.map fun (name, value) =>
        if name == "message" then value else name ++ "=" ++ Text.quoted value)
  | .json =>
    "\x7b\"level\":\"" ++ e.level.label ++ "\",\"fields\":\x7b"
      ++ ",".intercalate (e.fields.map fun (name, value) =>
        "\"" ++ name ++ "\":" ++ Text.written value)
      ++ "\x7d,\"target\":\"" ++ e.target ++ "\"\x7d"

end Event

namespace Outcome

def tookMicros (o : Outcome) (n : Nat) : Outcome :=
  match o.shown with
  | .report r f => { o with shown := .report { r with elapsedMicros := r.elapsedMicros + n } f }
  | _ => o

def lines (o : Outcome) : List String :=
  o.events.map (Event.line o.logFormat)
    ++ match o.shown with
      | .nothing => []
      | .help => helpLines
      | .version => [programVersion]
      | .report r .text => r.lines (toString r.elapsedMs, toString r.rate) toString
      | .report r .json => r.document

end Outcome
end Bench
end PacedCall
