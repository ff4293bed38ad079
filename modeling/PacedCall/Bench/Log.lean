import PacedCall.CommandLine
import PacedCall.Status

/-!
The events the benchmark logs, and the filter that says which of them are written. A filter is a
list of directives; the one with the longest target that begins the target of an event decides.
-/
namespace PacedCall
namespace Bench

inductive Level where
  | off
  | error
  | warn
  | info
  | debug
  | trace
deriving DecidableEq

namespace Level

def rank : Level → Nat
  | off => 0
  | error => 1
  | warn => 2
  | info => 3
  | debug => 4
  | trace => 5

def label : Level → String
  | off => "OFF"
  | error => "ERROR"
  | warn => "WARN"
  | info => "INFO"
  | debug => "DEBUG"
  | trace => "TRACE"

def all : List Level := [.off, .error, .warn, .info, .debug, .trace]

def read? (s : String) : Option Level :=
  all.find? fun l => l.label == s.toUpper || toString l.rank == s

end Level

structure Event where
  level : Level
  target : String
  fields : List (String × String)
deriving DecidableEq

namespace Event

def initialized (f : CommandLine.Format) : Event :=
  ⟨.info, "backflow::observability::tracing",
    [("message", "Tracing initialized"), ("service", "backflow-bench"), ("format", f.label)]⟩

def exporterConfigured (endpoint : String) : Event :=
  ⟨.info, "backflow::observability::metrics",
    [("message", "OTLP metrics exporter configured"), ("endpoint", endpoint)]⟩

def exporterFailed : Event :=
  ⟨.warn, "backflow::observability::metrics",
    [("message", "Failed to create OTLP exporter, metrics stay local"),
      ("error", "Metrics exporter otlp failed with invalid URI invalid uri character")]⟩

def interrupted : Event :=
  ⟨.info, "backflow_bench", [("message", "interrupted, cancelling call")]⟩

def handlerFailed (st : Status) : Event :=
  ⟨.warn, "backflow::call", [("message", st.message), ("code", st.code.name)]⟩

end Event

structure Directive where
  target : Option String := none
  level : Level
deriving DecidableEq

namespace Directive

def targetChar (c : Char) : Bool := c.isAlphanum || c == '_' || c == ':' || c == '-'

/-- A level alone, a target alone, which is for all levels, or a target with a level. -/
def read? (s : String) : Option Directive :=
  match Level.read? s with
  | some l => some { level := l }
  | none =>
    let target := s.toList.takeWhile (· != '=')
    if target.isEmpty || !target.all targetChar then none
    else
      match s.toList.dropWhile (· != '=') with
      | [] => some ⟨some (String.ofList target), .trace⟩
      | '=' :: [] => some ⟨some (String.ofList target), .trace⟩
      | _ :: level =>
        (Level.read? (String.ofList level)).map fun l => ⟨some (String.ofList target), l⟩

def size (d : Directive) : Nat := (d.target.map String.length).getD 0

def concerns (d : Directive) (e : Event) : Bool :=
  match d.target with
  | none => true
  | some t => t.toList.isPrefixOf e.target.toList

/-- A directive gives way to one at least as long that comes later, but one with a target never
to one without. -/
def gives (d e : Directive) : Bool :=
  match d.target, e.target with
  | some _, none => false
  | none, _ => true
  | some _, some _ => d.size ≤ e.size

end Directive

abbrev Filter := List Directive

namespace Filter

def standard : Filter := [⟨none, .info⟩, ⟨some "backflow", .debug⟩]

/-- An empty filter lets errors pass; one that cannot be read is not used at all. -/
def read? (s : String) : Option Filter :=
  let parts := ((s.splitOn ",").filter fun p => !p.isEmpty).map Directive.read?
  if parts.isEmpty then some [⟨none, .error⟩]
  else parts.foldr (fun d ds => d.bind fun d => ds.map (d :: ·)) (some [])

def variableName : String := "RUST_LOG"

def ofEnv (env : List (String × String)) : Filter :=
  ((env.lookup variableName).bind read?).getD standard

def decisive (f : Filter) (e : Event) : Option Directive :=
  (f.filter fun d => d.concerns e).foldl
    (fun best d =>
      match best with
      | none => some d
      | some b => if b.gives d then some d else some b)
    none

def passes (f : Filter) (e : Event) : Bool :=
  match decisive f e with
  | some d => e.level.rank ≤ d.level.rank
  | none => false

end Filter

/-- An endpoint whose text cannot stand in an address. The empty one selects a standard one. -/
def badEndpoint (s : String) : Bool :=
  !s.toList.all fun c =>
    c.isAlphanum || c ∈ "-._~:/?#[]@!$&'()*+,;=%".toList

def endpointEvent (endpoint : String) : Event :=
  if badEndpoint endpoint then .exporterFailed else .exporterConfigured endpoint

end Bench
end PacedCall
