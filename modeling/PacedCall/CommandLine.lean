import PacedCall.Config
import PacedCall.Text.Plain

/-!
Command lines of long and short options that take one value each. Arguments are taken left to
right; the value of an option is checked when the next option or the end is reached, so that an
argument nobody knows is reported before a bad value in front of it. Options not given are then
looked for in the environment.
-/
namespace PacedCall
namespace CommandLine

inductive NumberError where
  | empty
  | digit
  | large
deriving DecidableEq

namespace NumberError

def message : NumberError → String
  | empty => "cannot parse integer from empty string"
  | digit => "invalid digit found in string"
  | large => "number too large to fit in target type"

end NumberError

def digit? (c : Char) : Option Nat := if c.isDigit then some (c.toNat - 48) else none

/-- Reads digits behind a number read so far. A character that is no digit is reported before the
overflow that it would stand in. -/
def readDigits : Nat → List Char → Except NumberError Nat
  | n, [] => .ok n
  | n, c :: cs =>
    match digit? c with
    | none => .error .digit
    | some d => if maxWord < n * 10 + d then .error .large else readDigits (n * 10 + d) cs

def readNumber (s : String) : Except NumberError Nat :=
  match s.toList with
  | [] => .error .empty
  | ['+'] => .error .digit
  | '+' :: cs => readDigits 0 cs
  | cs => readDigits 0 cs

inductive Format where
  | text
  | json
deriving DecidableEq

namespace Format

def label : Format → String
  | text => "Text"
  | json => "Json"

def read (s : String) : Except String Format :=
  match s.toLower with
  | "text" => .ok text
  | "json" => .ok json
  | _ => .error ("unknown output format: " ++ s)

end Format

inductive Takes where
  | number
  | format
  | text
deriving DecidableEq

inductive Value where
  | number (n : Nat)
  | format (f : Format)
  | text (s : String)
deriving DecidableEq

def Takes.read (t : Takes) (s : String) : Except String Value :=
  match t with
  | number =>
    match readNumber s with
    | .ok n => .ok (.number n)
    | .error e => .error e.message
  | format =>
    match Format.read s with
    | .ok f => .ok (.format f)
    | .error e => .error e
  | text => .ok (.text s)

structure Opt where
  name : String
  takes : Takes
  short : Option Char := none
  env : Option String := none
deriving DecidableEq

namespace Opt

def shown (o : Opt) : String :=
  "--" ++ o.name ++ " <" ++ o.name.map (fun c => if c == '-' then '_' else c.toUpper) ++ ">"

end Opt

structure Spec where
  options : List Opt
  hasVersion : Bool := false

inductive Stop where
  | help
  | version
  | unknown (given : String)
  | missing (o : Opt)
  | repeated (o : Opt)
  | invalid (o : Opt) (given : String) (why : String)
  | needless (flag : String) (given : String)
deriving DecidableEq

namespace Stop

/-- The complaint, in which what was given is shown without anything that would steer a terminal;
help and version are no complaints. -/
def message : Stop → Option String
  | help => none
  | version => none
  | unknown given => some ("error: unexpected argument '" ++ Text.plain given ++ "' found")
  | missing o =>
    some ("error: a value is required for '" ++ o.shown ++ "' but none was supplied")
  | repeated o => some ("error: the argument '" ++ o.shown ++ "' cannot be used multiple times")
  | invalid o given why =>
    some ("error: invalid value '" ++ Text.plain given ++ "' for '" ++ o.shown ++ "': "
      ++ Text.plain why)
  | needless flag given =>
    some ("error: unexpected value '" ++ Text.plain given ++ "' for '" ++ flag
      ++ "' found; no more were expected")

end Stop

abbrev Values := List (String × Value)

structure Reading where
  values : Values := []
  pending : Option (Opt × Option String) := none

namespace Reading

def accept (r : Reading) (o : Opt) (given : String) : Except Stop Reading :=
  if (r.values.lookup o.name).isSome then .error (.repeated o)
  else
    match o.takes.read given with
    | .ok v => .ok { r with values := r.values ++ [(o.name, v)] }
    | .error why => .error (.invalid o given why)

def resolve (r : Reading) : Except Stop Reading :=
  match r.pending with
  | none => .ok r
  | some (o, none) => .error (.missing o)
  | some (o, some given) => accept { r with pending := none } o given

def attached (r : Reading) (o : Opt) (given : String) : Except Stop Reading := do
  (← r.resolve).accept o given

def await (r : Reading) (o : Opt) : Except Stop Reading := do
  return { (← r.resolve) with pending := some (o, none) }

def stop (r : Reading) (s : Stop) : Except Stop Reading :=
  match r.resolve with
  | .ok _ => .error s
  | .error e => .error e

def long (spec : Spec) (r : Reading) (body : String) : Except Stop Reading :=
  let name := String.ofList (body.toList.takeWhile (· != '='))
  let value :=
    match body.toList.dropWhile (· != '=') with
    | '=' :: rest => some (String.ofList rest)
    | _ => none
  match spec.options.find? fun o => o.name == name, value with
  | some o, some v => r.attached o v
  | some o, none => r.await o
  | none, value =>
    let flag :=
      if name == "help" then some Stop.help
      else if spec.hasVersion && name == "version" then some Stop.version
      else none
    match flag, value with
    | some s, none => r.stop s
    | some _, some v => .error (.needless ("--" ++ name) v)
    | none, _ => .error (.unknown ("--" ++ name))

/-- Only the first of the letters can matter: an option takes the rest as its value, and a flag
stops. -/
def short (spec : Spec) (r : Reading) (c : Char) (rest : List Char) : Except Stop Reading :=
  match spec.options.find? fun o => o.short == some c with
  | some o =>
    match rest with
    | [] => r.await o
    | '=' :: v => r.attached o (String.ofList v)
    | v => r.attached o (String.ofList v)
  | none =>
    if c == 'h' then r.stop .help
    else if spec.hasVersion && c == 'V' then r.stop .version
    else .error (.unknown (String.ofList ['-', c]))

def plain (r : Reading) (arg : String) : Except Stop Reading :=
  match r.pending with
  | some (o, none) => .ok { r with pending := some (o, some arg) }
  | _ => .error (.unknown arg)

def argument (spec : Spec) (r : Reading) (arg : String) : Except Stop Reading :=
  match arg.toList with
  | '-' :: '-' :: body => r.long spec (String.ofList body)
  | '-' :: c :: rest => r.short spec c rest
  | _ => r.plain arg

/-- All arguments. After a lone double dash nothing is an option any more, and nothing else is
taken. -/
def arguments (spec : Spec) : Reading → List String → Except Stop Reading
  | r, [] => r.resolve
  | r, "--" :: rest =>
    match rest with
    | [] => r.resolve
    | arg :: _ => .error (.unknown arg)
  | r, arg :: rest =>
    match r.argument spec arg with
    | .ok r => arguments spec r rest
    | .error e => .error e

def ask (env : List (String × String)) (r : Reading) (o : Opt) : Except Stop Reading :=
  match r.values.lookup o.name, o.env.bind fun name => env.lookup name with
  | none, some given => r.accept o given
  | _, _ => .ok r

end Reading

def read (spec : Spec) (args : List String) (env : List (String × String)) :
    Except Stop Values := do
  let r ← Reading.arguments spec {} args
  return (← spec.options.foldlM (Reading.ask env) r).values

namespace Values

def number? (vs : Values) (name : String) : Option Nat :=
  match vs.lookup name with
  | some (.number n) => some n
  | _ => none

def format? (vs : Values) (name : String) : Option Format :=
  match vs.lookup name with
  | some (.format f) => some f
  | _ => none

def text? (vs : Values) (name : String) : Option String :=
  match vs.lookup name with
  | some (.text s) => some s
  | _ => none

end Values
end CommandLine

namespace Config
open CommandLine

def options : List Opt :=
  [{ name := "inbound-capacity", takes := .number, env := some "BACKFLOW_INBOUND_CAPACITY" },
    { name := "outbound-capacity", takes := .number, env := some "BACKFLOW_OUTBOUND_CAPACITY" },
    { name := "deadline-ms", takes := .number, env := some "BACKFLOW_DEADLINE_MS" }]

def ofValues (vs : Values) : Config :=
  { inboundCapacity := (vs.number? "inbound-capacity").getD 1
    outboundCapacity := (vs.number? "outbound-capacity").getD 1
    deadlineMs := vs.number? "deadline-ms" }

def ofArgs (args : List String) (env : List (String × String)) : Except Stop Config := do
  return ofValues (← CommandLine.read { options := options } args env)

end Config
end PacedCall
