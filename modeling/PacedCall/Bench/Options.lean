import PacedCall.CommandLine

/-! What the echo benchmark is asked to do. -/
namespace PacedCall
namespace Bench
open CommandLine

def programName : String := "backflow-bench"
def programVersion : String := "backflow-bench 0.1.0"
def programAbout : String := "Echo benchmark for credit-paced streaming calls"

structure Options where
  messages : Nat := 10000
  delayMicros : Nat := 0
  config : Config := {}
  logFormat : Format := .text
  output : Format := .text
  endpoint : Option String := none
deriving DecidableEq

namespace Options

def spec : Spec :=
  { options :=
      [{ name := "messages", takes := .number, short := some 'm',
          env := some "BACKFLOW_BENCH_MESSAGES" },
        { name := "consumer-delay-us", takes := .number }]
      ++ Config.options
      ++ [{ name := "log-format", takes := .format },
        { name := "output", takes := .format, short := some 'o' },
        { name := "otel-endpoint", takes := .text, env := some "BACKFLOW_OTEL_ENDPOINT" }]
    hasVersion := true }

def ofArgs (args : List String) (env : List (String × String)) : Except Stop Options := do
  let vs ← CommandLine.read spec args env
  return {
    messages := (vs.number? "messages").getD 10000
    delayMicros := (vs.number? "consumer-delay-us").getD 0
    config := Config.ofValues vs
    logFormat := (vs.format? "log-format").getD .text
    output := (vs.format? "output").getD .text
    endpoint := vs.text? "otel-endpoint" }

end Options
end Bench
end PacedCall
