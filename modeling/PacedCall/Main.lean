import PacedCall.Bench.Program

/-!
The command line. Everything it prints is decided by `Bench.program`; here are only the reading of
the environment and of the clock, and the printing.
-/

namespace PacedCall

def environment (names : List String) : IO (List (String × String)) := do
  let mut env := []
  for name in names do
    if let some value ← IO.getEnv name then
      env := env ++ [(name, value)]
  return env

end PacedCall

def main (args : List String) : IO UInt32 := do
  let env ← PacedCall.environment PacedCall.Bench.variableNames
  let began ← IO.monoNanosNow
  let o ← IO.lazyPure fun _ => PacedCall.Bench.program args env none
  let o := o.tookMicros (((← IO.monoNanosNow) - began) / 1000)
  for line in o.lines do
    IO.println line
  if let some complaint := o.complaint then
    IO.eprintln complaint
  return UInt32.ofNat o.exitCode
