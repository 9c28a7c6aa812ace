import InertText.Bench.Run

/-!
# Command line

Measures the built-in contexts as the arguments ask for and prints the report.
-/
namespace InertText.Bench

/-- The machine that a program runs on. The lengths of outputs are added up. -/
def Machine.ofSystem (total : IO.Ref Nat) : Machine IO where
  now := IO.monoNanosNow
  use length := total.modify (· + length)
  print line := IO.println (line.toString?.getD "")
  warn line := IO.eprintln (line.toString?.getD "")

end InertText.Bench

open InertText InertText.Bench

/-- A compiled program has no interpreter options. -/
def main (arguments : List String) : IO Unit := do
  let total ← IO.mkRef 0
  (Machine.ofSystem total).run (units "compiled") [] (arguments.map units)
