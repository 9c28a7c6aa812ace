import InertText.Bench.Report

/-!
# Runs of the command line

A run warns, measures every row that the command line asks for, and then prints
the report. What it needs of its surroundings is a clock that never goes back, two
places to print to, and a place that takes the lengths of outputs, so that no
output can be left out for want of use.
-/
namespace InertText.Bench

/-- The surroundings of a run. The clock counts nanoseconds. -/
structure Machine (m : Type → Type) where
  now : m Nat
  use : Nat → m Unit
  print : Text → m Unit
  warn : Text → m Unit

namespace Machine

variable {m : Type → Type} [Monad m] (machine : Machine m)

def repeatedly (s : Sanitizer) (mode : Mode) (input : Text) : Nat → m Unit
  | 0 => pure ()
  | times + 1 => do
    machine.use (s.emit mode input).text.length
    repeatedly s mode input times

/-- Measure a row after its warm-up. -/
def measure (warmup : Nat) (row : Row) : m Measured := do
  let runs := machine.repeatedly row.context.sanitizer row.mode row.scenario.input
  runs warmup
  let start ← machine.now
  runs row.iterations
  let stop ← machine.now
  return ⟨row, stop - start⟩

def run (version : Text) (interpreterOptions arguments : List Text) : m Unit := do
  let options := Options.ofArguments arguments
  (warnings interpreterOptions).forM machine.warn
  let measured ← options.rows.mapM (machine.measure options.warmup)
  (report version options measured).forM machine.print

end Machine

end InertText.Bench
