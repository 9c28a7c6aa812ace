import InertText.Bench.Options
import InertText.Number.Decimal
import InertText.Text.Document
import InertText.Text.Table

/-!
# The report of a measurement

Each selected context is measured in each selected mode with each of four texts,
in this order. A row says what was measured, and its figures say how long it
took. The three layouts print the same cells: between the bars of a table that
is plain text, in a drawn table, or as the records of a document.
-/
namespace InertText.Bench

/-- A text to measure with. -/
structure Scenario where
  name : String
  input : Text

/-- The texts that every context is measured with: harmless letters, markup,
letters outside of ASCII, and a run of brackets that ends like a section. -/
def scenarios : List Scenario := [
  ⟨"plain text", units "The quick brown fox jumps over the lazy dog 0123456789"⟩,
  ⟨"markup", (List.replicate 4 (units
    "<a href=\"https://example.test/?q=1&x='2'\">link</a><script>alert(1)</script>")).flatten⟩,
  ⟨"non-ASCII", (List.replicate 4 (units "Grüße aus Köln • ¿Qué tal? 你好")).flatten⟩,
  ⟨"bracket run", List.replicate 10000 (unit ']') ++ [unit '>']⟩]

structure Row where
  mode : Mode
  context : Context
  scenario : Scenario
  iterations : Nat

def Options.rows (o : Options) : List Row :=
  o.contexts.flatMap fun context =>
    o.selection.modes.flatMap fun mode =>
      scenarios.map fun scenario => ⟨mode, context, scenario, o.iterations⟩

/-- A row with the nanoseconds that its runs took. -/
structure Measured where
  row : Row
  nanos : Nat

/-- A cell of a report. -/
inductive Cell where
  | name (s : String)
  | count (n : Nat)
  | figure (n : Number)

namespace Cell

def text : Cell → Text
  | .name s => units s
  | .count n => units n.repr
  | .figure n => n.text

/-- A cell as it is shown in a drawn table, where names stand between quotes. -/
def quoted : Cell → Text
  | .name s => unit '\'' :: (units s ++ [unit '\''])
  | cell => cell.text

def document : Cell → Document
  | .name s => .text (units s)
  | .count n => .number (units n.repr)
  | .figure (.infinite _) => .null
  | .figure n => .number n.text

end Cell

/-- The cells of a measured row with their keys. The figures are the milliseconds of
all runs and of one run, and the runs in a second. -/
def Measured.cells (m : Measured) : List (String × Cell) := [
  ("mode", .name m.row.mode.name),
  ("context", .name m.row.context.name),
  ("scenario", .name m.row.scenario.name),
  ("iterations", .count m.row.iterations),
  ("totalMs", .figure (.fixed 2 m.nanos 1000000)),
  ("msPerOp", .figure (.fixed 6 m.nanos (1000000 * m.row.iterations))),
  ("opsPerSec", .figure (.fixed 0 (m.row.iterations * 1000000000) m.nanos))]

/-- A measured row as a record. -/
def Measured.document (m : Measured) : Document :=
  .record (m.cells.map fun (key, cell) => (units key, cell.document))

/-- The warnings that go before a report. A debugger slows every run down. -/
def warnings (interpreterOptions : List Text) : List Text :=
  if interpreterOptions.any fun o => (Text.dropPrefix? (units "--inspect") o).isSome then
    [units "Warning: Node inspector is enabled; benchmark results will be distorted.",
      units "Tip: run in a normal terminal / unset NODE_OPTIONS.",
      []]
  else []

/-- What was asked for, as it stands above a table. -/
def Options.summary (o : Options) (separator : String) : Text :=
  Text.join (units separator) [
    units "iterations=" ++ units o.iterations.repr,
    units "warmup=" ++ units o.warmup.repr,
    units "mode=" ++ units o.selection.name]

def markdown (version : Text) (o : Options) (measured : List Measured) : List Text :=
  let line := Table.barred (unit '|')
  [units "## context-encoder benchmark",
    [],
    units "- Node: " ++ version,
    units "- Params: " ++ o.summary ", ",
    [],
    line (["Mode", "Context", "Scenario", "Iterations", "Total (ms)", "ms/op",
      "ops/sec"].map units),
    line (["---", "---", "---", "---:", "---:", "---:", "---:"].map units)] ++
    measured.map fun m => line (m.cells.map fun cell => cell.2.text)

/-- A report as a drawn table. Its columns are those of the first row, behind the
column of the numbers of the rows. -/
def drawing (version : Text) (o : Options) (measured : List Measured) : List Text :=
  let keys := (measured.head?.map fun m => m.cells.map Prod.fst).getD []
  [units "Encoder benchmark", units "Node: " ++ version, o.summary " ", []] ++
    Table.draw (("(index)" :: keys).map units) (measured.mapIdx fun i m =>
      units i.repr :: m.cells.map fun cell => cell.2.quoted)

def document (version : Text) (o : Options) (measured : List Measured) : Document :=
  .record [
    (units "node", .text version),
    (units "params", .record [
      (units "iterations", .number (units o.iterations.repr)),
      (units "warmup", .number (units o.warmup.repr)),
      (units "mode", .text (units o.selection.name)),
      (units "contexts", .list (o.contexts.map fun c => .text (units c.name)))]),
    (units "results", .list (measured.map Measured.document))]

/-- The lines of a report in the layout that the options ask for. -/
def report (version : Text) (o : Options) (measured : List Measured) : List Text :=
  match o.format with
  | .json => [(document version o measured).write]
  | .markdown => markdown version o measured
  | .table => drawing version o measured

end InertText.Bench
