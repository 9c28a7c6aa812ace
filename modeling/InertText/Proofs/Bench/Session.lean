import InertText.Bench.Run
import InertText.Proofs.Bench.Layouts

/-!
# Runs and what they print

A run is watched on a machine that records what it is given, with a clock that may show
anything. It prints the report on rows that are those of the command line, after every
sanitizer has run as often as its row says and the warm-up asks for.
-/
namespace InertText.Bench

/-- What a machine has seen so far: how often its clock was read, how long the outputs were, and
the lines that were printed. -/
structure Session where
  readings : ℕ
  used : ℕ
  printed : List Text
  warned : List Text

namespace Session

def start : Session := ⟨0, 0, [], []⟩

/-- A machine that keeps a session. What its clock shows may hang on all that it has seen. -/
def machine (clock : Session → ℕ) : Machine (StateM Session) where
  now := modifyGet fun σ => (clock σ, { σ with readings := σ.readings + 1 })
  use n := modify fun σ => { σ with used := σ.used + n }
  print line := modify fun σ => { σ with printed := σ.printed ++ [line] }
  warn line := modify fun σ => { σ with warned := σ.warned ++ [line] }

section Steps

variable (clock : Session → ℕ) (σ : Session) (n : ℕ) (line : Text)

@[simp] lemma run_now : (machine clock).now.run σ =
    pure (clock σ, { σ with readings := σ.readings + 1 }) := rfl

@[simp] lemma run_use : ((machine clock).use n).run σ =
    pure ((), { σ with used := σ.used + n }) := rfl

@[simp] lemma run_print : ((machine clock).print line).run σ =
    pure ((), { σ with printed := σ.printed ++ [line] }) := rfl

@[simp] lemma run_warn : ((machine clock).warn line).run σ =
    pure ((), { σ with warned := σ.warned ++ [line] }) := rfl

end Steps

end Session

/-- The length of all outputs that measuring a row makes. -/
def Row.work (warmup : ℕ) (r : Row) : ℕ :=
  (warmup + r.iterations) * (r.context.sanitizer.emit r.mode r.scenario.input).text.length

namespace Session

variable (clock : Session → ℕ) (σ : Session)

lemma run_repeatedly (s : Sanitizer) (mode : Mode) (input : Text) (times : ℕ) :
    ((machine clock).repeatedly s mode input times).run σ =
      pure ((), { σ with used := σ.used + times * (s.emit mode input).text.length }) := by
  induction times generalizing σ with
  | zero => simp [Machine.repeatedly]
  | succ times ih => simp [Machine.repeatedly, ih, Nat.succ_mul, Nat.add_assoc, Nat.add_comm]

/-- Measuring a row reads the clock twice and prints nothing. -/
lemma run_measure (warmup : ℕ) (row : Row) :
    ∃ nanos, ((machine clock).measure warmup row).run σ =
      pure (⟨row, nanos⟩, { σ with
        readings := σ.readings + 2
        used := σ.used + row.work warmup }) := by
  let length := (row.context.sanitizer.emit row.mode row.scenario.input).text.length
  let warm : Session := { σ with used := σ.used + warmup * length }
  let done : Session := {
    warm with
    readings := σ.readings + 1
    used := warm.used + row.iterations * length }
  refine ⟨clock done - clock warm, ?_⟩
  simp [Machine.measure, run_repeatedly, Row.work, Nat.add_mul, Nat.add_assoc, warm, done, length]

/-- All rows are measured one after the other. -/
lemma run_mapM_measure (warmup : ℕ) (rows : List Row) :
    ∃ measured : List Measured, measured.map Measured.row = rows ∧
      (rows.mapM ((machine clock).measure warmup)).run σ =
        pure (measured, { σ with
          readings := σ.readings + 2 * rows.length
          used := σ.used + (rows.map (Row.work warmup)).sum }) := by
  induction rows generalizing σ with
  | nil => exact ⟨[], rfl, by simp⟩
  | cons row rows ih =>
    obtain ⟨nanos, hrow⟩ := run_measure clock σ warmup row
    obtain ⟨measured, hrows, hrest⟩ := ih { σ with
      readings := σ.readings + 2
      used := σ.used + row.work warmup }
    refine ⟨⟨row, nanos⟩ :: measured, by rw [List.map_cons, hrows], ?_⟩
    rw [List.mapM_cons, StateT.run_bind, hrow, pure_bind, StateT.run_bind, hrest, pure_bind]
    simp [Nat.mul_add, Nat.add_assoc, Nat.add_comm 2]

lemma run_forM_print (lines : List Text) : (forM lines (machine clock).print).run σ =
    pure ((), { σ with printed := σ.printed ++ lines }) := by
  induction lines generalizing σ with
  | nil => simp
  | cons line lines ih => simp [ih]

lemma run_forM_warn (lines : List Text) : (forM lines (machine clock).warn).run σ =
    pure ((), { σ with warned := σ.warned ++ lines }) := by
  induction lines generalizing σ with
  | nil => simp
  | cons line lines ih => simp [ih]

end Session

structure Run where
  arguments : List Text
  interpreterOptions : List Text
  version : Text
  clock : Session → ℕ

namespace Run

def options (run : Run) : Options := .ofArguments run.arguments

/-- What the machine has seen when the run is over. -/
def session (run : Run) : Session :=
  (((Session.machine run.clock).run run.version run.interpreterOptions run.arguments).run
    .start).run.2

/-- The cells before the figures, as they are read off what was printed. -/
def shown (run : Run) : Option (List (List Text)) := run.options.format.shown run.session.printed

/-- A run warns, measures every row, and then prints the report. -/
lemma session_eq (run : Run) :
    ∃ measured : List Measured, measured.map Measured.row = run.options.rows ∧
      run.session = {
        readings := 2 * run.options.rows.length
        used := (run.options.rows.map (Row.work run.options.warmup)).sum
        printed := report run.version run.options measured
        warned := warnings run.interpreterOptions } := by
  have hwarn :
      (forM (warnings run.interpreterOptions) (Session.machine run.clock).warn).run .start =
        pure ((), ⟨0, 0, [], warnings run.interpreterOptions⟩) := Session.run_forM_warn _ _ _
  obtain ⟨measured, hrows, hmeasured⟩ := Session.run_mapM_measure run.clock
    ⟨0, 0, [], warnings run.interpreterOptions⟩ run.options.warmup run.options.rows
  rw [Nat.zero_add, Nat.zero_add] at hmeasured
  refine ⟨measured, hrows, ?_⟩
  rw [session, Machine.run, List.forM_eq_forM, StateT.run_bind, hwarn, pure_bind, StateT.run_bind,
    ← options, hmeasured, pure_bind, Session.run_forM_print]
  rfl

/-- Whatever the layout and the clock, a run shows the rows of its command line. -/
lemma shown_eq (run : Run) : run.shown = some (run.options.rows.map Row.named) := by
  obtain ⟨measured, hrows, hsession⟩ := run.session_eq
  have hscenarios : ∀ m ∈ measured, m.row.scenario ∈ scenarios := by
    intro m hm
    have hrow := List.mem_map_of_mem (f := Measured.row) hm
    rw [hrows] at hrow
    exact Options.scenario_mem_of_mem_rows hrow
  rw [shown, hsession, shown_report hscenarios, ← hrows, List.map_map]
  rfl

end Run

/-- The rows of a command line are the full product of its contexts, its modes and the four
texts, each in its place and named after the sanitizer that is measured. A run measures them all
as often as they say and prints them and nothing else, so runs of command lines that differ in
the layout alone show the same. -/
theorem rows_full_product :
    (∀ (arguments : List Text) (o : Options), o.SetBy arguments →
      (Options.ofArguments arguments).rows.length =
          o.contexts.length * (o.selection.count * 4) ∧
        (∀ i (r : Row), (Options.ofArguments arguments).rows[i]? = some r ↔ r.IsAt o i) ∧
        ∀ r ∈ (Options.ofArguments arguments).rows,
          units r.context.name = r.context.sanitizer.name) ∧
      (∀ run : Run,
        run.shown = some (run.options.rows.map fun r => [units r.mode.name,
          units r.context.name, units r.scenario.name, units r.iterations.repr]) ∧
        run.session.used = (run.options.rows.map fun r => (run.options.warmup + r.iterations) *
          (r.context.sanitizer.emit r.mode r.scenario.input).text.length).sum) ∧
      ∀ (run run' : Run) (format : Format),
        run'.options = { run.options with format := format } → run'.shown = run.shown := by
  refine ⟨?_, fun run => ⟨run.shown_eq, ?_⟩, ?_⟩
  · intro arguments o ho
    obtain rfl := Options.ofArguments_eq_iff.mpr ho
    exact ⟨Options.length_rows _, fun i r => Options.getElem?_rows_eq_some_iff,
      fun r _ => r.context.name_sanitizer.symm⟩
  · obtain ⟨measured, -, hsession⟩ := run.session_eq
    rw [hsession]
    rfl
  · intro run run' format h
    rw [run'.shown_eq, h, run.shown_eq]
    rfl

/-- A context that is given twice is measured twice, and its rows are the same in a document and
between bars. -/
theorem rows_full_product_repeated :
    Options.SetBy ⟨20000, 2000, .markdown, .only .filter, [.xmlContent, .xmlContent]⟩
        [units "--contexts=XmlContent,XmlContent", units "--mode=filter", units "--format=md"] ∧
      (Options.ofArguments [units "--contexts=XmlContent,XmlContent", units "--mode=filter",
        units "--format=md"]).rows.length = 2 * (1 * 4) ∧
      Options.ofArguments [units "--contexts=XmlContent,XmlContent", units "--mode=filter",
          units "--format=json"] =
        { Options.ofArguments [units "--contexts=XmlContent,XmlContent", units "--mode=filter",
          units "--format=md"] with format := .json } ∧
      (Run.mk [units "--contexts=XmlContent,XmlContent", units "--mode=filter",
          units "--format=json"] [units "--inspect"] (units "v20") fun σ => σ.used).shown =
        (Run.mk [units "--contexts=XmlContent,XmlContent", units "--mode=filter",
          units "--format=md"] [] (units "v22") fun _ => 0).shown := by
  have hset : Options.SetBy ⟨20000, 2000, .markdown, .only .filter, [.xmlContent, .xmlContent]⟩
      [units "--contexts=XmlContent,XmlContent", units "--mode=filter", units "--format=md"] :=
    Options.ofArguments_eq_iff.mp (by decide +kernel)
  have hformat : Options.ofArguments [units "--contexts=XmlContent,XmlContent",
        units "--mode=filter", units "--format=json"] =
      { Options.ofArguments [units "--contexts=XmlContent,XmlContent", units "--mode=filter",
        units "--format=md"] with format := .json } := by
    decide +kernel
  obtain ⟨hrows, -, hshown⟩ := rows_full_product
  exact ⟨hset, (hrows _ _ hset).1, hformat, hshown _ _ .json hformat⟩

end InertText.Bench
