import InertText.Proofs.Bench.Rows
import InertText.Proofs.Number.Spelling
import InertText.Proofs.Text.Table

/-!
# What the layouts show

The rows of a report are read off its printed lines: off the results of a document, off the
lines of a drawn table, or off the lines between bars that stand under the titles. Whatever
the layout and the figures, the first cells of a row say what has been measured.
-/
namespace InertText.Bench

open Document (isNumeral Plain)
open Table (Fits)

/-- The line under the titles of a table between bars. -/
def rule : Text := units "| --- | --- | --- | ---: | ---: | ---: | ---: |"

def belowRule (lines : List Text) : List Text := (lines.dropWhile (· != rule)).drop 1

/-- A text without the quotes around it, if it stands between quotes. -/
def unquoted (t : Text) : Text :=
  if t.head? = some (unit '\'') ∧ t.getLast? = some (unit '\'') then t.tail.dropLast else t

def recordCells? (d : Document) : Option (List Text) :=
  ["mode", "context", "scenario", "iterations"].mapM fun key => (d.get? key).bind Document.plain?

/-- The cells before the figures, row by row, as they are read off what is printed. A document
is the only line of its report, and the rows of a drawn table begin with their numbers. -/
def Format.shown : Format → List Text → Option (List (List Text))
  | .json, [line] => do
    let results ← (← Document.read? line).get? "results"
    (← results.members?).mapM recordCells?
  | .json, _ => none
  | .table, lines => some ((Table.drawnRows lines).map fun line =>
      (((Table.cells (unit '│') line).drop 1).take 4).map unquoted)
  | .markdown, lines => some ((belowRule lines).map fun line =>
      (Table.cells (unit '|') line).take 4)

def Row.named (r : Row) : List Text :=
  [units r.mode.name, units r.context.name, units r.scenario.name, units r.iterations.repr]

variable {m : Measured} {measured : List Measured} {version : Text} {o : Options}
  {bar : CodeUnit} {t : Text} {s : String} {n : Number}

section Cells

lemma fits_of_numeral (hne : t ≠ []) (h : ∀ u ∈ t, isNumeral u = true)
    (hbar : isNumeral bar = false) : Fits bar t := by
  have hnot {u : CodeUnit} (hu : isNumeral u = false) : u ∉ t :=
    fun hmem => absurd (h u hmem) (Bool.eq_false_iff.mp hu)
  exact Table.fits_of_forall hne (hnot hbar) (hnot (by decide))

lemma fits_repr (k : ℕ) (hbar : isNumeral bar = false) : Fits bar (units k.repr) :=
  fits_of_numeral (Text.units_repr_ne_nil k) (fun _ => isNumeral_of_mem_repr) hbar

lemma fits_quoted (hbar : bar ≠ unit '\'') (h : Fits bar (units s)) :
    Fits bar (Cell.name s).quoted where
  nonempty := List.cons_ne_nil _ _
  no_bar := by simp [Cell.quoted, hbar, h.no_bar]
  no_blank_before := by
    rw [Cell.quoted, List.head?_cons]
    decide
  no_blank_after := by
    rw [Cell.quoted, ← List.cons_append, List.getLast?_concat]
    decide

lemma names_scenarios :
    scenarios.map Scenario.name = ["plain text", "markup", "non-ASCII", "bracket run"] := rfl

/-- The cells of a row fit between bars of either kind, with quotes and without. -/
lemma fits_cells (hbar : bar = unit '|' ∨ bar = unit '│') (hm : m.row.scenario ∈ scenarios) :
    ∀ cell ∈ m.cells, Fits bar cell.2.text ∧ Fits bar cell.2.quoted := by
  have hquote : bar ≠ unit '\'' := by rcases hbar with rfl | rfl <;> decide
  have hnumeral : isNumeral bar = false := by rcases hbar with rfl | rfl <;> rfl
  have hname {s : String} (h : Fits bar (units s)) :
      Fits bar (Cell.name s).text ∧ Fits bar (Cell.name s).quoted := ⟨h, fits_quoted hquote h⟩
  have hmode (mode : Mode) : Fits bar (units mode.name) := by
    rcases hbar with rfl | rfl <;> cases mode <;> decide
  have hcontext (c : Context) : Fits bar (units c.name) := by
    rcases hbar with rfl | rfl <;> cases c <;> decide
  have hscenario : Fits bar (units m.row.scenario.name) := by
    have hnames : ∀ name ∈ scenarios.map Scenario.name, Fits bar (units name) := by
      rw [names_scenarios]
      rcases hbar with rfl | rfl <;> exact List.all_iff_forall_prop.mp (by decide)
    exact hnames _ (List.mem_map_of_mem hm)
  have hcount (k : ℕ) : Fits bar (Cell.count k).text ∧ Fits bar (Cell.count k).quoted :=
    ⟨fits_repr k hnumeral, fits_repr k hnumeral⟩
  have hnumber (n : Number) : Fits bar n.text := by
    cases n with
    | finite negative quanta =>
      exact fits_of_numeral (Number.text_finite_ne_nil _ _) (Number.forall_mem_text_finite _ _)
        hnumeral
    | infinite negative => rcases hbar with rfl | rfl <;> cases negative <;> decide
  have hfigure (n : Number) : Fits bar (Cell.figure n).text ∧ Fits bar (Cell.figure n).quoted :=
    ⟨hnumber n, hnumber n⟩
  simp only [Measured.cells, List.forall_mem_cons, List.not_mem_nil, false_implies, implies_true,
    and_true]
  exact ⟨hname (hmode _), hname (hcontext _), hname hscenario, hcount _, hfigure _, hfigure _,
    hfigure _⟩

lemma unquoted_quoted (s : String) : unquoted (Cell.name s).quoted = units s := by
  have hlast : (Cell.name s).quoted.getLast? = some (unit '\'') := by
    rw [Cell.quoted, ← List.cons_append, List.getLast?_concat]
  rw [unquoted, if_pos ⟨rfl, hlast⟩, Cell.quoted, List.tail_cons, List.dropLast_concat]

lemma unquoted_repr (k : ℕ) : unquoted (units k.repr) = units k.repr := by
  refine if_neg fun h => ?_
  exact absurd (isNumeral_of_mem_repr (List.mem_of_head? h.1)) (by decide)

end Cells

section Lines

lemma ne_rule (h : t.head? ≠ some (unit '|')) : t ≠ rule := by
  rintro rfl
  exact h rfl

lemma belowRule_append {front : List Text} (h : ∀ line ∈ front, line ≠ rule) (rows : List Text) :
    belowRule (front ++ rule :: rows) = rows := by
  have hfront : ∀ line ∈ front, (line != rule) = true :=
    fun line hline => bne_iff_ne.mpr (h line hline)
  rw [belowRule, List.dropWhile_append_of_pos hfront, List.dropWhile_cons_of_neg (by decide),
    List.drop_one, List.tail_cons]

lemma shown_markdown (h : ∀ m ∈ measured, m.row.scenario ∈ scenarios) :
    Format.markdown.shown (markdown version o measured) =
      some (measured.map fun m => m.row.named) := by
  have hrule : Table.barred (unit '|')
      (["---", "---", "---", "---:", "---:", "---:", "---:"].map units) = rule := by decide
  have habove : ∀ line ∈ [units "## context-encoder benchmark", [], units "- Node: " ++ version,
      units "- Params: " ++ o.summary ", ", [], Table.barred (unit '|') (["Mode", "Context",
        "Scenario", "Iterations", "Total (ms)", "ms/op", "ops/sec"].map units)], line ≠ rule := by
    simp only [List.forall_mem_cons, List.not_mem_nil, false_implies, implies_true, and_true]
    exact ⟨by decide, by decide, ne_rule (Document.head?_cons_ne (by decide) _),
      ne_rule (Document.head?_cons_ne (by decide) _), by decide, by decide⟩
  have hbelow : belowRule (markdown version o measured) =
      measured.map fun m => Table.barred (unit '|') (m.cells.map fun cell => cell.2.text) := by
    rw [markdown, hrule]
    exact belowRule_append habove _
  refine congrArg some ?_
  rw [hbelow, List.map_map]
  refine List.map_congr_left fun m hm => ?_
  have hcells : ∀ cell ∈ m.cells.map fun cell => cell.2.text, Fits (unit '|') cell :=
    List.forall_mem_map.mpr fun cell hcell => (fits_cells (.inl rfl) (h m hm) cell hcell).1
  rw [Function.comp_apply, Table.cells_barred_of_fits (by decide) hcells]
  rfl

lemma shown_table (h : ∀ m ∈ measured, m.row.scenario ∈ scenarios) :
    Format.table.shown (drawing version o measured) =
      some (measured.map fun m => m.row.named) := by
  have habove : ∀ line ∈ [units "Encoder benchmark", units "Node: " ++ version, o.summary " ", []],
      line.head? ≠ some (unit '├') := by
    simp only [List.forall_mem_cons, List.not_mem_nil, false_implies, implies_true, and_true]
    exact ⟨Document.head?_cons_ne (by decide) _, Document.head?_cons_ne (by decide) _,
      Document.head?_cons_ne (by decide) _, by decide⟩
  have hrow (i : ℕ) (m : Measured) (hm : m ∈ measured) (width : ℕ → ℕ) :
      Table.cells (unit '│') (Table.barred (unit '│') (Table.filled width
        (units i.repr :: m.cells.map fun cell => cell.2.quoted))) =
          units i.repr :: m.cells.map fun cell => cell.2.quoted :=
    Table.cells_barred_filled (by decide) (List.forall_mem_cons.mpr ⟨fits_repr i rfl,
      List.forall_mem_map.mpr fun cell hcell => (fits_cells (.inr rfl) (h m hm) cell hcell).2⟩) _
  refine congrArg some ?_
  rw [drawing, Table.drawnRows_append_draw habove, List.map_map, Table.map_mapIdx_of_forall]
  intro i m hm
  rw [Function.comp_apply, hrow i m hm]
  change [unquoted _, unquoted _, unquoted _, unquoted _] = _
  rw [unquoted_quoted, unquoted_quoted, unquoted_quoted]
  exact congrArg (fun t => [_, _, _, t]) (unquoted_repr _)

lemma plain_number (hne : t ≠ []) (h : ∀ u ∈ t, isNumeral u = true) : Plain (.number t) := by
  obtain ⟨u, rest, rfl⟩ := List.exists_cons_of_ne_nil hne
  exact .number h

lemma plain_repr (k : ℕ) : Plain (.number (units k.repr)) :=
  plain_number (Text.units_repr_ne_nil k) fun _ => isNumeral_of_mem_repr

lemma plain_cell (cell : Cell) : Plain cell.document := by
  match cell with
  | .name s => exact .text _
  | .count k => exact plain_repr k
  | .figure (.infinite _) => exact .null
  | .figure (.finite _ _) =>
    exact plain_number (Number.text_finite_ne_nil _ _) (Number.forall_mem_text_finite _ _)

lemma plain_row (m : Measured) : Plain m.document :=
  .record (List.forall_mem_map.mpr fun cell _ => plain_cell cell.2)

lemma plain_document (version : Text) (o : Options) (measured : List Measured) :
    Plain (document version o measured) := by
  have hcontexts : Plain (.list (o.contexts.map fun c => .text (units c.name))) :=
    .list (List.forall_mem_map.mpr fun c _ => .text _)
  have hresults : Plain (.list (measured.map Measured.document)) :=
    .list (List.forall_mem_map.mpr fun m _ => plain_row m)
  have hparams : ∀ field ∈ [
      (units "iterations", Document.number (units o.iterations.repr)),
      (units "warmup", .number (units o.warmup.repr)),
      (units "mode", .text (units o.selection.name)),
      (units "contexts", .list (o.contexts.map fun c => .text (units c.name)))],
      Plain field.2 := by
    simp only [List.forall_mem_cons, List.not_mem_nil, false_implies, implies_true, and_true]
    exact ⟨plain_repr _, plain_repr _, .text _, hcontexts⟩
  refine .record ?_
  simp only [List.forall_mem_cons, List.not_mem_nil, false_implies, implies_true, and_true]
  exact ⟨.text _, .record hparams, hresults⟩

lemma recordCells?_document (m : Measured) : recordCells? m.document = some m.row.named := rfl

lemma shown_json : Format.json.shown [(document version o measured).write] =
    some (measured.map fun m => m.row.named) := by
  have hread := Document.read?_write (plain_document version o measured)
  have hrows : (measured.map Measured.document).mapM recordCells? =
      some (measured.map fun m => m.row.named) := by
    have hcells : recordCells? ∘ Measured.document = fun m => some m.row.named :=
      funext recordCells?_document
    rw [List.mapM_map, hcells]
    exact List.mapM_pure
  rw [Format.shown, hread]
  exact hrows

/-- A report shows the rows that have been measured, in every layout. -/
lemma shown_report (h : ∀ m ∈ measured, m.row.scenario ∈ scenarios) :
    o.format.shown (report version o measured) = some (measured.map fun m => m.row.named) := by
  rw [report]
  cases o.format with
  | json => exact shown_json
  | markdown => exact shown_markdown h
  | table => exact shown_table h

end Lines

end InertText.Bench
