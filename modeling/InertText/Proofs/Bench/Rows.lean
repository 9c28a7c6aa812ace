import InertText.Bench.Report
import InertText.Proofs.Bench.LastOccurrence

/-!
# The rows of a measurement

The rows are all combinations of a context, a mode and a text. The text changes from row to
row, the mode with every round of texts and the context with every round of modes, so the
number of a row tells by division what the row measures.
-/
namespace InertText

section Blocks

variable {α β : Type} {f : α → List β} {n : ℕ}

/-- A place in a list of equally long blocks is a place in one of the blocks. -/
lemma getElem?_flatMap_of_length (hn : 0 < n) (hf : ∀ a, (f a).length = n) (l : List α) (i : ℕ) :
    (l.flatMap f)[i]? = l[i / n]?.bind fun a => (f a)[i % n]? := by
  induction l generalizing i with
  | nil => rfl
  | cons a l ih =>
    rw [List.flatMap_cons]
    rcases Nat.lt_or_ge i n with hlt | hge
    · rw [List.getElem?_append_left (by rwa [hf]), Nat.div_eq_of_lt hlt, Nat.mod_eq_of_lt hlt]
      rfl
    · obtain ⟨j, rfl⟩ := Nat.exists_eq_add_of_le' hge
      rw [List.getElem?_append_right (by rw [hf]; omega), hf, Nat.add_sub_cancel, ih,
        Nat.add_div_right j hn, Nat.add_mod_right, List.getElem?_cons_succ]

lemma length_flatMap_of_length (hf : ∀ a, (f a).length = n) (l : List α) :
    (l.flatMap f).length = l.length * n := by
  simp only [List.length_flatMap, hf, List.map_const', List.sum_replicate_nat]

end Blocks

/-- A built-in sanitizer has the name of its context. -/
lemma Context.name_sanitizer (c : Context) : c.sanitizer.name = units c.name := by
  cases c <;> rfl

namespace Bench

def Selection.count : Selection → ℕ
  | .both => 2
  | .only _ => 1

/-- The mode at a place among the selected ones. Encoding is measured before filtering. -/
inductive Selection.Measures : Selection → ℕ → Mode → Prop where
  | encode : Measures .both 0 .encode
  | filter : Measures .both 1 .filter
  | only (mode : Mode) : Measures (.only mode) 0 mode

/-- The row belongs at place `i`. There are four rows for a context and a mode, one for each
text. -/
structure Row.IsAt (r : Row) (o : Options) (i : ℕ) : Prop where
  context : o.contexts[i / 4 / o.selection.count]? = some r.context
  mode : o.selection.Measures (i / 4 % o.selection.count) r.mode
  scenario : scenarios[i % 4]? = some r.scenario
  iterations : r.iterations = o.iterations

variable {o : Options} {r : Row} {sel : Selection} {mode : Mode} {i : ℕ}

namespace Selection

lemma count_pos (sel : Selection) : 0 < sel.count := by
  cases sel <;> exact Nat.succ_pos _

lemma length_modes (sel : Selection) : sel.modes.length = sel.count := by
  cases sel <;> rfl

lemma getElem?_modes_eq_some_iff : sel.modes[i]? = some mode ↔ sel.Measures i mode := by
  constructor
  · intro h
    cases sel with
    | both =>
      match i, h with
      | 0, rfl => exact .encode
      | 1, rfl => exact .filter
    | only mode =>
      match i, h with
      | 0, rfl => exact .only _
  · intro h
    cases h <;> rfl

end Selection

namespace Options

def rowsOf (o : Options) (context : Context) : List Row :=
  o.selection.modes.flatMap fun mode =>
    scenarios.map fun scenario => ⟨mode, context, scenario, o.iterations⟩

lemma rows_eq (o : Options) : o.rows = o.contexts.flatMap o.rowsOf := rfl

lemma length_rowsOf (o : Options) (context : Context) :
    (o.rowsOf context).length = o.selection.count * 4 := by
  rw [rowsOf, length_flatMap_of_length (fun _ => List.length_map _), Selection.length_modes]
  rfl

lemma length_rows (o : Options) : o.rows.length = o.contexts.length * (o.selection.count * 4) :=
  length_flatMap_of_length o.length_rowsOf o.contexts

lemma getElem?_rows (o : Options) (i : ℕ) : o.rows[i]? =
    o.contexts[i / 4 / o.selection.count]?.bind fun context =>
      o.selection.modes[i / 4 % o.selection.count]?.bind fun mode =>
        scenarios[i % 4]?.map fun scenario => ⟨mode, context, scenario, o.iterations⟩ := by
  have hpos : 0 < o.selection.count * 4 := Nat.mul_pos o.selection.count_pos (by decide)
  have hscenarios {f : Scenario → Row} : (scenarios.map f).length = 4 := List.length_map _
  rw [rows_eq, getElem?_flatMap_of_length hpos o.length_rowsOf, Nat.div_div_eq_div_mul,
    Nat.mul_comm 4]
  congr 1
  funext context
  rw [rowsOf, getElem?_flatMap_of_length (by decide) fun _ => hscenarios, Nat.mod_mul_left_div_self,
    Nat.mod_mul_left_mod]
  simp only [List.getElem?_map]

/-- Each place has the row that belongs there, and beyond the last place there is none. -/
lemma getElem?_rows_eq_some_iff : o.rows[i]? = some r ↔ r.IsAt o i := by
  simp only [getElem?_rows, Option.bind_eq_some_iff, Option.map_eq_some_iff,
    Selection.getElem?_modes_eq_some_iff]
  constructor
  · rintro ⟨context, hcontext, mode, hmode, scenario, hscenario, rfl⟩
    exact ⟨hcontext, hmode, hscenario, rfl⟩
  · intro h
    obtain ⟨mode, context, scenario, iterations⟩ := r
    obtain ⟨hcontext, hmode, hscenario, rfl⟩ := h
    exact ⟨context, hcontext, mode, hmode, scenario, hscenario, rfl⟩

/-- Nine is one row after two rounds of texts, which are one round of both modes. -/
example : default.rows[9]? = some ⟨.encode, .xmlContent, scenarios[1], 20000⟩ := by
  rfl

lemma scenario_mem_of_mem_rows (hr : r ∈ o.rows) : r.scenario ∈ scenarios := by
  obtain ⟨i, hi⟩ := List.mem_iff_getElem?.mp hr
  exact List.mem_of_getElem? (getElem?_rows_eq_some_iff.mp hi).scenario

end Options

end Bench

end InertText
