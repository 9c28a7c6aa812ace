import InertText.Text.Table
import Mathlib.Data.List.DropRight

/-!
# Cells that are read off a table

The cells of a line are what stands between its bars, without the blanks around it. So a
cell that has neither a bar in it nor a blank at its ends is read as it was written, however
wide its column is. In a drawn table the rows stand between the frame under the head and
the last line.
-/
namespace InertText.Table

def isBlank (u : CodeUnit) : Bool := u == unit ' '

/-- A text without the blanks at its ends. -/
def trim (t : Text) : Text := (t.dropWhile isBlank).rdropWhile isBlank

/-- The cells of a line. Nothing stands before the first bar or behind the last one. -/
def cells (bar : CodeUnit) (line : Text) : List Text :=
  ((List.splitOn bar line).drop 1).dropLast.map trim

/-- The lines of a drawn table between the frame under its head and the last line. -/
def drawnRows (lines : List Text) : List Text :=
  ((lines.dropWhile fun line => line.head? != some (unit '├')).drop 1).takeWhile
    fun line => line.head? != some (unit '└')

/-- A text that can stand between bars and be told from the blanks around it. -/
@[mk_iff]
structure Fits (bar : CodeUnit) (cell : Text) : Prop where
  nonempty : cell ≠ []
  no_bar : bar ∉ cell
  no_blank_before : cell.head? ≠ some (unit ' ')
  no_blank_after : cell.getLast? ≠ some (unit ' ')

instance (bar : CodeUnit) (cell : Text) : Decidable (Fits bar cell) :=
  decidable_of_iff' _ (fits_iff bar cell)

variable {bar : CodeUnit} {cell : Text} {row : List Text} {lines : List Text}

lemma fits_of_forall (hne : cell ≠ []) (hbar : bar ∉ cell) (hblank : unit ' ' ∉ cell) :
    Fits bar cell where
  nonempty := hne
  no_bar := hbar
  no_blank_before h := hblank (List.mem_of_head? h)
  no_blank_after h := hblank (List.mem_of_getLast? h)

/-- A list that is mapped with places and then back has been mapped without them. -/
lemma map_mapIdx_of_forall {α β γ : Type} {f : ℕ → α → β} {g : β → γ} {h : α → γ} {l : List α}
    (hl : ∀ i, ∀ a ∈ l, g (f i a) = h a) : (l.mapIdx f).map g = l.map h := by
  refine List.ext_getElem? fun i => ?_
  rw [List.getElem?_map, List.getElem?_mapIdx, List.getElem?_map, Option.map_map]
  cases hi : l[i]? with
  | none => rfl
  | some a => exact congrArg some (hl i a (List.mem_of_getElem? hi))

lemma rdropWhile_append_replicate (t : Text) (n : ℕ) :
    (t ++ List.replicate n (unit ' ')).rdropWhile isBlank = t.rdropWhile isBlank := by
  induction n with
  | zero => rw [List.replicate_zero, List.append_nil]
  | succ n ih =>
    rw [List.replicate_succ', ← List.append_assoc, List.rdropWhile_concat_pos _ _ _ (by decide), ih]

lemma Fits.trim_eq (h : Fits bar cell) (m n : ℕ) :
    trim (List.replicate m (unit ' ') ++ (cell ++ List.replicate n (unit ' '))) = cell := by
  have hblank : ∀ u ∈ List.replicate m (unit ' '), isBlank u = true := by
    intro u hu
    rw [List.eq_of_mem_replicate hu]
    rfl
  obtain ⟨u, rest, rfl⟩ := List.exists_cons_of_ne_nil h.nonempty
  have hu : ¬ isBlank u = true := fun hu => h.no_blank_before (congrArg some (eq_of_beq hu))
  have hlast : ¬ isBlank ((u :: rest).getLast h.nonempty) = true := by
    intro hlast
    refine h.no_blank_after ?_
    rw [List.getLast?_eq_some_getLast h.nonempty, eq_of_beq hlast]
  rw [trim, List.dropWhile_append_of_pos hblank, List.cons_append, List.dropWhile_cons_of_neg hu,
    ← List.cons_append, rdropWhile_append_replicate, List.rdropWhile_eq_self_iff]
  exact fun _ => hlast

/-- Texts without bars are what is found between the bars. -/
lemma splitOn_flatMap (hbar : unit ' ' ≠ bar) (h : ∀ cell ∈ row, bar ∉ cell) :
    (row.flatMap fun cell => unit ' ' :: (cell ++ [unit ' ', bar])).splitOn bar =
      row.map (fun cell => unit ' ' :: (cell ++ [unit ' '])) ++ [[]] := by
  induction row with
  | nil => rfl
  | cons cell row ih =>
    obtain ⟨hcell, hrow⟩ := List.forall_mem_cons.mp h
    have hpart : bar ∉ unit ' ' :: (cell ++ [unit ' ']) := by simp [hcell, hbar.symm]
    have hfront : (List.flatMap (fun cell => unit ' ' :: (cell ++ [unit ' ', bar])) (cell :: row)) =
        (unit ' ' :: (cell ++ [unit ' '])) ++ bar ::
          row.flatMap fun cell => unit ' ' :: (cell ++ [unit ' ', bar]) := by simp
    rw [hfront, List.splitOn_append_cons_self_of_not_mem hpart, ih hrow]
    rfl

lemma cells_barred (hbar : unit ' ' ≠ bar) (h : ∀ cell ∈ row, bar ∉ cell) :
    cells bar (barred bar row) = row.map fun cell => trim (unit ' ' :: (cell ++ [unit ' '])) := by
  have hfront : List.splitOn bar (barred bar row) = [] :: _ :=
    List.splitOn_append_cons_self_of_not_mem List.not_mem_nil _
  rw [cells, hfront, splitOn_flatMap hbar h, List.drop_one, List.tail_cons, List.dropLast_concat,
    List.map_map]
  rfl

/-- The cells of a line are read off it, whatever the widths of the columns. -/
lemma cells_barred_filled (hbar : unit ' ' ≠ bar) (h : ∀ cell ∈ row, Fits bar cell)
    (width : ℕ → ℕ) : cells bar (barred bar (filled width row)) = row := by
  have hfilled : ∀ cell ∈ filled width row, bar ∉ cell := by
    intro cell hcell
    obtain ⟨i, hi, rfl⟩ := List.mem_mapIdx.mp hcell
    have hblanks {n : ℕ} : bar ∉ List.replicate n (unit ' ') :=
      fun hmem => hbar (List.eq_of_mem_replicate hmem).symm
    exact List.not_mem_append (h _ (List.getElem_mem hi)).no_bar hblanks
  rw [cells_barred hbar hfilled, filled, map_mapIdx_of_forall, List.map_id]
  intro i cell hcell
  have htrim := (h cell hcell).trim_eq 1 (width i - cell.length + 1)
  rwa [List.replicate_one, List.replicate_succ', ← List.append_assoc cell] at htrim

lemma cells_barred_of_fits (hbar : unit ' ' ≠ bar) (h : ∀ cell ∈ row, Fits bar cell) :
    cells bar (barred bar row) = row := by
  have hfilled : filled (fun _ => 0) row = row := List.ext_getElem? fun i => by simp [filled]
  have hcells := cells_barred_filled hbar h fun _ => 0
  rwa [hfilled] at hcells

/-- The rows of a drawn table are found below whatever else is printed. -/
lemma drawnRows_append_draw (h : ∀ line ∈ lines, line.head? ≠ some (unit '├'))
    (head : List Text) (rows : List (List Text)) : drawnRows (lines ++ draw head rows) =
      rows.map fun row => barred (unit '│') (filled (width (head :: rows)) row) := by
  have habove : ∀ line ∈ lines, (line.head? != some (unit '├')) = true :=
    fun line hline => bne_iff_ne.mpr (h line hline)
  have hrows : ∀ line ∈ rows.map fun row => barred (unit '│') (filled (width (head :: rows)) row),
      (line.head? != some (unit '└')) = true := by
    intro line hline
    obtain ⟨row, -, rfl⟩ := List.mem_map.mp hline
    rfl
  rw [drawnRows, List.dropWhile_append_of_pos habove, draw, List.dropWhile_cons_of_pos (by rfl),
    List.dropWhile_cons_of_pos (by rfl), List.dropWhile_cons_of_neg (by simp [framed]),
    List.drop_one, List.tail_cons, List.takeWhile_append_of_pos hrows,
    List.takeWhile_cons_of_neg (by simp [framed]), List.append_nil]

end InertText.Table
