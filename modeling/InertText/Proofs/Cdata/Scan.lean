import InertText.Cdata
import InertText.Proofs.Text.Occurrence

/-!
# The scan of CDATA content

What one unit does to the state of the scan is said once here, unit by unit and
in both modes. A unit that is forbidden does nothing, so a scan sees only the
allowed units of its text, and what it has written can be followed together with
the run of brackets that it still owes.
-/
namespace InertText.Cdata

/-- The sequence that ends a section. -/
def terminator : Text := [bracket, bracket, closing]

/-- The units of a text that may stand in a section. -/
def allowed (t : Text) : Text := t.filter fun u => !isForbidden u

lemma terminator_ne_nil : terminator ≠ [] := by simp [terminator]

lemma bracket_ne_closing : bracket ≠ closing := by decide

lemma isForbidden_bracket : isForbidden bracket = false := by decide

lemma isForbidden_closing : isForbidden closing = false := by decide

lemma mem_allowed {t : Text} {u : CodeUnit} :
    u ∈ allowed t ↔ u ∈ t ∧ isForbidden u = false := by
  simp [allowed]

@[simp] theorem brackets_zero : brackets 0 = [] := rfl

lemma brackets_succ (n : ℕ) : brackets (n + 1) = bracket :: brackets n := rfl

lemma brackets_succ_append (n : ℕ) (t : Text) :
    brackets (n + 1) ++ t = brackets n ++ bracket :: t := by
  simp [brackets, List.replicate_succ']

lemma brackets_add_two_append (n : ℕ) (t : Text) :
    brackets (n + 2) ++ closing :: t = brackets n ++ (terminator ++ t) := by
  rw [brackets_succ_append, brackets_succ_append]
  rfl

lemma terminator_prefix_iff {u v w : CodeUnit} {t : Text} :
    terminator <+: u :: v :: w :: t ↔ bracket = u ∧ bracket = v ∧ closing = w := by
  simp [terminator, List.cons_prefix_cons]

/-- No terminator begins in a run of brackets before the two last of them. -/
lemma not_prefix_brackets_append {u : CodeUnit} {n : ℕ} {t : Text} (hu : u ≠ bracket)
    (hn : ¬ (u = closing ∧ 2 ≤ n)) : ¬ terminator <+: brackets n ++ u :: t := by
  intro h
  match n with
  | 0 => exact hu (List.cons_prefix_cons.mp h).1.symm
  | 1 => exact hu (List.cons_prefix_cons.mp (List.cons_prefix_cons.mp h).2).1.symm
  | 2 => exact hn ⟨(terminator_prefix_iff.mp h).2.2.symm, le_rfl⟩
  | n + 3 => exact bracket_ne_closing (terminator_prefix_iff.mp h).2.2.symm

lemma not_infix_brackets (n : ℕ) : ¬ terminator <:+: brackets n := by
  intro h
  have hc : closing ∈ brackets n := h.subset (by simp [terminator])
  exact bracket_ne_closing (List.eq_of_mem_replicate hc).symm

namespace Scan

variable {mode : Mode} {s : Scan} {u : CodeUnit}

/-- What has been written, as one text. -/
def settled (s : Scan) : Text := s.written.toList.flatten

lemma settled_push (w : Array Text) (piece : Text) (n : ℕ) :
    settled ⟨w.push piece, n⟩ = settled ⟨w, n⟩ ++ piece := by
  simp [settled]

@[simp] theorem pending_start : start.pending = 0 := rfl

/-- A scan owes nothing but the pending brackets. -/
lemma flatten_finish (s : Scan) : s.finish.flatten = s.settled ++ brackets s.pending := by
  unfold finish
  split_ifs with h
  · simp [h, settled]
  · simp [settled]

lemma next_bracket (mode : Mode) (s : Scan) :
    s.next mode bracket = ⟨s.written, s.pending + 1⟩ := by
  simp [next]

lemma next_of_isForbidden (h : isForbidden u = true) : s.next mode u = s := by
  have hb : u ≠ bracket := by
    rintro rfl
    simp [isForbidden_bracket] at h
  simp [next, hb, h]

lemma next_encode_closing (h : 2 ≤ s.pending) :
    s.next .encode closing = ⟨s.written.push (brackets (s.pending - 2) ++ splitTerminator), 0⟩ := by
  simp [next, bracket_ne_closing.symm, isForbidden_closing, h]

lemma next_filter_closing (h : 2 ≤ s.pending) :
    s.next .filter closing = ⟨s.written, s.pending - 2⟩ := by
  simp [next, bracket_ne_closing.symm, isForbidden_closing, h]

lemma next_of_ne_bracket (hu : u ≠ bracket) (hf : isForbidden u = false)
    (ht : ¬ (u = closing ∧ 2 ≤ s.pending)) :
    s.next mode u = ⟨s.written.push (brackets s.pending ++ [u]), 0⟩ := by
  simp [next, hu, hf, ht]

/-- The scan of a text is that of its allowed units. -/
lemma foldl_next_allowed (mode : Mode) (t : Text) (s : Scan) :
    (allowed t).foldl (next mode) s = t.foldl (next mode) s := by
  induction t generalizing s with
  | nil => rfl
  | cons u t ih =>
    by_cases h : isForbidden u = true
    · rw [List.foldl_cons, next_of_isForbidden h, ← ih, allowed, List.filter_cons_of_neg (by simp [h])]
      rfl
    · rw [List.foldl_cons, ← ih, allowed, List.filter_cons_of_pos (by simp [h])]
      rfl

end Scan

/-- The output for a text is that for its allowed units. -/
lemma pieces_allowed (mode : Mode) (t : Text) : pieces mode (allowed t) = pieces mode t := by
  rw [pieces, Scan.foldl_next_allowed, pieces]

end InertText.Cdata
