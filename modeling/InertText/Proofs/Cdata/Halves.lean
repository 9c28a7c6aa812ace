import InertText.Proofs.Cdata.Scan
import InertText.Proofs.Rules.Halves

/-!
# Halves of pairs in the scan of CDATA content

The scan keeps every half of a pair: it is neither a bracket nor forbidden, so it is
written at once, and brackets that were pending go before it.
-/
namespace InertText.Cdata

variable {mode : Mode} {u : CodeUnit}

/-- The pieces that a text adds when some brackets are pending before it. -/
def piecesFrom (mode : Mode) (pending : ℕ) (t : Text) : List Text :=
  (t.foldl (Scan.next mode) ⟨#[], pending⟩).finish

lemma next_of_surrogate (hu : u.isSurrogate = true) (s : Scan) :
    s.next mode u = ⟨s.written.push (brackets s.pending ++ [u]), 0⟩ := by
  have hne : ∀ v : CodeUnit, v.toNat < 0x80 → u ≠ v := by
    rintro v hv rfl
    simp [CodeUnit.not_surrogate_of_lt hv] at hu
  have hforbidden : isForbidden u = false := by
    rw [isForbidden, ControlPolicy.covers_eq_false hu, Bool.and_false]
  exact Scan.next_of_ne_bracket (hne _ (by decide)) hforbidden fun h => hne _ (by decide) h.1

lemma not_surrogate_of_mem_brackets {n : ℕ} : ∀ v ∈ brackets n, v.isSurrogate = false := by
  intro v hv
  rw [List.eq_of_mem_replicate hv]
  decide

/-- What any other unit does depends on the pending brackets alone. -/
lemma next_of_not_surrogate (hu : u.isSurrogate = false) (mode : Mode) (n : ℕ) :
    (∃ m, ∀ w, Scan.next mode ⟨w, n⟩ u = ⟨w, m⟩) ∨
    ∃ piece, (∀ v ∈ piece, v.isSurrogate = false) ∧
      ∀ w, Scan.next mode ⟨w, n⟩ u = ⟨w.push piece, 0⟩ := by
  have hsplit : ∀ v ∈ splitTerminator, v.isSurrogate = false :=
    List.all_iff_forall_prop.mp (by decide)
  by_cases hb : u = bracket
  · subst hb
    exact .inl ⟨n + 1, fun w => Scan.next_bracket mode ⟨w, n⟩⟩
  by_cases hf : isForbidden u = true
  · exact .inl ⟨n, fun w => Scan.next_of_isForbidden hf⟩
  rw [Bool.not_eq_true] at hf
  by_cases hc : u = closing ∧ 2 ≤ n
  · obtain ⟨rfl, hn⟩ := hc
    cases mode with
    | encode =>
      refine .inr ⟨brackets (n - 2) ++ splitTerminator, ?_, fun w => Scan.next_encode_closing hn⟩
      exact List.forall_mem_append.mpr ⟨not_surrogate_of_mem_brackets, hsplit⟩
    | filter => exact .inl ⟨n - 2, fun w => Scan.next_filter_closing hn⟩
  · refine .inr ⟨brackets n ++ [u], ?_, fun w => Scan.next_of_ne_bracket hb hf hc⟩
    exact List.forall_mem_append.mpr
      ⟨not_surrogate_of_mem_brackets, List.forall_mem_singleton.mpr hu⟩

/-- What has been written stays as it is and has no influence on what follows. -/
lemma finish_foldl_next (mode : Mode) (w : Array Text) (n : ℕ) (t : Text) :
    (t.foldl (Scan.next mode) ⟨w, n⟩).finish = w.toList ++ piecesFrom mode n t := by
  have hpushed : ∀ (w : Array Text) (piece : Text), (w.push piece).toList = w.toList ++ [piece] :=
    fun _ _ => Array.toList_push
  induction t generalizing w n with
  | nil =>
    by_cases hn : n = 0
    · simp [piecesFrom, Scan.finish, hn]
    · simp [piecesFrom, Scan.finish, hn]
  | cons u t ih =>
    have hstep : (∃ m, ∀ w, Scan.next mode ⟨w, n⟩ u = ⟨w, m⟩) ∨
        ∃ piece, ∀ w, Scan.next mode ⟨w, n⟩ u = ⟨w.push piece, 0⟩ := by
      cases hu : u.isSurrogate with
      | true => exact .inr ⟨brackets n ++ [u], fun w => next_of_surrogate hu ⟨w, n⟩⟩
      | false => exact (next_of_not_surrogate hu mode n).imp_right fun ⟨piece, _, hs⟩ => ⟨piece, hs⟩
    rw [piecesFrom, List.foldl_cons, List.foldl_cons]
    rcases hstep with ⟨m, hs⟩ | ⟨piece, hs⟩
    · rw [hs, hs, ih w m]
      rfl
    · rw [hs, hs, ih (w.push piece) 0, ih (#[].push piece) 0, hpushed, hpushed, List.append_assoc]
      rfl

lemma piecesFrom_of_state {n m : ℕ} (h : ∀ w, Scan.next mode ⟨w, n⟩ u = ⟨w, m⟩) (t : Text) :
    piecesFrom mode n (u :: t) = piecesFrom mode m t := by
  rw [piecesFrom, List.foldl_cons, h]
  rfl

lemma piecesFrom_of_piece {n : ℕ} {piece : Text}
    (h : ∀ w, Scan.next mode ⟨w, n⟩ u = ⟨w.push piece, 0⟩) (t : Text) :
    piecesFrom mode n (u :: t) = piece :: piecesFrom mode 0 t := by
  rw [piecesFrom, List.foldl_cons, h, finish_foldl_next]
  rfl

/-- The scan keeps all halves: brackets that are pending go before a half. -/
lemma keepsHalves (mode : Mode) : KeepsHalves 0 (piecesFrom mode) where
  nil_start := rfl
  nil n piece hpiece v hv := by
    by_cases hn : n = 0
    · simp [piecesFrom, Scan.finish, hn] at hpiece
    · obtain rfl : piece = brackets n := by simpa [piecesFrom, Scan.finish, hn] using hpiece
      exact not_surrogate_of_mem_brackets v hv
  plain n u hu := by
    rcases next_of_not_surrogate hu mode n with ⟨m, hs⟩ | ⟨piece, hplain, hs⟩
    · exact .inl ⟨m, piecesFrom_of_state hs⟩
    · exact .inr ⟨piece, hplain, piecesFrom_of_piece hs⟩
  half_start u hu := piecesFrom_of_piece fun w => next_of_surrogate hu ⟨w, 0⟩
  half n u hu := ⟨brackets n, not_surrogate_of_mem_brackets,
    piecesFrom_of_piece fun w => next_of_surrogate hu ⟨w, n⟩⟩

end InertText.Cdata
