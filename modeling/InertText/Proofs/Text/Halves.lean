import InertText.Proofs.Text.Paired

/-!
# Halves of pairs in pieces

Where a text is made into pieces unit by unit and every half of a pair is kept, the
pair itself survives: nothing comes between its halves, and a piece that ends in a
half was made when the text had come to that half.
-/
namespace InertText

/-- Pieces are made unit by unit from a state, and every half of a pair is kept. A
unit that gives a piece leads back to the start, and a half always gives one, of
which it is the last unit. -/
structure KeepsHalves {σ : Type} (start : σ) (pieces : σ → Text → List Text) : Prop where
  nil_start : pieces start [] = []
  nil : ∀ s, ∀ piece ∈ pieces s [], ∀ v ∈ piece, v.isSurrogate = false
  plain : ∀ s u, u.isSurrogate = false → (∃ s', ∀ t, pieces s (u :: t) = pieces s' t) ∨
    ∃ piece, (∀ v ∈ piece, v.isSurrogate = false) ∧
      ∀ t, pieces s (u :: t) = piece :: pieces start t
  half_start : ∀ u, u.isSurrogate = true → ∀ t, pieces start (u :: t) = [u] :: pieces start t
  half : ∀ s u, u.isSurrogate = true → ∃ front, (∀ v ∈ front, v.isSurrogate = false) ∧
    ∀ t, pieces s (u :: t) = (front ++ [u]) :: pieces start t

namespace KeepsHalves

open Text (Paired)

variable {σ : Type} {start : σ} {pieces : σ → Text → List Text} {t front p : Text}
  {u : CodeUnit} {before after : List Text}

/-- Whole characters stay whole characters. -/
lemma paired (h : KeepsHalves start pieces) (ht : Paired t) (s : σ) :
    Paired (pieces s t).flatten := by
  induction ht generalizing s with
  | nil =>
    refine Text.paired_of_not_surrogate fun v hv => ?_
    obtain ⟨piece, hpiece, hv⟩ := List.mem_flatten.mp hv
    exact h.nil s piece hpiece v hv
  | single hu _ ih =>
    rcases h.plain s _ hu with ⟨s', hs⟩ | ⟨piece, hplain, hs⟩
    · rw [hs]
      exact ih s'
    · rw [hs, List.flatten_cons]
      exact (Text.paired_of_not_surrogate hplain).append (ih start)
  | pair hhigh hlow _ ih =>
    obtain ⟨front, hplain, hs⟩ := h.half s _ (CodeUnit.isSurrogate_of_high hhigh)
    rw [hs, h.half_start _ (CodeUnit.isSurrogate_of_low hlow), List.flatten_cons,
      List.flatten_cons, List.append_assoc]
    exact (Text.paired_of_not_surrogate hplain).append (.pair hhigh hlow (ih start))

/-- A unit gives no piece, or it gives one that ends in no half but the unit itself. -/
lemma step (h : KeepsHalves start pieces) (s : σ) (v : CodeUnit) :
    (∃ s', ∀ t, pieces s (v :: t) = pieces s' t) ∨
    ∃ piece, (∀ t, pieces s (v :: t) = piece :: pieces start t) ∧
      ∀ p u, u.isSurrogate = true → piece = p ++ [u] → v = u := by
  cases hv : v.isSurrogate with
  | true =>
    obtain ⟨front, -, hs⟩ := h.half s v hv
    exact .inr ⟨front ++ [v], hs, fun p u _ heq => (List.append_singleton_inj.mp heq).2⟩
  | false =>
    rcases h.plain s v hv with hs | ⟨piece, hplain, hs⟩
    · exact .inl hs
    · refine .inr ⟨piece, hs, ?_⟩
      rintro p u hu rfl
      simp [hplain u (by simp)] at hu

/-- The pieces up to a half are those of the text up to it, and what follows is made
from the start. -/
lemma pieces_append (h : KeepsHalves start pieces) (hu : u.isSurrogate = true) (s : σ)
    (front : Text) :
    ∃ before p, pieces s (front ++ [u]) = before ++ [p ++ [u]] ∧
      ∀ rest, pieces s (front ++ u :: rest) = before ++ (p ++ [u]) :: pieces start rest := by
  induction front generalizing s with
  | nil =>
    obtain ⟨p, -, hs⟩ := h.half s u hu
    exact ⟨[], p, by rw [List.nil_append, hs, h.nil_start, List.nil_append], hs⟩
  | cons v front ih =>
    rcases h.step s v with ⟨s', hs⟩ | ⟨piece, hs, -⟩
    · obtain ⟨before, p, hfront, hrest⟩ := ih s'
      exact ⟨before, p, (hs _).trans hfront, fun rest => (hs _).trans (hrest rest)⟩
    · obtain ⟨before, p, hfront, hrest⟩ := ih start
      refine ⟨piece :: before, p, ?_, fun rest => ?_⟩
      · rw [List.cons_append, hs, hfront, List.cons_append]
      · rw [List.cons_append, hs, hrest, List.cons_append]

/-- A piece that ends in a half was made when the text had come to that half. -/
lemma exists_half (h : KeepsHalves start pieces) (hu : u.isSurrogate = true) {s : σ}
    (hpieces : pieces s t = before ++ (p ++ [u]) :: after) :
    ∃ front back, t = front ++ u :: back ∧ pieces s (front ++ [u]) = before ++ [p ++ [u]] := by
  induction t generalizing s before with
  | nil =>
    have hplain := h.nil s (p ++ [u]) (by simp [hpieces]) u (by simp)
    simp [hplain] at hu
  | cons v t ih =>
    rcases h.step s v with ⟨s', hs⟩ | ⟨piece, hs, hlast⟩
    · rw [hs] at hpieces
      obtain ⟨front, back, rfl, hfront⟩ := ih hpieces
      exact ⟨v :: front, back, rfl, (hs _).trans hfront⟩
    · rw [hs] at hpieces
      cases before with
      | nil =>
        obtain ⟨hpiece, -⟩ := List.cons.inj hpieces
        obtain rfl := hlast p u hu hpiece
        exact ⟨[], t, rfl, by rw [List.nil_append, hs, h.nil_start, hpiece, List.nil_append]⟩
      | cons first before =>
        obtain ⟨rfl, htail⟩ := List.cons.inj hpieces
        obtain ⟨front, back, rfl, hfront⟩ := ih htail
        exact ⟨v :: front, back, rfl, by rw [List.cons_append, hs, hfront, List.cons_append]⟩

end KeepsHalves

end InertText
