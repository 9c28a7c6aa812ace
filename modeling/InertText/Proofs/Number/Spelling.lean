import InertText.Number.Decimal
import InertText.Proofs.Json.Document
import InertText.Proofs.Text.Written

/-!
# The units of a number

The text of a finite number is not empty and is made of digits, a point, signs and the mark
of an exponent, so a number can be told from whatever is written around it.
-/
namespace InertText

open Document (isNumeral)

lemma isNumeral_of_mem_repr {n : ℕ} {u : CodeUnit} (h : u ∈ units n.repr) :
    isNumeral u = true := by
  have hdigit := (Text.toNat?_eq_some_iff.mp (Text.toNat?_units_repr n)).2.1 u h
  simp [isNumeral, hdigit]

namespace Number

lemma Decimal.forall_mem_text (d : Decimal) : ∀ u ∈ d.text, isNumeral u = true := by
  have hdigits (n : ℕ) : ∀ u ∈ units n.repr, isNumeral u = true :=
    fun _ => isNumeral_of_mem_repr
  have hzeros (n : ℕ) : ∀ u ∈ List.replicate n (unit '0'), isNumeral u = true := by
    intro u hu
    rw [List.eq_of_mem_replicate hu]
    decide
  have hfront (n : ℕ) : ∀ u ∈ (units d.coefficient.repr).take n, isNumeral u = true :=
    fun u hu => hdigits _ u (List.mem_of_mem_take hu)
  have hback (n : ℕ) : ∀ u ∈ (units d.coefficient.repr).drop n, isNumeral u = true :=
    fun u hu => hdigits _ u (List.mem_of_mem_drop hu)
  have hpoint (n : ℕ) : ∀ u ∈ unit '.' :: (units d.coefficient.repr).drop n,
      isNumeral u = true := List.forall_mem_cons.mpr ⟨by decide, hback n⟩
  have hnone : ∀ u ∈ ([] : Text), isNumeral u = true := fun _ hu => absurd hu List.not_mem_nil
  unfold text
  extract_lets digits point zeros fraction sign
  split_ifs
  · exact List.forall_mem_append.mpr ⟨hdigits _, hzeros _⟩
  · exact List.forall_mem_append.mpr ⟨hfront _, hpoint _⟩
  · exact List.forall_mem_append.mpr
      ⟨List.forall_mem_append.mpr ⟨List.all_iff_forall_prop.mp (by decide), hzeros _⟩, hdigits _⟩
  · have hfraction : ∀ u ∈ fraction, isNumeral u = true := by
      unfold fraction
      split_ifs
      · exact hnone
      · exact hpoint 1
    have hsign : isNumeral sign = true := by
      unfold sign
      split_ifs <;> decide
    exact List.forall_mem_append.mpr ⟨List.forall_mem_append.mpr ⟨hfront 1, hfraction⟩,
      List.forall_mem_cons.mpr ⟨by decide, List.forall_mem_cons.mpr ⟨hsign, hdigits _⟩⟩⟩

lemma Decimal.text_ne_nil (d : Decimal) : d.text ≠ [] := by
  unfold text
  extract_lets digits point zeros fraction sign
  split_ifs
  · exact List.append_ne_nil_of_left_ne_nil (Text.units_repr_ne_nil _) _
  · exact List.append_ne_nil_of_right_ne_nil _ (List.cons_ne_nil _ _)
  · exact List.append_ne_nil_of_right_ne_nil _ (Text.units_repr_ne_nil _)
  · exact List.append_ne_nil_of_right_ne_nil _ (List.cons_ne_nil _ _)

lemma forall_mem_text_finite (negative : Bool) (quanta : ℕ) :
    ∀ u ∈ (finite negative quanta).text, isNumeral u = true := by
  have hzero : ∀ u ∈ units "0", isNumeral u = true := List.all_iff_forall_prop.mp (by decide)
  have hsign : ∀ u ∈ (if negative then [unit '-'] else []), isNumeral u = true := by
    cases negative
    · exact fun _ hu => absurd hu List.not_mem_nil
    · exact List.forall_mem_singleton.mpr (by decide)
  rw [text]
  by_cases hquanta : quanta = 0
  · rwa [if_pos hquanta]
  · rw [if_neg hquanta]
    exact List.forall_mem_append.mpr ⟨hsign, Decimal.forall_mem_text _⟩

lemma text_finite_ne_nil (negative : Bool) (quanta : ℕ) : (finite negative quanta).text ≠ [] := by
  rw [text]
  by_cases hquanta : quanta = 0
  · rw [if_pos hquanta]
    decide
  · rw [if_neg hquanta]
    exact List.append_ne_nil_of_right_ne_nil _ (Decimal.text_ne_nil _)

end Number

end InertText
