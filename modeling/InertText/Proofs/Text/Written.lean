import InertText.Text.Hex
import InertText.Text.Parts
import Mathlib.Data.List.Basic
import Mathlib.Data.List.Induction
import Mathlib.Data.Nat.Digits.Defs

/-!
# Written forms

A text of digits stands for the number that has these digits in base ten. Of all texts
that stand for a number only its written form has no zero in front, so whoever allows no
such zero reads what has been written and nothing else. Values of which there are only a
few are written as their names, and a text is searched for among the names of all.
-/
namespace InertText

lemma units_append (s t : String) : units (s ++ t) = units s ++ units t := by
  rw [units, String.toList_append, List.flatMap_append]
  rfl

namespace Text

/-- The number of decimal digits, the most significant first. -/
def number (t : Text) : ℕ := Nat.ofDigits 10 (t.reverse.map fun u => u.toNat - 0x30)

variable {t : Text} {u : CodeUnit} {n k : ℕ}

lemma number_concat (t : Text) (u : CodeUnit) :
    number (t ++ [u]) = 10 * number t + (u.toNat - 0x30) := by
  rw [number, List.reverse_append, List.reverse_singleton, List.singleton_append, List.map_cons,
    Nat.ofDigits_cons, Nat.add_comm]
  rfl

lemma foldl_eq_number (t : Text) :
    t.foldl (fun n u => 10 * n + (u.toNat - 0x30)) 0 = number t := by
  induction t using List.reverseRecOn with
  | nil => rfl
  | append_singleton t u ih =>
    rw [List.foldl_append, ih, number_concat]
    rfl

/-- Texts are read as numbers if they are digits and at least one. -/
lemma toNat?_eq_some_iff :
    t.toNat? = some n ↔ t ≠ [] ∧ (∀ u ∈ t, u.isDigit = true) ∧ number t = n := by
  rw [toNat?, foldl_eq_number, Option.ite_none_right_eq_some, Bool.and_eq_true, List.all_eq_true,
    Bool.not_eq_true', List.isEmpty_eq_false_iff, Option.some_inj, and_assoc, and_left_comm]

lemma toNat_digit (n : ℕ) : (Hex.digit (n % 10)).isDigit = true ∧
    (Hex.digit (n % 10)).toNat - 0x30 = n % 10 := by
  have hdigit : ∀ d < 10, (Hex.digit d).isDigit = true ∧ (Hex.digit d).toNat - 0x30 = d := by
    decide
  exact hdigit _ (Nat.mod_lt n (by decide))

lemma eq_digit_of_isDigit (h : u.isDigit = true) :
    u.toNat - 0x30 < 10 ∧ u = Hex.digit (u.toNat - 0x30) := by
  rw [CodeUnit.isDigit, Bool.and_eq_true, decide_eq_true_eq, decide_eq_true_eq] at h
  have hlt : u.toNat - 0x30 < 10 := by omega
  refine ⟨hlt, ?_⟩
  rw [Hex.digit, if_pos hlt, ← UInt16.toNat_inj, Nat.toUInt16_eq, UInt16.toNat_ofNat']
  omega

lemma units_digitChar (n : ℕ) :
    units (String.singleton (n % 10).digitChar) = [Hex.digit (n % 10)] := by
  have hdigit : ∀ d < 10, units (String.singleton d.digitChar) = [Hex.digit d] := by decide
  exact hdigit _ (Nat.mod_lt n (by decide))

lemma units_repr_of_lt (h : n < 10) : units n.repr = [Hex.digit (n % 10)] := by
  rw [← units_digitChar, Nat.repr_of_lt h, Nat.mod_eq_of_lt h]

lemma units_repr_of_ge (h : 10 ≤ n) :
    units n.repr = units (n / 10).repr ++ [Hex.digit (n % 10)] := by
  rw [Nat.repr_of_ge h, units_append, units_digitChar]

/-- The written form of a number is read as the number. -/
lemma toNat?_units_repr (n : ℕ) : (units n.repr).toNat? = some n := by
  rw [toNat?_eq_some_iff]
  induction n using Nat.strong_induction_on with
  | h n ih =>
    obtain ⟨hdigit, hvalue⟩ := toNat_digit n
    rcases Nat.lt_or_ge n 10 with hlt | hge
    · rw [units_repr_of_lt hlt]
      refine ⟨List.cons_ne_nil _ _, List.forall_mem_singleton.mpr hdigit, ?_⟩
      rw [← List.nil_append [_], number_concat, hvalue]
      exact (Nat.zero_add _).trans (Nat.mod_eq_of_lt hlt)
    · obtain ⟨hne, hdigits, hnumber⟩ := ih (n / 10) (by omega)
      rw [units_repr_of_ge hge, number_concat, hnumber, hvalue]
      refine ⟨List.append_ne_nil_of_left_ne_nil hne _, fun u hu => ?_, Nat.div_add_mod n 10⟩
      rcases List.mem_append.mp hu with hu | hu
      · exact hdigits u hu
      · rwa [List.mem_singleton.mp hu]

lemma units_repr_ne_nil (n : ℕ) : units n.repr ≠ [] :=
  (toNat?_eq_some_iff.mp (toNat?_units_repr n)).1

/-- It has no zero in front, unless it is a zero alone. -/
lemma head?_units_repr_ne (h : n ≠ 0) : (units n.repr).head? ≠ some (unit '0') := by
  induction n using Nat.strong_induction_on with
  | h n ih =>
    rcases Nat.lt_or_ge n 10 with hlt | hge
    · have hvalue := (toNat_digit n).2
      rw [units_repr_of_lt hlt, List.head?_cons]
      intro hzero
      rw [Option.some.inj hzero, Nat.mod_eq_of_lt hlt] at hvalue
      exact h hvalue.symm
    · rw [units_repr_of_ge hge, List.head?_append_of_ne_nil _ (units_repr_ne_nil _)]
      exact ih (n / 10) (by omega) (by omega)

lemma length_units_repr_le (h : n < 10 ^ (k + 1)) : (units n.repr).length ≤ k + 1 := by
  induction k generalizing n with
  | zero =>
    rw [units_repr_of_lt h]
    exact le_rfl
  | succ k ih =>
    rcases Nat.lt_or_ge n 10 with hlt | hge
    · rw [units_repr_of_lt hlt, List.length_singleton]
      omega
    · have hdiv : n / 10 < 10 ^ (k + 1) := by
        rw [Nat.div_lt_iff_lt_mul (by decide), ← pow_succ]
        exact h
      have hlength := ih hdiv
      rw [units_repr_of_ge hge, List.length_append, List.length_singleton]
      omega

/-- No other text that is read as the number does without a zero in front. -/
lemma eq_units_repr_of_toNat? (h : t.toNat? = some n)
    (hzero : t.head? ≠ some (unit '0') ∨ t.length = 1) : t = units n.repr := by
  induction t using List.reverseRecOn generalizing n with
  | nil => exact absurd rfl (toNat?_eq_some_iff.mp h).1
  | append_singleton t u ih =>
    obtain ⟨-, hdigits, hnumber⟩ := toNat?_eq_some_iff.mp h
    obtain ⟨hlt, hu⟩ := eq_digit_of_isDigit (hdigits u (by simp))
    rw [number_concat] at hnumber
    by_cases hnil : t = []
    · subst hnil
      have hn : n = u.toNat - 0x30 := hnumber.symm.trans (Nat.zero_add _)
      rw [units_repr_of_lt (hn ▸ hlt), hn, Nat.mod_eq_of_lt hlt, ← hu]
      rfl
    · have hhead : t.head? ≠ some (unit '0') := by
        rw [List.head?_append_of_ne_nil _ hnil, List.length_append] at hzero
        refine hzero.resolve_right fun hlength => hnil (List.length_eq_zero_iff.mp ?_)
        exact Nat.succ.inj hlength
      have hfront : toNat? t = some (number t) := toNat?_eq_some_iff.mpr
        ⟨hnil, fun v hv => hdigits v (List.mem_append_left _ hv), rfl⟩
      have ht := ih hfront (.inl hhead)
      -- A front that stands for zero would be a zero itself.
      have hpos : number t ≠ 0 := by
        intro hnumber
        rw [hnumber] at ht
        exact hhead (ht ▸ rfl)
      have hdiv : n / 10 = number t := by omega
      have hmod : n % 10 = u.toNat - 0x30 := by omega
      rw [units_repr_of_ge (by omega), hdiv, hmod, ← hu, ← ht]

end Text

section Named

variable {α : Type} {all : List α} {name : α → String}

/-- A search for a name finds the value that has it, if the values are found under their
own names. -/
lemma find?_name_eq_some_iff
    (hname : ∀ a, (all.find? fun b => units (name b) == units (name a)) = some a)
    {t : Text} {a : α} :
    (all.find? fun b => units (name b) == t) = some a ↔ units (name a) = t := by
  constructor
  · intro h
    have hfound : (units (name a) == t) = true :=
      List.find?_some (p := fun b => units (name b) == t) h
    exact beq_iff_eq.mp hfound
  · rintro rfl
    exact hname a

end Named

end InertText
