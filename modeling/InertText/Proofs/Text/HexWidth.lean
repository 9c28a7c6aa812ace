import InertText.Proofs.Text.HexReading
import Mathlib.Data.Nat.Digits.Defs

/-!
# The width of hexadecimal text

Hex text has as many lowercase digits as its number needs, or as many as are asked for,
whichever is more. Together with the number this leaves one text only, so different units
have different texts of one width. Where a reader takes two digits or four, exactly so many
are written.
-/
namespace InertText.Hex

/-- The text is the number in lowercase digits of base sixteen, at least `width` of them. A
zero in front is there only to fill the width, or is the number itself. -/
structure Writes (width : ℤ) (n : ℕ) (t : Text) : Prop where
  lowercase : ∀ v ∈ t, v ∈ units "0123456789abcdef"
  read : read? t = some n
  length : (t.length : ℤ) = max width (Nat.toDigits 16 n).length
  zero_in_front : t.head? = some (unit '0') ↔ n = 0 ∨ ((Nat.toDigits 16 n).length : ℤ) < width

variable {width : ℤ} {u : CodeUnit} {t t' : Text} {n : ℕ}

lemma number_eq_ofDigits (ds : List ℕ) : number ds = Nat.ofDigits 16 ds.reverse := by
  rw [Nat.ofDigits_eq_foldr, List.foldr_reverse, number]
  simp only [Nat.add_comm, Nat.cast_id]

/-- Numbers of equally many digits differ in a digit. -/
lemma number_inj {ds ds' : List ℕ} (hlength : ds.length = ds'.length) (hds : ∀ d ∈ ds, d < 16)
    (hds' : ∀ d ∈ ds', d < 16) (h : number ds = number ds') : ds = ds' := by
  rw [number_eq_ofDigits, number_eq_ofDigits] at h
  refine List.reverse_injective (Nat.ofDigits_inj_of_len_eq (by decide) ?_ ?_ ?_ h)
  · rw [List.length_reverse, List.length_reverse, hlength]
  · exact fun d hd => hds d (List.mem_reverse.mp hd)
  · exact fun d hd => hds' d (List.mem_reverse.mp hd)

lemma number_lt_pow_length {ds : List ℕ} (hds : ∀ d ∈ ds, d < 16) :
    number ds < 16 ^ ds.length := by
  rw [number_eq_ofDigits, ← List.length_reverse]
  exact Nat.ofDigits_lt_base_pow_length (by decide) fun d hd => hds d (List.mem_reverse.mp hd)

/-- The digits without zeros in front are as many as the number has in base sixteen. -/
lemma length_significant (u : CodeUnit) :
    (significant u).length = (Nat.toDigits 16 u.toNat).length := by
  apply le_antisymm
  · refine length_significant_le Nat.length_toDigits_pos ?_
    exact (Nat.length_toDigits_le_iff (by decide) Nat.length_toDigits_pos).mp le_rfl
  · have hlt := number_lt_pow_length fun d => lt_of_mem_significant (u := u)
    rw [number_significant] at hlt
    have hpos := List.length_pos_of_ne_nil (significant_ne_nil u)
    exact (Nat.length_toDigits_le_iff (by decide) hpos).mpr hlt

lemma mem_lowercase_iff {v : CodeUnit} :
    v ∈ units "0123456789abcdef" ↔ ∃ d < 16, digit d = v := by
  have hdigits : units "0123456789abcdef" = (List.range 16).map digit := by decide
  simp only [hdigits, List.mem_map, List.mem_range]

lemma digit_eq_zero_iff : ∀ d < 16, digit d = unit '0' ↔ d = 0 := by decide

lemma head?_text_eq_zero_iff (width : ℤ) (u : CodeUnit) : (text width u).head? = some (unit '0') ↔
    u.toNat = 0 ∨ ((significant u).length : ℤ) < width := by
  rw [text_eq_map, List.head?_map]
  rcases Nat.eq_zero_or_pos (width - (significant u).length).toNat with hfill | hfill
  · -- Without zeros to fill the width the first digit is a significant one.
    have hwidth : ¬ ((significant u).length : ℤ) < width := by omega
    rw [hfill, List.replicate_zero, List.nil_append, or_iff_left hwidth]
    have hnumber := number_significant u
    obtain ⟨-, hsig⟩ | ⟨d, ds, hd, -, hsig⟩ := significant_cases u
    · rw [hsig] at hnumber ⊢
      exact iff_of_true rfl hnumber.symm
    · have hlt : d < 16 := lt_of_mem_significant (hsig ▸ List.mem_cons_self)
      have hpos : 0 < number (d :: ds) :=
        (Nat.pow_pos (by decide)).trans_le (pow_length_le_number hd ds)
      rw [hsig] at hnumber ⊢
      rw [List.head?_cons, Option.map_some, Option.some_inj, digit_eq_zero_iff d hlt]
      omega
  · obtain ⟨k, hk⟩ := Nat.exists_eq_succ_of_ne_zero hfill.ne'
    rw [hk, List.replicate_succ]
    exact iff_of_true rfl (.inr (by omega))

lemma writes_text (width : ℤ) (u : CodeUnit) : Writes width u.toNat (text width u) where
  lowercase v hv := by
    obtain ⟨ds, htext, hlt, -⟩ := exists_digits_text width u
    obtain ⟨d, hd, rfl⟩ := List.mem_map.mp (htext ▸ hv)
    exact mem_lowercase_iff.mpr ⟨d, hlt d hd, rfl⟩
  read := read?_text width u
  length := by rw [length_text_eq_max, length_significant]
  zero_in_front := by rw [head?_text_eq_zero_iff, length_significant]

lemma number_of_read? (h : read? t = some n) : number (t.map value) = n := by
  unfold read? at h
  split_ifs at h
  exact Option.some.inj h

/-- Lowercase digits are known by their values. -/
lemma exists_digits (h : ∀ v ∈ t, v ∈ units "0123456789abcdef") :
    t = (t.map value).map digit ∧ ∀ d ∈ t.map value, d < 16 := by
  have hdigit : ∀ v ∈ t, digit (value v) = v ∧ value v < 16 := by
    intro v hv
    obtain ⟨d, hd, rfl⟩ := mem_lowercase_iff.mp (h v hv)
    rw [value_digit d hd]
    exact ⟨rfl, hd⟩
  refine ⟨?_, List.forall_mem_map.mpr fun v hv => (hdigit v hv).2⟩
  rw [List.map_map]
  exact ((List.map_congr_left fun v hv => (hdigit v hv).1).trans (List.map_id t)).symm

/-- A number has one text of each width. -/
lemma Writes.unique (h : Writes width n t) (h' : Writes width n t') : t = t' := by
  obtain ⟨ht, hlt⟩ := exists_digits h.lowercase
  obtain ⟨ht', hlt'⟩ := exists_digits h'.lowercase
  have hlength : (t.map value).length = (t'.map value).length := by
    rw [List.length_map, List.length_map]
    exact Int.ofNat.inj (h.length.trans h'.length.symm)
  have hnumber := (number_of_read? h.read).trans (number_of_read? h'.read).symm
  rw [ht, ht', number_inj hlength hlt hlt' hnumber]

lemma text_eq_iff : text width u = t ↔ Writes width u.toNat t :=
  ⟨fun h => h ▸ writes_text width u, fun h => (writes_text width u).unique h⟩

lemma text_injective (width : ℤ) : Function.Injective (text width) := by
  intro u v h
  have hread := congrArg read? h
  rw [read?_text, read?_text] at hread
  exact UInt16.toNat_inj.mp (Option.some.inj hread)

/-- The text of a unit is the unit's number in digits of base sixteen, and nothing else is. So
no two units share a text of any width, two digits are enough and not too many for what is
below 256, and so are four for every unit. -/
theorem text_exact :
    (∀ width u t, text width u = t ↔ Writes width u.toNat t) ∧
      (∀ width, Function.Injective (text width)) ∧
      (∀ u : CodeUnit, u.toNat < 256 → (text 2 u).length = 2) ∧
      ∀ u, (text 4 u).length = 4 :=
  ⟨fun _ _ _ => text_eq_iff, text_injective, fun _ hu => length_text (n := 2) (by decide) hu,
    fun u => length_text (n := 4) (by decide) u.toNat_lt⟩

/-- A unit of one digit is filled up to two. -/
theorem text_exact_narrow : (0x0f : CodeUnit).toNat < 256 ∧ (text 2 0x0f).length = 2 :=
  ⟨by decide, text_exact.2.2.1 0x0f (by decide)⟩

/-- A width below the number of digits, or below zero, cuts nothing off. -/
example : text 2 0xfffd = units "fffd" ∧ text (-3) 0x2f = units "2f" ∧ text 0 0 = units "0" := by
  decide

end InertText.Hex
