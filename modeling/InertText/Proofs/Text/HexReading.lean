import InertText.Text.Hex
import Mathlib

/-!
# Reading hexadecimal text

Hex text is read in base sixteen, in either case. What is written for a unit is
read as that unit, however much it is padded, because the zeros in front of the
digits count for nothing. The number of digits is known wherever a reader takes
a fixed number of them.
-/
namespace InertText.Hex

def isDigit (u : CodeUnit) : Bool :=
  let n := u.toNat
  (0x30 ≤ n && n ≤ 0x39) || (0x41 ≤ n && n ≤ 0x46) || (0x61 ≤ n && n ≤ 0x66)

def value (u : CodeUnit) : ℕ :=
  let n := u.toNat
  if n ≤ 0x39 then n - 0x30 else if n ≤ 0x46 then n - 0x37 else n - 0x57

/-- The number of digits in base sixteen, the most significant first. -/
def number (ds : List ℕ) : ℕ := ds.foldl (fun n d => 16 * n + d) 0

/-- The number that a text of hexadecimal digits stands for. -/
def read? (t : Text) : Option ℕ :=
  if t.all isDigit && !t.isEmpty then some (number (t.map value)) else none

/-- The units of a code point: one, or a surrogate pair. -/
def codePoint? (n : ℕ) : Option Text :=
  if n < 0x10000 then some [.ofNat n]
  else if n < 0x110000 then some (unitsOfChar (Char.ofNat n))
  else none

lemma isDigit_digit : ∀ d < 16, isDigit (digit d) = true := by decide

lemma value_digit : ∀ d < 16, value (digit d) = d := by decide

lemma number_nibbles (u : CodeUnit) : number (nibbles u) = u.toNat := by
  have hu := u.toNat_lt
  simp only [number, nibbles, List.foldl_cons, List.foldl_nil]
  omega

lemma number_dropWhile (ds : List ℕ) : number (ds.dropWhile (· == 0)) = number ds := by
  induction ds with
  | nil => rfl
  | cons d ds ih =>
    by_cases h : d = 0
    · subst h
      rw [List.dropWhile_cons_of_pos (by rfl), ih]
      rfl
    · rw [List.dropWhile_cons_of_neg (by simpa using h)]

lemma number_replicate_append (n : ℕ) (ds : List ℕ) :
    number (List.replicate n 0 ++ ds) = number ds := by
  induction n with
  | zero => rfl
  | succ n ih => exact ih

/-- The significant digits begin with one that is not zero, or are a single zero. -/
lemma significant_cases (u : CodeUnit) :
    ((nibbles u).dropWhile (· == 0) = [] ∧ significant u = [0]) ∨
    ∃ d ds, d ≠ 0 ∧ (nibbles u).dropWhile (· == 0) = d :: ds ∧ significant u = d :: ds := by
  unfold significant
  cases h : (nibbles u).dropWhile (· == 0) with
  | nil => exact .inl ⟨rfl, rfl⟩
  | cons d ds =>
    have hd := List.head_dropWhile_not (· == 0) (l := nibbles u) (by simp [h])
    simp only [h, List.head_cons, beq_eq_false_iff_ne] at hd
    exact .inr ⟨d, ds, hd, rfl, rfl⟩

lemma number_significant (u : CodeUnit) : number (significant u) = u.toNat := by
  rw [← number_nibbles u, ← number_dropWhile (nibbles u)]
  obtain ⟨hdrop, hsig⟩ | ⟨d, ds, -, hdrop, hsig⟩ := significant_cases u
  · rw [hdrop, hsig]
    rfl
  · rw [hdrop, hsig]

lemma lt_of_mem_significant {u : CodeUnit} {d : ℕ} (h : d ∈ significant u) : d < 16 := by
  have hu := u.toNat_lt
  have hnibbles : ∀ d ∈ nibbles u, d < 16 := by
    simp only [nibbles, List.forall_mem_cons, List.not_mem_nil, false_implies, implies_true,
      and_true]
    omega
  rw [significant] at h
  split at h
  · simp_all
  · exact hnibbles d (List.dropWhile_subset _ h)

/-- Padding puts zeros in front of the significant digits. -/
lemma text_eq_map (width : ℤ) (u : CodeUnit) :
    text width u =
      (List.replicate (width - (significant u).length).toNat 0 ++ significant u).map digit := by
  rw [text, digits, List.length_map, List.map_append, List.map_replicate]
  rfl

/-- What is written for a unit is a number of digits that stand for the unit. -/
lemma exists_digits_text (width : ℤ) (u : CodeUnit) :
    ∃ ds, text width u = ds.map digit ∧ (∀ d ∈ ds, d < 16) ∧ number ds = u.toNat := by
  refine ⟨_, text_eq_map width u, fun d hd => ?_, ?_⟩
  · rcases List.mem_append.mp hd with hd | hd
    · rw [List.eq_of_mem_replicate hd]
      decide
    · exact lt_of_mem_significant hd
  · rw [number_replicate_append, number_significant]

lemma isAlphanumeric_of_mem_text {width : ℤ} {u v : CodeUnit} (h : v ∈ text width u) :
    v.isAlphanumeric = true := by
  have hdigit : ∀ d < 16, (digit d).isAlphanumeric = true := by decide
  obtain ⟨ds, htext, hlt, -⟩ := exists_digits_text width u
  obtain ⟨d, hd, rfl⟩ := List.mem_map.mp (htext ▸ h)
  exact hdigit d (hlt d hd)

lemma isAlphanumeric_of_read? {t : Text} {n : ℕ} {u : CodeUnit} (h : read? t = some n)
    (hu : u ∈ t) : u.isAlphanumeric = true := by
  unfold read? at h
  split_ifs at h with hdigits
  have hu := List.all_eq_true.mp (Bool.and_eq_true_iff.mp hdigits).1 u hu
  simp only [isDigit, CodeUnit.isAlphanumeric, Bool.or_eq_true, Bool.and_eq_true,
    decide_eq_true_eq] at hu ⊢
  omega

lemma significant_ne_nil (u : CodeUnit) : significant u ≠ [] := by
  obtain ⟨-, hsig⟩ | ⟨d, ds, -, -, hsig⟩ := significant_cases u <;> simp [hsig]

/-- The text of a unit is read as the unit, whatever its width. -/
theorem read?_text (width : ℤ) (u : CodeUnit) : read? (text width u) = some u.toNat := by
  obtain ⟨ds, htext, hlt, hnumber⟩ := exists_digits_text width u
  have hdigits : (ds.map digit).all isDigit = true := by
    rw [List.all_map, List.all_eq_true]
    exact fun d hd => isDigit_digit d (hlt d hd)
  have hne : (ds.map digit).isEmpty = false := by
    rw [← htext]
    simp [text_eq_map, significant_ne_nil]
  have hvalues : (ds.map digit).map value = ds := by
    rw [List.map_map]
    exact (List.map_congr_left fun d hd => value_digit d (hlt d hd)).trans (List.map_id ds)
  rw [htext, read?, hdigits, hne, hvalues, hnumber]
  rfl

lemma codePoint?_toNat (u : CodeUnit) : codePoint? u.toNat = some [u] := by
  rw [codePoint?, if_pos u.toNat_lt, UInt16.ofNat_toNat]

lemma pow_length_le_number {d : ℕ} (hd : d ≠ 0) (ds : List ℕ) :
    16 ^ ds.length ≤ number (d :: ds) := by
  induction ds using List.reverseRecOn with
  | nil =>
    simp only [number, List.foldl_cons, List.foldl_nil, List.length_nil, pow_zero]
    omega
  | append_singleton ds e ih =>
    have hstep : number (d :: (ds ++ [e])) = 16 * number (d :: ds) + e := by
      simp [number, List.foldl_append]
    rw [hstep, List.length_append, List.length_singleton, pow_succ]
    omega

lemma length_significant_le {u : CodeUnit} {n : ℕ} (hn : 0 < n) (hu : u.toNat < 16 ^ n) :
    (significant u).length ≤ n := by
  obtain ⟨-, hsig⟩ | ⟨d, ds, hd, -, hsig⟩ := significant_cases u
  · rw [hsig]
    exact hn
  · have hle := pow_length_le_number hd ds
    rw [← hsig, number_significant] at hle
    have hlt := (Nat.pow_lt_pow_iff_right (by decide)).mp (hle.trans_lt hu)
    rw [hsig, List.length_cons]
    omega

lemma length_text_eq_max (width : ℤ) (u : CodeUnit) :
    ((text width u).length : ℤ) = max width (significant u).length := by
  rw [text_eq_map, List.length_map, List.length_append, List.length_replicate]
  omega

/-- A text is as wide as asked for, where that leaves room for the digits. -/
lemma length_text {u : CodeUnit} {n : ℕ} (hn : 0 < n) (hu : u.toNat < 16 ^ n) :
    (text n u).length = n := by
  have hlen := length_significant_le hn hu
  have hmax := length_text_eq_max n u
  omega

/-- An octet is written in two digits. -/
lemma exists_digits_octet (b : UInt8) : ∃ x y, x < 16 ∧ y < 16 ∧ 16 * x + y = b.toNat ∧
    octet b = [upper (digit x), upper (digit y)] := by
  have hb : b.toUInt16.toNat < 16 ^ 2 := by
    rw [UInt8.toNat_toUInt16]
    exact b.toNat_lt
  obtain ⟨ds, htext, hlt, hnumber⟩ := exists_digits_text 2 b.toUInt16
  have hlen : (text 2 b.toUInt16).length = 2 := length_text (by decide) hb
  rw [htext, List.length_map] at hlen
  obtain ⟨x, y, rfl⟩ := List.length_eq_two.mp hlen
  refine ⟨x, y, hlt x (by simp), hlt y (by simp), ?_, ?_⟩
  · simpa [number] using hnumber
  · rw [octet, htext]
    rfl

lemma isAlphanumeric_of_mem_octet {b : UInt8} {v : CodeUnit} (h : v ∈ octet b) :
    v.isAlphanumeric = true := by
  have hdigit : ∀ d < 16, (upper (digit d)).isAlphanumeric = true := by decide
  obtain ⟨x, y, hx, hy, -, ho⟩ := exists_digits_octet b
  rw [ho] at h
  rcases List.mem_pair.mp h with rfl | rfl
  · exact hdigit x hx
  · exact hdigit y hy

lemma length_octet (b : UInt8) : (octet b).length = 2 := by
  obtain ⟨x, y, -, -, -, ho⟩ := exists_digits_octet b
  rw [ho]
  rfl

end InertText.Hex
