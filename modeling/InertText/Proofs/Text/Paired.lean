import InertText.Text.Surrogates
import Mathlib.Data.List.Basic
import Mathlib.Tactic.Common

/-!
# Texts of whole characters

A well-formed text is nothing but units of the basic plane and pairs. Cut in two it
stays well-formed on both sides, unless the cut goes through a pair. A converter to
UTF-8 that gets the two sides one after the other then takes each half for a
character of its own, and writes more octets than the pair has.
-/
namespace InertText

namespace CodeUnit

variable {u : CodeUnit}

lemma isSurrogate_of_high (h : u.isHighSurrogate = true) : u.isSurrogate = true := by
  rw [isSurrogate, h, Bool.true_or]

lemma isSurrogate_of_low (h : u.isLowSurrogate = true) : u.isSurrogate = true := by
  rw [isSurrogate, h, Bool.or_true]

lemma isSurrogate_eq_false_iff :
    u.isSurrogate = false ↔ u.isHighSurrogate = false ∧ u.isLowSurrogate = false :=
  Bool.or_eq_false_iff

lemma not_low_of_high (h : u.isHighSurrogate = true) : u.isLowSurrogate = false := by
  simp only [isHighSurrogate, isLowSurrogate, Bool.and_eq_true, Bool.and_eq_false_iff,
    decide_eq_true_eq, decide_eq_false_iff_not] at h ⊢
  omega

lemma not_high_of_low (h : u.isLowSurrogate = true) : u.isHighSurrogate = false :=
  Bool.eq_false_iff.mpr fun hhigh => by simp [not_low_of_high hhigh] at h

def pairToChar (high low : CodeUnit) : Char :=
  Char.ofNat (0x10000 + (high.toNat - 0xd800) * 0x400 + (low.toNat - 0xdc00))

/-- A pair stands for a character above the basic plane. -/
lemma toNat_pairToChar {high low : CodeUnit} (hhigh : high.isHighSurrogate = true)
    (hlow : low.isLowSurrogate = true) :
    (high.pairToChar low).toNat =
      0x10000 + (high.toNat - 0xd800) * 0x400 + (low.toNat - 0xdc00) := by
  have hvalid : (0x10000 + (high.toNat - 0xd800) * 0x400 + (low.toNat - 0xdc00)).isValidChar := by
    simp only [isHighSurrogate, isLowSurrogate, Bool.and_eq_true, decide_eq_true_eq] at hhigh hlow
    simp only [Nat.isValidChar]
    omega
  rw [pairToChar, Char.ofNat, dif_pos hvalid]
  rfl

end CodeUnit

namespace Text

variable {s t : Text} {u v high low : CodeUnit}

/-- The characters of a text. A half that stands alone counts as the replacement
character. -/
def characters : Text → List Char
  | [] => []
  | [u] => [u.toChar]
  | u :: v :: t =>
    if u.isHighSurrogate ∧ v.isLowSurrogate then u.pairToChar v :: characters t
    else u.toChar :: characters (v :: t)

/-- The octets of a text in UTF-8. -/
def utf8 (t : Text) : List UInt8 := t.characters.flatMap String.utf8EncodeChar

/-- Texts of units of the basic plane and pairs. -/
inductive Paired : Text → Prop where
  | nil : Paired []
  | single {u : CodeUnit} {t : Text} : u.isSurrogate = false → Paired t → Paired (u :: t)
  | pair {high low : CodeUnit} {t : Text} : high.isHighSurrogate = true →
      low.isLowSurrogate = true → Paired t → Paired (high :: low :: t)

/-- The units of a text between their neighbours, where a unit may stand before it. -/
def placedFrom (before : Option CodeUnit) : Text → List Placed
  | [] => []
  | u :: t => ⟨before, u, t.head?⟩ :: placedFrom (some u) t

lemma placed_eq_placedFrom (t : Text) : t.placed = placedFrom none t := by
  have hfrom : ∀ before, (before :: t.map some).zipWith
      (fun before p => (⟨before, p.1, p.2⟩ : Placed))
      (t.zip (t.tail.map some ++ [none])) = placedFrom before t := by
    induction t with
    | nil => exact fun _ => rfl
    | cons u t ih =>
      intro before
      cases t with
      | nil => rfl
      | cons v t => exact congrArg (⟨before, u, some v⟩ :: ·) (ih (some u))
  exact hfrom none

/-- No half stands alone in a text of whole characters, unless a high half before it
takes the first unit away. -/
lemma Paired.forall_placedFrom (h : Paired t) {before : Option CodeUnit}
    (hbefore : before.any CodeUnit.isHighSurrogate = false) :
    ∀ p ∈ placedFrom before t, p.isLone = false := by
  induction h generalizing before with
  | nil => exact fun p hp => absurd hp List.not_mem_nil
  | single hu _ ih =>
    obtain ⟨hhigh, hlow⟩ := CodeUnit.isSurrogate_eq_false_iff.mp hu
    rw [placedFrom, List.forall_mem_cons]
    exact ⟨by simp [Placed.isLone, hhigh, hlow], ih hhigh⟩
  | pair hhigh hlow _ ih =>
    rw [placedFrom, placedFrom, List.forall_mem_cons, List.forall_mem_cons]
    refine ⟨?_, ?_, ih (CodeUnit.not_high_of_low hlow)⟩
    · simp [Placed.isLone, CodeUnit.not_low_of_high hhigh, hlow]
    · simp [Placed.isLone, CodeUnit.not_high_of_low hlow, hhigh]

lemma paired_of_forall_placedFrom {before : Option CodeUnit}
    (hbefore : before.any CodeUnit.isHighSurrogate = false)
    (h : ∀ p ∈ placedFrom before t, p.isLone = false) : Paired t := by
  induction t using characters.induct generalizing before with
  | case1 => exact .nil
  | case2 u =>
    have hself := h _ List.mem_cons_self
    simp only [Placed.isLone, hbefore, List.head?_nil, Option.any_none, Bool.not_false,
      Bool.and_true] at hself
    exact .single hself .nil
  | case3 u v t hpair ih =>
    rw [placedFrom, placedFrom, List.forall_mem_cons, List.forall_mem_cons] at h
    have hlow : (some v).any CodeUnit.isHighSurrogate = false := CodeUnit.not_high_of_low hpair.2
    exact .pair hpair.1 hpair.2 (ih hlow h.2.2)
  | case4 u v t hpair ih =>
    rw [placedFrom, List.forall_mem_cons] at h
    obtain ⟨hself, hrest⟩ := h
    have hself : u.isSurrogate = false := by
      cases hu : u.isHighSurrogate <;> cases hv : v.isLowSurrogate <;>
        simp_all [Placed.isLone, CodeUnit.isSurrogate]
    have hhigh : (some u).any CodeUnit.isHighSurrogate = false :=
      (CodeUnit.isSurrogate_eq_false_iff.mp hself).1
    exact .single hself (ih hhigh hrest)

/-- The texts of whole characters are the well-formed ones. -/
theorem isWellFormed_iff_paired : t.isWellFormed = true ↔ Paired t := by
  rw [isWellFormed, placed_eq_placedFrom, List.all_eq_true]
  constructor
  · intro h
    exact paired_of_forall_placedFrom rfl fun p hp => by simpa using h p hp
  · intro h p hp
    rw [h.forall_placedFrom rfl p hp, Bool.not_false]

lemma characters_cons (h : u.isHighSurrogate = false) (t : Text) :
    characters (u :: t) = u.toChar :: characters t := by
  cases t with
  | nil => rfl
  | cons v t =>
    rw [characters, if_neg]
    rintro ⟨hhigh, -⟩
    simp [h] at hhigh

lemma characters_pair (hhigh : high.isHighSurrogate = true) (hlow : low.isLowSurrogate = true)
    (t : Text) : characters (high :: low :: t) = high.pairToChar low :: characters t := by
  rw [characters, if_pos ⟨hhigh, hlow⟩]

/-- A character of a text is one of its units, or it is above the basic plane. -/
lemma Paired.forall_characters {p : Char → Prop} (h : Paired t)
    (hsingle : ∀ u ∈ t, u.isSurrogate = false → p u.toChar)
    (hpair : ∀ high low : CodeUnit, high.isHighSurrogate = true → low.isLowSurrogate = true →
      p (high.pairToChar low)) : ∀ c ∈ t.characters, p c := by
  induction h with
  | nil => exact fun c hc => absurd hc List.not_mem_nil
  | single hu _ ih =>
    rw [List.forall_mem_cons] at hsingle
    rw [characters_cons (CodeUnit.isSurrogate_eq_false_iff.mp hu).1, List.forall_mem_cons]
    exact ⟨hsingle.1 hu, ih hsingle.2⟩
  | pair hhigh hlow _ ih =>
    rw [List.forall_mem_cons, List.forall_mem_cons] at hsingle
    rw [characters_pair hhigh hlow, List.forall_mem_cons]
    exact ⟨hpair _ _ hhigh hlow, ih hsingle.2.2⟩

/-- The string of a text of whole characters has its characters. -/
lemma Paired.toString?_eq (h : Paired t) : t.toString? = some (String.ofList t.characters) := by
  have hfrom : ∀ before, (placedFrom before t).flatMap Placed.characters = t.characters := by
    induction h with
    | nil => exact fun _ => rfl
    | @single u t hu _ ih =>
      intro before
      obtain ⟨hhigh, hlow⟩ := CodeUnit.isSurrogate_eq_false_iff.mp hu
      rw [placedFrom, List.flatMap_cons, ih, characters_cons hhigh, CodeUnit.toChar, hu]
      simp [Placed.characters, hhigh, hlow]
    | @pair high low t hhigh hlow _ ih =>
      intro before
      rw [placedFrom, placedFrom, List.flatMap_cons, List.flatMap_cons, ih,
        characters_pair hhigh hlow]
      simp [Placed.characters, hhigh, hlow, CodeUnit.not_low_of_high hhigh, CodeUnit.pairToChar]
  rw [toString?, if_pos (isWellFormed_iff_paired.mpr h), placed_eq_placedFrom, hfrom]

lemma paired_of_not_surrogate (h : ∀ u ∈ t, u.isSurrogate = false) : Paired t := by
  induction t with
  | nil => exact .nil
  | cons u t ih =>
    rw [List.forall_mem_cons] at h
    exact .single h.1 (ih h.2)

lemma Paired.append (hs : Paired s) (ht : Paired t) : Paired (s ++ t) := by
  induction hs with
  | nil => exact ht
  | single hu _ ih => exact .single hu ih
  | pair hhigh hlow _ ih => exact .pair hhigh hlow ih

/-- A cut leaves whole characters on both sides, or it goes through one pair. -/
lemma Paired.cut (h : Paired (s ++ t)) :
    (Paired s ∧ Paired t) ∨ ∃ front high low back, Paired front ∧ s = front ++ [high] ∧
      t = low :: back ∧ high.isHighSurrogate = true ∧ low.isLowSurrogate = true := by
  generalize hr : s ++ t = r at h
  induction h generalizing s with
  | nil =>
    obtain ⟨rfl, rfl⟩ := List.append_eq_nil_iff.mp hr
    exact .inl ⟨.nil, .nil⟩
  | @single u r hu hrest ih =>
    cases s with
    | nil =>
      obtain rfl : t = u :: r := hr
      exact .inl ⟨.nil, .single hu hrest⟩
    | cons x s =>
      obtain ⟨rfl, htail⟩ := List.cons.inj hr
      rcases ih htail with ⟨hs, ht⟩ | ⟨front, high, low, back, hfront, rfl, rfl, hhigh, hlow⟩
      · exact .inl ⟨.single hu hs, ht⟩
      · exact .inr ⟨x :: front, high, low, back, .single hu hfront, rfl, rfl, hhigh, hlow⟩
  | @pair high low r hhigh hlow hpaired ih =>
    match s with
    | [] =>
      obtain rfl : t = high :: low :: r := hr
      exact .inl ⟨.nil, .pair hhigh hlow hpaired⟩
    | [x] =>
      obtain ⟨rfl, ht⟩ := List.cons.inj hr
      exact .inr ⟨[], x, low, r, .nil, rfl, ht, hhigh, hlow⟩
    | x :: y :: s =>
      obtain ⟨rfl, htail⟩ := List.cons.inj hr
      obtain ⟨rfl, hrest⟩ := List.cons.inj htail
      rcases ih hrest with ⟨hs, ht⟩ | ⟨front, h, l, back, hfront, rfl, rfl, hh, hl⟩
      · exact .inl ⟨.pair hhigh hlow hs, ht⟩
      · exact .inr ⟨x :: y :: front, h, l, back, .pair hhigh hlow hfront, rfl, rfl, hh, hl⟩

def EndsInHigh (t : Text) : Prop := ∃ high, t.getLast? = some high ∧ high.isHighSurrogate = true

lemma endsInHigh_concat (h : high.isHighSurrogate = true) (t : Text) : EndsInHigh (t ++ [high]) :=
  ⟨high, List.getLast?_concat .., h⟩

lemma Paired.not_endsInHigh (h : Paired t) : ¬ t.EndsInHigh := by
  rintro ⟨u, hlast, hu⟩
  induction h with
  | nil => simp at hlast
  | @single v t hv _ ih =>
    cases t with
    | nil =>
      rw [List.getLast?_singleton, Option.some_inj] at hlast
      rw [hlast, CodeUnit.isSurrogate_of_high hu] at hv
      exact absurd hv (by decide)
    | cons w t => exact ih hlast
  | @pair high low t hhigh hlow _ ih =>
    cases t with
    | nil =>
      rw [List.getLast?_cons_cons, List.getLast?_singleton, Option.some_inj] at hlast
      rw [hlast, CodeUnit.not_low_of_high hu] at hlow
      exact absurd hlow (by decide)
    | cons w t => exact ih hlast

/-- Behind a high half of the text stands its low one. -/
lemma Paired.exists_low (h : Paired (s ++ high :: t)) (hhigh : high.isHighSurrogate = true) :
    ∃ low back, t = low :: back ∧ low.isLowSurrogate = true := by
  rw [List.append_cons] at h
  rcases h.cut with ⟨hpaired, -⟩ | ⟨-, -, low, back, -, -, ht, -, hlow⟩
  · exact absurd (endsInHigh_concat hhigh s) hpaired.not_endsInHigh
  · exact ⟨low, back, ht, hlow⟩

lemma Paired.characters_append (hs : Paired s) (t : Text) :
    (s ++ t).characters = s.characters ++ t.characters := by
  induction hs with
  | nil => rfl
  | single hu _ ih =>
    have hhigh := (CodeUnit.isSurrogate_eq_false_iff.mp hu).1
    rw [List.cons_append, characters_cons hhigh, characters_cons hhigh, ih, List.cons_append]
  | pair hhigh hlow _ ih =>
    rw [List.cons_append, List.cons_append, characters_pair hhigh hlow,
      characters_pair hhigh hlow, ih, List.cons_append]

lemma Paired.utf8_append (hs : Paired s) (t : Text) : utf8 (s ++ t) = utf8 s ++ utf8 t := by
  rw [utf8, hs.characters_append, List.flatMap_append]
  rfl

lemma length_utf8_of_characters {c : Char} (h : characters s = c :: characters t) :
    (utf8 s).length = c.utf8Size + (utf8 t).length := by
  rw [utf8, h, List.flatMap_cons, List.length_append, String.length_utf8EncodeChar]
  rfl

lemma utf8Size_toChar (h : u.isSurrogate = true) : u.toChar.utf8Size = 3 := by
  rw [CodeUnit.toChar, if_pos h]
  rfl

/-- The halves of a pair take more room than the pair. -/
lemma length_utf8_pair_lt (hhigh : high.isHighSurrogate = true) (hlow : low.isLowSurrogate = true)
    (t : Text) :
    (utf8 (high :: low :: t)).length < (utf8 [high]).length + (utf8 (low :: t)).length := by
  have hpair := length_utf8_of_characters (characters_pair hhigh hlow t)
  have hfirst := length_utf8_of_characters (s := [high]) (t := []) rfl
  have hsecond := length_utf8_of_characters (characters_cons (CodeUnit.not_high_of_low hlow) t)
  have hsize := (high.pairToChar low).utf8Size_le_four
  rw [utf8Size_toChar (CodeUnit.isSurrogate_of_high hhigh)] at hfirst
  rw [utf8Size_toChar (CodeUnit.isSurrogate_of_low hlow)] at hsecond
  omega

lemma length_utf8_append_le (s t : Text) :
    (utf8 (s ++ t)).length ≤ (utf8 s).length + (utf8 t).length := by
  induction s using characters.induct with
  | case1 => exact Nat.le_add_left _ _
  | case2 u =>
    cases t with
    | nil => exact Nat.le_add_right _ _
    | cons v t =>
      by_cases hpair : u.isHighSurrogate = true ∧ v.isLowSurrogate = true
      · exact Nat.le_of_lt (length_utf8_pair_lt hpair.1 hpair.2 t)
      · have hboth : characters (u :: v :: t) = u.toChar :: characters (v :: t) := by
          rw [characters, if_neg hpair]
        have hone := length_utf8_of_characters (s := [u]) (t := []) rfl
        have hlength := length_utf8_of_characters hboth
        simp only [List.singleton_append]
        omega
  | case3 u v s hpair ih =>
    have hlength := length_utf8_of_characters (characters_pair hpair.1 hpair.2 s)
    have happend := length_utf8_of_characters (characters_pair hpair.1 hpair.2 (s ++ t))
    simp only [List.cons_append]
    omega
  | case4 u v s hpair ih =>
    have hfirst : ∀ r, characters (u :: v :: r) = u.toChar :: characters (v :: r) := by
      intro r
      rw [characters, if_neg hpair]
    have hlength := length_utf8_of_characters (hfirst s)
    have happend := length_utf8_of_characters (hfirst (s ++ t))
    simp only [List.cons_append] at ih ⊢
    omega

/-- A cut in the middle of a pair shows in the number of octets. -/
lemma Paired.length_utf8_append_lt (h : Paired (s ++ t)) (hs : EndsInHigh s) :
    (utf8 (s ++ t)).length < (utf8 s).length + (utf8 t).length := by
  rcases h.cut with ⟨hpaired, -⟩ | ⟨front, high, low, back, hfront, rfl, rfl, hhigh, hlow⟩
  · exact absurd hs hpaired.not_endsInHigh
  · have hpair := length_utf8_pair_lt hhigh hlow back
    rw [List.append_assoc, List.singleton_append, hfront.utf8_append, hfront.utf8_append,
      List.length_append, List.length_append]
    omega

variable {chunks : List Text}

lemma length_utf8_flatten_le (chunks : List Text) :
    (utf8 chunks.flatten).length ≤ (chunks.flatMap utf8).length := by
  induction chunks with
  | nil => exact Nat.le_refl _
  | cons chunk chunks ih =>
    rw [List.flatten_cons, List.flatMap_cons, List.length_append]
    exact Nat.le_trans (length_utf8_append_le _ _) (Nat.add_le_add_left ih _)

lemma utf8_flatten (h : ∀ chunk ∈ chunks, Paired chunk) :
    utf8 chunks.flatten = chunks.flatMap utf8 := by
  induction chunks with
  | nil => rfl
  | cons chunk chunks ih =>
    rw [List.forall_mem_cons] at h
    rw [List.flatten_cons, h.1.utf8_append, ih h.2, List.flatMap_cons]

lemma Paired.forall_chunk_iff (h : Paired chunks.flatten) :
    (∀ chunk ∈ chunks, Paired chunk) ↔ ∀ chunk ∈ chunks, ¬ EndsInHigh chunk := by
  constructor
  · exact fun hpaired chunk hchunk => (hpaired chunk hchunk).not_endsInHigh
  · intro hends
    induction chunks with
    | nil => exact fun chunk hchunk => absurd hchunk List.not_mem_nil
    | cons chunk chunks ih =>
      rw [List.forall_mem_cons] at hends ⊢
      rcases h.cut with ⟨hchunk, hrest⟩ | ⟨front, high, low, back, -, rfl, -, hhigh, -⟩
      · exact ⟨hchunk, ih hrest hends.2⟩
      · exact absurd (endsInHigh_concat hhigh front) hends.1

/-- Chunks that are converted one by one give the octets of the whole text exactly if
no chunk ends in the middle of a pair. -/
theorem Paired.flatMap_utf8_eq_iff (h : Paired chunks.flatten) :
    chunks.flatMap utf8 = utf8 chunks.flatten ↔ ∀ chunk ∈ chunks, ¬ EndsInHigh chunk := by
  constructor
  · intro heq chunk hchunk hends
    obtain ⟨before, after, rfl⟩ := List.append_of_mem hchunk
    obtain ⟨u, hlast, hu⟩ := hends
    have hcut : EndsInHigh (before.flatten ++ chunk) :=
      ⟨u, by rw [List.getLast?_append, hlast, Option.some_or], hu⟩
    rw [List.flatten_append, List.flatten_cons, ← List.append_assoc] at h heq
    have hlt := h.length_utf8_append_lt hcut
    have hfront := length_utf8_append_le before.flatten chunk
    have hbefore := length_utf8_flatten_le before
    have hafter := length_utf8_flatten_le after
    have hlength := congrArg List.length heq
    rw [List.flatMap_append, List.flatMap_cons, List.length_append, List.length_append] at hlength
    omega
  · exact fun hends => (utf8_flatten (h.forall_chunk_iff.mpr hends)).symm

end Text

end InertText
