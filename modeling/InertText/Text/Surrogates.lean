import InertText.Text.Basic

/-!
# Surrogate pairs

A character above the basic plane is a pair of units, a high half and then a low
one. Whether a half is paired depends on its two neighbours alone: a high half
needs a low one after it and a low half a high one before it. A text is
well-formed when no half stands alone, and then it is the text of a string.
-/
namespace InertText

namespace CodeUnit

/-- The first half of a surrogate pair. -/
def isHighSurrogate (u : CodeUnit) : Bool := 0xd800 ≤ u.toNat && u.toNat ≤ 0xdbff

/-- The second half of a surrogate pair. -/
def isLowSurrogate (u : CodeUnit) : Bool := 0xdc00 ≤ u.toNat && u.toNat ≤ 0xdfff

def isSurrogate (u : CodeUnit) : Bool := u.isHighSurrogate || u.isLowSurrogate

theorem le_of_isSurrogate {u : CodeUnit} (h : u.isSurrogate = true) : 0xd800 ≤ u.toNat := by
  simp only [isSurrogate, isHighSurrogate, isLowSurrogate, Bool.or_eq_true, Bool.and_eq_true,
    decide_eq_true_eq] at h
  omega

/-- No half of a pair is ASCII. -/
theorem not_surrogate_of_lt {u : CodeUnit} (h : u.toNat < 0x80) : u.isSurrogate = false :=
  Bool.eq_false_iff.mpr fun hu => absurd (le_of_isSurrogate hu) (by omega)

/-- The character of a unit taken on its own. Half a pair stands for no
character, so the replacement character takes its place. -/
def toChar (u : CodeUnit) : Char := if u.isSurrogate then '\ufffd' else Char.ofNat u.toNat

theorem toNat_toChar {u : CodeUnit} (h : u.isSurrogate = false) : u.toChar.toNat = u.toNat := by
  have hvalid : u.toNat.isValidChar := by
    have hu := u.toNat_lt
    simp only [isSurrogate, isHighSurrogate, isLowSurrogate, Bool.or_eq_false_iff,
      Bool.and_eq_false_iff, decide_eq_false_iff_not] at h
    simp only [Nat.isValidChar]
    omega
  rw [toChar, h, if_neg Bool.false_ne_true, Char.ofNat, dif_pos hvalid]
  rfl

/-- No unit on its own stands for a character above the basic plane. -/
theorem toNat_toChar_lt (u : CodeUnit) : u.toChar.toNat < 0x10000 := by
  by_cases h : u.isSurrogate = true
  · rw [toChar, if_pos h]
    decide
  · rw [toNat_toChar (Bool.eq_false_iff.2 h)]
    exact u.toNat_lt

end CodeUnit

namespace Text

/-- A unit with the units directly before and after it, where there are any. -/
structure Placed where
  before : Option CodeUnit
  self : CodeUnit
  after : Option CodeUnit

/-- Whether the unit is a surrogate half without its other half. -/
def Placed.isLone (p : Placed) : Bool :=
  (p.self.isHighSurrogate && !p.after.any CodeUnit.isLowSurrogate) ||
    (p.self.isLowSurrogate && !p.before.any CodeUnit.isHighSurrogate)

/-- Every unit of a text between its neighbours. -/
def placed (t : Text) : List Placed :=
  (none :: t.map some).zipWith (fun before (self, after) => ⟨before, self, after⟩)
    (t.zip (t.tail.map some ++ [none]))

/-- No surrogate half of the text stands alone. -/
def isWellFormed (t : Text) : Bool := t.placed.all fun p => !p.isLone

/-- The characters that a unit of a well-formed text contributes. A pair is
counted at its first half, so the second half contributes nothing. -/
def Placed.characters (p : Placed) : List Char :=
  if p.self.isLowSurrogate then []
  else if p.self.isHighSurrogate then
    let low := (p.after.getD 0).toNat
    [Char.ofNat (0x10000 + (p.self.toNat - 0xd800) * 0x400 + (low - 0xdc00))]
  else [Char.ofNat p.self.toNat]

/-- The string of a well-formed text. -/
def toString? (t : Text) : Option String :=
  if t.isWellFormed then some (String.ofList (t.placed.flatMap Placed.characters)) else none

end Text

end InertText
