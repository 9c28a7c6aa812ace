/-!
# Texts as sequences of UTF-16 code units

A text is a list of 16-bit units. It may hold one half of a surrogate pair
without the other, so it is not a `String`, but every string has a text.
-/
namespace InertText

abbrev CodeUnit := UInt16

abbrev Text := List CodeUnit

/-- The code unit of a character of the basic plane. -/
def unit (c : Char) : CodeUnit := c.val.toUInt16

/-- The one or two code units of a character. -/
def unitsOfChar (c : Char) : Text :=
  if c.val < 0x10000 then [c.val.toUInt16]
  else
    let offset := c.val - 0x10000
    [(0xd800 + offset / 0x400).toUInt16, (0xdc00 + offset % 0x400).toUInt16]

def units (s : String) : Text := s.toList.flatMap unitsOfChar

namespace CodeUnit

def isDigit (u : CodeUnit) : Bool := 0x30 ≤ u.toNat && u.toNat ≤ 0x39

/-- ASCII digits and letters. No rule of any output context changes them. -/
def isAlphanumeric (u : CodeUnit) : Bool :=
  let n := u.toNat
  (0x30 ≤ n && n ≤ 0x39) || (0x41 ≤ n && n ≤ 0x5a) || (0x61 ≤ n && n ≤ 0x7a)

end CodeUnit

end InertText
