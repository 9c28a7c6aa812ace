import InertText.Text.Basic

/-!
# Hexadecimal text of code units

A unit has four base-sixteen digits. `text` drops the leading zeros, keeps at
least one digit, and then pads with zeros up to a width. Any integer may be
asked for as a width; one that is not positive pads nothing.
-/
namespace InertText.Hex

/-- The lowercase digit of a value below sixteen. -/
def digit (d : Nat) : CodeUnit := if d < 10 then (0x30 + d).toUInt16 else (0x57 + d).toUInt16

/-- The four base-sixteen digits of a unit, the most significant first. -/
def nibbles (u : CodeUnit) : List Nat :=
  [u.toNat / 0x1000, u.toNat / 0x100 % 0x10, u.toNat / 0x10 % 0x10, u.toNat % 0x10]

/-- The digits without leading zeros. Zero itself keeps one digit. -/
def significant (u : CodeUnit) : List Nat :=
  match (nibbles u).dropWhile (· == 0) with
  | [] => [0]
  | digits => digits

def digits (u : CodeUnit) : Text := (significant u).map digit

/-- Lowercase hex text of at least `width` digits. -/
def text (width : Int) (u : CodeUnit) : Text :=
  List.replicate (width - (digits u).length).toNat (unit '0') ++ digits u

def upper (u : CodeUnit) : CodeUnit :=
  if 0x61 ≤ u.toNat ∧ u.toNat ≤ 0x7a then u - 0x20 else u

/-- Two uppercase digits of an octet. -/
def octet (b : UInt8) : Text := (text 2 b.toUInt16).map upper

end InertText.Hex
