import InertText.Number.Basic
import InertText.Text.Basic

/-!
# The decimal text of a number

The digits of a number are the fewest that read back as the same number, and of
several choices with as few digits the nearest to its exact value. They stand
on the coarsest decimal grid that has a point inside the rounding interval of
the number. A decimal point is written where it falls within twenty-one digits
or at most six zeros before the first digit, and an exponent otherwise.
-/
namespace InertText.Number

/-- The decimal `coefficient * 10 ^ exponent`. -/
structure Decimal where
  coefficient : Nat
  exponent : Int
  deriving DecidableEq, Repr

namespace Decimal

/-- The exact value is the quotient of the two, in quanta. -/
def quanta (d : Decimal) : Nat × Nat :=
  (d.coefficient * Nat.pow 10 d.exponent.toNat * quantaInOne, Nat.pow 10 (-d.exponent).toNat)

/-- Whether a decimal rounds to the magnitude. The ends of the rounding interval
belong to it when the last significant bit is even. -/
def readsAs (d : Decimal) (magnitude : Nat) : Bool :=
  let (num, den) := d.quanta
  let low := (2 * magnitude - spacing (magnitude - 1)) * den
  let high := (2 * magnitude + spacing magnitude) * den
  if magnitude / spacing magnitude % 2 = 0 then low ≤ 2 * num && 2 * num ≤ high
  else low < 2 * num && 2 * num < high

/-- The distance of a decimal from a magnitude, in quanta times the common
denominator of its grid. -/
def distance (d : Decimal) (magnitude : Nat) : Nat :=
  let (num, den) := d.quanta
  ((num : Int) - magnitude * den).natAbs

/-- The point of the grid of multiples of `10 ^ exponent` that rounds to the
magnitude and is nearest to it, of two the even one. Only the two neighbours of
the magnitude on the grid can be nearest. -/
def onGrid? (magnitude : Nat) (exponent : Int) : Option Decimal :=
  let (num, den) := (⟨1, exponent⟩ : Decimal).quanta
  let below : Decimal := ⟨magnitude * den / num, exponent⟩
  let above : Decimal := ⟨below.coefficient + 1, exponent⟩
  match below.readsAs magnitude, above.readsAs magnitude with
  | false, false => none
  | true, false => some below
  | false, true => some above
  | true, true =>
    if below.distance magnitude < above.distance magnitude then some below
    else if above.distance magnitude < below.distance magnitude then some above
    else if below.coefficient % 2 = 0 then some below
    else some above

/-- The shortest decimal of a positive magnitude. Grids from `10 ^ 308` down to
`10 ^ -324` suffice, because the last is finer than the format. -/
def shortest (magnitude : Nat) : Decimal :=
  ((List.range 633).findSome? fun (i : Nat) => onGrid? magnitude (308 - (i : Int))).getD ⟨0, 0⟩

/-- The written form of a positive decimal. -/
def text (d : Decimal) : Text :=
  let digits := units d.coefficient.repr
  let point : Int := digits.length + d.exponent
  let zeros (n : Int) : Text := List.replicate n.toNat (unit '0')
  if 0 < point ∧ point ≤ 21 then
    if 0 ≤ d.exponent then digits ++ zeros d.exponent
    else digits.take point.toNat ++ unit '.' :: digits.drop point.toNat
  else if -6 < point ∧ point ≤ 0 then
    units "0." ++ zeros (-point) ++ digits
  else
    let fraction := if digits.length ≤ 1 then [] else unit '.' :: digits.drop 1
    let sign := if 0 < point then unit '+' else unit '-'
    digits.take 1 ++ fraction ++ unit 'e' :: sign :: units (point - 1).natAbs.repr

end Decimal

/-- The written form of a number. Both zeros are written without a sign. -/
def text : Number → Text
  | .finite negative magnitude =>
    if magnitude = 0 then units "0"
    else (if negative then [unit '-'] else []) ++ (Decimal.shortest magnitude).text
  | .infinite negative => units (if negative then "-Infinity" else "Infinity")

end InertText.Number
