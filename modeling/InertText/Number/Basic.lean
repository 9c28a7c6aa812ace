/-!
# Numbers of double precision

A finite number is counted in quanta of `2 ^ -1074`, the smallest positive
number of the format, so every finite number is a natural number of quanta and
a sign. Numbers from `2 ^ n` to `2 ^ (n + 1)` quanta lie `2 ^ (n - 52)` quanta
apart: 53 significant bits. A decimal is read by rounding its exact value to the
nearest number, a tie to the one with the even last bit. Powers are spelled
`Nat.pow`, the one on natural numbers, whatever other powers are imported.
-/
namespace InertText

/-- A binary floating-point number that is not a NaN. -/
inductive Number where
  | finite (negative : Bool) (quanta : Nat)
  | infinite (negative : Bool)
  deriving DecidableEq, Repr

namespace Number

def quantaInOne : Nat := Nat.pow 2 1074

/-- The least magnitude in quanta that no finite number reaches. -/
def overflow : Nat := Nat.pow 2 1024 * quantaInOne

/-- The distance between neighbouring numbers at a magnitude. Below `2 ^ 53`
quanta every natural number of quanta is a number of the format. -/
def spacing (quanta : Nat) : Nat := Nat.pow 2 (quanta.log2 - 52)

/-- The multiple of `step` that is nearest to `num / den`, of two the one whose
quotient by `step` is even. -/
def roundTo (step num den : Nat) : Nat :=
  let below := num / (step * den)
  let rest := num % (step * den)
  if 2 * rest < step * den ∨ (2 * rest = step * den ∧ below % 2 = 0) then below * step
  else (below + 1) * step

/-- The magnitude in quanta of the number nearest to `num / den` quanta. -/
def nearest (num den : Nat) : Nat := roundTo (spacing (num / den)) num den

/-- The number nearest to `digits / 10 ^ places`, negated if asked for. -/
def ofDecimal (negative : Bool) (digits places : Nat) : Number :=
  let quanta := nearest (digits * quantaInOne) (Nat.pow 10 places)
  if quanta < overflow then .finite negative quanta else .infinite negative

/-- The number of a quotient that is rounded to decimal places first, a half upwards.
A quotient by zero is infinite. -/
def fixed (places num den : Nat) : Number :=
  if den = 0 then .infinite false
  else .ofDecimal false ((2 * num * Nat.pow 10 places + den) / (2 * den)) places

/-- The least natural number that is read as an infinite number: half a spacing
above the greatest finite number, a tie that goes to the even side. -/
def leastInfinite : Nat := Nat.pow 2 1024 - Nat.pow 2 970

/-- The integer that a number is, if it is one. Both zeros are the integer zero. -/
def toInt? : Number → Option Int
  | .finite negative quanta =>
    if quanta % quantaInOne = 0 then
      let magnitude : Int := quanta / quantaInOne
      some (if negative then -magnitude else magnitude)
    else none
  | .infinite _ => none

def isZero : Number → Bool
  | .finite _ quanta => quanta == 0
  | .infinite _ => false

end Number

end InertText
