import InertText.Rules.Basic
import InertText.Text.Hex
import InertText.Text.Surrogates

/-!
# The replacement of a code unit

Every unit is judged on its own, without a look at its neighbours. The rules of
a set are asked in a fixed order and the first that applies gives the
replacement; the last one always applies, so every unit has a replacement, which
may be empty. A unit is kept by filtering when its replacement is itself.
-/
namespace InertText

/-- The backslash form of a unit: a letter for the five short controls, the unit
itself for all others. -/
def slashEscape (u : CodeUnit) : Text :=
  if u = 0x08 then units "\\b"
  else if u = 0x09 then units "\\t"
  else if u = 0x0a then units "\\n"
  else if u = 0x0c then units "\\f"
  else if u = 0x0d then units "\\r"
  else [unit '\\', u]

def isUnchanged (u : CodeUnit) (replacement : Text) : Bool := replacement == [u]

namespace ControlPolicy

/-- The units that the policy singles out. Next line, 0x85, is legal in XML. -/
def covers (p : ControlPolicy) (u : CodeUnit) : Bool :=
  let n := u.toNat
  match p with
  | .keep => false
  | .replace => n ≤ 0x1f || (0x7f ≤ n && n ≤ 0x9f)
  | .drop =>
    n ≤ 0x1f || (0x7f ≤ n && n ≤ 0x84) || (0x86 ≤ n && n ≤ 0x9f) || (0xfdd0 ≤ n && n ≤ 0xfddf)

/-- What the policy writes for a unit that it singles out. -/
def substitute : ControlPolicy → Text
  | .replace => units "&#xfffd;"
  | .keep | .drop => []

end ControlPolicy

namespace Fallback

/-- The percent form of the UTF-8 octets of a unit. Half a surrogate pair has no
octets, so those of the replacement character are written. -/
def percent (u : CodeUnit) : Text :=
  (String.utf8EncodeChar u.toChar).flatMap fun b => unit '%' :: Hex.octet b

def write (f : Fallback) (u : CodeUnit) : Text :=
  match f with
  | .reference => units "&#x" ++ Hex.text 1 u ++ units ";"
  | .scriptEscape => if u.toNat < 0x80 then units "\\x" ++ Hex.text 2 u else [u]
  | .unicodeEscape => units "\\u" ++ Hex.text 4 u
  | .percentOctets => percent u

end Fallback

namespace RuleSet

def passes (rules : RuleSet) (u : CodeUnit) : Bool := rules.passthroughAbove.any (· < u)

/-- The replacement of a unit. The order of the rules decides which units count
as harmless: an immune unit is never escaped, and a unit with a replacement of
its own never counts as a control. -/
def replacement (rules : RuleSet) (u : CodeUnit) : Text :=
  if u.isAlphanumeric || rules.immune.contains u then [u]
  else if rules.escape.contains u then slashEscape u
  else match rules.entities.find? u with
    | some t => t
    | none =>
      if rules.control.covers u then rules.control.substitute
      else if rules.passes u then [u]
      else rules.fallback.write u

/-- Whether filtering keeps the unit. -/
def keeps (rules : RuleSet) (u : CodeUnit) : Bool := isUnchanged u (rules.replacement u)

def encode (rules : RuleSet) (t : Text) : Text := t.flatMap rules.replacement

/-- A text without the units that have another replacement than themselves. -/
def filter (rules : RuleSet) (t : Text) : Text := List.filter rules.keeps t

end RuleSet

end InertText
