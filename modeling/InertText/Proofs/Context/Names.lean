import InertText.Context.Registry
import InertText.Proofs.Text.Written
import Mathlib.Tactic.Common

/-!
# Names of contexts

A sanitizer may be registered under a name that is made of letters, digits and the
two marks that hold words together, unless a built-in context has that name. A name
that begins with a letter is as good as any other, whatever it means elsewhere.
-/
namespace InertText

def CodeUnit.IsLetter (u : CodeUnit) : Prop :=
  (0x41 ≤ u.toNat ∧ u.toNat ≤ 0x5a) ∨ (0x61 ≤ u.toNat ∧ u.toNat ≤ 0x7a)

namespace Context

def IsBuiltin (name : Text) : Prop := ∃ c : Context, units c.name = name

/-- No two built-in contexts share a name. -/
lemma ofName?_name (c : Context) : ofName? (units c.name) = some c := by
  cases c <;> decide

lemma ofName?_eq_some_iff {name : Text} {c : Context} :
    ofName? name = some c ↔ units c.name = name :=
  find?_name_eq_some_iff ofName?_name

lemma ofName?_eq_none_iff {name : Text} : ofName? name = none ↔ ¬ IsBuiltin name := by
  rw [Option.eq_none_iff_forall_ne_some, IsBuiltin, not_exists]
  exact forall_congr' fun c => not_congr ofName?_eq_some_iff

end Context

namespace Registry

/-- A name begins with a letter and goes on with letters, digits, underscores and
hyphens. -/
def WellNamed (name : Text) : Prop :=
  ∃ first others, name = first :: others ∧ first.IsLetter ∧
    ∀ u ∈ others, u.IsLetter ∨ u.isDigit = true ∨ u = unit '_' ∨ u = unit '-'

/-- The names under which a sanitizer may be registered. -/
def Registrable (name : Text) : Prop := WellNamed name ∧ ¬ Context.IsBuiltin name

example : isValidName (units "constructor") = true ∧ isValidName (units "__proto__") = false := by
  decide

/-- Why a registration is rejected. Of several reasons the name comes first. -/
inductive Rejects (name : Text) (offered : Option Sanitizer) : RegistryError → Prop where
  | invalidName (h : ¬ WellNamed name) : Rejects name offered (.invalidName name)
  | builtinName (h : WellNamed name) (hbuiltin : Context.IsBuiltin name) :
    Rejects name offered (.builtinName name)
  | notSanitizer (h : Registrable name) (hoffered : offered = none) :
    Rejects name offered .notSanitizer

variable {name : Text} {offered : Option Sanitizer} {e e' : RegistryError}

/-- The reasons exclude each other. -/
lemma Rejects.unique (h : Rejects name offered e) (h' : Rejects name offered e') : e = e' := by
  cases h with
  | invalidName hname =>
    cases h' with
    | invalidName => rfl
    | builtinName hname' => exact absurd hname' hname
    | notSanitizer hname' => exact absurd hname'.1 hname
  | builtinName hname hbuiltin =>
    cases h' with
    | invalidName hname' => exact absurd hname hname'
    | builtinName => rfl
    | notSanitizer hname' => exact absurd hbuiltin hname'.2
  | notSanitizer hname hoffered =>
    cases h' with
    | invalidName hname' => exact absurd hname.1 hname'
    | builtinName _ hbuiltin => exact absurd hbuiltin hname.2
    | notSanitizer => rfl

end Registry

end InertText
