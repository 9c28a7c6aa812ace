import InertText.Context.Html
import InertText.Proofs.Rules.Filtering

/-!
# The units that a rule set keeps

Filtering asks for the replacement of a unit and keeps the unit if nothing else comes
out. Which units these are can be said without a replacement: `Stands` says it by the
parts of the rule set. Whatever else a rule writes has no units or more than one, unless
the rule set has it as an entity of its own.
-/
namespace InertText

lemma ControlPolicy.substitute_ne_self (p : ControlPolicy) (u : CodeUnit) :
    p.substitute ≠ [u] := by
  intro h
  have hlength := congrArg List.length h
  cases p <;> simp [substitute, units, unitsOfChar] at hlength

namespace RuleSet

/-- The units that stand as they are. Letters, digits and immune units do whatever else
is said of them. Of the others an escaped unit never does, one with an entity does if it
is its own entity, and one without if it is no control for the policy and lies above the
threshold, or is not ASCII where the fallback is a script escape. -/
def Stands (rules : RuleSet) (u : CodeUnit) : Prop :=
  u.isAlphanumeric = true ∨ u ∈ rules.immune ∨
    (u ∉ rules.escape ∧ rules.entities.find? u = some [u]) ∨
    (u ∉ rules.escape ∧ rules.entities.find? u = none ∧ rules.control.covers u = false ∧
      ((∃ n ∈ rules.passthroughAbove, n < u) ∨
        (rules.fallback = .scriptEscape ∧ 0x80 ≤ u.toNat)))

instance (rules : RuleSet) (u : CodeUnit) : Decidable (rules.Stands u) :=
  inferInstanceAs (Decidable (_ ∨ _ ∨ (_ ∧ _) ∨ (_ ∧ _ ∧ _ ∧
    ((∃ n ∈ rules.passthroughAbove, n < u) ∨ (_ ∧ _)))))

variable {rules : RuleSet} {u : CodeUnit}

lemma passes_iff_exists : rules.passes u = true ↔ ∃ n ∈ rules.passthroughAbove, n < u := by
  simp only [passes, Option.any_eq_true, decide_eq_true_iff, Option.mem_def]

/-- The rules in their order leave exactly these units as they are. -/
lemma replacement_eq_self_iff : rules.replacement u = [u] ↔ rules.Stands u := by
  rw [replacement_eq, Stands, ← passes_iff_exists]
  by_cases hraw : u.isAlphanumeric = true ∨ u ∈ rules.immune
  · rw [if_pos hraw]
    exact iff_of_true rfl (hraw.imp_right .inl)
  rw [if_neg hraw, ← or_assoc, or_iff_right hraw]
  by_cases hescape : u ∈ rules.escape
  · have hslash : slashEscape u ≠ [u] := by
      intro h
      have hlength := length_slashEscape u
      simp [h] at hlength
    rw [if_pos hescape]
    simp [hslash, hescape]
  rw [if_neg hescape]
  cases hfind : rules.entities.find? u with
  | some w => simp [hescape]
  | none =>
    rw [Option.getD_none]
    by_cases hcovers : rules.control.covers u = true
    · simp [hcovers, rules.control.substitute_ne_self u]
    rw [if_neg hcovers]
    rw [Bool.not_eq_true] at hcovers
    by_cases hpasses : rules.passes u = true
    · simp [hpasses, hescape, hcovers]
    · simp [hpasses, hescape, hcovers, Fallback.write_eq_self_iff]

lemma filter_eq_filter_stands (rules : RuleSet) (t : Text) :
    rules.filter t = List.filter (fun u => rules.Stands u) t := by
  refine List.filter_congr fun u _ => ?_
  rw [Bool.eq_iff_iff, keeps_iff, replacement_eq_self_iff, decide_eq_true_iff]

/-- Whatever the rule set and whatever its sanitizer is called, filtering a text returns
the units of it that stand as they are, in their order. No replacement that a rule writes
for another unit is that unit. -/
theorem text_filter_eq_stands (rules : RuleSet) (name t : Text) :
    ((Sanitizer.ofRules rules).rename name).text .filter (some t) =
      .ok (some (t.filter fun u => rules.Stands u)) ∧
    ∀ u, rules.replacement u = [u] ↔ rules.Stands u := by
  refine ⟨?_, fun u => replacement_eq_self_iff⟩
  rw [← filter_eq_filter_stands, ← Sanitizer.text_ofRules_filter]
  rfl

/-- An ampersand that is its own entity stands in content. -/
example : (Html.content.extend ⟨[], [], [], [(unit '&', units "&")]⟩).Stands (unit '&') := by
  decide

end RuleSet

end InertText
