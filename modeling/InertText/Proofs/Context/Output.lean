import InertText.Context.Builtin
import InertText.Delivery.Call

/-!
# The output of a built-in context

A built-in context makes one text of every text, in both modes. What it makes of
a text is the joined output of its rule set, or of the scan of CDATA content. The
same holds of the sanitizers that a caller has made from a rule set of its own.
-/
namespace InertText

namespace Context

def output (c : Context) (mode : Mode) (t : Text) : Text := (c.sanitizer.emit mode t).text

/-- A call for a built-in context never gives up: it returns the output. -/
theorem text_sanitizer (c : Context) (mode : Mode) (t : Text) :
    c.sanitizer.text mode (some t) = .ok (some (c.output mode t)) := by
  cases c <;> cases mode <;> rfl

/-- The content of CDATA sections is the only context without a rule set. -/
theorem rules?_eq_none_iff {c : Context} : c.rules? = none ↔ c = .cdataContent := by
  cases c <;> simp [rules?]

/-- What is checked of the rule sets of all contexts holds of the rule set of each. -/
theorem rules_all {c : Context} {rules : RuleSet} (p : RuleSet → Bool)
    (hp : all.all fun c => c.rules?.all p) (h : c.rules? = some rules) : p rules = true := by
  have hmem : c ∈ all := by cases c <;> decide
  have hc := List.all_eq_true.mp hp c hmem
  rwa [h, Option.all_some] at hc

theorem sanitizer_eq_ofRules {c : Context} {rules : RuleSet} (h : c.rules? = some rules) :
    c.sanitizer = .ofRules rules := by
  rw [sanitizer, h, Option.elim_some]

theorem output_cdataContent (mode : Mode) (t : Text) :
    cdataContent.output mode t = (Cdata.pieces mode t).flatten := rfl

theorem output_encode {c : Context} {rules : RuleSet} (h : c.rules? = some rules) (t : Text) :
    c.output .encode t = rules.encode t := by
  rw [output, sanitizer_eq_ofRules h]
  exact Sanitizer.text_ofRules_encode rules t

theorem output_filter {c : Context} {rules : RuleSet} (h : c.rules? = some rules) (t : Text) :
    c.output .filter t = rules.filter t := by
  rw [output, sanitizer_eq_ofRules h]
  exact Sanitizer.text_ofRules_filter rules t

end Context

/-- The sanitizers that come with the library: that of a built-in context, and under
a name of the caller's choice that of a rule set and that of CDATA content. -/
inductive Provided where
  | context (c : Context)
  | ofRules (rules : RuleSet) (name : Text)
  | cdata (name : Text)

namespace Provided

def sanitizer : Provided → Sanitizer
  | context c => c.sanitizer
  | ofRules rules name => (Sanitizer.ofRules rules).rename name
  | cdata name => Sanitizer.cdata.rename name

def output (p : Provided) (mode : Mode) (t : Text) : Text := (p.sanitizer.emit mode t).text

/-- None of them ever gives up. -/
theorem failure_emit (p : Provided) (mode : Mode) (t : Text) :
    (p.sanitizer.emit mode t).failure = none := by
  cases p with
  | context c => cases c <;> cases mode <;> rfl
  | ofRules rules name => cases mode <;> rfl
  | cdata name => rfl

theorem text_sanitizer (p : Provided) (mode : Mode) (t : Text) :
    p.sanitizer.text mode (some t) = .ok (some (p.output mode t)) := by
  rw [Sanitizer.text, failure_emit]
  rfl

/-- There are two ways in which they make their output. -/
theorem output_cases (p : Provided) :
    (∃ rules : RuleSet, p.output .encode = rules.encode ∧ p.output .filter = rules.filter) ∨
    ∀ mode t, p.output mode t = (Cdata.pieces mode t).flatten := by
  cases p with
  | context c =>
    cases hc : c.rules? with
    | none =>
      obtain rfl := Context.rules?_eq_none_iff.mp hc
      exact .inr fun _ _ => rfl
    | some rules =>
      exact .inl ⟨rules, funext (Context.output_encode hc), funext (Context.output_filter hc)⟩
  | ofRules rules name =>
    exact .inl ⟨rules, funext (Sanitizer.text_ofRules_encode rules),
      funext (Sanitizer.text_ofRules_filter rules)⟩
  | cdata name => exact .inr fun _ _ => rfl

end Provided

end InertText
