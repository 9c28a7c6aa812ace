import InertText.Proofs.Cdata.Halves
import InertText.Proofs.Context.Output

/-!
# Surrogate pairs in the output of a context

Units are judged one by one, and still no context takes a pair apart. Most of them
leave every half as it is, wherever it stands, and put nothing between the halves of
a pair. The contexts of URI components leave none: they write the octets of another
character for each half, or drop both.
-/
namespace InertText.Context

variable {c : Context} {rules : RuleSet} {t : Text}

lemma lt_of_mem_entities (h : c.rules? = some rules) :
    ∀ p ∈ rules.entities.entries, ∀ v ∈ p.2, v.toNat < 0x80 := by
  have hall := rules_all
    (fun rules => rules.entities.entries.all fun p => p.2.all fun v => v.toNat < 0x80) (by decide) h
  simpa using hall

lemma listed_not_surrogate (h : c.rules? = some rules) :
    ∀ v ∈ rules.listed, v.isSurrogate = false :=
  List.all_iff_forall_prop.mp
    (rules_all (fun rules => rules.listed.all fun v => v.isSurrogate = false) (by decide) h)

/-- Half a pair lies above the threshold of a rule set, or it is written in percent
form. -/
lemma replacement_of_surrogate (h : c.rules? = some rules) :
    (∀ u, u.isSurrogate = true → rules.replacement u = [u]) ∨
    ∀ u, u.isSurrogate = true → rules.replacement u = Fallback.percent u := by
  have hrules : (∃ n < 0xd800, rules.passthroughAbove.map UInt16.toNat = some n) ∨
      rules.passthroughAbove = none ∧ rules.fallback = .percentOctets := by
    cases c
    case cdataContent => simp [rules?] at h
    case uriComponent | uriComponentStrict =>
      obtain rfl := Option.some.inj h
      exact .inr ⟨rfl, rfl⟩
    all_goals
      obtain rfl := Option.some.inj h
      exact .inl ⟨_, by decide, rfl⟩
  rcases hrules with ⟨n, hn, hthreshold⟩ | ⟨hnone, hpercent⟩
  · refine .inl fun u hu => ?_
    rw [RuleSet.replacement_of_surrogate (listed_not_surrogate h) hu, if_pos]
    rw [RuleSet.passes_iff hthreshold]
    exact lt_of_lt_of_le hn (CodeUnit.le_of_isSurrogate hu)
  · refine .inr fun u hu => ?_
    rw [RuleSet.replacement_of_surrogate (listed_not_surrogate h) hu, RuleSet.passes, hnone,
      hpercent]
    rfl

/-- A context keeps all halves of pairs or it leaves none. -/
theorem keepsHalves_or_loses (c : Context) (mode : Mode) :
    (∃ (σ : Type) (start : σ) (pieces : σ → Text → List Text), KeepsHalves start pieces ∧
      ∀ t, (c.sanitizer.emit mode t).pieces = pieces start t) ∨
    ∀ t, ∀ v ∈ c.output mode t, v.isSurrogate = false := by
  cases hc : c.rules? with
  | none =>
    obtain rfl := rules?_eq_none_iff.mp hc
    exact .inl ⟨ℕ, 0, Cdata.piecesFrom mode, Cdata.keepsHalves mode, fun _ => rfl⟩
  | some rules =>
    have hsanitizer := sanitizer_eq_ofRules hc
    rcases replacement_of_surrogate hc with hself | hpercent
    · have hkeeps := RuleSet.keepsHalves (lt_of_mem_entities hc) hself mode
      rw [← hsanitizer] at hkeeps
      exact .inl ⟨Unit, (), _, hkeeps, fun _ => rfl⟩
    · refine .inr fun t v hv => ?_
      rw [output, hsanitizer] at hv
      refine RuleSet.not_surrogate_of_mem_text (lt_of_mem_entities hc) (fun u hu w hw => ?_) hv
      rw [hpercent u hu] at hw
      exact Fallback.lt_of_mem_percent hw

/-- Whole characters stay whole characters in every context and in both modes. -/
theorem paired_output (c : Context) (mode : Mode) (ht : Text.Paired t) :
    Text.Paired (c.output mode t) := by
  rcases c.keepsHalves_or_loses mode with ⟨σ, start, pieces, hkeeps, hpieces⟩ | hnone
  · rw [output, Emission.text, hpieces]
    exact hkeeps.paired ht start
  · exact Text.paired_of_not_surrogate (hnone t)

end InertText.Context
