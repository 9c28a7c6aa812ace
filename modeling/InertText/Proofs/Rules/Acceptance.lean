import InertText.Proofs.Rules.Defects

/-!
# Accepted and rejected proposals

A proposed rule set is accepted if it has no defect, and rejected with its first one
otherwise: the policy comes before the fallback, the fallback before the threshold, and
the entities come last, in the order in which their record lists them. What is accepted
has the parts that the proposal describes. The error is one of arguments, unless the first
defect is a value that cannot be spelled, because the error would have to show it.
-/
namespace InertText

open Properties (value? Precedes)

namespace ProposedRuleSet

/-- The value that is given as the policy names none. -/
def BadPolicy (p : ProposedRuleSet) (v : Value) : Prop :=
  Given p.control v ∧ ∀ policy : ControlPolicy, v ≠ .text (units policy.name)

def BadFallback (p : ProposedRuleSet) : Prop :=
  ∀ fallback : Fallback, p.fallback ≠ some (.text (units fallback.name))

/-- The value that is given as the threshold is no unit. -/
def BadThreshold (p : ProposedRuleSet) (v : Value) : Prop :=
  Given p.passthroughAbove v ∧ NoUnit v

def BadEntity (p : ProposedRuleSet) (key : Text) (v : Value) : Prop :=
  value? p.entities key = some v ∧ Offends key v

/-- The proposal is no description of a rule set. -/
def HasDefect (p : ProposedRuleSet) : Prop :=
  (∃ v, p.BadPolicy v) ∨ p.BadFallback ∨ (∃ v, p.BadThreshold v) ∨ ∃ key v, p.BadEntity key v

/-- The error of a proposal with defects is that of the first one, and shows what was given
for a policy, a fallback or a threshold. -/
inductive Rejects (p : ProposedRuleSet) : RuleError → Prop where
  | policy {v : Value} {e : RuleError} (h : p.BadPolicy v) (he : Shows v .unknownPolicy e) :
    Rejects p e
  | noFallback (hpolicy : ∀ v, ¬ p.BadPolicy v) (h : p.fallback = none) :
    Rejects p (.unknownFallback (units "undefined"))
  | fallback {v : Value} {e : RuleError} (hpolicy : ∀ v, ¬ p.BadPolicy v) (h : p.BadFallback)
    (hv : p.fallback = some v) (he : Shows v .unknownFallback e) : Rejects p e
  | threshold {v : Value} {e : RuleError} (hpolicy : ∀ v, ¬ p.BadPolicy v)
    (hfallback : ¬ p.BadFallback) (h : p.BadThreshold v) (he : Shows v .thresholdOutOfRange e) :
    Rejects p e
  | entity {key : Text} {v : Value} {e : RuleError} (hpolicy : ∀ v, ¬ p.BadPolicy v)
    (hfallback : ¬ p.BadFallback) (hthreshold : ∀ v, ¬ p.BadThreshold v)
    (h : p.BadEntity key v) (he : Offence key v e)
    (hfirst : ∀ key' v', p.BadEntity key' v' → key' ≠ key → Precedes p.entities key key') :
    Rejects p e

/-- The first defect is a value that cannot be spelled. -/
inductive HidesDefect (p : ProposedRuleSet) : Prop where
  | policy {v : Value} (h : p.BadPolicy v) (hv : v.Unspellable)
  | fallback {v : Value} (hpolicy : ∀ v, ¬ p.BadPolicy v) (h : p.BadFallback)
    (hfallback : p.fallback = some v) (hv : v.Unspellable)
  | threshold {v : Value} (hpolicy : ∀ v, ¬ p.BadPolicy v) (hfallback : ¬ p.BadFallback)
    (h : p.BadThreshold v) (hv : v.Unspellable)

/-- The rule set has the parts that the proposal describes. Nothing is singled out and
nothing stands above a threshold if the proposal leaves that open. -/
structure Describes (p : ProposedRuleSet) (rules : RuleSet) : Prop where
  name : rules.name = p.name
  immune : ∀ u, u ∈ rules.immune ↔ u ∈ p.immune
  escape : ∀ u, u ∈ rules.escape ↔ u ∈ p.escape
  entities : ∀ u t, rules.entities.find? u = some t ↔ value? p.entities [u] = some (.text t)
  only_entities : ∀ key v, ¬ p.BadEntity key v
  control : (rules.control = .keep ∧ ∀ v, ¬ Given p.control v) ∨
    Given p.control (.text (units rules.control.name))
  passthroughAbove : (rules.passthroughAbove = none ∧ ∀ v, ¬ Given p.passthroughAbove v) ∨
    ∃ n u, rules.passthroughAbove = some u ∧ Given p.passthroughAbove (.number n) ∧ n.Is u.toNat
  fallback : p.fallback = some (.text (units rules.fallback.name))

variable {p : ProposedRuleSet} {rules : RuleSet} {e : RuleError}

/-- The policy is read if it is not bad, and likewise each other part. -/
lemma exists_readPolicy_iff : (∃ policy, readPolicy p.control = .ok policy) ↔
    ∀ v, ¬ p.BadPolicy v :=
  exists_ok_iff_of_error fun _ => readPolicy_eq_error_iff

lemma exists_readFallback_iff : (∃ fallback, readFallback p.fallback = .ok fallback) ↔
    ¬ p.BadFallback := by
  simp [exists_ok_iff, readFallback_eq_error_iff, BadFallback]

lemma exists_readThreshold_iff :
    (∃ threshold, readThreshold p.passthroughAbove = .ok threshold) ↔
      ∀ v, ¬ p.BadThreshold v :=
  exists_ok_iff_of_error fun _ => readThreshold_eq_error_iff

lemma accept_eq_ok_iff : p.accept = .ok rules ↔ p.Describes rules := by
  rw [accept]
  simp only [bind_eq_ok_iff, pure, Except.pure, Except.ok.injEq]
  constructor
  · rintro ⟨control, hcontrol, fallback, hfallback, threshold, hthreshold, entities, hread, rfl⟩
    obtain ⟨htable, hentities⟩ := ofList_readEntities_iff.mp ⟨entities, hread, rfl⟩
    exact {
      name := rfl
      immune := fun u => UnitSet.mem_ofText
      escape := fun u => UnitSet.mem_ofText
      entities := htable
      only_entities := fun key v h => hentities key v h.1 h.2
      control := readPolicy_eq_ok_iff.mp hcontrol
      passthroughAbove := readThreshold_eq_ok_iff.mp hthreshold
      fallback := readFallback_eq_ok_iff.mp hfallback }
  · intro h
    obtain ⟨entities, hread, htable⟩ := ofList_readEntities_iff.mpr
      ⟨h.entities, fun key v hv ho => h.only_entities key v ⟨hv, ho⟩⟩
    have himmune : rules.immune = .ofText p.immune :=
      UnitSet.ext_of_mem fun u => (h.immune u).trans UnitSet.mem_ofText.symm
    have hescape : rules.escape = .ofText p.escape :=
      UnitSet.ext_of_mem fun u => (h.escape u).trans UnitSet.mem_ofText.symm
    refine ⟨_, readPolicy_eq_ok_iff.mpr h.control, _, readFallback_eq_ok_iff.mpr h.fallback, _,
      readThreshold_eq_ok_iff.mpr h.passthroughAbove, entities, hread, ?_⟩
    rw [← h.name, ← himmune, ← hescape, ← htable]

/-- Each part is read only if those before it are not bad. -/
lemma accept_eq_error_cases : p.accept = .error e ↔ readPolicy p.control = .error e ∨
    (∀ v, ¬ p.BadPolicy v) ∧ (readFallback p.fallback = .error e ∨
      ¬ p.BadFallback ∧ (readThreshold p.passthroughAbove = .error e ∨
        (∀ v, ¬ p.BadThreshold v) ∧ readEntities p.entities = .error e)) := by
  rw [accept]
  simp only [bind_eq_error_iff, pure, Except.pure, reduceCtorEq, and_false, exists_false, or_false,
    exists_and_right, exists_readPolicy_iff, exists_readFallback_iff, exists_readThreshold_iff]

/-- A fallback that is bad is missing or was given. -/
lemma rejects_of_badFallback (hpolicy : ∀ v, ¬ p.BadPolicy v) (h : p.BadFallback) :
    p.Rejects (p.fallback.elim (.unknownFallback (units "undefined"))
      (.showing .unknownFallback)) := by
  cases hv : p.fallback with
  | none => exact .noFallback hpolicy hv
  | some v => exact .fallback hpolicy h hv (RuleError.eq_showing_iff.mp rfl)

lemma accept_eq_error_iff : p.accept = .error e ↔ p.Rejects e := by
  rw [accept_eq_error_cases]
  constructor
  · rintro (h | ⟨hp, h | ⟨hf, h | ⟨ht, h⟩⟩⟩)
    · obtain ⟨v, hv, he⟩ := readPolicy_eq_error_iff.mp h
      exact .policy hv (RuleError.eq_showing_iff.mp he)
    · obtain ⟨hf, rfl⟩ := readFallback_eq_error_iff.mp h
      exact rejects_of_badFallback hp hf
    · obtain ⟨v, hv, he⟩ := readThreshold_eq_error_iff.mp h
      exact .threshold hp hf hv (RuleError.eq_showing_iff.mp he)
    · obtain ⟨key, v, hv, he, hfirst⟩ := readEntities_eq_error_iff.mp h
      exact .entity hp hf ht ⟨hv, exists_offence_iff.mp ⟨e, he⟩⟩ he
        fun key' v' hbad => hfirst key' v' hbad.1 hbad.2
  · intro h
    cases h with
    | policy hv he =>
      exact .inl (readPolicy_eq_error_iff.mpr ⟨_, hv, RuleError.eq_showing_iff.mpr he⟩)
    | noFallback hp hf =>
      have hbad : p.BadFallback := fun fallback => by simp [hf]
      exact .inr ⟨hp, .inl (readFallback_eq_error_iff.mpr ⟨hbad, by rw [hf, Option.elim_none]⟩)⟩
    | fallback hp hbad hv he =>
      refine .inr ⟨hp, .inl (readFallback_eq_error_iff.mpr ⟨hbad, ?_⟩)⟩
      rw [hv, Option.elim_some]
      exact RuleError.eq_showing_iff.mpr he
    | threshold hp hf hv he =>
      exact .inr ⟨hp, .inr ⟨hf,
        .inl (readThreshold_eq_error_iff.mpr ⟨_, hv, RuleError.eq_showing_iff.mpr he⟩)⟩⟩
    | entity hp hf ht hbad he hfirst =>
      exact .inr ⟨hp, .inr ⟨hf, .inr ⟨ht, readEntities_eq_error_iff.mpr ⟨_, _, hbad.1, he,
        fun key' v' hv' ho => hfirst key' v' ⟨hv', ho⟩⟩⟩⟩⟩

lemma rejects_unspellable_iff : p.Rejects .unspellable ↔ p.HidesDefect := by
  constructor
  · intro h
    cases h with
    | policy hv he =>
      cases he with
      | unspellable hhidden => exact .policy hv hhidden
    | fallback hp hf hv he =>
      cases he with
      | unspellable hhidden => exact .fallback hp hf hv hhidden
    | threshold hp hf hv he =>
      cases he with
      | unspellable hhidden => exact .threshold hp hf hv hhidden
    | entity _ _ _ _ he _ => cases he
  · intro h
    cases h with
    | policy hv hhidden => exact .policy hv (.unspellable hhidden)
    | fallback hp hf hv hhidden => exact .fallback hp hf hv (.unspellable hhidden)
    | threshold hp hf hv hhidden => exact .threshold hp hf hv (.unspellable hhidden)

/-- A proposal without a defect is accepted, and no other. -/
lemma exists_accept_iff : (∃ rules, p.accept = .ok rules) ↔ ¬ p.HasDefect := by
  have hentities : (∃ entities, readEntities p.entities = .ok entities) ↔
      ∀ key v, ¬ p.BadEntity key v := by
    simp only [exists_readEntities_iff, BadEntity, not_and]
  simp only [HasDefect, not_or, not_exists]
  rw [← exists_readPolicy_iff, ← exists_readFallback_iff, ← exists_readThreshold_iff, ← hentities]
  simp only [accept, bind_eq_ok_iff, pure, Except.pure, Except.ok.injEq]
  constructor
  · rintro ⟨_, policy, hpolicy, fallback, hfallback, threshold, hthreshold, entities, hread, -⟩
    exact ⟨⟨policy, hpolicy⟩, ⟨fallback, hfallback⟩, ⟨threshold, hthreshold⟩, entities, hread⟩
  · rintro ⟨⟨policy, hpolicy⟩, ⟨fallback, hfallback⟩, ⟨threshold, hthreshold⟩, entities, hread⟩
    exact ⟨_, policy, hpolicy, fallback, hfallback, threshold, hthreshold, entities, hread, rfl⟩

lemma exists_error_iff : (∃ e, p.accept = .error e) ↔ p.HasDefect := by
  have hfails : (∃ e, p.accept = .error e) ↔ ¬ ∃ rules, p.accept = .ok rules := by
    simp [exists_ok_iff]
  rw [hfails, exists_accept_iff, not_not]

/-- The error of a defect is one of arguments, unless the defect cannot be shown. -/
lemma exists_argument_error_iff : (∃ e, p.accept = .error e ∧ e.kind = .argument) ↔
    p.HasDefect ∧ ¬ p.HidesDefect := by
  simp only [RuleError.kind_eq_argument_iff, ← rejects_unspellable_iff, ← accept_eq_error_iff]
  constructor
  · rintro ⟨e, he, hne⟩
    refine ⟨exists_error_iff.mp ⟨e, he⟩, fun hhidden => hne ?_⟩
    exact Except.error.inj (he.symm.trans hhidden)
  · rintro ⟨hdefect, hshown⟩
    obtain ⟨e, he⟩ := exists_error_iff.mpr hdefect
    exact ⟨e, he, fun hhidden => hshown (hhidden ▸ he)⟩

/-- A proposal is rejected if it has a defect, and then with the first one, in an error of
arguments if that can be put together. Otherwise it is accepted, as the rule set that it
describes. -/
theorem accept_rejects_or_describes (p : ProposedRuleSet) :
    ((∃ e, p.accept = .error e) ↔ p.HasDefect) ∧
      ((∃ e, p.accept = .error e ∧ e.kind = .argument) ↔ p.HasDefect ∧ ¬ p.HidesDefect) ∧
      (∀ e, p.accept = .error e ↔ p.Rejects e) ∧
      ∀ rules, p.accept = .ok rules ↔ p.Describes rules :=
  ⟨exists_error_iff, exists_argument_error_iff, fun _ => accept_eq_error_iff,
    fun _ => accept_eq_ok_iff⟩

/-- A record that says itself how it is spelled is no policy, but the error is none of
arguments, because the record cannot be shown in it. -/
theorem no_argument_error_of_unspellable_policy :
    let p : ProposedRuleSet := {
      name := units "T"
      immune := []
      escape := []
      entities := []
      control := some (.record [(units "toString", .number (.ofDecimal false 1 0))])
      passthroughAbove := none
      fallback := some (.text (units "html-hex")) }
    p.HasDefect ∧ ¬ ∃ e, p.accept = .error e ∧ e.kind = .argument := by
  intro p
  refine ⟨.inl ⟨_, ⟨rfl, by simp⟩, by simp⟩, ?_⟩
  rintro ⟨e, he, hkind⟩
  have herror : p.accept = .error .unspellable := rfl
  obtain rfl := Except.error.inj (he.symm.trans herror)
  cases hkind

/-- The key that is an index comes before the one that was given first, and the key that was
given a second time has its text by then. -/
example :
    accept {
      name := []
      immune := []
      escape := []
      entities := [(units "ab", .null), (units "a", .null), (units "10", .text []),
        (units "a", .text [])]
      control := none
      passthroughAbove := none
      fallback := some (.text (units "js-hex")) } = .error (.keyNotOneUnit (units "10")) := by
  cbv

end ProposedRuleSet

end InertText
