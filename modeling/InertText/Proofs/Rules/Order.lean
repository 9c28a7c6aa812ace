import InertText.Proofs.Rules.Extension
import InertText.Proofs.Rules.Keeping

/-!
# The order of rule sets

A rule set is stricter than another if every unit that it lets stand stands with the
other too. The filters then follow: what the stricter one keeps of a text is a part of
what the other keeps, and filtering by the other first makes no difference. An extension
makes a rule set stricter or less strict by the kind of the rules that it adds.
-/
namespace InertText.RuleSet

open Properties (value?)
open ProposedExtension (accept_eq_ok_iff value?_of_accept)

/-- Whatever stands with the first rule set stands with the second. -/
def Stricter (rules rules' : RuleSet) : Prop := ∀ u, rules.Stands u → rules'.Stands u

variable {rules rules' base : RuleSet} {p : ProposedExtension} {e : Extension}

/-- The order of rule sets is that of their filters. -/
lemma stricter_iff_sublist :
    rules.Stricter rules' ↔ ∀ t, (rules.filter t).Sublist (rules'.filter t) := by
  simp only [filter_eq_filter_stands]
  constructor
  · intro h t
    refine List.monotone_filter_right t fun u hu => ?_
    exact decide_eq_true (h u (of_decide_eq_true hu))
  · intro h u hu
    -- A unit alone is a text, and its filter is empty if the unit does not stand.
    have hfilter : [u].filter (fun u => rules.Stands u) = [u] :=
      List.filter_cons_of_pos (decide_eq_true hu)
    have hmem := (h [u]).subset (hfilter ▸ List.mem_singleton_self u)
    exact of_decide_eq_true (List.mem_filter.mp hmem).2

lemma Stricter.filter_filter (h : rules.Stricter rules') (t : Text) :
    rules.filter (rules'.filter t) = rules.filter t := by
  simp only [filter_eq_filter_stands, List.filter_filter]
  refine List.filter_congr fun u _ => ?_
  rw [← Bool.decide_and, decide_eq_decide, and_iff_left_iff_imp]
  exact h u

/-- Fewer immune units, more escaped units and more entities make a rule set stricter, as
long as no entity is the unit itself. -/
lemma stricter_of_parts (himmune : ∀ u ∈ rules.immune, u ∈ rules'.immune)
    (hescape : ∀ u ∈ rules'.escape, u ∈ rules.escape)
    (hentities : ∀ u, rules.entities.find? u = rules'.entities.find? u ∨
      ∃ w, w ≠ [u] ∧ rules.entities.find? u = some w)
    (hrest : rules.control = rules'.control ∧ rules.passthroughAbove = rules'.passthroughAbove ∧
      rules.fallback = rules'.fallback) : rules.Stricter rules' := by
  intro u hu
  have hunescaped : u ∉ rules.escape → u ∉ rules'.escape := mt (hescape u)
  obtain ⟨hcontrol, hpassthrough, hfallback⟩ := hrest
  rcases hu with halphanumeric | hmem | ⟨hmem, hfind⟩ | ⟨hmem, hfind, hothers⟩
  · exact .inl halphanumeric
  · exact .inr (.inl (himmune u hmem))
  · refine .inr (.inr (.inl ⟨hunescaped hmem, ?_⟩))
    rcases hentities u with hsame | ⟨w, hw, hfind'⟩
    · rw [← hsame, hfind]
    · exact absurd (Option.some.inj (hfind'.symm.trans hfind)) hw
  · rw [hcontrol, hpassthrough, hfallback] at hothers
    refine .inr (.inr (.inr ⟨hunescaped hmem, ?_, hothers⟩))
    rcases hentities u with hsame | ⟨w, -, hfind'⟩
    · rw [← hsame, hfind]
    · exact absurd (hfind'.symm.trans hfind) (Option.some_ne_none w)

/-- Immune units alone let more stand. -/
lemma stricter_extend (hescape : e.escape = [])
    (hentities : ∀ u, e.entities.reverse.lookup u = none) : base.Stricter (base.extend e) := by
  refine stricter_of_parts (fun u hu => mem_immune_extend.mpr (.inr hu)) (fun u hu => ?_)
    (fun u => .inl ?_) ⟨rfl, rfl, rfl⟩
  · rw [mem_escape_extend, hescape] at hu
    exact hu.resolve_left List.not_mem_nil
  · rw [find?_entities_extend, hentities, Option.none_or]

/-- Escaped units and entities let less stand. -/
lemma extend_stricter (himmune : e.immune = [])
    (hentities : ∀ u, e.entities.reverse.lookup u ≠ some [u]) :
    (base.extend e).Stricter base := by
  refine stricter_of_parts (fun u hu => ?_) (fun u hu => mem_escape_extend.mpr (.inr hu))
    (fun u => ?_) ⟨rfl, rfl, rfl⟩
  · rw [mem_immune_extend, himmune] at hu
    exact hu.resolve_left List.not_mem_nil
  · rw [find?_entities_extend]
    cases hlookup : e.entities.reverse.lookup u with
    | none => exact .inl Option.none_or
    | some w => exact .inr ⟨w, fun hw => hentities u (hlookup.trans (congrArg some hw)), rfl⟩

lemma stricter_extend_of_accept (hp : p.accept = .ok e) (hescape : p.escape = [])
    (hentities : p.entities = []) : base.Stricter (base.extend e) := by
  refine stricter_extend ((accept_eq_ok_iff.mp hp).2.2.2.symm.trans hescape) fun u => ?_
  rw [← Option.map_eq_none_iff, ← value?_of_accept hp, hentities]
  rfl

lemma extend_stricter_of_accept (hp : p.accept = .ok e) (himmune : p.immune = [])
    (hentities : ∀ u, value? p.entities [u] ≠ some (.text [u])) :
    (base.extend e).Stricter base := by
  refine extend_stricter ((accept_eq_ok_iff.mp hp).2.2.1.symm.trans himmune) fun u hu => ?_
  refine hentities u ?_
  rw [value?_of_accept hp, hu]
  rfl

end InertText.RuleSet
