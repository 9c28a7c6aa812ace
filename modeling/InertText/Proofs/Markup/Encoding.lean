import InertText.Proofs.Markup.Reference
import InertText.Proofs.Rules.Encoding

/-!
# Texts encoded with references

Some rule sets write nothing but units that stand for themselves and references
of one kind of markup. What such a rule set makes of a text can be expanded. The
expansion is the text again, but for the units that the policy on controls
singles out.
-/
namespace InertText

open Markup

/-- What the substitute of a policy stands for. -/
def ControlPolicy.shown : ControlPolicy → Text
  | .replace => [0xfffd]
  | .keep | .drop => []

namespace RuleSet

/-- The units that stand for themselves. -/
def Plain (rules : RuleSet) (u : CodeUnit) : Prop :=
  u.isAlphanumeric = true ∨ u ∈ rules.immune ∨
    (rules.entities.find? u = none ∧ rules.control.covers u = false ∧ rules.passes u = true)

/-- The units that the policy applies to, because no rule in front of it does. -/
def Singles (rules : RuleSet) (u : CodeUnit) : Prop :=
  u.isAlphanumeric = false ∧ u ∉ rules.immune ∧ rules.entities.find? u = none ∧
    rules.control.covers u = true

instance (rules : RuleSet) (u : CodeUnit) : Decidable (rules.Plain u) :=
  inferInstanceAs (Decidable (_ ∨ _ ∨ _ ∧ _ ∧ _))

instance (rules : RuleSet) (u : CodeUnit) : Decidable (rules.Singles u) :=
  inferInstanceAs (Decidable (_ ∧ _ ∧ _ ∧ _))

/-- What the replacement of a unit stands for. -/
def shown (rules : RuleSet) (u : CodeUnit) : Text :=
  if rules.Singles u then rules.control.shown else [u]

/-- The rule sets that write references of one kind of markup. -/
structure Refers (rules : RuleSet) (d : Dialect) : Prop where
  escape : rules.escape = ∅
  fallback : rules.fallback = .reference
  ampersand : ¬ rules.Plain (unit '&')
  entities : ∀ p ∈ rules.entities.entries, ∃ q ∈ d.names,
    d.names.lookup q.1 = some p.1 ∧ p.2 = unit '&' :: (q.1 ++ [unit ';'])
  control : rules.control = .replace → d.refers 0xfffd = true
  numbers : ∀ u, rules.control.covers u = false → rules.passes u = false →
    d.refers u.toNat = true

/-- The forms in which a rule set writes a unit, with what they stand for. -/
inductive Written (rules : RuleSet) (d : Dialect) : Text → Text → Prop where
  | plain {u : CodeUnit} (hu : rules.Plain u) (hne : u ≠ unit '&') : Written rules d [u] [u]
  | reference {name value : Text} (h : d.meaning? name = some value) :
    Written rules d value (unit '&' :: (name ++ [unit ';']))
  | dropped : Written rules d [] []

variable {rules : RuleSet} {d : Dialect} {value w rest t : Text} {u v : CodeUnit}

lemma Written.expand? (h : Written rules d value w) :
    d.expand? (w ++ rest) = (d.expand? rest).map (value ++ ·) := by
  cases h with
  | plain _ hne => exact Dialect.expand?_cons hne rest
  | reference hname =>
    rw [List.cons_append, List.append_assoc]
    exact Dialect.expand?_reference hname rest
  | dropped =>
    rw [List.nil_append]
    exact Option.map_id'.symm

lemma Written.mem (h : Written rules d value w) (hv : v ∈ w) :
    rules.Plain v ∨ v ∈ units "&#;" := by
  cases h with
  | plain hu => exact .inl (List.mem_singleton.mp hv ▸ hu)
  | reference hname =>
    rcases List.mem_cons.mp hv with rfl | hv
    · exact .inr (by decide)
    rcases List.mem_append.mp hv with hv | hv
    · rcases Dialect.mem_of_meaning? hname hv with rfl | ha
      · exact .inr (by decide)
      · exact .inl (.inl ha)
    · rw [List.mem_singleton.mp hv]
      exact .inr (by decide)
  | dropped => exact absurd hv List.not_mem_nil

lemma written_substitute (h : rules.Refers d) (hc : rules.control.covers u = true) :
    Written rules d rules.control.shown rules.control.substitute := by
  cases hp : rules.control with
  | keep => simp [hp, ControlPolicy.covers] at hc
  | replace => exact .reference (Dialect.meaning?_digits 1 (u := 0xfffd) (h.control hp))
  | drop => exact .dropped

lemma written_fallback (h : d.refers u.toNat = true) :
    Written rules d [u] (Fallback.reference.write u) := by
  have hsplit : Fallback.reference.write u =
      unit '&' :: ((units "#x" ++ Hex.text 1 u) ++ [unit ';']) := by
    rfl
  rw [hsplit]
  exact .reference (Dialect.meaning?_digits 1 h)

lemma written_entity (h : rules.Refers d) (hu : rules.entities.find? u = some w) :
    Written rules d [u] w := by
  have hmem : (u, w) ∈ rules.entities.entries := mem_of_lookup hu
  obtain ⟨q, -, hname, rfl⟩ := h.entities _ hmem
  exact .reference (Dialect.meaning?_of_lookup hname)

/-- Every rule writes the unit in one of the three forms. -/
lemma written_replacement (h : rules.Refers d) (u : CodeUnit) :
    Written rules d (rules.shown u) (rules.replacement u) := by
  have hplain : rules.Plain u → Written rules d [u] [u] :=
    fun hu => .plain hu fun he => h.ampersand (he ▸ hu)
  have hescape : u ∉ rules.escape := by
    rw [h.escape]
    exact UnitSet.not_mem_empty u
  rw [replacement_eq, if_neg hescape, shown]
  by_cases hraw : u.isAlphanumeric = true ∨ u ∈ rules.immune
  · have hsingle : ¬ rules.Singles u := by
      rintro ⟨ha, hi, -⟩
      rcases hraw with hraw | hraw
      · simp [ha] at hraw
      · exact hi hraw
    rw [if_pos hraw, if_neg hsingle]
    exact hplain (hraw.imp_right .inl)
  rw [if_neg hraw]
  rw [not_or, Bool.not_eq_true] at hraw
  obtain ⟨ha, hi⟩ := hraw
  cases hfind : rules.entities.find? u with
  | some w =>
    have hsingle : ¬ rules.Singles u := by
      rintro ⟨-, -, hnone, -⟩
      simp [hnone] at hfind
    rw [if_neg hsingle]
    exact written_entity h hfind
  | none =>
    rw [Option.getD_none]
    by_cases hc : rules.control.covers u = true
    · rw [if_pos hc, if_pos ⟨ha, hi, hfind, hc⟩]
      exact written_substitute h hc
    rw [if_neg hc, if_neg fun hs => hc hs.2.2.2]
    rw [Bool.not_eq_true] at hc
    by_cases hp : rules.passes u = true
    · rw [if_pos hp]
      exact hplain (.inr (.inr ⟨hfind, hc, hp⟩))
    · rw [if_neg hp, h.fallback]
      rw [Bool.not_eq_true] at hp
      exact written_fallback (h.numbers u hc hp)

lemma mem_encode_of_refers (h : rules.Refers d) (hv : v ∈ rules.encode t) :
    rules.Plain v ∨ v ∈ units "&#;" := by
  obtain ⟨u, -, hu⟩ := mem_encode.mp hv
  exact (written_replacement h u).mem hu

lemma not_mem_encode_of_refers (h : rules.Refers d) (hv : ¬ rules.Plain v)
    (hs : v ∉ units "&#;") : v ∉ rules.encode t := by
  intro hmem
  rcases mem_encode_of_refers h hmem with hplain | hsign
  · exact hv hplain
  · exact hs hsign

/-- The expansion of an encoded text is what the single units show. -/
theorem expand?_encode (h : rules.Refers d) (t : Text) :
    d.expand? (rules.encode t) = some (t.flatMap rules.shown) := by
  have hstep : ∀ u rest, d.expand? (rules.replacement u ++ rest) =
      (d.expand? rest).map (rules.shown u ++ ·) :=
    fun u rest => (written_replacement h u).expand?
  have hread := read_encode hstep t []
  simpa using hread

lemma isSome_reference?_of_encode (h : rules.Refers d) {before after : Text}
    (he : rules.encode t = before ++ unit '&' :: after) : (d.reference? after).isSome := by
  have hsome : (d.expand? (before ++ unit '&' :: after)).isSome := by
    rw [← he, expand?_encode h, Option.isSome_some]
  exact Dialect.isSome_reference?_of_expand? hsome

end RuleSet

end InertText
