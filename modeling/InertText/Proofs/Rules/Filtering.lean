import InertText.Proofs.Rules.Length

/-!
# Filtered texts

Filtering keeps the units that encoding leaves as they are, and one decision for a
unit makes both modes. So a filtered text is left alone by either mode. A text that
encoding leaves alone need not consist of kept units, because a unit that is dropped
makes room for one that grows. It does where no replacement brings a dropped unit
back and none replaces a unit by a single other one.
-/
namespace InertText.RuleSet

variable {rules : RuleSet} {t : Text} {u : CodeUnit}

lemma keeps_iff : rules.keeps u = true ↔ rules.replacement u = [u] := by
  rw [keeps, isUnchanged, beq_iff_eq]

lemma mem_filter : u ∈ rules.filter t ↔ u ∈ t ∧ rules.replacement u = [u] := by
  rw [filter, List.mem_filter, keeps_iff]

lemma filter_sublist (rules : RuleSet) (t : Text) : (rules.filter t).Sublist t :=
  List.filter_sublist

lemma filter_eq_self_iff : rules.filter t = t ↔ ∀ u ∈ t, rules.replacement u = [u] := by
  rw [filter, List.filter_eq_self]
  exact forall₂_congr fun _ _ => keeps_iff

lemma encode_eq_self (h : ∀ u ∈ t, rules.replacement u = [u]) : rules.encode t = t := by
  rw [encode, List.flatMap_congr h, List.flatMap_singleton']

lemma encode_filter (rules : RuleSet) (t : Text) :
    rules.encode (rules.filter t) = rules.filter t :=
  encode_eq_self fun _ hu => (mem_filter.mp hu).2

lemma filter_filter (rules : RuleSet) (t : Text) :
    rules.filter (rules.filter t) = rules.filter t :=
  filter_eq_self_iff.mpr fun _ hu => (mem_filter.mp hu).2

/-- The rule sets whose replacements show what became of their units: a unit is
kept, or it is dropped and no replacement holds it, or it takes more room. -/
structure Telling (rules : RuleSet) : Prop where
  grows : ∀ u, rules.replacement u = [u] ∨ rules.replacement u = [] ∨
    2 ≤ (rules.replacement u).length
  not_mem_of_dropped : ∀ u, rules.replacement u = [] → ∀ v, u ∉ rules.replacement v

/-- Only a policy drops units. -/
lemma control_of_dropped (h : ∀ p ∈ rules.entities.entries, 2 ≤ p.2.length)
    (hu : rules.replacement u = []) :
    rules.control = .drop ∧ rules.control.covers u = true := by
  rcases replacement_cases h u with hself | ⟨hcovers, hsub⟩ | hlong
  · simp [hu] at hself
  · refine ⟨?_, hcovers⟩
    rw [hu] at hsub
    cases hp : rules.control with
    | keep => simp [hp, ControlPolicy.covers] at hcovers
    | replace => simp [hp, ControlPolicy.substitute, units, unitsOfChar] at hsub
    | drop => rfl
  · simp [hu] at hlong

lemma telling_of_entities (h : ∀ p ∈ rules.entities.entries, 2 ≤ p.2.length)
    (hdrop : rules.control = .drop → ∀ u, rules.control.covers u = true →
      rules.replacement u = [] → ∀ v, u ∉ rules.replacement v) : rules.Telling where
  grows u := by
    rcases replacement_cases h u with hself | ⟨-, hsub⟩ | hlong
    · exact .inl hself
    · rw [hsub]
      cases rules.control with
      | keep | drop => exact .inr (.inl rfl)
      | replace => exact .inr (.inr (by decide))
    · exact .inr (.inr hlong)
  not_mem_of_dropped u hu := by
    obtain ⟨hcontrol, hcovers⟩ := control_of_dropped h hu
    exact hdrop hcontrol u hcovers hu

/-- Without dropped units a text does not get shorter, and it gets longer unless all
its units are kept. -/
lemma length_lt_encode_or (h : rules.Telling) (ht : ∀ u ∈ t, rules.replacement u ≠ []) :
    t.length < (rules.encode t).length ∨ ∀ u ∈ t, rules.replacement u = [u] := by
  induction t with
  | nil => exact .inr fun u hu => absurd hu List.not_mem_nil
  | cons u t ih =>
    have htail := ih fun v hv => ht v (List.mem_cons_of_mem u hv)
    have hle : t.length ≤ (rules.encode t).length := by
      rcases htail with hlt | hkept
      · exact hlt.le
      · rw [encode_eq_self hkept]
    rw [encode_cons, List.length_append, List.length_cons]
    rcases h.grows u with hu | hu | hu
    · rw [hu, List.length_singleton]
      rcases htail with hlt | hkept
      · exact .inl (by omega)
      · exact .inr (List.forall_mem_cons.mpr ⟨hu, hkept⟩)
    · exact absurd hu (ht u List.mem_cons_self)
    · exact .inl (by omega)

/-- Encoding leaves only texts alone that filtering leaves alone too. -/
lemma filter_eq_self_of_encode (h : rules.Telling) (ht : rules.encode t = t) :
    rules.filter t = t := by
  have hpresent : ∀ u ∈ t, rules.replacement u ≠ [] := by
    intro u hu hdropped
    rw [← ht] at hu
    obtain ⟨v, -, hv⟩ := mem_encode.mp hu
    exact h.not_mem_of_dropped u hdropped v hv
  rcases length_lt_encode_or h hpresent with hlt | hkept
  · rw [ht] at hlt
    exact absurd hlt (lt_irrefl _)
  · exact filter_eq_self_iff.mpr hkept

end InertText.RuleSet
