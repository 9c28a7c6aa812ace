import InertText.Rules.Replacement
import Mathlib

/-!
# Encoded texts

An encoded text is the replacements of its units one after the other. A reader
that gets through every single replacement, whatever follows it, gets through
the whole encoded text.
-/
namespace InertText

/-- The controls with a letter of their own behind a backslash. -/
def shortForms : List (CodeUnit × CodeUnit) :=
  [(0x08, unit 'b'), (0x09, unit 't'), (0x0a, unit 'n'), (0x0c, unit 'f'), (0x0d, unit 'r')]

/-- Behind the backslash stands a letter, or the unit itself if it has no letter. -/
lemma slashEscape_cases (u : CodeUnit) :
    (∃ c, (u, c) ∈ shortForms ∧ slashEscape u = [unit '\\', c]) ∨
    (u ∉ shortForms.map Prod.fst ∧ slashEscape u = [unit '\\', u]) := by
  unfold slashEscape
  split_ifs with hb ht hn hf hr
  · exact .inl ⟨unit 'b', by simp [shortForms, hb], rfl⟩
  · exact .inl ⟨unit 't', by simp [shortForms, ht], rfl⟩
  · exact .inl ⟨unit 'n', by simp [shortForms, hn], rfl⟩
  · exact .inl ⟨unit 'f', by simp [shortForms, hf], rfl⟩
  · exact .inl ⟨unit 'r', by simp [shortForms, hr], rfl⟩
  · exact .inr ⟨by simp [shortForms, hb, ht, hn, hf, hr], rfl⟩

lemma mem_slashEscape {u v : CodeUnit} (h : v ∈ slashEscape u) :
    v = unit '\\' ∨ v.isAlphanumeric = true ∨ (v = u ∧ u ∉ shortForms.map Prod.fst) := by
  have hletter : ∀ p ∈ shortForms, p.2.isAlphanumeric = true :=
    List.all_iff_forall_prop.mp (by decide)
  obtain ⟨c, hc, hu⟩ | ⟨hc, hu⟩ := slashEscape_cases u
  · rw [hu] at h
    rcases List.mem_pair.mp h with hv | hv
    · exact .inl hv
    · exact .inr (.inl (hv ▸ hletter _ hc))
  · rw [hu] at h
    exact (List.mem_pair.mp h).imp_right fun hv => .inr ⟨hv, hc⟩

/-- The units that are no letters or digits, up to some bound, are few enough to be
listed. The units that no context touches are none of them. -/
lemma CodeUnit.ne_of_alphanumeric_or_lt {n : ℕ} {u v : CodeUnit}
    (hu : u.isAlphanumeric = true ∨ n < u.toNat) (hv : v.isAlphanumeric = false ∧ v.toNat ≤ n) :
    u ≠ v := by
  rintro rfl
  rcases hu with hu | hu
  · simp [hv.1] at hu
  · exact absurd hv.2 (Nat.not_le.mpr hu)

lemma ControlPolicy.not_isAlphanumeric_of_covers {p : ControlPolicy} {u : CodeUnit}
    (h : p.covers u = true) : u.isAlphanumeric = false := by
  simp only [CodeUnit.isAlphanumeric, Bool.or_eq_false_iff, Bool.and_eq_false_iff,
    decide_eq_false_iff_not]
  cases p with
  | keep => exact absurd h Bool.false_ne_true
  | replace =>
    simp only [covers, Bool.or_eq_true, Bool.and_eq_true, decide_eq_true_eq] at h
    omega
  | drop =>
    simp only [covers, Bool.or_eq_true, Bool.and_eq_true, decide_eq_true_eq] at h
    omega

instance (u : CodeUnit) (s : UnitSet) : Decidable (u ∈ s) :=
  inferInstanceAs (Decidable (u ∈ s.members))

namespace RuleSet

variable {rules : RuleSet}

/-- The order of the rules, with membership in place of the tests. -/
lemma replacement_eq (rules : RuleSet) (u : CodeUnit) :
    rules.replacement u =
      if u.isAlphanumeric ∨ u ∈ rules.immune then [u]
      else if u ∈ rules.escape then slashEscape u
      else (rules.entities.find? u).getD
        (if rules.control.covers u then rules.control.substitute
        else if rules.passes u then [u]
        else rules.fallback.write u) := by
  simp only [replacement, Bool.or_eq_true, UnitSet.contains_iff]
  cases rules.entities.find? u <;> simp only [Option.getD_none, Option.getD_some]

lemma passes_iff {n : ℕ} {u : CodeUnit} (h : rules.passthroughAbove.map UInt16.toNat = some n) :
    rules.passes u = true ↔ n < u.toNat := by
  obtain ⟨v, hv, rfl⟩ := Option.map_eq_some_iff.mp h
  rw [passes, hv, Option.any_some, decide_eq_true_iff, UInt16.lt_iff_toNat_lt]

@[simp] theorem encode_nil (rules : RuleSet) : rules.encode [] = [] := rfl

lemma encode_cons (rules : RuleSet) (u : CodeUnit) (t : Text) :
    rules.encode (u :: t) = rules.replacement u ++ rules.encode t := List.flatMap_cons

lemma mem_encode {v : CodeUnit} {t : Text} :
    v ∈ rules.encode t ↔ ∃ u ∈ t, v ∈ rules.replacement u := List.mem_flatMap

/-- A unit of an encoded text stands in one replacement, and encoded texts stand
before and behind that. -/
lemma exists_of_encode_eq_append {v : CodeUnit} {t before after : Text}
    (h : rules.encode t = before ++ v :: after) :
    ∃ t₁ u t₂ w₁ w₂, t = t₁ ++ u :: t₂ ∧ rules.replacement u = w₁ ++ v :: w₂ ∧
      before = rules.encode t₁ ++ w₁ ∧ after = w₂ ++ rules.encode t₂ := by
  induction t generalizing before with
  | nil => simp at h
  | cons u t ih =>
    -- The unit stands behind the first replacement or in it.
    rw [encode_cons] at h
    rcases List.append_eq_append_iff.mp h with ⟨mid, hbefore, hmid⟩ | ⟨mid, hw, hmid⟩
    · obtain ⟨t₁, x, t₂, w₁, w₂, rfl, hx, hfront, hback⟩ := ih hmid
      refine ⟨u :: t₁, x, t₂, w₁, w₂, rfl, hx, ?_, hback⟩
      rw [hbefore, hfront, encode_cons, List.append_assoc]
    · cases mid with
      | nil =>
        have hrest : rules.encode t = [] ++ v :: after := hmid.symm
        obtain ⟨t₁, x, t₂, w₁, w₂, rfl, hx, hfront, hback⟩ := ih hrest
        refine ⟨u :: t₁, x, t₂, w₁, w₂, rfl, hx, ?_, hback⟩
        rw [encode_cons, List.append_assoc, ← hfront, hw, List.append_nil, List.append_nil]
      | cons x mid =>
        obtain ⟨rfl, hafter⟩ := List.cons.inj hmid
        exact ⟨[], u, t, before, mid, rfl, hw, rfl, hafter⟩

/-- The induction over an encoded text, for a reader that gets something out of
every replacement and goes on behind it. -/
lemma read_encode {α : Type} {read : Text → Option (List α)} {f : CodeUnit → List α}
    (hread : ∀ u rest, read (rules.replacement u ++ rest) = (read rest).map (f u ++ ·))
    (t rest : Text) :
    read (rules.encode t ++ rest) = (read rest).map (t.flatMap f ++ ·) := by
  induction t with
  | nil => simp
  | cons u t ih =>
    rw [encode_cons, List.append_assoc, hread, ih, Option.map_map]
    congr 1
    funext v
    simp [List.flatMap_cons]

end RuleSet

end InertText
