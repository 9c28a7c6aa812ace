import InertText.Proofs.Context.Output
import InertText.Proofs.Rules.Encoding
import InertText.Proofs.Text.HexReading

/-!
# The length of replacements

No form that a rule writes is longer than nine units, which three octets in percent
form are. Only an entity of a rule set can be longer, and those of the built-in
contexts are not. A form has at least two units, unless it leaves the unit as it is
or drops it.
-/
namespace InertText

lemma length_slashEscape (u : CodeUnit) : (slashEscape u).length = 2 := by
  obtain ⟨c, -, hu⟩ | ⟨-, hu⟩ := slashEscape_cases u
  · rw [hu]
    rfl
  · rw [hu]
    rfl

lemma ControlPolicy.length_substitute_le (p : ControlPolicy) : p.substitute.length ≤ 9 := by
  cases p <;> decide

namespace Fallback

lemma length_flatMap_percent (octets : List UInt8) :
    (octets.flatMap fun b => unit '%' :: Hex.octet b).length = 3 * octets.length := by
  induction octets with
  | nil => rfl
  | cons b octets ih =>
    rw [List.flatMap_cons, List.length_append, ih, List.length_cons, Hex.length_octet,
      List.length_cons]
    omega

/-- A unit has at most three octets. -/
lemma length_percent_le (u : CodeUnit) : (percent u).length ≤ 9 := by
  have hsize : u.toChar.utf8Size ≤ 3 := by
    have hlt : u.toChar.val.toNat < 0x10000 := CodeUnit.toNat_toChar_lt u
    have hle : u.toChar.val ≤ 0xffff := UInt32.le_iff_toNat_le.mpr (Nat.le_of_lt_succ hlt)
    rw [Char.utf8Size]
    split_ifs with _ _ h
    · decide
    · decide
    · decide
    · exact absurd hle h
  rw [percent, length_flatMap_percent, String.length_utf8EncodeChar]
  omega

lemma length_write_le (f : Fallback) (u : CodeUnit) : (f.write u).length ≤ 9 := by
  have hdigits : (Hex.significant u).length ≤ 4 := Hex.length_significant_le (by decide) u.toNat_lt
  have hone := Hex.length_text_eq_max 1 u
  have htwo := Hex.length_text_eq_max 2 u
  have hfour := Hex.length_text_eq_max 4 u
  have hopening : (units "&#x").length = 3 := rfl
  have hclosing : (units ";").length = 1 := rfl
  have hx : (units "\\x").length = 2 := rfl
  have hu : (units "\\u").length = 2 := rfl
  cases f with
  | reference =>
    simp only [write, List.length_append, hopening, hclosing]
    omega
  | scriptEscape =>
    simp only [write]
    split_ifs
    · simp only [List.length_append, hx]
      omega
    · simp
  | unicodeEscape =>
    simp only [write, List.length_append, hu]
    omega
  | percentOctets => exact length_percent_le u

/-- Only the escape of script literals leaves units alone, those that are not ASCII. All
that is written starts with a sign. -/
lemma two_le_length_write {f : Fallback} {u : CodeUnit}
    (h : ¬ (f = .scriptEscape ∧ 0x80 ≤ u.toNat)) : 2 ≤ (f.write u).length := by
  have hopening : (units "&#x").length = 3 := rfl
  have hx : (units "\\x").length = 2 := rfl
  have hu : (units "\\u").length = 2 := rfl
  cases f with
  | reference =>
    simp only [write, List.length_append, hopening]
    omega
  | scriptEscape =>
    have hlt : u.toNat < 0x80 := Nat.lt_of_not_le fun hle => h ⟨rfl, hle⟩
    simp only [write, if_pos hlt, List.length_append, hx]
    omega
  | unicodeEscape =>
    simp only [write, List.length_append, hu]
    omega
  | percentOctets =>
    have hpos : 0 < u.toChar.utf8Size := Char.utf8Size_pos u.toChar
    rw [write, percent, length_flatMap_percent, String.length_utf8EncodeChar]
    omega

lemma write_eq_self_iff {f : Fallback} {u : CodeUnit} :
    f.write u = [u] ↔ f = .scriptEscape ∧ 0x80 ≤ u.toNat := by
  constructor
  · intro hself
    by_contra h
    have hlength := two_le_length_write h
    rw [hself, List.length_singleton] at hlength
    omega
  · rintro ⟨rfl, hle⟩
    rw [write, if_neg (Nat.not_lt.mpr hle)]

lemma eq_or_two_le_length_write (f : Fallback) (u : CodeUnit) :
    f.write u = [u] ∨ 2 ≤ (f.write u).length := by
  by_cases h : f = .scriptEscape ∧ 0x80 ≤ u.toNat
  · exact .inl (write_eq_self_iff.mpr h)
  · exact .inr (two_le_length_write h)

end Fallback

namespace RuleSet

/-- Where no entity is longer than nine units, no replacement is. -/
lemma length_replacement_le {rules : RuleSet}
    (h : ∀ p ∈ rules.entities.entries, p.2.length ≤ 9) (u : CodeUnit) :
    (rules.replacement u).length ≤ 9 := by
  rw [replacement_eq]
  split
  · simp
  split
  · rw [length_slashEscape]
    decide
  cases hfind : rules.entities.find? u with
  | some w => exact h (u, w) (mem_of_lookup hfind)
  | none =>
    rw [Option.getD_none]
    split_ifs
    · exact rules.control.length_substitute_le
    · simp
    · exact rules.fallback.length_write_le u

/-- Where no entity is shorter than two units, a unit is kept, or the policy
applies to it, or it takes more room. -/
lemma replacement_cases {rules : RuleSet}
    (h : ∀ p ∈ rules.entities.entries, 2 ≤ p.2.length) (u : CodeUnit) :
    rules.replacement u = [u] ∨
    (rules.control.covers u = true ∧ rules.replacement u = rules.control.substitute) ∨
    2 ≤ (rules.replacement u).length := by
  rw [replacement_eq]
  split
  · exact .inl rfl
  split
  · exact .inr (.inr (length_slashEscape u).ge)
  cases hfind : rules.entities.find? u with
  | some w => exact .inr (.inr (h (u, w) (mem_of_lookup hfind)))
  | none =>
    rw [Option.getD_none]
    split_ifs with hcovers
    · exact .inr (.inl ⟨hcovers, rfl⟩)
    · exact .inl rfl
    · exact (rules.fallback.eq_or_two_le_length_write u).imp_right .inr

end RuleSet

lemma Context.length_replacement_le {c : Context} {rules : RuleSet} (h : c.rules? = some rules)
    (u : CodeUnit) : (rules.replacement u).length ≤ 9 := by
  have hentities := rules_all
    (fun rules => rules.entities.entries.all fun p => p.2.length ≤ 9) (by decide) h
  exact RuleSet.length_replacement_le (List.all_iff_forall_prop.mp hentities) u

end InertText
