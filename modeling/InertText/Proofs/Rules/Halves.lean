import InertText.Proofs.Delivery.Streaming
import InertText.Proofs.Rules.Filtering
import InertText.Proofs.Text.Halves

/-!
# Halves of pairs under a rule set

All that a rule set writes of its own is ASCII, if its entities are. So it makes no
half of a pair. A half that it does not name is written as the threshold and the
fallback say: above the threshold it stands as it is, and in percent form nothing of
it is left.
-/
namespace InertText

lemma CodeUnit.lt_of_isAlphanumeric {v : CodeUnit} (h : v.isAlphanumeric = true) :
    v.toNat < 0x80 := by
  simp only [isAlphanumeric, Bool.or_eq_true, Bool.and_eq_true, decide_eq_true_eq] at h
  omega

namespace Fallback

lemma lt_of_mem_percent {u v : CodeUnit} (h : v ∈ percent u) : v.toNat < 0x80 := by
  obtain ⟨b, -, hv⟩ := List.mem_flatMap.mp h
  rcases List.mem_cons.mp hv with rfl | hv
  · decide
  · exact CodeUnit.lt_of_isAlphanumeric (Hex.isAlphanumeric_of_mem_octet hv)

/-- A fallback writes ASCII or leaves the unit as it is. -/
lemma eq_or_lt_of_mem_write {f : Fallback} {u v : CodeUnit} (h : v ∈ f.write u) :
    v = u ∨ v.toNat < 0x80 := by
  have hdigits : ∀ {width : ℤ}, v ∈ Hex.text width u → v.toNat < 0x80 := fun hv =>
    CodeUnit.lt_of_isAlphanumeric (Hex.isAlphanumeric_of_mem_text hv)
  have hsigns : ∀ v ∈ units "&#x" ++ units ";" ++ units "\\x" ++ units "\\u", v.toNat < 0x80 :=
    List.all_iff_forall_prop.mp (by decide)
  simp only [List.forall_mem_append] at hsigns
  obtain ⟨⟨⟨hopening, hclosing⟩, hx⟩, hu⟩ := hsigns
  cases f with
  | reference =>
    rw [write, List.mem_append, List.mem_append] at h
    rcases h with (h | h) | h
    · exact .inr (hopening v h)
    · exact .inr (hdigits h)
    · exact .inr (hclosing v h)
  | scriptEscape =>
    rw [write] at h
    split_ifs at h
    · exact .inr ((List.mem_append.mp h).elim (hx v) hdigits)
    · exact .inl (List.mem_singleton.mp h)
  | unicodeEscape => exact .inr ((List.mem_append.mp h).elim (hu v) hdigits)
  | percentOctets => exact .inr (lt_of_mem_percent h)

end Fallback

namespace ControlPolicy

lemma lt_of_mem_substitute {p : ControlPolicy} {v : CodeUnit} (h : v ∈ p.substitute) :
    v.toNat < 0x80 := by
  cases p with
  | keep | drop => exact absurd h List.not_mem_nil
  | replace =>
    have hsubstitute : ∀ v ∈ replace.substitute, v.toNat < 0x80 :=
      List.all_iff_forall_prop.mp (by decide)
    exact hsubstitute v h

/-- No policy applies to half a pair. -/
lemma covers_eq_false {u : CodeUnit} (h : u.isSurrogate = true) (p : ControlPolicy) :
    p.covers u = false := by
  simp only [CodeUnit.isSurrogate, CodeUnit.isHighSurrogate, CodeUnit.isLowSurrogate,
    Bool.or_eq_true, Bool.and_eq_true, decide_eq_true_eq] at h
  cases p with
  | keep => rfl
  | replace =>
    simp only [covers, Bool.or_eq_false_iff, Bool.and_eq_false_iff, decide_eq_false_iff_not]
    omega
  | drop =>
    simp only [covers, Bool.or_eq_false_iff, Bool.and_eq_false_iff, decide_eq_false_iff_not]
    omega

end ControlPolicy

namespace RuleSet

variable {rules : RuleSet} {mode : Mode} {t : Text} {u v : CodeUnit}

/-- Where the entities are ASCII, every replacement is, unless the unit stands as it
is. -/
lemma eq_or_lt_of_mem_replacement
    (hentities : ∀ p ∈ rules.entities.entries, ∀ v ∈ p.2, v.toNat < 0x80)
    (h : v ∈ rules.replacement u) : v = u ∨ v.toNat < 0x80 := by
  rw [replacement_eq] at h
  split at h
  · exact .inl (List.mem_singleton.mp h)
  split at h
  · rcases mem_slashEscape h with rfl | hv | ⟨rfl, -⟩
    · exact .inr (by decide)
    · exact .inr (CodeUnit.lt_of_isAlphanumeric hv)
    · exact .inl rfl
  cases hfind : rules.entities.find? u with
  | some w =>
    rw [hfind, Option.getD_some] at h
    exact .inr (hentities (u, w) (mem_of_lookup hfind) v h)
  | none =>
    rw [hfind, Option.getD_none] at h
    split_ifs at h
    · exact .inr (ControlPolicy.lt_of_mem_substitute h)
    · exact .inl (List.mem_singleton.mp h)
    · exact Fallback.eq_or_lt_of_mem_write h

/-- The units for which a rule set says what becomes of them. -/
def listed (rules : RuleSet) : List CodeUnit :=
  rules.immune.members ++ rules.escape.members ++ rules.entities.entries.map Prod.fst

/-- For half a pair only the threshold and the fallback decide. -/
lemma replacement_of_surrogate (hlisted : ∀ v ∈ rules.listed, v.isSurrogate = false)
    (hu : u.isSurrogate = true) :
    rules.replacement u = if rules.passes u then [u] else rules.fallback.write u := by
  have hnot : u ∉ rules.listed := fun hmem => by simp [hlisted u hmem] at hu
  obtain ⟨⟨himmune, hescape⟩, hentities⟩ : (u ∉ rules.immune ∧ u ∉ rules.escape) ∧
      u ∉ rules.entities.entries.map Prod.fst := by
    rwa [listed, List.mem_append, List.mem_append, not_or, not_or] at hnot
  have halpha : ¬ u.isAlphanumeric = true := fun ha => by
    simp [CodeUnit.not_surrogate_of_lt (CodeUnit.lt_of_isAlphanumeric ha)] at hu
  have hfind : rules.entities.find? u = none := by
    refine List.lookup_eq_none_iff.mpr fun p hp => bne_iff_ne.mpr ?_
    rintro rfl
    exact hentities (List.mem_map_of_mem hp)
  rw [replacement_eq, if_neg (not_or.mpr ⟨halpha, himmune⟩), if_neg hescape, hfind,
    Option.getD_none, ControlPolicy.covers_eq_false hu, if_neg Bool.false_ne_true]

lemma mem_replacement_of_piece? {piece : Text} (h : rules.piece? mode u = some piece)
    (hv : v ∈ piece) : v ∈ rules.replacement u := by
  cases mode with
  | encode => rwa [Option.some.inj h]
  | filter =>
    rw [piece?, Option.ite_none_right_eq_some, keeps_iff, Option.some_inj] at h
    rwa [h.1, h.2]

/-- A rule set keeps all halves if each of them stands as it is. -/
lemma keepsHalves (hentities : ∀ p ∈ rules.entities.entries, ∀ v ∈ p.2, v.toNat < 0x80)
    (hself : ∀ u, u.isSurrogate = true → rules.replacement u = [u]) (mode : Mode) :
    KeepsHalves () fun _ t => ((Sanitizer.ofRules rules).emit mode t).pieces := by
  simp only [pieces_ofRules]
  have hhalf : ∀ u, u.isSurrogate = true → ∀ t,
      (u :: t).filterMap (rules.piece? mode) = [u] :: t.filterMap (rules.piece? mode) := by
    intro u hu t
    have hpiece : rules.piece? mode u = some [u] := by
      cases mode with
      | encode => rw [piece?, hself u hu]
      | filter => rw [piece?, keeps_iff.mpr (hself u hu), if_pos rfl]
    exact List.filterMap_cons_some hpiece
  refine ⟨rfl, fun _ piece hpiece => absurd hpiece List.not_mem_nil, ?_, hhalf, ?_⟩
  · intro _ u hu
    cases hpiece : rules.piece? mode u with
    | none => exact .inl ⟨(), fun t => List.filterMap_cons_none hpiece⟩
    | some piece =>
      refine .inr ⟨piece, fun v hv => ?_, fun t => List.filterMap_cons_some hpiece⟩
      rcases eq_or_lt_of_mem_replacement hentities (mem_replacement_of_piece? hpiece hv) with
        rfl | hlt
      · exact hu
      · exact CodeUnit.not_surrogate_of_lt hlt
  · exact fun _ u hu => ⟨[], fun v hv => absurd hv List.not_mem_nil, hhalf u hu⟩

/-- If no half stands as it is, none is left. -/
lemma not_surrogate_of_mem_text
    (hentities : ∀ p ∈ rules.entities.entries, ∀ v ∈ p.2, v.toNat < 0x80)
    (hother : ∀ u, u.isSurrogate = true → ∀ v ∈ rules.replacement u, v.toNat < 0x80)
    (h : v ∈ ((Sanitizer.ofRules rules).emit mode t).text) : v.isSurrogate = false := by
  rw [Emission.text, pieces_ofRules] at h
  obtain ⟨piece, hpiece, hv⟩ := List.mem_flatten.mp h
  obtain ⟨u, -, hu⟩ := List.mem_filterMap.mp hpiece
  have hmem := mem_replacement_of_piece? hu hv
  cases hsurrogate : v.isSurrogate with
  | false => rfl
  | true =>
    rcases eq_or_lt_of_mem_replacement hentities hmem with rfl | hlt
    · rw [← hsurrogate, CodeUnit.not_surrogate_of_lt (hother v hsurrogate v hmem)]
    · rw [← hsurrogate, CodeUnit.not_surrogate_of_lt hlt]

end RuleSet

end InertText
