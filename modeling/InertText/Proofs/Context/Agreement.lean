import InertText.Proofs.Cdata.Filtering
import InertText.Proofs.Rules.Filtering
import InertText.Proofs.Xml.Expansion

/-!
# Agreement of the two modes

Filtering takes units out of a text until encoding has nothing to change in it. In
the built-in contexts encoding and filtering leave the same texts alone: units that
are dropped and replacements that grow never add up to the text they came from.
-/
namespace InertText

namespace Xml

variable {name : Text} {immune : UnitSet} {u v : CodeUnit}

/-- A unit that XML forbids is not part of any replacement. -/
lemma not_mem_replacement_of_dropped (hamp : unit '&' ∉ immune)
    (hcovers : (variant name immune).control.covers u = true)
    (hu : (variant name immune).replacement u = []) :
    u ∉ (variant name immune).replacement v := by
  intro hmem
  have hencode : u ∈ (variant name immune).encode [v] :=
    RuleSet.mem_encode.mpr ⟨v, List.mem_singleton_self v, hmem⟩
  rcases RuleSet.mem_encode_of_refers (refers_variant hamp) hencode with
    (ha | hi | ⟨-, hnot, -⟩) | hsign
  · simp [ControlPolicy.not_isAlphanumeric_of_covers hcovers] at ha
  · have hself : (variant name immune).replacement u = [u] := by
      rw [RuleSet.replacement_eq, if_pos (.inr hi)]
    simp [hu] at hself
  · simp [hnot] at hcovers
  · have hsigns : ∀ w ∈ units "&#;", ControlPolicy.drop.covers w = false :=
      List.all_iff_forall_prop.mp (by decide)
    have hnot : (variant name immune).control.covers u = false := hsigns u hsign
    simp [hnot] at hcovers

end Xml

namespace Context

variable {c : Context} {rules : RuleSet}

lemma two_le_length_entities (h : c.rules? = some rules) :
    ∀ p ∈ rules.entities.entries, 2 ≤ p.2.length :=
  List.all_iff_forall_prop.mp
    (rules_all (fun rules => rules.entities.entries.all fun p => 2 ≤ p.2.length) (by decide) h)

lemma mem_xml_contexts_of_control (h : c.rules? = some rules) (hdrop : rules.control = .drop) :
    c ∈ Xml.contexts := by
  cases c
  case cdataContent => simp [rules?] at h
  case xmlContent | xmlInSingleQuoteAttribute | xmlInDoubleQuoteAttribute | xmlCommentContent =>
    decide
  all_goals
    obtain rfl := Option.some.inj h
    exact absurd hdrop (by decide)

lemma telling (h : c.rules? = some rules) : rules.Telling := by
  refine RuleSet.telling_of_entities (two_le_length_entities h) fun hdrop u hcovers hu v => ?_
  obtain ⟨name, immune, hvariant, hamp, -⟩ :=
    Xml.exists_variant (mem_xml_contexts_of_control h hdrop)
  obtain rfl := Option.some.inj (h.symm.trans hvariant)
  exact Xml.not_mem_replacement_of_dropped hamp hcovers hu

lemma output_filter_eq_self_of_encode {t : Text} (h : c.output .encode t = t) :
    c.output .filter t = t := by
  cases hc : c.rules? with
  | none =>
    obtain rfl := rules?_eq_none_iff.mp hc
    rw [output_cdataContent] at h ⊢
    obtain ⟨hunits, hnone⟩ := Cdata.forall_allowed_of_encode h
    exact Cdata.pieces_eq_self hunits hnone .filter
  | some rules =>
    rw [output_encode hc] at h
    rw [output_filter hc]
    exact RuleSet.filter_eq_self_of_encode (telling hc) h

end Context

namespace Provided

/-- Filtering leaves a part of the text in its order, which neither mode changes. -/
lemma output_filter_inert (p : Provided) (t : Text) :
    (p.output .filter t).Sublist t ∧
      ∀ mode, p.output mode (p.output .filter t) = p.output .filter t := by
  rcases p.output_cases with ⟨rules, hencode, hfilter⟩ | hpieces
  · rw [hfilter]
    refine ⟨rules.filter_sublist t, fun mode => ?_⟩
    cases mode with
    | encode => rw [hencode, rules.encode_filter]
    | filter => rw [hfilter, rules.filter_filter]
  · obtain ⟨hsublist, hunits, hnone⟩ := Cdata.flatten_pieces_filter t
    rw [hpieces]
    refine ⟨hsublist, fun mode => ?_⟩
    rw [hpieces]
    exact Cdata.pieces_eq_self hunits hnone mode

/-- Every sanitizer of the library returns a filtered text, which is a part of the
text in its order and which neither encoding nor filtering changes. What filtering
leaves as it is encoding leaves too, and in the built-in contexts the other way
round. -/
theorem output_filter_agrees (p : Provided) (t : Text) :
    (∀ mode, p.sanitizer.text mode (some t) = .ok (some (p.output mode t))) ∧
    (p.output .filter t).Sublist t ∧
    p.output .encode (p.output .filter t) = p.output .filter t ∧
    p.output .filter (p.output .filter t) = p.output .filter t ∧
    (p.output .filter t = t → p.output .encode t = t) ∧
    ∀ c : Context, p = .context c → (p.output .encode t = t ↔ p.output .filter t = t) := by
  obtain ⟨hsublist, hinert⟩ := p.output_filter_inert t
  have hfiltered : p.output .filter t = t → p.output .encode t = t := by
    intro h
    have hencode := hinert .encode
    rwa [h] at hencode
  refine ⟨fun mode => p.text_sanitizer mode t, hsublist, hinert .encode, hinert .filter,
    hfiltered, ?_⟩
  rintro c rfl
  exact ⟨Context.output_filter_eq_self_of_encode, hfiltered⟩

/-- Three dropped units make room for a reference of four, but encoding does not
give the text back. -/
theorem output_filter_agrees_xmlContent :
    (Context.xmlContent.output .encode (0x01 :: 0x01 :: 0x01 :: units "<")).length = 4 ∧
    Context.xmlContent.output .filter (0x01 :: 0x01 :: 0x01 :: units "<") = [] ∧
    Context.xmlContent.output .encode (0x01 :: 0x01 :: 0x01 :: units "<") ≠
      0x01 :: 0x01 :: 0x01 :: units "<" := by
  have hfilter : Context.xmlContent.output .filter (0x01 :: 0x01 :: 0x01 :: units "<") = [] := by
    decide
  have hagrees := (output_filter_agrees (.context .xmlContent)
    (0x01 :: 0x01 :: 0x01 :: units "<")).2.2.2.2.2 .xmlContent rfl
  refine ⟨by decide, hfilter, fun hencode => ?_⟩
  have hself := hagrees.mp hencode
  exact absurd (hfilter.symm.trans hself) (by decide)

end Provided

end InertText
