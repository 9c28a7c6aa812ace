import InertText.Proofs.Context.Halves
import InertText.Proofs.Context.Inert

/-!
# Characters of the output

What a context makes of a well-formed text is well-formed, so it is a string again. In
XML the string has to be made of the characters that a document may hold. The contexts
of XML and of CDATA sections let no control through that is none of them, but they do
not look for the two last units of the basic plane, which are no characters either.
-/
namespace InertText

lemma RuleSet.mem_encode_of_mem_filter {rules : RuleSet} {t : Text} {u : CodeUnit}
    (h : u ∈ rules.filter t) : u ∈ rules.encode t := by
  obtain ⟨hu, hself⟩ := mem_filter.mp h
  refine mem_encode.mpr ⟨u, hu, ?_⟩
  rw [hself]
  exact List.mem_singleton_self u

namespace Xml

/-- The characters that an XML document may hold. -/
def IsCharacter (c : Char) : Prop :=
  c.toNat = 0x09 ∨ c.toNat = 0x0a ∨ c.toNat = 0x0d ∨ (0x20 ≤ c.toNat ∧ c.toNat ≤ 0xd7ff) ∨
    (0xe000 ≤ c.toNat ∧ c.toNat ≤ 0xfffd) ∨ (0x10000 ≤ c.toNat ∧ c.toNat ≤ 0x10ffff)

variable {u v high low : CodeUnit} {t : Text} {mode : Mode} {c : Context}

lemma isCharacter_toChar (hsurrogate : u.isSurrogate = false) (hdropped : isDropped u = false)
    (hlast : u ≠ 0xfffe ∧ u ≠ 0xffff) : IsCharacter u.toChar := by
  have hlt := u.toNat_lt
  simp only [ne_eq, ← UInt16.toNat_inj, UInt16.reduceToNat] at hlast
  rw [IsCharacter, CodeUnit.toNat_toChar hsurrogate]
  simp only [CodeUnit.isSurrogate, CodeUnit.isHighSurrogate, CodeUnit.isLowSurrogate, isDropped,
    Bool.or_eq_false_iff, Bool.and_eq_false_iff, decide_eq_false_iff_not] at hsurrogate hdropped
  omega

lemma isCharacter_pairToChar (hhigh : high.isHighSurrogate = true)
    (hlow : low.isLowSurrogate = true) : IsCharacter (high.pairToChar low) := by
  rw [IsCharacter, CodeUnit.toNat_pairToChar hhigh hlow]
  simp only [CodeUnit.isHighSurrogate, CodeUnit.isLowSurrogate, Bool.and_eq_true,
    decide_eq_true_eq] at hhigh hlow
  omega

/-- Sections and the other contexts agree on what has no place in XML. -/
lemma isForbidden_eq_isDropped (u : CodeUnit) : Cdata.isForbidden u = isDropped u := by
  have hspace : u ∉ whitespace ↔ u ≠ 0x09 ∧ u ≠ 0x0a ∧ u ≠ 0x0d := by
    have hlist : whitespace = [0x09, 0x0a, 0x0d] := rfl
    simp [hlist]
  rw [Bool.eq_iff_iff, isDropped_iff, hspace]
  simp only [Cdata.isForbidden, Bool.and_eq_true, bne_iff_ne]
  tauto

lemma isDropped_of_isAlphanumeric (h : u.isAlphanumeric = true) : isDropped u = false := by
  simp only [CodeUnit.isAlphanumeric, Bool.or_eq_true, Bool.and_eq_true, decide_eq_true_eq] at h
  simp only [isDropped, Bool.or_eq_false_iff, Bool.and_eq_false_iff, decide_eq_false_iff_not]
  omega

/-- Of the units that a context writes none is dropped, and all but those of the text
are ASCII. -/
lemma unit_of_mem_output (hc : c ∈ contexts) (hv : v ∈ c.output mode t) :
    isDropped v = false ∧ (v ∈ t ∨ v.toNat < 0x80) := by
  obtain ⟨name, immune, hrules, hamp, -, himmune, -⟩ := exists_variant hc
  have hencode : v ∈ (variant name immune).encode t := by
    cases mode with
    | encode => rwa [Context.output_encode hrules] at hv
    | filter =>
      rw [Context.output_filter hrules] at hv
      exact RuleSet.mem_encode_of_mem_filter hv
  have hsigns : ∀ w ∈ units "&#;", isDropped w = false :=
    List.all_iff_forall_prop.mp (by decide)
  constructor
  · rcases RuleSet.mem_encode_of_refers (refers_variant hamp) hencode with
      (ha | hi | ⟨-, hcovers, -⟩) | hsign
    · exact isDropped_of_isAlphanumeric ha
    · exact himmune v hi
    · have hkeeps : ControlPolicy.drop.covers v = false := hcovers
      refine Bool.eq_false_iff.mpr fun hdropped => ?_
      rw [(isDropped_iff.mp hdropped).1] at hkeeps
      exact Bool.noConfusion hkeeps
    · exact hsigns v hsign
  · obtain ⟨u, hu, hmem⟩ := RuleSet.mem_encode.mp hencode
    rcases RuleSet.eq_or_lt_of_mem_replacement (Context.lt_of_mem_entities hrules) hmem with
      rfl | hlt
    · exact .inl hu
    · exact .inr hlt

/-- The same holds of sections, where the replacement of a terminator is ASCII. -/
lemma unit_of_mem_output_cdataContent (hv : v ∈ Context.cdataContent.output mode t) :
    isDropped v = false ∧ (v ∈ t ∨ v.toNat < 0x80) := by
  rw [Context.output_cdataContent] at hv
  cases mode with
  | encode =>
    have hsplit : ∀ w ∈ Cdata.splitTerminator, isDropped w = false ∧ w.toNat < 0x80 :=
      List.all_iff_forall_prop.mp (by decide)
    rw [Cdata.flatten_pieces_encode] at hv
    rcases Cdata.mem_replaceTerminators hv with hmem | hmem
    · obtain ⟨ht, hallowed⟩ := Cdata.mem_allowed.mp hmem
      exact ⟨isForbidden_eq_isDropped v ▸ hallowed, .inl ht⟩
    · exact (hsplit v hmem).imp_right .inr
  | filter =>
    obtain ⟨hsublist, hallowed, -⟩ := Cdata.flatten_pieces_filter t
    exact ⟨isForbidden_eq_isDropped v ▸ hallowed v hv, .inl (hsublist.subset hv)⟩

/-- Two units of the basic plane are no characters. A text without them gets none of
them, and a text of whole characters gets only characters of XML. -/
lemma isCharacter_of_mem_characters {out : Text} (hout : Text.Paired out)
    (hunits : ∀ v ∈ out, isDropped v = false ∧ (v ∈ t ∨ v.toNat < 0x80))
    (hlast : 0xfffe ∉ t ∧ 0xffff ∉ t) : ∀ char ∈ out.characters, IsCharacter char := by
  refine hout.forall_characters ?_ fun high low => isCharacter_pairToChar
  intro v hv hsurrogate
  obtain ⟨hdropped, hfrom⟩ := hunits v hv
  refine isCharacter_toChar hsurrogate hdropped ⟨?_, ?_⟩
  · rintro rfl
    exact hfrom.elim hlast.1 (by decide)
  · rintro rfl
    exact hfrom.elim hlast.2 (by decide)

end Xml

namespace Context

/-- In every context and in both modes a call with a well-formed text returns a
well-formed one, which is the text of a string. In the contexts of XML and of CDATA
sections the string is made of characters of XML, unless the text held one of the two
units that are no characters and that no rule singles out. -/
theorem wellFormed_output (c : Context) (mode : Mode) {t : Text} (ht : t.isWellFormed = true) :
    ∃ out s, c.sanitizer.text mode (some t) = .ok (some out) ∧ out.isWellFormed = true ∧
      out.toString? = some s ∧
      (c ∈ Xml.contexts ∨ c = .cdataContent → 0xfffe ∉ t → 0xffff ∉ t →
        ∀ char ∈ s.toList, Xml.IsCharacter char) := by
  have hpaired := c.paired_output mode (Text.isWellFormed_iff_paired.mp ht)
  refine ⟨c.output mode t, String.ofList (c.output mode t).characters, c.text_sanitizer mode t,
    Text.isWellFormed_iff_paired.mpr hpaired, hpaired.toString?_eq, ?_⟩
  intro hc hfffe hffff
  have hunits : ∀ v ∈ c.output mode t, Xml.isDropped v = false ∧ (v ∈ t ∨ v.toNat < 0x80) := by
    intro v hv
    rcases hc with hxml | rfl
    · exact Xml.unit_of_mem_output hxml hv
    · exact Xml.unit_of_mem_output_cdataContent hv
  rw [String.toList_ofList]
  exact Xml.isCharacter_of_mem_characters hpaired hunits ⟨hfffe, hffff⟩

/-- Controls on both sides of a pair, next line, a unit above the pairs that has no
place in XML and a terminator. -/
theorem wellFormed_output_cdataContent :
    Text.isWellFormed ([0x01, 0xd83d, 0xde00, 0x7f, 0x85, 0xfdd0] ++ units "]]>") = true ∧
    0xfffe ∉ [0x01, 0xd83d, 0xde00, 0x7f, 0x85, 0xfdd0] ++ units "]]>" ∧
    0xffff ∉ [0x01, 0xd83d, 0xde00, 0x7f, 0x85, 0xfdd0] ++ units "]]>" ∧
    ∃ out s, cdataContent.sanitizer.text .encode
        (some ([0x01, 0xd83d, 0xde00, 0x7f, 0x85, 0xfdd0] ++ units "]]>")) = .ok (some out) ∧
      out.isWellFormed = true ∧ out.toString? = some s ∧
      ∀ char ∈ s.toList, Xml.IsCharacter char := by
  have ht : Text.isWellFormed
      ([0x01, 0xd83d, 0xde00, 0x7f, 0x85, 0xfdd0] ++ units "]]>") = true := by decide
  have hfffe : 0xfffe ∉ [0x01, 0xd83d, 0xde00, 0x7f, 0x85, 0xfdd0] ++ units "]]>" := by decide
  have hffff : 0xffff ∉ [0x01, 0xd83d, 0xde00, 0x7f, 0x85, 0xfdd0] ++ units "]]>" := by decide
  obtain ⟨out, s, htext, hout, hs, hcharacters⟩ := wellFormed_output cdataContent .encode ht
  exact ⟨ht, hfffe, hffff, out, s, htext, hout, hs, hcharacters (.inr rfl) hfffe hffff⟩

/-- A text may bring a unit that is no character into a document. -/
example : xmlContent.output .encode [unit '<', 0xffff] = units "&lt;" ++ [0xffff] := by decide

end Context

end InertText
