import InertText.Proofs.Cdata.Scan
import InertText.Proofs.Context.Output
import InertText.Proofs.Markup.Encoding

/-!
# Encoded texts as XML

In all four contexts of XML an encoded text holds nothing that ends the place it
stands in. Its ampersands begin references, and with these expanded it is the
text again, less the units that XML forbids.
-/
namespace InertText.Xml

/-- The references of XML. A number stands for a character of XML. -/
def dialect : Markup.Dialect where
  names := [
    (units "quot", unit '"'), (units "amp", unit '&'), (units "apos", unit '\''),
    (units "lt", unit '<'), (units "gt", unit '>')]
  names_alphanumeric := List.all_iff_forall_prop.mp (by decide)
  refers n := n = 0x09 || n = 0x0a || n = 0x0d || (0x20 ≤ n && n ≤ 0xd7ff) ||
    (0xe000 ≤ n && n ≤ 0xfffd) || (0x10000 ≤ n && n ≤ 0x10ffff)

def contexts : List Context :=
  [.xmlContent, .xmlInDoubleQuoteAttribute, .xmlInSingleQuoteAttribute, .xmlCommentContent]

/-- The units that have no place in XML. Tab, line feed, carriage return and next
line are not among them. -/
def isDropped (u : CodeUnit) : Bool :=
  let n := u.toNat
  n ≤ 0x08 || n = 0x0b || n = 0x0c || (0x0e ≤ n && n ≤ 0x1f) || (0x7f ≤ n && n ≤ 0x84) ||
    (0x86 ≤ n && n ≤ 0x9f) || (0xfdd0 ≤ n && n ≤ 0xfddf)

/-- The units that could end a context. -/
def closing : Context → Text
  | .xmlContent => units "<>"
  | .xmlInDoubleQuoteAttribute => units "<>\""
  | .xmlInSingleQuoteAttribute => units "<>'"
  | .xmlCommentContent => units "-"
  | _ => []

/-- The controls that XML allows as they are. -/
def whitespace : Text := units "\t\n\r"

/-- The base with another name and other immune units. -/
def variant (name : Text) (immune : UnitSet) : RuleSet := { base with name := name, immune := immune }

variable {c : Context} {name : Text} {immune : UnitSet} {u : CodeUnit}

/-- The policy would apply to the white space too, but for the rules in front of it. -/
lemma isDropped_iff :
    isDropped u = true ↔ ControlPolicy.drop.covers u = true ∧ u ∉ whitespace := by
  have hlist : whitespace = [0x09, 0x0a, 0x0d] := rfl
  have hmem : u ∈ whitespace ↔ u.toNat = 0x09 ∨ u.toNat = 0x0a ∨ u.toNat = 0x0d := by
    simp only [hlist, List.mem_cons, List.not_mem_nil, or_false, ← UInt16.toNat_inj,
      UInt16.reduceToNat]
  rw [hmem]
  simp only [isDropped, ControlPolicy.covers, Bool.or_eq_true, Bool.and_eq_true, decide_eq_true_eq]
  omega

lemma passes_variant : (variant name immune).passes u = true ↔ 0x9f < u.toNat :=
  RuleSet.passes_iff rfl

lemma refers_variant (h : unit '&' ∉ immune) : (variant name immune).Refers dialect where
  escape := rfl
  fallback := rfl
  ampersand := by
    rintro (ha | hi | ⟨-, -, hp⟩)
    · exact absurd ha (by decide)
    · exact h hi
    · exact absurd (passes_variant.mp hp) (by decide)
  entities := by
    have hentities : ∀ p ∈ base.entities.entries, ∃ q ∈ dialect.names,
        dialect.names.lookup q.1 = some p.1 ∧ p.2 = unit '&' :: (q.1 ++ [unit ';']) :=
      List.all_iff_forall_prop.mp (by decide)
    exact hentities
  control := nofun
  numbers u hc hp := by
    have hle : ¬ 0x9f < u.toNat := fun hlt => by simp [passes_variant.mpr hlt] at hp
    have hcovers : ControlPolicy.drop.covers u = false := hc
    simp only [ControlPolicy.covers, Bool.or_eq_false_iff, Bool.and_eq_false_iff,
      decide_eq_false_iff_not] at hcovers
    simp only [dialect, Bool.or_eq_true, Bool.and_eq_true, decide_eq_true_eq]
    omega

/-- Where the white space is immune, and nothing else that the policy would apply
to, the policy drops exactly the units that have no place in XML. -/
lemma singles_variant (hspace : ∀ v ∈ whitespace, v ∈ immune)
    (himmune : ∀ v ∈ immune.members, isDropped v = false) :
    (variant name immune).Singles u ↔ isDropped u = true := by
  constructor
  · rintro ⟨-, hi, -, hc⟩
    exact isDropped_iff.mpr ⟨hc, fun hu => hi (hspace u hu)⟩
  · intro hu
    have hentities : ∀ p ∈ base.entities.entries, isDropped p.1 = false :=
      List.all_iff_forall_prop.mp (by decide)
    have hc := (isDropped_iff.mp hu).1
    refine ⟨ControlPolicy.not_isAlphanumeric_of_covers hc, ?_, ?_, hc⟩
    · intro hi
      simp [himmune u hi] at hu
    · refine List.lookup_eq_none_iff.mpr fun p hp => bne_iff_ne.mpr ?_
      rintro rfl
      simp [hentities p hp] at hu

/-- What is dropped stands for nothing, and every other unit for itself. -/
lemma flatMap_shown (hspace : ∀ v ∈ whitespace, v ∈ immune)
    (himmune : ∀ v ∈ immune.members, isDropped v = false) (t : Text) :
    t.flatMap (variant name immune).shown = t.filter fun u => !isDropped u := by
  induction t with
  | nil => rfl
  | cons u t ih =>
    rw [List.flatMap_cons, ih, RuleSet.shown]
    by_cases hu : isDropped u = true
    · rw [if_pos ((singles_variant hspace himmune).mpr hu), List.filter_cons_of_neg (by simp [hu])]
      rfl
    · rw [if_neg fun hs => hu ((singles_variant hspace himmune).mp hs),
        List.filter_cons_of_pos (by simp [hu])]
      rfl

/-- The rule set of a context is such a variant of the base. It does not write the
units that could end the context, nor next line. -/
lemma exists_variant (hc : c ∈ contexts) :
    ∃ name immune, c.rules? = some (variant name immune) ∧ unit '&' ∉ immune ∧
      (∀ v ∈ whitespace, v ∈ immune) ∧ (∀ v ∈ immune.members, isDropped v = false) ∧
      (∀ v ∈ 0x85 :: closing c, ¬ (variant name immune).Plain v ∧ v ∉ units "&#;") := by
  simp only [contexts, List.mem_cons, List.not_mem_nil, or_false] at hc
  rcases hc with rfl | rfl | rfl | rfl
  all_goals
    exact ⟨_, _, rfl, by decide, List.all_iff_forall_prop.mp (by decide),
      List.all_iff_forall_prop.mp (by decide), List.all_iff_forall_prop.mp (by decide)⟩

/-- Whatever a text holds, its encoding holds no unit that could end the context:
outside of comments no terminator of a section, and in a comment no hyphen, so
that the first two hyphens are those of the comment's own end. Every ampersand of
it begins a complete reference, and with the references expanded it is the text
less the dropped units. Next line survives, as a reference. -/
theorem expand?_output_eq_filter (hc : c ∈ contexts) (t : Text) :
    (∀ v ∈ closing c, v ∉ c.output .encode t) ∧
    (c ≠ .xmlCommentContent → ¬ Cdata.terminator <:+: c.output .encode t) ∧
    (c = .xmlCommentContent →
      Text.cutAt? (units "--") (c.output .encode t ++ units "-->") =
        some (c.output .encode t, units ">")) ∧
    (∀ before after, c.output .encode t = before ++ unit '&' :: after →
      (dialect.reference? after).isSome) ∧
    dialect.expand? (c.output .encode t) = some (t.filter fun u => !isDropped u) ∧
    0x85 ∉ c.output .encode t := by
  obtain ⟨name, immune, hrules, hamp, hspace, himmune, hclosing⟩ := exists_variant hc
  have hrefers : (variant name immune).Refers dialect := refers_variant hamp
  have hexpand : dialect.expand? ((variant name immune).encode t) =
      some (t.filter fun u => !isDropped u) := by
    rw [RuleSet.expand?_encode hrefers, flatMap_shown hspace himmune]
  have hnot : ∀ v ∈ 0x85 :: closing c, v ∉ (variant name immune).encode t := fun v hv =>
    RuleSet.not_mem_encode_of_refers hrefers (hclosing v hv).1 (hclosing v hv).2
  rw [Context.output_encode hrules]
  refine ⟨fun v hv => hnot v (List.mem_cons_of_mem _ hv), ?_, ?_, ?_, hexpand,
    hnot 0x85 List.mem_cons_self⟩
  · intro hne h
    have hgt : Cdata.closing ∈ closing c := by
      simp only [contexts, List.mem_cons, List.not_mem_nil, or_false] at hc
      rcases hc with rfl | rfl | rfl | rfl
      · decide
      · decide
      · decide
      · exact absurd rfl hne
    exact hnot _ (List.mem_cons_of_mem _ hgt) (h.subset (by decide))
  · rintro rfl
    have hhyphen : unit '-' ∉ (variant name immune).encode t := hnot _ (by decide)
    exact Text.cutAt?_append hhyphen (units ">")
  · intro before after he
    exact RuleSet.isSome_reference?_of_encode hrefers he

/-- A comment's end, a text that reads like a reference, next line between two
controls, and a unit that no character of XML may have. -/
theorem expand?_output_eq_filter_comment :
    Context.xmlCommentContent ∈ contexts ∧
    dialect.expand? (Context.xmlCommentContent.output .encode
      (units "-->&#x41;" ++ [0x01, 0x85, 0x9f, 0xfdd0, 0xd800])) =
        some (units "-->&#x41;" ++ [0x85, 0xd800]) :=
  ⟨by decide, (expand?_output_eq_filter (by decide) _).2.2.2.2.1⟩

end InertText.Xml
