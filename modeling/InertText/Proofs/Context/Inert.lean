import InertText.Proofs.Cdata.Filtering
import InertText.Proofs.Html.Expansion
import InertText.Proofs.Json.Reading
import InertText.Proofs.Rules.Filtering
import InertText.Proofs.Script.Evaluation
import InertText.Proofs.Uri.Decoding
import InertText.Proofs.Xml.Expansion

/-!
# Filtered texts as they are read

What is left of a text by filtering has nothing in it that its context would take for
something else. A filtered text is its own encoding, so a reader that gets the text
out of every encoding finds the filtered text in itself. In markup no reference is
left, and in a section no terminator, although units that filtering brings together
could have made one.
-/
namespace InertText

open Markup

namespace RuleSet

variable {rules : RuleSet} {d : Dialect} {t : Text} {u : CodeUnit}

/-- Of a rule set that writes references, only the units are kept that stand for
themselves. A reference is longer than one unit. -/
lemma plain_of_mem_filter (h : rules.Refers d) (hu : u ∈ rules.filter t) : rules.Plain u := by
  have hwritten := written_replacement h u
  rw [(mem_filter.mp hu).2] at hwritten
  generalize rules.shown u = value at hwritten
  generalize hw : [u] = w at hwritten
  cases hwritten with
  | plain hv => exact (List.singleton_inj.mp hw) ▸ hv
  | reference hname => simp at hw
  | dropped => cases hw

lemma ampersand_not_mem_filter (h : rules.Refers d) (t : Text) : unit '&' ∉ rules.filter t :=
  fun hmem => h.ampersand (plain_of_mem_filter h hmem)

lemma expand?_filter (h : rules.Refers d) (t : Text) :
    d.expand? (rules.filter t) = some (rules.filter t) :=
  Dialect.expand?_eq_self (ampersand_not_mem_filter h t)

end RuleSet

namespace Context

/-- The text is read back as itself where the context puts it. Markup finds neither a
reference in it nor a unit that could end the place, a literal and a string have the
text as their value, octets spell it, and a section with the text as its content ends
behind it. -/
def ReadsBack (c : Context) (t : Text) : Prop :=
  match c with
  | .cdataContent =>
    Cdata.section? (Cdata.sectionOpening ++ (t ++ Cdata.terminator)) = some (t, [])
  | .htmlContent | .htmlInSingleQuoteAttribute | .htmlInDoubleQuoteAttribute
  | .htmlUnquotedAttribute =>
    Html.dialect.expand? t = some t ∧ unit '&' ∉ t ∧ ∀ u ∈ t, ¬ Html.Forbidden c u
  | .xmlContent | .xmlInSingleQuoteAttribute | .xmlInDoubleQuoteAttribute
  | .xmlCommentContent =>
    Xml.dialect.expand? t = some t ∧ unit '&' ∉ t ∧ ∀ u ∈ t, u ∉ Xml.closing c
  | .scriptInHtml | .scriptInAttribute | .scriptInBlock | .scriptInSource =>
    ∀ q : Script.Quote, Script.evaluate? (q.mark :: (t ++ [q.mark])) = some t
  | .jsonValue => Json.string? (unit '"' :: (t ++ [unit '"'])) = some t
  | .uriComponent | .uriComponentStrict => (Uri.octets? t).bind Uri.spelled? = some t

end Context

variable {c : Context}

lemma Html.inert_output_filter (hc : c ∈ contexts) (t : Text) :
    dialect.expand? (c.output .filter t) = some (c.output .filter t) ∧
    unit '&' ∉ c.output .filter t ∧ ∀ u ∈ c.output .filter t, ¬ Forbidden c u := by
  obtain ⟨name, immune, hrules, hamp, hallowed, -, -⟩ := exists_allowing hc
  have hrefers : (allowing name immune).Refers dialect := refers_allowing hamp
  rw [Context.output_filter hrules]
  refine ⟨RuleSet.expand?_filter hrefers t, RuleSet.ampersand_not_mem_filter hrefers t, ?_⟩
  intro u hu
  rcases RuleSet.plain_of_mem_filter hrefers hu with ha | hi | ⟨-, -, hp⟩
  · exact not_forbidden (.inl ha)
  · have hmem : u ∈ immune ++ base.immune.members :=
      List.mem_append.mpr (mem_immune_allowing.mp hi)
    exact hallowed u (List.mem_append_left _ hmem)
  · exact not_forbidden (.inr (passes_allowing.mp hp))

lemma Xml.inert_output_filter (hc : c ∈ contexts) (t : Text) :
    dialect.expand? (c.output .filter t) = some (c.output .filter t) ∧
    unit '&' ∉ c.output .filter t ∧ ∀ u ∈ c.output .filter t, u ∉ closing c := by
  obtain ⟨name, immune, hrules, hamp, -, -, hclosing⟩ := exists_variant hc
  have hrefers : (variant name immune).Refers dialect := refers_variant hamp
  rw [Context.output_filter hrules]
  refine ⟨RuleSet.expand?_filter hrefers t, RuleSet.ampersand_not_mem_filter hrefers t, ?_⟩
  intro u hu hend
  exact (hclosing u (List.mem_cons_of_mem _ hend)).1 (RuleSet.plain_of_mem_filter hrefers hu)

/-- The filtered text between two quotes of any kind is the literal of its encoding. -/
lemma Script.evaluate?_output_filter (hc : c ∈ contexts) (q : Quote) (t : Text) :
    evaluate? (q.mark :: (c.output .filter t ++ [q.mark])) = some (c.output .filter t) := by
  obtain ⟨rules, hrules, hwritten⟩ := exists_rules_written hc
  have hstep : ∀ u rest, value? q (rules.replacement u ++ rest) = (value? q rest).map ([u] ++ ·) :=
    fun u rest => (hwritten u).value?
  have hread := RuleSet.read_encode hstep (rules.filter t) [q.mark]
  rw [RuleSet.encode_filter, value?_mark, Option.map_some, List.append_nil,
    List.flatMap_singleton'] at hread
  rw [Context.output_filter hrules, evaluate?_mark_cons, hread]

lemma Json.string?_output_filter (t : Text) :
    string? (unit '"' :: (Context.jsonValue.output .filter t ++ [unit '"'])) =
      some (Context.jsonValue.output .filter t) := by
  have hout : Context.jsonValue.output .filter t = value.filter t := Context.output_filter rfl t
  have hread := value?_encode (value.filter t)
  rw [RuleSet.encode_filter] at hread
  rw [hout, string?_quoted, hread]

namespace Uri

lemma not_surrogate_of_isPlain {u : CodeUnit} (h : isPlain u = true) : u.isSurrogate = false := by
  rw [isPlain, Bool.and_eq_true, decide_eq_true_eq] at h
  exact CodeUnit.not_surrogate_of_lt h.1

/-- Percent forms come in threes, so none of them is the unit itself. -/
lemma isPlain_of_mem_filter {name immune t : Text} {u : CodeUnit}
    (himmune : ∀ v ∈ immune, isPlain v = true) (hu : u ∈ (percentEncoding name immune).filter t) :
    isPlain u = true := by
  have hkept := (RuleSet.mem_filter.mp hu).2
  rw [replacement_percentEncoding] at hkept
  split_ifs at hkept with h
  · exact h.elim isPlain_of_isAlphanumeric (himmune u)
  · have hlength := congrArg List.length hkept
    rw [Fallback.percent, Fallback.length_flatMap_percent, List.length_singleton] at hlength
    omega

lemma spelled?_octets_output_filter (hc : c ∈ contexts) (t : Text) :
    (octets? (c.output .filter t)).bind spelled? = some (c.output .filter t) := by
  obtain ⟨name, immune, himmune, hrules⟩ := exists_proposal hc
  rw [accept_proposal] at hrules
  have hoctets := octets?_encode himmune name ((percentEncoding name immune).filter t)
  have hshown : ∀ u ∈ (percentEncoding name immune).filter t, u.isSurrogate = false :=
    fun u hu => not_surrogate_of_isPlain (isPlain_of_mem_filter himmune hu)
  rw [RuleSet.encode_filter] at hoctets
  rw [Context.output_filter hrules.symm, hoctets, Option.bind_some, spelled?_flatMap,
    map_shown_of_no_surrogate hshown]

end Uri

lemma Cdata.section?_output_filter (t : Text) : Cdata.section? (sectionOpening ++
    (Context.cdataContent.output .filter t ++ terminator)) =
      some (Context.cdataContent.output .filter t, []) := by
  have hnone : ¬ terminator <:+: (pieces .filter t).flatten := (flatten_pieces_filter t).2.2
  have hcut := cutAt?_append_terminator hnone []
  rw [List.append_nil] at hcut
  rw [Context.output_cdataContent, section?, Text.dropPrefix?_append, Option.bind_some, hcut]

/-- Whatever a text holds, in every built-in context its filtered text is read back as
it stands there. -/
theorem Context.readsBack_output_filter (c : Context) (t : Text) :
    c.ReadsBack (c.output .filter t) := by
  cases c with
  | cdataContent => exact Cdata.section?_output_filter t
  | htmlContent | htmlInSingleQuoteAttribute | htmlInDoubleQuoteAttribute
  | htmlUnquotedAttribute => exact Html.inert_output_filter (by decide) t
  | xmlContent | xmlInSingleQuoteAttribute | xmlInDoubleQuoteAttribute
  | xmlCommentContent => exact Xml.inert_output_filter (by decide) t
  | scriptInHtml | scriptInAttribute | scriptInBlock | scriptInSource =>
    exact fun q => Script.evaluate?_output_filter (by decide) q t
  | jsonValue => exact Json.string?_output_filter t
  | uriComponent | uriComponentStrict => exact Uri.spelled?_octets_output_filter (by decide) t

/-- A terminator around a control is deleted, so is the one that its deletion makes,
and what is left of both is none. -/
example : Context.cdataContent.output .filter (units "]]]" ++ [0x01] ++ units "]>]>>") =
    units "]>" := by
  decide

end InertText
