import InertText.Proofs.Context.Output
import InertText.Proofs.Rules.Order

/-!
# The order of the filters

Contexts of one kind differ in their immune and their escaped units. Most of them are in
order with each other, and so are their filters. Whether a quote in a script takes a
backslash makes no difference to filters, because no quote stands without one.
-/
namespace InertText

open Properties (value?)

lemma Html.stricter_allowing {immune immune' : Text} (h : ∀ u ∈ immune, u ∈ immune')
    (name name' : Text) : (allowing name immune).Stricter (allowing name' immune') := by
  refine RuleSet.stricter_of_parts (fun u hu => ?_) (fun _ hu => hu) (fun _ => .inl rfl)
    ⟨rfl, rfl, rfl⟩
  exact RuleSet.mem_immune_extend.mpr ((RuleSet.mem_immune_extend.mp hu).imp_left (h u))

lemma Uri.stricter_percentEncoding {immune immune' : Text} (h : ∀ u ∈ immune, u ∈ immune')
    (name name' : Text) :
    (percentEncoding name immune).Stricter (percentEncoding name' immune') := by
  refine RuleSet.stricter_of_parts (fun u hu => ?_) (fun _ hu => hu) (fun _ => .inl rfl)
    ⟨rfl, rfl, rfl⟩
  exact UnitSet.mem_ofText.mpr (h u (UnitSet.mem_ofText.mp hu))

namespace Script

variable {name immune immune' escape escape' : Text} {u : CodeUnit}

/-- Of the units that are not ASCII all stand but the escaped ones. -/
lemma stands_literal_iff : (literal name immune escape).Stands u ↔
    u.isAlphanumeric = true ∨ u ∈ immune ∨ (u ∉ escape ∧ 0x7f < u) := by
  have hfind : (literal name immune escape).entities.find? u = none := EntityTable.find?_empty u
  have hrange : 0x80 ≤ u.toNat ↔ 0x7f < u := by
    rw [UInt16.lt_iff_toNat_lt]
    exact Nat.succ_le_iff
  rw [RuleSet.Stands, hfind]
  simp [literal, ControlPolicy.covers, hrange]

/-- Escaped units make no difference as long as they are ASCII. -/
lemma stricter_literal (himmune : ∀ u ∈ immune, u ∈ immune') (hescape : ∀ u ∈ escape', u ≤ 0x7f)
    (name name' : Text) :
    (literal name immune escape).Stricter (literal name' immune' escape') := by
  intro u hu
  rw [stands_literal_iff] at hu ⊢
  rcases hu with halphanumeric | hmem | ⟨-, hlt⟩
  · exact .inl halphanumeric
  · exact .inr (.inl (himmune u hmem))
  · exact .inr (.inr ⟨fun hmem => absurd hlt (UInt16.not_lt.mpr (hescape u hmem)), hlt⟩)

end Script

namespace Context

open Script (harmless closesMarkup alwaysEscaped quotes stricter_literal)

/-- What the filter of the first context keeps of a text is a part of what that of the
second keeps. -/
def FilterBelow (c d : Context) : Prop :=
  ∀ t, (c.output .filter t).Sublist (d.output .filter t)

variable {c d : Context} {rules rules' : RuleSet}

lemma filterBelow_of_stricter (hc : c.rules? = some rules) (hd : d.rules? = some rules')
    (h : rules.Stricter rules') : c.FilterBelow d := by
  intro t
  rw [output_filter hc, output_filter hd]
  exact RuleSet.stricter_iff_sublist.mp h t

lemma FilterBelow.antisymm (h : c.FilterBelow d) (h' : d.FilterBelow c) (t : Text) :
    c.output .filter t = d.output .filter t :=
  (h t).antisymm (h' t)

lemma html_filters : htmlUnquotedAttribute.FilterBelow htmlContent ∧
    htmlContent.FilterBelow htmlInSingleQuoteAttribute ∧
    htmlContent.FilterBelow htmlInDoubleQuoteAttribute := by
  refine ⟨filterBelow_of_stricter rfl rfl (Html.stricter_allowing ?_ _ _),
    filterBelow_of_stricter rfl rfl (Html.stricter_allowing ?_ _ _),
    filterBelow_of_stricter rfl rfl (Html.stricter_allowing ?_ _ _)⟩
  · exact fun _ hu => absurd hu List.not_mem_nil
  · exact fun _ => List.mem_append_left _
  · exact fun _ => List.mem_append_left _

lemma xml_filters : xmlContent.FilterBelow xmlInSingleQuoteAttribute ∧
    xmlContent.FilterBelow xmlInDoubleQuoteAttribute :=
  ⟨filterBelow_of_stricter rfl rfl (RuleSet.stricter_extend rfl fun _ => rfl),
    filterBelow_of_stricter rfl rfl (RuleSet.stricter_extend rfl fun _ => rfl)⟩

lemma uri_filters : uriComponentStrict.FilterBelow uriComponent :=
  filterBelow_of_stricter rfl rfl
    (Uri.stricter_percentEncoding (fun _ => List.mem_append_left _) _ _)

lemma script_filters : (∀ t, scriptInHtml.output .filter t = scriptInBlock.output .filter t) ∧
    scriptInBlock.FilterBelow scriptInAttribute ∧
    ∀ t, scriptInAttribute.output .filter t = scriptInSource.output .filter t := by
  have himmune : ∀ u ∈ harmless ++ units " ", u ∈ harmless ++ closesMarkup ++ units " " :=
    List.all_iff_forall_prop.mp (by decide)
  have hhtml : ∀ u ∈ alwaysEscaped ++ closesMarkup, u ≤ 0x7f :=
    List.all_iff_forall_prop.mp (by decide)
  have hblock : ∀ u ∈ alwaysEscaped ++ closesMarkup ++ quotes, u ≤ 0x7f :=
    List.all_iff_forall_prop.mp (by decide)
  have hattribute : ∀ u ∈ alwaysEscaped, u ≤ 0x7f := List.all_iff_forall_prop.mp (by decide)
  have hsource : ∀ u ∈ alwaysEscaped ++ quotes, u ≤ 0x7f :=
    List.all_iff_forall_prop.mp (by decide)
  refine ⟨FilterBelow.antisymm ?_ ?_, ?_, FilterBelow.antisymm ?_ ?_⟩
  · exact filterBelow_of_stricter rfl rfl (stricter_literal (fun _ => id) hblock _ _)
  · exact filterBelow_of_stricter rfl rfl (stricter_literal (fun _ => id) hhtml _ _)
  · exact filterBelow_of_stricter rfl rfl (stricter_literal himmune hattribute _ _)
  · exact filterBelow_of_stricter rfl rfl (stricter_literal (fun _ => id) hsource _ _)
  · exact filterBelow_of_stricter rfl rfl (stricter_literal (fun _ => id) hattribute _ _)

end Context

/-- Extending a rule set by immune units alone lets a filter keep more of every text, and
extending it by escaped units and entities, none of which is its own unit, lets it keep
less. In both cases the stricter filter makes the same of the filtered text as of the
text. The filters of the built-in contexts of one kind are in order too. -/
theorem filters_ordered :
    (∀ (base : RuleSet) (p : ProposedExtension) e, p.accept = .ok e →
      p.escape = [] → p.entities = [] → ∀ t,
        (base.filter t).Sublist ((base.extend e).filter t) ∧
        base.filter ((base.extend e).filter t) = base.filter t) ∧
    (∀ (base : RuleSet) (p : ProposedExtension) e, p.accept = .ok e →
      p.immune = [] → (∀ u, value? p.entities [u] ≠ some (.text [u])) → ∀ t,
        ((base.extend e).filter t).Sublist (base.filter t) ∧
        (base.extend e).filter (base.filter t) = (base.extend e).filter t) ∧
    (Context.htmlUnquotedAttribute.FilterBelow .htmlContent ∧
      Context.htmlContent.FilterBelow .htmlInSingleQuoteAttribute ∧
      Context.htmlContent.FilterBelow .htmlInDoubleQuoteAttribute) ∧
    (Context.xmlContent.FilterBelow .xmlInSingleQuoteAttribute ∧
      Context.xmlContent.FilterBelow .xmlInDoubleQuoteAttribute) ∧
    Context.uriComponentStrict.FilterBelow .uriComponent ∧
    (∀ t, Context.scriptInHtml.output .filter t = Context.scriptInBlock.output .filter t) ∧
    Context.scriptInBlock.FilterBelow .scriptInAttribute ∧
    ∀ t, Context.scriptInAttribute.output .filter t = Context.scriptInSource.output .filter t := by
  refine ⟨fun base p e hp hescape hentities t => ?_, fun base p e hp himmune hentities t => ?_,
    Context.html_filters, Context.xml_filters, Context.uri_filters, Context.script_filters⟩
  · have hstricter : base.Stricter (base.extend e) :=
      RuleSet.stricter_extend_of_accept hp hescape hentities
    exact ⟨RuleSet.stricter_iff_sublist.mp hstricter t, hstricter.filter_filter t⟩
  · have hstricter : (base.extend e).Stricter base :=
      RuleSet.extend_stricter_of_accept hp himmune hentities
    exact ⟨RuleSet.stricter_iff_sublist.mp hstricter t, hstricter.filter_filter t⟩

/-- Content with one more quote, and content where two more units are written. -/
theorem filters_ordered_content :
    let allowing := Html.content.extend ⟨[], units "\"", [], []⟩
    let denying := Html.content.extend ⟨[], [], units "é", [(unit '€', units "&euro;")]⟩
    let t := units "\"café\" <5 €>"
    ((Html.content.filter t).Sublist (allowing.filter t) ∧
      Html.content.filter (allowing.filter t) = Html.content.filter t) ∧
    (denying.filter t).Sublist (Html.content.filter t) ∧
      denying.filter (Html.content.filter t) = denying.filter t := by
  obtain ⟨hallowing, hdenying, -⟩ := filters_ordered
  have hentity : ∀ u, value? [(units "€", Value.text (units "&euro;"))] [u] ≠ some (.text [u]) := by
    intro u hu
    have hpair := List.mem_singleton.mp (mem_of_lookup hu)
    have htext := Value.text.inj (Prod.mk.inj hpair).2
    have hlength : 1 = (units "&euro;").length := congrArg List.length htext
    exact absurd hlength (by decide)
  exact ⟨hallowing Html.content ⟨[], units "\"", [], []⟩ _ (by cbv) rfl rfl _,
    hdenying Html.content ⟨[], [], units "é", [(units "€", .text (units "&euro;"))]⟩ _ (by cbv)
      rfl hentity _⟩

end InertText
