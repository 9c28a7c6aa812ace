import InertText.Context.Html
import InertText.Proofs.Rules.Entities
import InertText.Proofs.Rules.Filtering

/-!
# Extended rule sets

An extension changes nothing for the units that it does not mention, and nothing for
those that the rule set lets stand in any case. Two extensions one after the other are
one extension, where the second overrides the entities of the first. Nothing but the
entities of a proposed extension can keep it from being accepted.
-/
namespace InertText

open Properties (value?)

/-- Lists in strictly ascending order are equal if they have the same members. -/
lemma eq_of_ascending {α : Type} (key : α → CodeUnit) {l l' : List α}
    (hl : l.Pairwise fun a b => key a < key b) (hl' : l'.Pairwise fun a b => key a < key b)
    (h : ∀ a, a ∈ l ↔ a ∈ l') : l = l' := by
  have hne {a b : α} (hlt : key a < key b) : a ≠ b := by
    rintro rfl
    exact UInt16.lt_irrefl _ hlt
  have hperm : l.Perm l' := (List.perm_ext_iff_of_nodup (hl.imp hne) (hl'.imp hne)).mpr h
  exact List.Perm.eq_of_pairwise
    (fun _ _ _ _ hlt hgt => absurd hlt (UInt16.lt_asymm hgt)) hl hl' hperm

/-- Sets with the same members are the same set. -/
lemma UnitSet.ext_of_mem {s s' : UnitSet} (h : ∀ u, u ∈ s ↔ u ∈ s') : s = s' := by
  obtain ⟨l, hl⟩ := s
  obtain ⟨l', hl'⟩ := s'
  obtain rfl : l = l' := eq_of_ascending id hl hl' h
  rfl

/-- Tables with the same replacements are the same table. -/
lemma EntityTable.ext_of_find? {s s' : EntityTable} (h : ∀ u, s.find? u = s'.find? u) :
    s = s' := by
  obtain ⟨l, hl⟩ := s
  obtain ⟨l', hl'⟩ := s'
  have hmem : ∀ entry, entry ∈ l ↔ entry ∈ l' := by
    rintro ⟨u, t⟩
    have hfind : l.lookup u = l'.lookup u := h u
    rw [← lookup_eq_some_iff_of_nodup (hl.imp UInt16.ne_of_lt),
      ← lookup_eq_some_iff_of_nodup (hl'.imp UInt16.ne_of_lt), hfind]
  obtain rfl : l = l' :=
    eq_of_ascending Prod.fst (List.pairwise_map.mp hl) (List.pairwise_map.mp hl') hmem
  rfl

namespace ProposedExtension

/-- The units of which a proposal says something. -/
def Mentions (p : ProposedExtension) (u : CodeUnit) : Prop :=
  u ∈ p.immune ∨ u ∈ p.escape ∨ [u] ∈ p.entities.map Prod.fst

instance (p : ProposedExtension) (u : CodeUnit) : Decidable (p.Mentions u) :=
  inferInstanceAs (Decidable (_ ∨ _ ∨ _))

/-- Two proposals as one: their immune and their escaped units together, and the entities
of the first with those of the second in their place or behind them. -/
def followedBy (p q : ProposedExtension) : ProposedExtension where
  name := q.name
  immune := p.immune ++ q.immune
  escape := p.escape ++ q.escape
  entities := p.entities ++ q.entities

variable {p q : ProposedExtension} {e f g : Extension} {u : CodeUnit}

lemma accept_eq_ok_iff : p.accept = .ok e ↔ readEntities p.entities = .ok e.entities ∧
    p.name = e.name ∧ p.immune = e.immune ∧ p.escape = e.escape := by
  obtain ⟨name, immune, escape, entities⟩ := e
  rw [accept, bind_eq_ok_iff]
  simp only [pure, Except.pure, Except.ok.injEq, Extension.mk.injEq]
  constructor
  · rintro ⟨entities, hread, hname, himmune, hescape, rfl⟩
    exact ⟨hread, hname, himmune, hescape⟩
  · rintro ⟨hread, hname, himmune, hescape⟩
    exact ⟨entities, hread, hname, himmune, hescape, rfl⟩

lemma exists_accept_iff : (∃ e, p.accept = .ok e) ↔
    ∀ key v, value? p.entities key = some v → ¬ Offends key v := by
  rw [← exists_readEntities_iff]
  constructor
  · rintro ⟨e, he⟩
    exact ⟨e.entities, (accept_eq_ok_iff.mp he).1⟩
  · rintro ⟨entities, hread⟩
    exact ⟨⟨p.name, p.immune, p.escape, entities⟩, accept_eq_ok_iff.mpr ⟨hread, rfl, rfl, rfl⟩⟩

/-- A proposal is rejected if one of the properties that its pairs make up is no entity. -/
lemma exists_reject_iff : (∃ error, p.accept = .error error) ↔
    ∃ key v, value? p.entities key = some v ∧ Offends key v := by
  have hnot : (∃ error, p.accept = .error error) ↔ ¬ ∃ e, p.accept = .ok e := by
    cases p.accept <;> simp
  rw [hnot, exists_accept_iff]
  push Not
  rfl

lemma value?_of_accept (h : p.accept = .ok e) (u : CodeUnit) :
    value? p.entities [u] = (e.entities.reverse.lookup u).map .text :=
  value?_of_readEntities (accept_eq_ok_iff.mp h).1 u

lemma not_mentions_iff (h : p.accept = .ok e) : ¬ p.Mentions u ↔
    u ∉ e.immune ∧ u ∉ e.escape ∧ e.entities.reverse.lookup u = none := by
  obtain ⟨-, -, himmune, hescape⟩ := accept_eq_ok_iff.mp h
  have hentities : [u] ∉ p.entities.map Prod.fst ↔ e.entities.reverse.lookup u = none := by
    rw [← Properties.value?_eq_none_iff, value?_of_accept h, Option.map_eq_none_iff]
  rw [Mentions, not_or, not_or, hentities, himmune, hescape]

/-- What is proposed for a unit by two accepted proposals is accepted of both together. -/
lemma accept_followedBy (hp : p.accept = .ok e) (hq : q.accept = .ok f) :
    ∃ g, (p.followedBy q).accept = .ok g ∧ ∀ u, g.entities.reverse.lookup u =
      (f.entities.reverse.lookup u).or (e.entities.reverse.lookup u) := by
  have hvalue : ∀ key, value? (p.followedBy q).entities key =
      (value? q.entities key).or (value? p.entities key) := Properties.value?_append _ _
  have haccept : ∃ g, (p.followedBy q).accept = .ok g := by
    rw [exists_accept_iff]
    intro key v hv
    rw [hvalue, Option.or_eq_some_iff] at hv
    rcases hv with hv | ⟨-, hv⟩
    · exact exists_accept_iff.mp ⟨f, hq⟩ key v hv
    · exact exists_accept_iff.mp ⟨e, hp⟩ key v hv
  obtain ⟨g, hg⟩ := haccept
  refine ⟨g, hg, fun u => ?_⟩
  have htext : Function.Injective Value.text := fun _ _ => Value.text.inj
  apply Option.map_injective htext
  rw [Option.map_or, ← value?_of_accept hg, ← value?_of_accept hp, ← value?_of_accept hq, hvalue]

end ProposedExtension

namespace RuleSet

open ProposedExtension (accept_eq_ok_iff not_mentions_iff accept_followedBy exists_reject_iff)

variable {base : RuleSet} {p q : ProposedExtension} {e f g : Extension} {u : CodeUnit} {t : Text}

/-- What stands as it is without a look at the escaped units and the entities still does. -/
lemma replacement_extend_of_immune (h : u.isAlphanumeric = true ∨ u ∈ base.immune) :
    (base.extend e).replacement u = base.replacement u := by
  have hextended : u.isAlphanumeric = true ∨ u ∈ (base.extend e).immune :=
    h.imp_right fun hu => mem_immune_extend.mpr (.inr hu)
  rw [replacement_eq, if_pos hextended, replacement_eq, if_pos h]

lemma replacement_extend_of_not_mem (himmune : u ∉ e.immune) (hescape : u ∉ e.escape)
    (hentities : e.entities.reverse.lookup u = none) :
    (base.extend e).replacement u = base.replacement u := by
  rw [replacement_eq, replacement_eq, find?_entities_extend, hentities, Option.none_or]
  simp only [mem_immune_extend, mem_escape_extend, himmune, hescape, false_or]
  rfl

/-- Equal replacements of the units of a text make equal pieces in both modes. -/
lemma emit_ofRules_congr {rules rules' : RuleSet}
    (h : ∀ u ∈ t, rules.replacement u = rules'.replacement u) (mode : Mode) :
    (Sanitizer.ofRules rules).emit mode t = (Sanitizer.ofRules rules').emit mode t := by
  have hencode : t.map rules.replacement = t.map rules'.replacement := List.map_congr_left h
  have hfilter : t.filter rules.keeps = t.filter rules'.keeps :=
    List.filter_congr fun u hu => by rw [keeps, keeps, h u hu]
  cases mode with
  | encode => exact congrArg Emission.complete hencode
  | filter => exact congrArg (fun kept => Emission.complete (kept.map fun u => [u])) hfilter

/-- One extension does what two do one after the other if it says of every unit what the
second says of it, or else the first. -/
lemma extend_extend (hname : g.name = f.name) (himmune : g.immune = e.immune ++ f.immune)
    (hescape : g.escape = e.escape ++ f.escape)
    (hentities : ∀ u, g.entities.reverse.lookup u =
      (f.entities.reverse.lookup u).or (e.entities.reverse.lookup u)) :
    base.extend g = (base.extend e).extend f := by
  have himmunes : (base.extend g).immune = ((base.extend e).extend f).immune := by
    refine UnitSet.ext_of_mem fun u => ?_
    simp only [mem_immune_extend, himmune, List.mem_append]
    tauto
  have hescapes : (base.extend g).escape = ((base.extend e).extend f).escape := by
    refine UnitSet.ext_of_mem fun u => ?_
    simp only [mem_escape_extend, hescape, List.mem_append]
    tauto
  have htables : (base.extend g).entities = ((base.extend e).extend f).entities := by
    refine EntityTable.ext_of_find? fun u => ?_
    rw [find?_entities_extend, find?_entities_extend, find?_entities_extend, hentities,
      Option.or_assoc]
  rw [RuleSet.mk.injEq]
  exact ⟨hname, himmunes, hescapes, htables, rfl, rfl, rfl⟩

/-- Extending a rule set is rejected if one of the proposed properties is no entity. An
extension that is accepted has the controls, the threshold and the fallback of its rule
set. A text that it does not mention, letters, digits and what is immune before apart,
comes out as before. Extending once more is the same as one extension by both. -/
theorem extend_conservative (base : RuleSet) (p : ProposedExtension) :
    ((∃ error, p.accept = .error error) ↔
      ∃ key v, value? p.entities key = some v ∧ Offends key v) ∧
    ∀ e, p.accept = .ok e →
      ((base.extend e).control = base.control ∧
        (base.extend e).passthroughAbove = base.passthroughAbove ∧
        (base.extend e).fallback = base.fallback) ∧
      (∀ mode t, (∀ u ∈ t, u.isAlphanumeric = true ∨ u ∈ base.immune ∨ ¬ p.Mentions u) →
        (Sanitizer.ofRules (base.extend e)).emit mode t = (Sanitizer.ofRules base).emit mode t) ∧
      ∀ q f, q.accept = .ok f → ∃ g, (p.followedBy q).accept = .ok g ∧
        base.extend g = (base.extend e).extend f := by
  refine ⟨exists_reject_iff, fun e hp => ⟨⟨rfl, rfl, rfl⟩, fun mode t ht => ?_, fun q f hq => ?_⟩⟩
  · refine emit_ofRules_congr (fun u hu => ?_) mode
    rcases ht u hu with halphanumeric | himmune | hmentions
    · exact replacement_extend_of_immune (.inl halphanumeric)
    · exact replacement_extend_of_immune (.inr himmune)
    · obtain ⟨himmune, hescape, hentities⟩ := (not_mentions_iff hp).mp hmentions
      exact replacement_extend_of_not_mem himmune hescape hentities
  · obtain ⟨g, hg, hentities⟩ := accept_followedBy hp hq
    obtain ⟨-, -, himmune, hescape⟩ := accept_eq_ok_iff.mp hp
    obtain ⟨-, hname', himmune', hescape'⟩ := accept_eq_ok_iff.mp hq
    obtain ⟨-, hname, himmunes, hescapes⟩ := accept_eq_ok_iff.mp hg
    refine ⟨g, hg, extend_extend (hname.symm.trans hname') ?_ ?_ hentities⟩
    · rw [← himmunes, ← himmune, ← himmune']
      rfl
    · rw [← hescapes, ← hescape, ← hescape']
      rfl

/-- Of a repeated key the last value counts, so an entity that is no text does no harm
before one that is. -/
theorem extend_conservative_repeated_key :
    let p : ProposedExtension := ⟨[], units "'", [],
      [(units "&", .null), (units "&", .text (units "&#38;"))]⟩
    let q : ProposedExtension := ⟨[], [], units "\\", [(units "&", .text [])]⟩
    (Sanitizer.ofRules (Html.content.extend ⟨[], units "'", [], [(unit '&', units "&#38;")]⟩)).emit
        .encode (units "<a b>\n") =
      (Sanitizer.ofRules Html.content).emit .encode (units "<a b>\n") ∧
    ∃ g, (p.followedBy q).accept = .ok g ∧ Html.content.extend g =
      (Html.content.extend ⟨[], units "'", [], [(unit '&', units "&#38;")]⟩).extend
        ⟨[], [], units "\\", [(unit '&', [])]⟩ := by
  intro p q
  have hp : p.accept = .ok ⟨[], units "'", [], [(unit '&', units "&#38;")]⟩ := by cbv
  have hq : q.accept = .ok ⟨[], [], units "\\", [(unit '&', [])]⟩ := by cbv
  have ht : ∀ u ∈ units "<a b>\n",
      u.isAlphanumeric = true ∨ u ∈ Html.content.immune ∨ ¬ p.Mentions u :=
    List.all_iff_forall_prop.mp (by decide)
  obtain ⟨-, haccepted⟩ := extend_conservative Html.content p
  obtain ⟨-, hsame, htwice⟩ := haccepted _ hp
  exact ⟨hsame .encode _ ht, htwice q _ hq⟩

end RuleSet

end InertText
