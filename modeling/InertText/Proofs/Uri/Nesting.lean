import InertText.Proofs.Cdata.Filtering
import InertText.Proofs.Rules.Filtering
import InertText.Proofs.Uri.Decoding

/-!
# Components inside other contexts

A percent-encoded component is put into a page, a script or a section as it stands. All
its units are letters, digits, immune units and percent signs, so a context that admits
these makes no change to it, whether it encodes or filters. The contexts that do are
listed here, and each of the others changes some component.
-/
namespace InertText

namespace Context

/-- Neither mode makes a change to the text. -/
def LeavesAlone (c : Context) (t : Text) : Prop :=
  ∀ mode, c.sanitizer.text mode (some t) = .ok (some t)

/-- Whether the unit stands as it is in the context, whatever stands around it. -/
def admits (c : Context) (u : CodeUnit) : Bool :=
  match c.rules? with
  | some rules => u.isAlphanumeric || rules.immune.contains u
  | none => !Cdata.isForbidden u && u != Cdata.bracket

variable {c : Context} {t : Text} {u : CodeUnit}

lemma leavesAlone_iff : c.LeavesAlone t ↔ ∀ mode, c.output mode t = t := by
  simp only [LeavesAlone, text_sanitizer, Except.ok.injEq, Option.some.injEq]

lemma admits_of_isAlphanumeric (c : Context) (h : u.isAlphanumeric = true) :
    c.admits u = true := by
  have hforbidden : Cdata.isForbidden u = false := by
    rw [Cdata.isForbidden, Bool.and_eq_false_iff]
    refine .inr (Bool.eq_false_iff.mpr fun hcovers => ?_)
    simp [ControlPolicy.not_isAlphanumeric_of_covers hcovers] at h
  have hbracket : u ≠ Cdata.bracket := by
    rintro rfl
    exact absurd h (by decide)
  unfold admits
  split
  · simp [h]
  · simp [hforbidden, hbracket]

lemma leavesAlone_of_admits (h : ∀ u ∈ t, c.admits u = true) : c.LeavesAlone t := by
  rw [leavesAlone_iff]
  cases hc : c.rules? with
  | some rules =>
    have hself : ∀ u ∈ t, rules.replacement u = [u] := by
      intro u hu
      have hadmits := h u hu
      rw [admits, hc, Bool.or_eq_true, UnitSet.contains_iff] at hadmits
      rw [RuleSet.replacement_eq, if_pos hadmits]
    intro mode
    cases mode with
    | encode => rw [output_encode hc, RuleSet.encode_eq_self hself]
    | filter => rw [output_filter hc, RuleSet.filter_eq_self_iff.mpr hself]
  | none =>
    obtain rfl := rules?_eq_none_iff.mp hc
    have hunits : ∀ u ∈ t, Cdata.isForbidden u = false ∧ u ≠ Cdata.bracket := by
      intro u hu
      simpa [admits, hc] using h u hu
    -- Without a bracket there is no terminator.
    have hterminator : ¬ Cdata.terminator <:+: t :=
      fun hbegin => (hunits _ (hbegin.subset List.mem_cons_self)).2 rfl
    exact fun mode => Cdata.pieces_eq_self (fun u hu => (hunits u hu).1) hterminator mode

end Context

namespace Uri

variable {name immune t : Text} {v : CodeUnit} {c host : Context}

lemma mem_encode_percentEncoding (h : v ∈ (percentEncoding name immune).encode t) :
    v.isAlphanumeric = true ∨ v ∈ unit '%' :: immune := by
  obtain ⟨u, -, hu⟩ := RuleSet.mem_encode.mp h
  rw [List.mem_cons, or_comm (a := v = unit '%')]
  exact mem_replacement_percentEncoding hu

lemma leavesAlone_encode (himmune : ∀ v ∈ unit '%' :: immune, host.admits v = true)
    (name t : Text) : host.LeavesAlone ((percentEncoding name immune).encode t) :=
  Context.leavesAlone_of_admits fun v hv =>
    (mem_encode_percentEncoding hv).elim host.admits_of_isAlphanumeric (himmune v)

/-- The contexts in a list are those that leave all components alone if they admit the
units of components and each of the others changes one. -/
lemma leavesAlone_iff_mem {hosts : List Context}
    (hadmits : hosts.all fun host => (unit '%' :: immune).all host.admits)
    (hchanges : Context.all.all fun host => hosts.contains host ||
      host.output .encode ((percentEncoding name immune).encode t) !=
        (percentEncoding name immune).encode t) :
    (∀ s, host.LeavesAlone ((percentEncoding name immune).encode s)) ↔ host ∈ hosts := by
  constructor
  · intro h
    have hself := Context.leavesAlone_iff.mp (h t) .encode
    have hmem : host ∈ Context.all := by cases host <;> decide
    have hhost := List.all_eq_true.mp hchanges host hmem
    rwa [hself, bne_self_eq_false, Bool.or_false, List.contains_iff_mem] at hhost
  · intro h s
    exact leavesAlone_encode (List.all_eq_true.mp (List.all_eq_true.mp hadmits host h)) name s

/-- The octets of a component spell its text, but for the halves of surrogate pairs. -/
lemma spelled?_octets_output (hc : c ∈ contexts) (t : Text) :
    (octets? (c.output .encode t)).bind spelled? = some (t.map shown) := by
  obtain ⟨name, immune, himmune, hrules⟩ := exists_proposal hc
  rw [accept_proposal] at hrules
  rw [Context.output_encode hrules.symm, octets?_encode himmune, Option.bind_some,
    spelled?_flatMap]

/-- A strict component may be put into any context of HTML, into the scripts that let a
hyphen stand, and into a section, encoded or filtered once more or not; one in which
delimiters stand may be put between double quotes and into a section. No other context
leaves all components alone. Where a component is left alone, the octets of its output
spell what those of the component spell, which is the text but for the halves of
surrogate pairs. -/
theorem nested_components :
    (∀ host : Context, (∀ s, host.LeavesAlone (Context.uriComponentStrict.output .encode s)) ↔
      host ∈ [.htmlContent, .htmlInDoubleQuoteAttribute, .htmlInSingleQuoteAttribute,
        .htmlUnquotedAttribute, .scriptInAttribute, .scriptInSource, .cdataContent]) ∧
    (∀ host : Context, (∀ s, host.LeavesAlone (Context.uriComponent.output .encode s)) ↔
      host ∈ [.htmlInDoubleQuoteAttribute, .cdataContent]) ∧
    ∀ c ∈ contexts, ∀ s,
      (octets? (c.output .encode s)).bind spelled? = some (s.map shown) ∧
      ∀ host : Context, host.LeavesAlone (c.output .encode s) → ∀ mode,
        (octets? (host.output mode (c.output .encode s))).bind spelled? = some (s.map shown) := by
  have hstrict : ∀ s, Context.uriComponentStrict.output .encode s = strictComponent.encode s :=
    Context.output_encode rfl
  have hcomponent : ∀ s, Context.uriComponent.output .encode s = component.encode s :=
    Context.output_encode rfl
  refine ⟨fun host => ?_, fun host => ?_, fun c hc s => ⟨spelled?_octets_output hc s, ?_⟩⟩
  · simp only [hstrict]
    exact leavesAlone_iff_mem (t := units "-~ ") (by decide) (by decide)
  · simp only [hcomponent]
    exact leavesAlone_iff_mem (t := units "-' ") (by decide) (by decide)
  · intro host hhost mode
    rw [Context.leavesAlone_iff.mp hhost mode]
    exact spelled?_octets_output hc s

/-- A tag, a percent form, a control and half a pair, as a component in an unquoted
value. -/
theorem nested_components_unquoted :
    Context.uriComponentStrict ∈ contexts ∧
    Context.htmlUnquotedAttribute.LeavesAlone
      (Context.uriComponentStrict.output .encode (units "<b>%41'" ++ [0x00, 0xd800])) ∧
    (octets? (Context.htmlUnquotedAttribute.output .filter
      (Context.uriComponentStrict.output .encode (units "<b>%41'" ++ [0x00, 0xd800])))).bind
        spelled? = some (units "<b>%41'" ++ [0x00, 0xfffd]) := by
  obtain ⟨hstrict, -, hspelled⟩ := nested_components
  have hmem : Context.uriComponentStrict ∈ contexts := by decide
  have halone :=
    (hstrict .htmlUnquotedAttribute).mpr (by decide) (units "<b>%41'" ++ [0x00, 0xd800])
  exact ⟨hmem, halone, (hspelled _ hmem _).2 _ halone .filter⟩

end Uri

end InertText
