import InertText.Proofs.Context.Output
import InertText.Proofs.Markup.Encoding

/-!
# Encoded texts as HTML

In all four contexts of HTML an encoded text holds nothing that ends the place it
stands in. Its ampersands begin references, and with these expanded it is the
text again, with the replacement character for control units.
-/
namespace InertText.Html

/-- The references of HTML. Numbers from 0x80 to 0x9f stand for other characters
than those of their code points. -/
def dialect : Markup.Dialect where
  names := [
    (units "quot", unit '"'), (units "amp", unit '&'), (units "lt", unit '<'),
    (units "gt", unit '>'), (units "nbsp", 0xa0)]
  names_alphanumeric := List.all_iff_forall_prop.mp (by decide)
  refers n := n.isValidChar && n != 0 && !(0x80 ≤ n && n ≤ 0x9f)

def contexts : List Context :=
  [.htmlContent, .htmlInDoubleQuoteAttribute, .htmlInSingleQuoteAttribute, .htmlUnquotedAttribute]

def isControl (u : CodeUnit) : Bool :=
  let n := u.toNat
  n ≤ 0x1f || (0x7f ≤ n && n ≤ 0x9f)

/-- The quotes and the space that a value in a context may not hold. -/
def closing : Context → Text
  | .htmlInDoubleQuoteAttribute => [unit '"']
  | .htmlInSingleQuoteAttribute => [unit '\'']
  | .htmlUnquotedAttribute => [unit '"', unit '\'', 0x60, unit ' ']
  | _ => []

/-- The units that may not stand in a context as they are. -/
def Forbidden (c : Context) (u : CodeUnit) : Prop :=
  u = unit '<' ∨ u = unit '>' ∨ u ∈ closing c ∨ (c = .htmlUnquotedAttribute ∧ isControl u = true)

instance (c : Context) (u : CodeUnit) : Decidable (Forbidden c u) :=
  inferInstanceAs (Decidable (_ ∨ _ ∨ _ ∨ _))

/-- The control units that stand for themselves in a context. -/
def keptControls (c : Context) : Text :=
  if c = .htmlUnquotedAttribute then [] else units "\t\n\r"

/-- What becomes of a unit that is encoded and then expanded. -/
def shown (c : Context) (u : CodeUnit) : CodeUnit :=
  if isControl u = true ∧ u ∉ keptControls c then 0xfffd else u

variable {c : Context} {name immune : Text} {u v : CodeUnit}

lemma not_isAlphanumeric_of_isControl (h : isControl u = true) : u.isAlphanumeric = false := by
  have hcovers : ControlPolicy.replace.covers u = true := h
  exact ControlPolicy.not_isAlphanumeric_of_covers hcovers

lemma mem_immune_allowing : u ∈ (allowing name immune).immune ↔ u ∈ immune ∨ u ∈ base.immune :=
  RuleSet.mem_immune_extend

lemma passes_allowing : (allowing name immune).passes u = true ↔ 0x9f < u.toNat :=
  RuleSet.passes_iff rfl

lemma refers_allowing (h : unit '&' ∉ immune) : (allowing name immune).Refers dialect where
  escape := rfl
  fallback := rfl
  ampersand := by
    rintro (ha | hi | ⟨-, -, hp⟩)
    · revert ha
      decide
    · rcases mem_immune_allowing.mp hi with hi | hi
      · exact h hi
      · revert hi
        decide
    · exact absurd (passes_allowing.mp hp) (by decide)
  entities := by
    have hentities : ∀ p ∈ base.entities.entries, ∃ q ∈ dialect.names,
        dialect.names.lookup q.1 = some p.1 ∧ p.2 = unit '&' :: (q.1 ++ [unit ';']) :=
      List.all_iff_forall_prop.mp (by decide)
    exact hentities
  control _ := by decide
  numbers u hc hp := by
    have hcontrol : isControl u = false := hc
    have hle : ¬ 0x9f < u.toNat := fun h => by simp [passes_allowing.mpr h] at hp
    simp only [isControl, Bool.or_eq_false_iff, Bool.and_eq_false_iff,
      decide_eq_false_iff_not] at hcontrol
    simp only [dialect, Bool.and_eq_true, decide_eq_true_eq, bne_iff_ne, Bool.not_eq_true',
      Bool.and_eq_false_iff, decide_eq_false_iff_not, Nat.isValidChar]
    omega

/-- The policy singles out the control units that are not immune. -/
lemma singles_allowing :
    (allowing name immune).Singles u ↔ isControl u = true ∧ u ∉ immune := by
  constructor
  · rintro ⟨-, hi, -, hc⟩
    exact ⟨hc, fun hu => hi (mem_immune_allowing.mpr (.inl hu))⟩
  · rintro ⟨hc, hi⟩
    have hbase : ∀ v ∈ base.immune.members, isControl v = false :=
      List.all_iff_forall_prop.mp (by decide)
    have hentities : ∀ p ∈ base.entities.entries, isControl p.1 = false :=
      List.all_iff_forall_prop.mp (by decide)
    refine ⟨not_isAlphanumeric_of_isControl hc, ?_, ?_, hc⟩
    · intro hu
      rcases mem_immune_allowing.mp hu with hu | hu
      · exact hi hu
      · simp [hbase u hu] at hc
    · refine List.lookup_eq_none_iff.mpr fun p hp => bne_iff_ne.mpr ?_
      rintro rfl
      simp [hentities p hp] at hc

lemma shown_allowing (hkept : ∀ v ∈ immune, isControl v = true → v ∈ keptControls c)
    (himmune : ∀ v ∈ keptControls c, v ∈ immune) :
    (allowing name immune).shown u = [shown c u] := by
  have hsingles : (allowing name immune).Singles u ↔ isControl u = true ∧ u ∉ keptControls c := by
    rw [singles_allowing]
    constructor
    · rintro ⟨hu, hi⟩
      exact ⟨hu, fun hk => hi (himmune u hk)⟩
    · rintro ⟨hu, hk⟩
      exact ⟨hu, fun hi => hk (hkept u hi hu)⟩
  simp only [RuleSet.shown, shown, hsingles]
  split_ifs
  · rfl
  · rfl

lemma not_forbidden (h : v.isAlphanumeric = true ∨ 0x9f < v.toNat) : ¬ Forbidden c v := by
  have hclosing : ∀ v ∈ closing c, v.isAlphanumeric = false ∧ v.toNat ≤ 0x9f := by
    cases c <;> exact List.all_iff_forall_prop.mp (by decide)
  rintro (hv | hv | hv | ⟨-, hv⟩)
  · exact CodeUnit.ne_of_alphanumeric_or_lt h (by decide) hv
  · exact CodeUnit.ne_of_alphanumeric_or_lt h (by decide) hv
  · exact CodeUnit.ne_of_alphanumeric_or_lt h (hclosing v hv) rfl
  · have ha := not_isAlphanumeric_of_isControl hv
    simp only [isControl, Bool.or_eq_true, Bool.and_eq_true, decide_eq_true_eq] at hv
    exact CodeUnit.ne_of_alphanumeric_or_lt h ⟨ha, by omega⟩ rfl

/-- The rule set of a context allows no forbidden unit, and of the control units
those that the context keeps. -/
lemma exists_allowing (hc : c ∈ contexts) :
    ∃ name immune, c.rules? = some (allowing name immune) ∧ unit '&' ∉ immune ∧
      (∀ v ∈ immune ++ base.immune.members ++ units "&#;", ¬ Forbidden c v) ∧
      (∀ v ∈ immune, isControl v = true → v ∈ keptControls c) ∧
      (∀ v ∈ keptControls c, v ∈ immune) := by
  simp only [contexts, List.mem_cons, List.not_mem_nil, or_false] at hc
  rcases hc with rfl | rfl | rfl | rfl
  all_goals
    exact ⟨_, _, rfl, by decide, List.all_iff_forall_prop.mp (by decide),
      List.all_iff_forall_prop.mp (by decide), List.all_iff_forall_prop.mp (by decide)⟩

/-- Whatever a text holds, its encoding holds no unit that the context forbids,
every ampersand of it begins a complete reference, and with the references
expanded it shows the text. -/
theorem expand?_output_encode (hc : c ∈ contexts) (t : Text) :
    (∀ v ∈ c.output .encode t, ¬ Forbidden c v) ∧
    (∀ before after, c.output .encode t = before ++ unit '&' :: after →
      (dialect.reference? after).isSome) ∧
    dialect.expand? (c.output .encode t) = some (t.map (shown c)) := by
  obtain ⟨name, immune, hrules, hamp, hallowed, hkept, himmune⟩ := exists_allowing hc
  have hrefers : (allowing name immune).Refers dialect := refers_allowing hamp
  have hshown : (allowing name immune).shown = fun u => [shown c u] :=
    funext fun u => shown_allowing hkept himmune
  have hexpand : dialect.expand? ((allowing name immune).encode t) = some (t.map (shown c)) := by
    rw [RuleSet.expand?_encode hrefers, hshown, List.map_eq_flatMap]
  rw [Context.output_encode hrules]
  refine ⟨?_, ?_, hexpand⟩
  · intro v hv
    rcases RuleSet.mem_encode_of_refers hrefers hv with (ha | hi | ⟨-, -, hp⟩) | hsign
    · exact not_forbidden (.inl ha)
    · have hmem : v ∈ immune ++ base.immune.members :=
        List.mem_append.mpr (mem_immune_allowing.mp hi)
      exact hallowed v (List.mem_append_left _ hmem)
    · have hlt : 0x9f < v.toNat := passes_allowing.mp hp
      exact not_forbidden (.inr hlt)
    · exact hallowed v (List.mem_append_right _ hsign)
  · intro before after he
    have hsome : (dialect.expand? (before ++ unit '&' :: after)).isSome := by
      rw [← he, hexpand, Option.isSome_some]
    exact Markup.Dialect.isSome_reference?_of_expand? hsome

/-- A tag, a quote, a line feed and a text that reads like the end of a reference,
where no quotes stand around the value. -/
theorem expand?_output_encode_unquoted :
    Context.htmlUnquotedAttribute ∈ contexts ∧
    dialect.expand? (Context.htmlUnquotedAttribute.output .encode
      (units "<&#x41;\"\n" ++ [0xa0, 0xd800])) =
        some (units "<&#x41;\"" ++ [0xfffd, 0xa0, 0xd800]) :=
  ⟨by decide, (expand?_output_encode (by decide) _).2.2⟩

end InertText.Html
