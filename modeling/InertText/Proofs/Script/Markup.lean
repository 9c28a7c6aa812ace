import InertText.Proofs.Html.Expansion
import InertText.Proofs.Rules.Filtering
import InertText.Proofs.Rules.Length
import InertText.Proofs.Script.Evaluation

/-!
# The markup around a script

The markup around a script knows nothing of literals. A literal in a script element
must not show it a slash or a hyphen that could belong to a tag or to the mark of a
comment, and one in the value of an attribute must not show it a quote or an
ampersand. Slashes and hyphens stand directly behind a backslash of their own
replacement, so no mark can be put together from several replacements, nor from the
output and what stands in front of it.
-/
namespace InertText.Script

/-- The contexts of scripts that stand in an element. -/
def elementContexts : List Context := [.scriptInHtml, .scriptInBlock]

/-- The contexts of scripts that may stand in the value of an attribute. -/
def valueContexts : List Context := [.scriptInHtml, .scriptInAttribute]

/-- What ends a script element, and what begins or ends a comment. -/
def marks : List Text := [units "</", units "--", units "<!--", units "-->"]

/-- The quotes of attribute values, the backtick that some readers take for one, and
the unit that begins a reference. -/
def meaningfulInValue : Text := [unit '"', unit '\'', 0x60, unit '&']

/-- No unit of the text stands anywhere but directly behind a backslash. -/
def Guarded (v : CodeUnit) (t : Text) : Prop :=
  ∀ before after, t = before ++ v :: after → ∃ front, before = front ++ [unit '\\']

variable {name immune escape t front : Text} {c u v : CodeUnit}

lemma guarded_of_not_mem (h : v ∉ t) : Guarded v t := by
  rintro before after rfl
  exact absurd (List.mem_append_right before List.mem_cons_self) h

/-- What stands in front of a text cannot take the backslashes away. -/
lemma Guarded.exists_between (h : Guarded v t) {before after : Text}
    (he : front ++ t = before ++ v :: after) (hlen : front.length ≤ before.length) :
    ∃ between, before = front ++ (between ++ [unit '\\']) := by
  have hbefore : before <+: front ++ t := ⟨v :: after, he.symm⟩
  obtain ⟨rest, rfl⟩ :=
    List.prefix_of_prefix_length_le (List.prefix_append front t) hbefore hlen
  rw [List.append_assoc, List.append_cancel_left_eq] at he
  obtain ⟨between, rfl⟩ := h rest after he
  exact ⟨between, rfl⟩

lemma Guarded.not_infix (h : Guarded v t) (hc : c ≠ unit '\\') : ¬ [c, v] <:+: t := by
  rintro ⟨before, after, rfl⟩
  obtain ⟨front, hfront⟩ := h (before ++ [c]) after (by simp)
  exact hc (List.singleton_inj.mp (List.append_inj' hfront rfl).2)

/-- Every mark has a slash behind its first unit or two hyphens in a row. -/
lemma not_infix_of_guarded (h : ∀ v ∈ closesMarkup, Guarded v t) :
    ∀ mark ∈ marks, ¬ mark <:+: t := by
  have hpair : ∀ mark ∈ marks, [unit '<', unit '/'] <:+: mark ∨ [unit '-', unit '-'] <:+: mark :=
    List.all_iff_forall_prop.mp (by decide)
  have hslash : Guarded (unit '/') t := h _ (by decide)
  have hhyphen : Guarded (unit '-') t := h _ (by decide)
  intro mark hmark hinfix
  rcases hpair mark hmark with hp | hp
  · exact hslash.not_infix (by decide) (hp.trans hinfix)
  · exact hhyphen.not_infix (by decide) (hp.trans hinfix)

/-- Behind the backslash of its own form a unit has nothing else before it. -/
lemma eq_backslash_of_slashEscape {back : Text} (hv : v ≠ unit '\\')
    (h : slashEscape u = front ++ v :: back) : front = [unit '\\'] := by
  have hform : ∃ c, slashEscape u = [unit '\\', c] := by
    obtain ⟨c, -, he⟩ | ⟨-, he⟩ := slashEscape_cases u
    · exact ⟨c, he⟩
    · exact ⟨u, he⟩
  obtain ⟨c, he⟩ := hform
  rw [he] at h
  match front with
  | [] => exact absurd (List.cons.inj h).1.symm hv
  | [x] => rw [(List.cons.inj h).1]
  | x :: y :: front => simp at h

/-- A sign that means nothing to escapes is only in the replacement of itself, where
it is immune or stands behind a backslash. -/
lemma immune_or_escape_of_mem (hv : v.isAlphanumeric = false ∧ v.toNat ≤ 0x7f)
    (hb : v ≠ unit '\\') (h : v ∈ (literal name immune escape).replacement u) :
    v ∈ immune ∨
      (v ∈ escape ∧ (literal name immune escape).replacement u = slashEscape u) := by
  have hself : u.isAlphanumeric = true ∨ 0x7f < u.toNat → u ≠ v :=
    fun hu => CodeUnit.ne_of_alphanumeric_or_lt hu hv
  rw [replacement_literal] at h ⊢
  split_ifs at h ⊢ with hplain hescape hascii
  · have he := List.mem_singleton.mp h
    rcases hplain with ha | hu
    · exact absurd he.symm (hself (.inl ha))
    · exact .inl (he ▸ hu)
  · rcases mem_slashEscape h with hv' | ha | ⟨rfl, -⟩
    · exact absurd hv' hb
    · rw [ha] at hv
      exact absurd hv.1 Bool.noConfusion
    · exact .inr ⟨hescape, rfl⟩
  · rcases List.mem_append.mp h with hx | hdigit
    · rcases List.mem_pair.mp hx with rfl | rfl
      · exact absurd rfl hb
      · exact absurd hv.1 (by decide)
    · rw [Hex.isAlphanumeric_of_mem_text hdigit] at hv
      exact absurd hv.1 Bool.noConfusion
  · have he := List.mem_singleton.mp h
    exact absurd he.symm (hself (.inr (by omega)))

lemma guarded_encode_literal (hv : v.isAlphanumeric = false ∧ v.toNat ≤ 0x7f)
    (hb : v ≠ unit '\\') (hi : v ∉ immune) (t : Text) :
    Guarded v ((literal name immune escape).encode t) := by
  intro before after he
  obtain ⟨t₁, u, t₂, w₁, w₂, -, hu, rfl, -⟩ := RuleSet.exists_of_encode_eq_append he
  have hmem : v ∈ (literal name immune escape).replacement u := by
    rw [hu]
    exact List.mem_append_right w₁ List.mem_cons_self
  rcases immune_or_escape_of_mem hv hb hmem with himmune | ⟨-, hslash⟩
  · exact absurd himmune hi
  · rw [eq_backslash_of_slashEscape hb (hslash.symm.trans hu)]
    exact ⟨_, rfl⟩

lemma not_mem_encode_literal (hv : v.isAlphanumeric = false ∧ v.toNat ≤ 0x7f)
    (hb : v ≠ unit '\\') (hi : v ∉ immune) (he : v ∉ escape) (t : Text) :
    v ∉ (literal name immune escape).encode t := by
  intro hmem
  obtain ⟨u, -, hu⟩ := RuleSet.mem_encode.mp hmem
  rcases immune_or_escape_of_mem hv hb hu with himmune | ⟨hescape, -⟩
  · exact hi himmune
  · exact he hescape

/-- Filtering leaves a sign out that is not immune. -/
lemma not_mem_filter_literal (hv : v.isAlphanumeric = false ∧ v.toNat ≤ 0x7f)
    (hb : v ≠ unit '\\') (hi : v ∉ immune) (t : Text) :
    v ∉ (literal name immune escape).filter t := by
  intro hmem
  have hkept := (RuleSet.mem_filter.mp hmem).2
  have hself : v ∈ (literal name immune escape).replacement v := by
    rw [hkept]
    exact List.mem_singleton_self v
  rcases immune_or_escape_of_mem hv hb hself with himmune | ⟨-, hslash⟩
  · exact hi himmune
  · have hlength := length_slashEscape v
    rw [← hslash, hkept, List.length_singleton] at hlength
    exact absurd hlength (by decide)

/-- No sign of this kind has a meaning in escapes. -/
lemma sign_of_mem (h : v ∈ closesMarkup ++ meaningfulInValue) :
    (v.isAlphanumeric = false ∧ v.toNat ≤ 0x7f) ∧ v ≠ unit '\\' := by
  have hsigns : ∀ v ∈ closesMarkup ++ meaningfulInValue,
      (v.isAlphanumeric = false ∧ v.toNat ≤ 0x7f) ∧ v ≠ unit '\\' :=
    List.all_iff_forall_prop.mp (by decide)
  exact hsigns v h

/-- In an element slashes and hyphens are not immune. -/
lemma exists_literal_element {c : Context} (hc : c ∈ elementContexts) :
    ∃ name immune escape, c.rules? = some (literal name immune escape) ∧
      ∀ v ∈ closesMarkup, v ∉ immune := by
  simp only [elementContexts, List.mem_cons, List.not_mem_nil, or_false] at hc
  rcases hc with rfl | rfl
  all_goals exact ⟨_, _, _, rfl, List.all_iff_forall_prop.mp (by decide)⟩

/-- In a value quotes and ampersands are neither immune nor escaped. -/
lemma exists_literal_value {c : Context} (hc : c ∈ valueContexts) :
    ∃ name immune escape, c.rules? = some (literal name immune escape) ∧
      ∀ v ∈ meaningfulInValue, v ∉ immune ∧ v ∉ escape := by
  simp only [valueContexts, List.mem_cons, List.not_mem_nil, or_false] at hc
  rcases hc with rfl | rfl
  all_goals exact ⟨_, _, _, rfl, List.all_iff_forall_prop.mp (by decide)⟩

lemma not_mem_output_filter {c : Context} (hc : c ∈ elementContexts) (hv : v ∈ closesMarkup)
    (t : Text) : v ∉ c.output .filter t := by
  obtain ⟨name, immune, escape, hrules, himmune⟩ := exists_literal_element hc
  obtain ⟨hsign, hb⟩ := sign_of_mem (List.mem_append_left _ hv)
  rw [Context.output_filter hrules]
  exact not_mem_filter_literal hsign hb (himmune v hv) t

lemma guarded_output {c : Context} (hc : c ∈ elementContexts) (hv : v ∈ closesMarkup)
    (mode : Mode) (t : Text) : Guarded v (c.output mode t) := by
  cases mode with
  | encode =>
    obtain ⟨name, immune, escape, hrules, himmune⟩ := exists_literal_element hc
    obtain ⟨hsign, hb⟩ := sign_of_mem (List.mem_append_left _ hv)
    rw [Context.output_encode hrules]
    exact guarded_encode_literal hsign hb (himmune v hv) t
  | filter => exact guarded_of_not_mem (not_mem_output_filter hc hv t)

lemma not_mem_output_value {c : Context} (hc : c ∈ valueContexts) (hv : v ∈ meaningfulInValue)
    (mode : Mode) (t : Text) : v ∉ c.output mode t := by
  obtain ⟨name, immune, escape, hrules, hnot⟩ := exists_literal_value hc
  obtain ⟨hsign, hb⟩ := sign_of_mem (List.mem_append_right _ hv)
  obtain ⟨hi, he⟩ := hnot v hv
  cases mode with
  | encode =>
    rw [Context.output_encode hrules]
    exact not_mem_encode_literal hsign hb hi he t
  | filter =>
    rw [Context.output_filter hrules]
    exact not_mem_filter_literal hsign hb hi t

/-- Whatever a text holds and in both modes, a script element is shown slashes and
hyphens behind backslashes only, whatever text stands in front of the output, and
filtering shows it none. So no mark is put together anywhere in the output. The
value of an attribute is shown no quote and no ampersand: it ends with its own
quote, and there is nothing in it to expand. -/
theorem output_inert_in_page (mode : Mode) (t : Text) :
    (∀ c ∈ elementContexts,
      (∀ v ∈ closesMarkup, ∀ front before after,
        front ++ c.output mode t = before ++ v :: after → front.length ≤ before.length →
          ∃ between, before = front ++ (between ++ [unit '\\'])) ∧
      (∀ v ∈ closesMarkup, v ∉ c.output .filter t) ∧
      ∀ mark ∈ marks, ¬ mark <:+: c.output mode t) ∧
    ∀ c ∈ valueContexts,
      (∀ v ∈ meaningfulInValue, v ∉ c.output mode t) ∧
      (∀ q ∈ quotes, ∀ rest,
        Text.cutAt? [q] (c.output mode t ++ q :: rest) = some (c.output mode t, rest)) ∧
      Html.dialect.expand? (c.output mode t) = some (c.output mode t) := by
  constructor
  · intro c hc
    have hguarded : ∀ v ∈ closesMarkup, Guarded v (c.output mode t) :=
      fun v hv => guarded_output hc hv mode t
    refine ⟨?_, fun v hv => not_mem_output_filter hc hv t, not_infix_of_guarded hguarded⟩
    intro v hv front before after he hlen
    exact (hguarded v hv).exists_between he hlen
  · intro c hc
    have hnot : ∀ v ∈ meaningfulInValue, v ∉ c.output mode t :=
      fun v hv => not_mem_output_value hc hv mode t
    have hquotes : ∀ q ∈ quotes, q ∈ meaningfulInValue :=
      List.all_iff_forall_prop.mp (by decide)
    refine ⟨hnot, ?_, ?_⟩
    · intro q hq rest
      exact Text.cutAt?_singleton (hnot q (hquotes q hq)) rest
    · exact Markup.Dialect.expand?_eq_self (hnot (unit '&') (by decide))

/-- A comment and the end of the element, behind a text that ends in their first
unit, and a quote with a reference in a value. -/
theorem output_inert_in_page_script :
    Context.scriptInBlock ∈ elementContexts ∧ Context.scriptInAttribute ∈ valueContexts ∧
    ¬ units "</" <:+: Context.scriptInBlock.output .encode (units "/script><!--\\-->") ∧
    (∀ before after,
      units "<" ++ Context.scriptInBlock.output .encode (units "/script><!--\\-->") =
        before ++ unit '/' :: after → (units "<").length ≤ before.length →
          ∃ between, before = units "<" ++ (between ++ [unit '\\'])) ∧
    unit '"' ∉ Context.scriptInAttribute.output .encode (units "\"&quot;") := by
  have helement : Context.scriptInBlock ∈ elementContexts := by decide
  have hvalue : Context.scriptInAttribute ∈ valueContexts := by decide
  have hout := (output_inert_in_page .encode (units "/script><!--\\-->")).1 _ helement
  have hin := (output_inert_in_page .encode (units "\"&quot;")).2 _ hvalue
  exact ⟨helement, hvalue, hout.2.2 _ (by decide), hout.1 _ (by decide) _, hin.1 _ (by decide)⟩

end InertText.Script
