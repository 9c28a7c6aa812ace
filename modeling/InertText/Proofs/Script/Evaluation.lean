import InertText.Proofs.Context.Output
import InertText.Proofs.Rules.Encoding
import InertText.Proofs.Script.Literal

/-!
# Encoded texts as literals

In all four script contexts a unit is written as itself, behind a backslash, or
in two digits. Each of the three forms is read as the one unit by one step of the
reader, whatever comes behind it and whichever quote the literal stands between.
So an encoded text between two quotes is a literal whose value is the text.
-/
namespace InertText.Script

/-- The units that mean something else than themselves in some literal. -/
def meaningful : Text := [unit '\'', unit '"', 0x60, unit '\\', unit '$', 0x0a, 0x0d]

/-- The forms in which a unit is written in a literal. -/
inductive Written (u : CodeUnit) : Text → Prop where
  | plain (hu : u ∉ meaningful) : Written u [u]
  | behindBackslash (ha : u.isAlphanumeric = false) (hu : u.toNat < 0x80) (hd : u ≠ unit '$') :
    Written u (slashEscape u)
  | digits (hu : u.toNat < 0x80) : Written u (units "\\x" ++ Hex.text 2 u)

variable {q : Quote} {u : CodeUnit} {w rest : Text}

lemma mark_mem_meaningful (q : Quote) : q.mark ∈ meaningful := by
  cases q <;> decide

/-- No unit that means something else is a letter, a digit, or beyond ASCII. -/
lemma not_mem_meaningful (h : u.isAlphanumeric = true ∨ 0x80 ≤ u.toNat) : u ∉ meaningful := by
  have hascii : ∀ v ∈ meaningful, v.isAlphanumeric = false ∧ v.toNat ≤ 0x7f :=
    List.all_iff_forall_prop.mp (by decide)
  intro hu
  exact CodeUnit.ne_of_alphanumeric_or_lt h (hascii u hu) rfl

lemma element?_plain (hu : u ∉ meaningful) : element? q (u :: rest) = some ([u], rest) := by
  have hne : ∀ v ∈ meaningful, u ≠ v := fun v hv h => hu (h ▸ hv)
  have hb : u ≠ unit '\\' := hne _ (by decide)
  have hd : u ≠ unit '$' := hne _ (by decide)
  have hlf : u ≠ 0x0a := hne _ (by decide)
  have hcr : u ≠ 0x0d := hne _ (by decide)
  cases q <;> simp [element?, unprotected?, hb, hd, hlf, hcr]

lemma escape?_self (ha : u.isAlphanumeric = false) (he : isLineEnd u = false) :
    escape? (u :: rest) = some ([u], rest) := by
  have hdigit : u.isDigit = false := by
    simp only [CodeUnit.isAlphanumeric, Bool.or_eq_false_iff] at ha
    exact ha.1.1
  have hne : ∀ c ∈ [unit 'x', unit 'u', unit 'b', unit 't', unit 'n', unit 'v', unit 'f', unit 'r'],
      u ≠ c := by
    have hletters : ∀ c ∈ [unit 'x', unit 'u', unit 'b', unit 't', unit 'n', unit 'v', unit 'f',
        unit 'r'], c.isAlphanumeric = true := List.all_iff_forall_prop.mp (by decide)
    rintro c hc rfl
    simp [hletters u hc] at ha
  simp only [List.forall_mem_cons] at hne
  obtain ⟨hx, hu, hb, ht, hn, hv, hf, hr, -⟩ := hne
  have hself : escaped u = u := by simp [escaped, hb, ht, hn, hv, hf, hr]
  simp [escape?, hx, hu, hdigit, he, hself]

lemma element?_slashEscape (ha : u.isAlphanumeric = false) (hu : u.toNat < 0x80) :
    element? q (slashEscape u ++ rest) = some ([u], rest) := by
  have hletter : ∀ p ∈ shortForms, escape? (p.2 :: rest) = some ([p.1], rest) := by
    simp only [shortForms, List.forall_mem_cons, List.not_mem_nil, false_implies, implies_true,
      and_true]
    exact ⟨rfl, rfl, rfl, rfl, rfl⟩
  obtain ⟨c, hc, he⟩ | ⟨hshort, he⟩ := slashEscape_cases u
  · rw [he]
    exact hletter _ hc
  · have hline : isLineEnd u = false := by
      have hls : u ≠ 0x2028 := by rintro rfl; revert hu; decide
      have hps : u ≠ 0x2029 := by rintro rfl; revert hu; decide
      have hlf : u ≠ 0x0a := fun h => hshort (h ▸ by decide)
      have hcr : u ≠ 0x0d := fun h => hshort (h ▸ by decide)
      simp [isLineEnd, hls, hps, hlf, hcr]
    rw [he]
    exact escape?_self ha hline

lemma element?_digits (hu : u.toNat < 0x80) :
    element? q (units "\\x" ++ Hex.text 2 u ++ rest) = some ([u], rest) :=
  digitEscape?_text (by decide) (by omega) rest

/-- The first unit of a written form is not taken for the closing quote. -/
lemma Written.head?_ne (h : Written u w) : (w ++ rest).head? ≠ some q.mark := by
  have hq := mark_mem_meaningful q
  have hb : unit '\\' ≠ q.mark := by cases q <;> decide
  cases h with
  | plain hu =>
    intro he
    exact hu (Option.some.inj he ▸ hq)
  | behindBackslash =>
    obtain ⟨c, -, he⟩ | ⟨-, he⟩ := slashEscape_cases u
    · exact he ▸ fun h => hb (Option.some.inj h)
    · exact he ▸ fun h => hb (Option.some.inj h)
  | digits => exact fun he => hb (Option.some.inj he)

lemma Written.element? (h : Written u w) : element? q (w ++ rest) = some ([u], rest) := by
  cases h with
  | plain hu => exact element?_plain hu
  | behindBackslash ha hu => exact element?_slashEscape ha hu
  | digits hu => exact element?_digits hu

lemma Written.value? (h : Written u w) :
    value? q (w ++ rest) = (value? q rest).map ([u] ++ ·) :=
  value?_of_element? h.head?_ne h.element?

/-- The units that end a line or begin a substitution. -/
def breaking : Text := [0x0a, 0x0d, unit '$']

/-- None of them stands in a written form, because it does not stand for itself. -/
lemma Written.not_mem_breaking {v : CodeUnit} (h : Written u w) (hv : v ∈ w) : v ∉ breaking := by
  have hmarkup : v = unit '\\' ∨ v.isAlphanumeric = true → v ∉ breaking := by
    have hb : ∀ x ∈ breaking, x ≠ unit '\\' ∧ x.isAlphanumeric = false :=
      List.all_iff_forall_prop.mp (by decide)
    rintro h hx
    obtain ⟨hne, ha⟩ := hb v hx
    simp [hne, ha] at h
  cases h with
  | plain hu =>
    have hsub : ∀ x ∈ breaking, x ∈ meaningful := List.all_iff_forall_prop.mp (by decide)
    rw [List.mem_singleton.mp hv]
    exact fun hx => hu (hsub u hx)
  | behindBackslash ha hu hd =>
    rcases mem_slashEscape hv with h | h | ⟨rfl, hs⟩
    · exact hmarkup (.inl h)
    · exact hmarkup (.inr h)
    · simp only [shortForms, List.map_cons, List.mem_cons, not_or] at hs
      simp [breaking, hs, hd]
  | digits hu =>
    rcases List.mem_append.mp hv with hv | hv
    · rcases List.mem_pair.mp hv with rfl | rfl
      · exact hmarkup (.inl rfl)
      · exact hmarkup (.inr (by decide))
    · exact hmarkup (.inr (Hex.isAlphanumeric_of_mem_text hv))

lemma replacement_literal (name immune escape : Text) (u : CodeUnit) :
    (literal name immune escape).replacement u =
      if u.isAlphanumeric ∨ u ∈ immune then [u]
      else if u ∈ escape then slashEscape u
      else if u.toNat < 0x80 then units "\\x" ++ Hex.text 2 u
      else [u] := by
  have hpass : (literal name immune escape).passes u = true ↔ 0x7f < u.toNat :=
    RuleSet.passes_iff rfl
  have hascii : 0x7f < u.toNat ↔ ¬ u.toNat < 0x80 := by omega
  have hfind : (literal name immune escape).entities.find? u = none := EntityTable.find?_empty u
  rw [RuleSet.replacement_eq, hfind, Option.getD_none]
  simp only [hpass, hascii]
  simp only [literal, UnitSet.mem_ofText, ControlPolicy.covers, Fallback.write]
  by_cases hu : u.toNat < 0x80 <;> simp [hu]

lemma written_replacement {name immune escape : Text} (hi : ∀ v ∈ immune, v ∉ meaningful)
    (he : ∀ v ∈ escape, v.isAlphanumeric = false ∧ v.toNat < 0x80 ∧ v ≠ unit '$') (u : CodeUnit) :
    Written u ((literal name immune escape).replacement u) := by
  rw [replacement_literal]
  split_ifs with hplain hescape hascii
  · exact .plain (hplain.elim (fun h => not_mem_meaningful (.inl h)) (hi u))
  · obtain ⟨ha, hu, hd⟩ := he u hescape
    exact .behindBackslash ha hu hd
  · exact .digits hascii
  · exact .plain (not_mem_meaningful (.inr (by omega)))

def contexts : List Context := [.scriptInHtml, .scriptInAttribute, .scriptInBlock, .scriptInSource]

/-- The rule set of a script context writes every unit in one of the three forms. -/
lemma exists_rules_written {c : Context} (hc : c ∈ contexts) :
    ∃ rules, c.rules? = some rules ∧ ∀ u, Written u (rules.replacement u) := by
  simp only [contexts, List.mem_cons, List.not_mem_nil, or_false] at hc
  rcases hc with rfl | rfl | rfl | rfl
  all_goals
    exact ⟨_, rfl, written_replacement (List.all_iff_forall_prop.mp (by decide))
      (List.all_iff_forall_prop.mp (by decide))⟩

/-- Whatever a text holds, in each of the script contexts and between quotes of
each kind the encoded text is one complete literal, and its value is the text. It
holds no line end and begins no substitution. -/
theorem evaluate?_output_encode {c : Context} (hc : c ∈ contexts) (q : Quote) (t : Text) :
    evaluate? (q.mark :: (c.output .encode t ++ [q.mark])) = some t ∧
    0x0a ∉ c.output .encode t ∧ 0x0d ∉ c.output .encode t ∧
    ¬ [unit '$', 0x7b] <:+: c.output .encode t := by
  obtain ⟨rules, hrules, hwritten⟩ := exists_rules_written hc
  rw [Context.output_encode hrules]
  have hbreaking : ∀ v ∈ breaking, v ∉ rules.encode t := by
    intro v hv ht
    obtain ⟨u, -, hu⟩ := RuleSet.mem_encode.mp ht
    exact (hwritten u).not_mem_breaking hu hv
  refine ⟨?_, hbreaking _ (by decide), hbreaking _ (by decide), ?_⟩
  · rw [evaluate?_mark_cons, RuleSet.read_encode fun u rest => (hwritten u).value?, value?_mark,
      Option.map_some, List.append_nil, List.flatMap_singleton']
  · intro h
    exact hbreaking (unit '$') (by decide) (h.subset (by decide))

/-- A text that would begin a substitution, protect the closing backtick and end a
line, with half a surrogate pair behind it. -/
theorem evaluate?_output_encode_backtick :
    Context.scriptInBlock ∈ contexts ∧
    evaluate? (0x60 :: (Context.scriptInBlock.output .encode
      [unit '$', 0x7b, 0x0a, 0xd800, unit '\\'] ++ [0x60])) =
        some [unit '$', 0x7b, 0x0a, 0xd800, unit '\\'] :=
  ⟨by decide, (evaluate?_output_encode (by decide) .backtick _).1⟩

end InertText.Script
