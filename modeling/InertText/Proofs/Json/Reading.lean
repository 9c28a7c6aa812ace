import InertText.Proofs.Context.Output
import InertText.Proofs.Rules.Encoding
import InertText.Proofs.Script.Literal

/-!
# Encoded texts as strings of JSON

A string of JSON stands between two quotation marks and is made of elements: units
that stand for themselves, a backslash with one of eight marks or letters behind
it, and a backslash with a `u` and four digits. No other escape exists. An encoded
text is read as the text, and up to 0x9f it holds little besides letters and digits.
-/
namespace InertText.Json

open Script (digitEscape? digitEscape?_text length_le_of_digitEscape?)

/-- What may stand behind a backslash alone, with the unit that it stands for. -/
def shortEscapes : List (CodeUnit × CodeUnit) := [
  (unit '"', unit '"'), (unit '\\', unit '\\'), (unit '/', unit '/'), (unit 'b', 0x08),
  (unit 'f', 0x0c), (unit 'n', 0x0a), (unit 'r', 0x0d), (unit 't', 0x09)]

/-- The value of an escape, behind its backslash, and what follows it. -/
def escape? : Text → Option (Text × Text)
  | [] => none
  | u :: t =>
    if u = unit 'u' then digitEscape? 4 t
    else (shortEscapes.lookup u).map fun v => ([v], t)

/-- Units that stand for themselves. -/
def isRaw (u : CodeUnit) : Bool := 0x20 ≤ u.toNat && u != unit '"' && u != unit '\\'

/-- The value of the first element of a body, and what follows it. -/
def element? : Text → Option (Text × Text)
  | [] => none
  | u :: t => if u = unit '\\' then escape? t else if isRaw u then some ([u], t) else none

lemma length_lt_of_element? {t value rest : Text} (h : element? t = some (value, rest)) :
    rest.length < t.length := by
  cases t with
  | nil => simp [element?] at h
  | cons u t =>
    rw [List.length_cons, Nat.lt_succ_iff]
    simp only [element?] at h
    split_ifs at h
    · cases t with
      | nil => simp [escape?] at h
      | cons v t =>
        refine le_trans ?_ (Nat.le_succ t.length)
        simp only [escape?] at h
        split_ifs at h
        · exact length_le_of_digitEscape? h
        · obtain ⟨x, -, he⟩ := Option.map_eq_some_iff.mp h
          obtain ⟨-, rfl⟩ := Prod.mk.inj he
          exact le_rfl
    · obtain ⟨-, rfl⟩ := Prod.mk.inj (Option.some.inj h)
      exact le_rfl

/-- The value of a text that is nothing but elements. -/
def value? (t : Text) : Option Text :=
  if t = [] then some []
  else match _h : element? t with
    | none => none
    | some (value, rest) => (value? rest).map (value ++ ·)
termination_by t.length
decreasing_by exact length_lt_of_element? (by assumption)

/-- The value of a text that is one complete string. -/
def string? : Text → Option Text
  | [] => none
  | u :: t =>
    if u = unit '"' ∧ t.getLast? = some (unit '"') then value? t.dropLast else none

@[simp] theorem value?_nil : value? [] = some [] := by
  rw [value?, if_pos rfl]

lemma value?_of_element? {t value rest : Text} (h : element? t = some (value, rest)) :
    value? t = (value? rest).map (value ++ ·) := by
  have hne : t ≠ [] := by
    rintro rfl
    simp [element?] at h
  rw [value?, if_neg hne]
  split
  · simp_all
  · rename_i hs
    obtain ⟨rfl, rfl⟩ := Prod.mk.inj (Option.some.inj (h.symm.trans hs))
    rfl

lemma string?_quoted (t : Text) : string? (unit '"' :: (t ++ [unit '"'])) = value? t := by
  rw [string?, if_pos ⟨rfl, List.getLast?_concat⟩, List.dropLast_concat]

/-- One whole escape. -/
def IsEscape (t : Text) : Prop :=
  ∃ body value, t = unit '\\' :: body ∧ escape? body = some (value, [])

/-- Between what stands before and what stands behind, an escape is begun and not
yet at its end. It is an escape of the body, because whole elements precede it. -/
def InEscape (before after : Text) : Prop :=
  ∃ front head tail back, before = front ++ head ∧ after = tail ++ back ∧ tail ≠ [] ∧
    (value? front).isSome ∧ IsEscape (head ++ tail)

/-- The forms in which a unit is written in a string. -/
inductive Written (u : CodeUnit) : Text → Prop where
  | plain (hu : u.isAlphanumeric = true ∨ 0x9f < u.toNat) : Written u [u]
  | behindBackslash {c : CodeUnit} (hc : (c, u) ∈ shortEscapes) : Written u [unit '\\', c]
  | digits : Written u (units "\\u" ++ Hex.text 4 u)

variable {u v : CodeUnit} {w rest before after t : Text}

lemma isRaw_of_plain (h : u.isAlphanumeric = true ∨ 0x9f < u.toNat) :
    u ≠ unit '\\' ∧ isRaw u = true := by
  have hq : u ≠ unit '"' := CodeUnit.ne_of_alphanumeric_or_lt h (by decide)
  have hb : u ≠ unit '\\' := CodeUnit.ne_of_alphanumeric_or_lt h (by decide)
  simp only [CodeUnit.isAlphanumeric, Bool.or_eq_true, Bool.and_eq_true, decide_eq_true_eq] at h
  simp only [isRaw, Bool.and_eq_true, decide_eq_true_eq, bne_iff_ne]
  exact ⟨hb, ⟨by omega, hq⟩, hb⟩

lemma escape?_short {c : CodeUnit} (hc : (c, u) ∈ shortEscapes) (rest : Text) :
    escape? (c :: rest) = some ([u], rest) := by
  have hfirst : ∀ p ∈ shortEscapes, p.1 ≠ unit 'u' ∧ shortEscapes.lookup p.1 = some p.2 :=
    List.all_iff_forall_prop.mp (by decide)
  obtain ⟨hu, hlookup⟩ := hfirst _ hc
  rw [escape?, if_neg hu, hlookup, Option.map_some]

lemma escape?_digits (u : CodeUnit) (rest : Text) :
    escape? (unit 'u' :: (Hex.text 4 u ++ rest)) = some ([u], rest) := by
  rw [escape?, if_pos rfl]
  exact digitEscape?_text (by decide) u.toNat_lt rest

lemma Written.element? (h : Written u w) : element? (w ++ rest) = some ([u], rest) := by
  cases h with
  | plain hu =>
    obtain ⟨hb, hraw⟩ := isRaw_of_plain hu
    rw [List.singleton_append, Json.element?, if_neg hb, if_pos hraw]
  | behindBackslash hc => exact escape?_short hc rest
  | digits => exact escape?_digits u rest

lemma Written.value? (h : Written u w) : value? (w ++ rest) = (value? rest).map ([u] ++ ·) :=
  value?_of_element? h.element?

/-- A written form is one letter, digit or unit above 0x9f, or it is an escape. -/
lemma Written.plain_or_isEscape (h : Written u w) :
    (w = [u] ∧ (u.isAlphanumeric = true ∨ 0x9f < u.toNat)) ∨ IsEscape w := by
  cases h with
  | plain hu => exact .inl ⟨rfl, hu⟩
  | behindBackslash hc => exact .inr ⟨_, _, rfl, escape?_short hc []⟩
  | digits =>
    have hescape := escape?_digits u []
    rw [List.append_nil] at hescape
    exact .inr ⟨_, _, rfl, hescape⟩

/-- In a written form stand letters, digits, units above 0x9f and backslashes, and
behind a backslash the two marks that JSON puts there. -/
lemma Written.unit_cases (h : Written u (before ++ v :: after)) :
    v.isAlphanumeric = true ∨ 0x9f < v.toNat ∨ v = unit '\\' ∨
      ((v = unit '"' ∨ v = unit '/') ∧ before = [unit '\\']) := by
  generalize hw : before ++ v :: after = w at h
  have hv : v ∈ w := hw ▸ List.mem_append_right before List.mem_cons_self
  cases h with
  | plain hu =>
    rw [List.mem_singleton.mp hv]
    exact hu.imp_right .inl
  | behindBackslash hc =>
    -- The unit is the backslash, or else the only one behind it.
    have hfirst : ∀ p ∈ shortEscapes, p.1.isAlphanumeric = true ∨ p.1 = unit '\\' ∨
        p.1 = unit '"' ∨ p.1 = unit '/' := List.all_iff_forall_prop.mp (by decide)
    match before with
    | [] =>
      obtain ⟨rfl, -⟩ := List.cons.inj hw
      exact .inr (.inr (.inl rfl))
    | [b] =>
      obtain ⟨rfl, htail⟩ := List.cons.inj hw
      obtain ⟨rfl, -⟩ := List.cons.inj htail
      rcases hfirst _ hc with ha | hb | hq
      · exact .inl ha
      · exact .inr (.inr (.inl hb))
      · exact .inr (.inr (.inr ⟨hq, rfl⟩))
    | b :: c :: front => simp at hw
  | digits =>
    rcases List.mem_append.mp hv with hv | hv
    · rcases List.mem_pair.mp hv with rfl | rfl
      · exact .inr (.inr (.inl rfl))
      · exact .inl (by decide)
    · exact .inl (Hex.isAlphanumeric_of_mem_text hv)

lemma written_replacement (u : CodeUnit) : Written u (value.replacement u) := by
  have hescape : ∀ v ∈ value.escape.members, ∃ p ∈ shortEscapes, p.2 = v ∧
      slashEscape v = [unit '\\', p.1] := List.all_iff_forall_prop.mp (by decide)
  have hfind : value.entities.find? u = none := EntityTable.find?_empty u
  have himmune : u ∉ value.immune := UnitSet.not_mem_empty u
  have hcovers : value.control.covers u = false := rfl
  have hfallback : value.fallback.write u = units "\\u" ++ Hex.text 4 u := rfl
  rw [RuleSet.replacement_eq, hfind, Option.getD_none, hcovers, if_neg Bool.false_ne_true]
  split_ifs with hplain hmember hpasses
  · exact .plain (.inl (hplain.resolve_right himmune))
  · obtain ⟨⟨c, v⟩, hc, rfl, hslash⟩ := hescape u hmember
    exact hslash ▸ .behindBackslash hc
  · exact .plain (.inr ((RuleSet.passes_iff rfl).mp hpasses))
  · exact hfallback ▸ .digits

lemma value?_encode (t : Text) : value? (value.encode t) = some t := by
  have hstep : ∀ u rest, value? (value.replacement u ++ rest) = (value? rest).map ([u] ++ ·) :=
    fun u rest => (written_replacement u).value?
  have hread := RuleSet.read_encode hstep t []
  simpa using hread

/-- Up to 0x9f an encoded text is letters, digits and escapes. -/
lemma unit_cases_encode (h : value.encode t = before ++ u :: after) (hu : u.toNat ≤ 0x9f) :
    u.isAlphanumeric = true ∨ (InEscape before (u :: after) ∧
      (u = unit '\\' ∨ (u = unit '"' ∨ u = unit '/') ∧ before.getLast? = some (unit '\\'))) := by
  obtain ⟨t₁, x, t₂, w₁, w₂, -, hx, rfl, rfl⟩ := RuleSet.exists_of_encode_eq_append h
  have hwritten : Written x (w₁ ++ u :: w₂) := hx ▸ written_replacement x
  rcases hwritten.plain_or_isEscape with ⟨hw, hplain⟩ | hescape
  · have hux : u = x :=
      List.mem_singleton.mp (hw ▸ List.mem_append_right w₁ List.mem_cons_self)
    exact .inl ((hux ▸ hplain).resolve_right (Nat.not_lt.mpr hu))
  · have hin : InEscape (value.encode t₁ ++ w₁) (u :: (w₂ ++ value.encode t₂)) :=
      ⟨value.encode t₁, w₁, u :: w₂, value.encode t₂, rfl, rfl, List.cons_ne_nil u w₂,
        Option.isSome_of_eq_some (value?_encode t₁), hescape⟩
    rcases hwritten.unit_cases with ha | hlt | hb | ⟨hq, rfl⟩
    · exact .inl ha
    · exact absurd hu (Nat.not_le.mpr hlt)
    · exact .inr ⟨hin, .inl hb⟩
    · exact .inr ⟨hin, .inr ⟨hq, List.getLast?_concat⟩⟩

/-- Whatever a text holds, the encoded text between two quotation marks is one
complete string, and its value is the text. The units of it up to 0x9f are
letters, digits, and parts of escapes: backslashes, and quotation marks and
slashes directly behind one. So neither a tag nor a comment can begin in it. -/
theorem string?_output_encode (t : Text) :
    string? (unit '"' :: (Context.jsonValue.output .encode t ++ [unit '"'])) = some t ∧
    (∀ before u after, Context.jsonValue.output .encode t = before ++ u :: after →
      u.toNat ≤ 0x9f → u.isAlphanumeric = true ∨ (InEscape before (u :: after) ∧
        (u = unit '\\' ∨ (u = unit '"' ∨ u = unit '/') ∧ before.getLast? = some (unit '\\')))) ∧
    ¬ units "</script" <:+: Context.jsonValue.output .encode t ∧
    ¬ units "<!--" <:+: Context.jsonValue.output .encode t := by
  have hout : Context.jsonValue.output .encode t = value.encode t := Context.output_encode rfl t
  rw [hout]
  have hopening : ∀ mark, unit '<' ∈ mark → ¬ mark <:+: value.encode t := by
    intro mark hmark h
    obtain ⟨before, after, he⟩ := List.append_of_mem (h.subset hmark)
    rcases unit_cases_encode he (by decide) with ha | ⟨-, hb | ⟨hq, -⟩⟩
    · exact absurd ha (by decide)
    · exact absurd hb (by decide)
    · exact absurd hq (by decide)
  refine ⟨?_, fun before u after => unit_cases_encode, hopening _ (by decide), hopening _ (by decide)⟩
  rw [string?_quoted, value?_encode]

/-- The end of a script element, a backslash before a quotation mark, digits behind
a control, and half a surrogate pair. The quotation mark of a text of its own is
written as part of an escape. -/
theorem string?_output_encode_script :
    string? (unit '"' :: (Context.jsonValue.output .encode
      (units "</script>\\\"" ++ [0x01, unit '4', 0xdc00]) ++ [unit '"'])) =
        some (units "</script>\\\"" ++ [0x01, unit '4', 0xdc00]) ∧
    Context.jsonValue.output .encode [unit '"'] = [unit '\\'] ++ unit '"' :: [] ∧
    InEscape [unit '\\'] [unit '"'] := by
  have hout : Context.jsonValue.output .encode [unit '"'] = [unit '\\'] ++ unit '"' :: [] := by
    decide
  have hcases := (string?_output_encode [unit '"']).2.1 _ _ _ hout (by decide)
  have hquote : ¬ (unit '"').isAlphanumeric = true := by decide
  exact ⟨(string?_output_encode _).1, hout, (hcases.resolve_left hquote).1⟩

end InertText.Json
