import InertText.Proofs.Context.Output
import InertText.Proofs.Rules.Encoding
import InertText.Proofs.Text.HexReading
import InertText.Rules.Definition

/-!
# Percent-encoded texts as octets

A percent sign and two uppercase digits stand for an octet, and every other unit
of ASCII for its own. The octets of an encoded text are UTF-8, and the characters
they spell are those of the text, with the replacement character for each half of
a surrogate pair. This holds of every rule set that may be proposed with percent
forms as its fallback and plain immune units.
-/
namespace InertText.Uri

def isUpperDigit (u : CodeUnit) : Bool :=
  let n := u.toNat
  (0x30 ≤ n && n ≤ 0x39) || (0x41 ≤ n && n ≤ 0x46)

/-- Units of ASCII that stand for their own octet. -/
def isPlain (u : CodeUnit) : Bool := u.toNat < 0x80 && u != unit '%'

/-- The octets of a text that is nothing but plain units and triples of a percent
sign and two uppercase digits. -/
def octets? : Text → Option (List UInt8)
  | [] => some []
  | u :: t =>
    if isPlain u then (octets? t).map (u.toUInt8 :: ·)
    else match t with
      | a :: b :: rest =>
        if u = unit '%' ∧ isUpperDigit a ∧ isUpperDigit b then
          (octets? rest).map (.ofNat (16 * Hex.value a + Hex.value b) :: ·)
        else none
      | _ => none

/-- The text that octets spell in UTF-8. Other octets spell none. -/
def spelled? (octets : List UInt8) : Option Text :=
  octets.toByteArray.utf8Decode?.map fun characters => characters.toList.flatMap unitsOfChar

/-- The unit that is read for a unit: half a surrogate pair is lost. -/
def shown (u : CodeUnit) : CodeUnit := if u.isSurrogate then 0xfffd else u

variable {u : CodeUnit}

lemma octets?_plain (h : isPlain u = true) (t : Text) :
    octets? (u :: t) = (octets? t).map (u.toUInt8 :: ·) := by
  rw [octets?.eq_def]
  exact if_pos h

lemma upper_digit : ∀ d < 16,
    isUpperDigit (Hex.upper (Hex.digit d)) = true ∧ Hex.value (Hex.upper (Hex.digit d)) = d := by
  decide

lemma octets?_percent (b : UInt8) (t : Text) :
    octets? (unit '%' :: Hex.octet b ++ t) = (octets? t).map (b :: ·) := by
  obtain ⟨x, y, hx, hy, hb, ho⟩ := Hex.exists_digits_octet b
  obtain ⟨hupperx, hvaluex⟩ := upper_digit x hx
  obtain ⟨huppery, hvaluey⟩ := upper_digit y hy
  have hpercent : ¬ isPlain (unit '%') = true := by decide
  rw [ho, List.cons_append, List.cons_append, List.cons_append, List.nil_append, octets?,
    if_neg hpercent]
  simp only [hupperx, huppery, hvaluex, hvaluey, hb, and_self, if_true, UInt8.ofNat_toNat]

/-- The percent form of a character's octets is read as these octets. -/
lemma octets?_flatMap_percent (octets : List UInt8) (t : Text) :
    octets? (octets.flatMap (fun b => unit '%' :: Hex.octet b) ++ t) =
      (octets? t).map (octets ++ ·) := by
  induction octets with
  | nil => simp
  | cons b octets ih =>
    rw [List.flatMap_cons, List.append_assoc, octets?_percent, ih, Option.map_map]
    rfl

lemma isPlain_of_isAlphanumeric (h : u.isAlphanumeric = true) : isPlain u = true := by
  have hne : u ≠ unit '%' := by
    rintro rfl
    exact absurd h (by decide)
  simp only [CodeUnit.isAlphanumeric, Bool.or_eq_true, Bool.and_eq_true, decide_eq_true_eq] at h
  simp only [isPlain, Bool.and_eq_true, decide_eq_true_eq, bne_iff_ne]
  exact ⟨by omega, hne⟩

/-- The octet of a plain unit is its form in UTF-8. -/
lemma utf8EncodeChar_toChar (h : isPlain u = true) :
    String.utf8EncodeChar u.toChar = [u.toUInt8] := by
  simp only [isPlain, Bool.and_eq_true, decide_eq_true_eq] at h
  have hval : u.toChar.val.toNat = u.toNat :=
    CodeUnit.toNat_toChar (CodeUnit.not_surrogate_of_lt h.1)
  have hsize : u.toChar.utf8Size = 1 := by
    rw [Char.utf8Size, if_pos]
    rw [UInt32.le_iff_toNat_le, hval]
    exact Nat.le_of_lt_succ h.1
  rw [String.utf8EncodeChar_eq_singleton hsize, List.singleton_inj, ← UInt8.toNat_inj,
    UInt32.toNat_toUInt8, UInt16.toNat_toUInt8, hval]

lemma unitsOfChar_toChar (u : CodeUnit) : unitsOfChar u.toChar = [shown u] := by
  rw [unitsOfChar, shown]
  by_cases h : u.isSurrogate = true
  · rw [CodeUnit.toChar, if_pos h, if_pos h]
    rfl
  · rw [Bool.not_eq_true] at h
    have hval : u.toChar.val.toNat = u.toNat := CodeUnit.toNat_toChar h
    have hlt : u.toChar.val < 0x10000 := by
      rw [UInt32.lt_iff_toNat_lt, hval]
      exact u.toNat_lt
    rw [if_pos hlt, h, if_neg Bool.false_ne_true, List.singleton_inj, ← UInt16.toNat_inj,
      UInt32.toNat_toUInt16, hval]
    exact Nat.mod_eq_of_lt u.toNat_lt

/-- The octets of single units, one after the other, spell the text. -/
lemma spelled?_flatMap (t : Text) :
    spelled? (t.flatMap fun u => String.utf8EncodeChar u.toChar) = some (t.map shown) := by
  have hoctets : (t.flatMap fun u => String.utf8EncodeChar u.toChar).toByteArray =
      (t.map CodeUnit.toChar).utf8Encode := by
    rw [List.utf8Encode, List.flatMap_map]
  have hunits : (t.map CodeUnit.toChar).flatMap unitsOfChar = t.map shown := by
    rw [List.flatMap_map, List.map_eq_flatMap]
    exact List.flatMap_congr fun u _ => unitsOfChar_toChar u
  rw [spelled?, hoctets, List.utf8Decode?_utf8Encode, Option.map_some, hunits]

/-- What a caller proposes who names only the immune units and asks for percent
forms of all others. -/
def proposal (name immune : Text) : ProposedRuleSet where
  name := name
  immune := immune
  escape := []
  entities := []
  control := none
  passthroughAbove := none
  fallback := some (.text (units "percent-utf8"))

variable {name immune : Text} {v : CodeUnit} {t : Text}

lemma accept_proposal (name immune : Text) :
    (proposal name immune).accept = .ok (percentEncoding name immune) := by
  have hlisted : Properties.listed ([] : List (Text × Value)) = [] := by
    simp [Properties.listed, Properties.merge]
  have hentities : readEntities [] = .ok [] := by
    rw [readEntities, hlisted]
    rfl
  rw [ProposedRuleSet.accept, proposal, hentities]
  rfl

lemma replacement_percentEncoding (name immune : Text) (u : CodeUnit) :
    (percentEncoding name immune).replacement u =
      if u.isAlphanumeric ∨ u ∈ immune then [u] else Fallback.percent u := by
  have hfind : (percentEncoding name immune).entities.find? u = none := EntityTable.find?_empty u
  have hpasses : (percentEncoding name immune).passes u = false := rfl
  rw [RuleSet.replacement_eq, hfind, Option.getD_none, hpasses]
  simp [percentEncoding, ControlPolicy.covers, Fallback.write]

lemma octets?_replacement (himmune : ∀ v ∈ immune, isPlain v = true) (name : Text)
    (u : CodeUnit) (rest : Text) :
    octets? ((percentEncoding name immune).replacement u ++ rest) =
      (octets? rest).map (String.utf8EncodeChar u.toChar ++ ·) := by
  rw [replacement_percentEncoding]
  split_ifs with h
  · have hplain : isPlain u = true := h.elim isPlain_of_isAlphanumeric (himmune u)
    rw [List.singleton_append, octets?_plain hplain, utf8EncodeChar_toChar hplain]
    rfl
  · exact octets?_flatMap_percent _ rest

lemma mem_replacement_percentEncoding
    (h : v ∈ (percentEncoding name immune).replacement u) :
    v.isAlphanumeric = true ∨ v ∈ immune ∨ v = unit '%' := by
  rw [replacement_percentEncoding] at h
  split_ifs at h with hu
  · rw [List.mem_singleton.mp h]
    exact hu.imp_right .inl
  · obtain ⟨b, -, hv⟩ := List.mem_flatMap.mp h
    rcases List.mem_cons.mp hv with rfl | hv
    · exact .inr (.inr rfl)
    · exact .inl (Hex.isAlphanumeric_of_mem_octet hv)

lemma octets?_encode (himmune : ∀ v ∈ immune, isPlain v = true) (name t : Text) :
    octets? ((percentEncoding name immune).encode t) =
      some (t.flatMap fun u => String.utf8EncodeChar u.toChar) := by
  have hread := RuleSet.read_encode (octets?_replacement himmune name) t []
  simpa [octets?] using hread

lemma map_shown_of_no_surrogate (h : ∀ u ∈ t, u.isSurrogate = false) : t.map shown = t := by
  refine (List.map_congr_left fun u hu => ?_).trans (List.map_id t)
  rw [shown, h u hu]
  rfl

def contexts : List Context := [.uriComponent, .uriComponentStrict]

lemma exists_proposal {c : Context} (hc : c ∈ contexts) :
    ∃ name immune, (∀ v ∈ immune, isPlain v = true) ∧
      (proposal name immune).accept.toOption = c.rules? := by
  simp only [contexts, List.mem_cons, List.not_mem_nil, or_false] at hc
  rcases hc with rfl | rfl
  · exact ⟨_, _, List.all_iff_forall_prop.mp (by decide),
      congrArg Except.toOption (accept_proposal (units "UriComponent") (unreserved ++ units "!*'()"))⟩
  · exact ⟨_, _, List.all_iff_forall_prop.mp (by decide),
      congrArg Except.toOption (accept_proposal (units "UriComponentStrict") unreserved)⟩

/-- The rule sets of URI components are accepted proposals with plain immune units.
Whatever rules such a proposal is accepted as and whatever a text holds, its
encoding is letters, digits, immune units and triples, and its octets are UTF-8.
They spell the text, but for the halves of surrogate pairs. -/
theorem spelled?_octets_encode :
    (∀ c ∈ contexts, ∃ name immune, (∀ v ∈ immune, isPlain v = true) ∧
      (proposal name immune).accept.toOption = c.rules?) ∧
    ∀ name immune, (∀ v ∈ immune, isPlain v = true) →
      ∃ rules, (proposal name immune).accept = .ok rules ∧ ∀ t, ∃ out octets,
        (Sanitizer.ofRules rules).text .encode (some t) = .ok (some out) ∧
        (∀ v ∈ out, v.isAlphanumeric = true ∨ v ∈ immune ∨ v = unit '%') ∧
        octets? out = some octets ∧ octets.toByteArray.IsValidUTF8 ∧
        spelled? octets = some (t.map shown) ∧
        ((∀ u ∈ t, u.isSurrogate = false) → spelled? octets = some t) := by
  refine ⟨fun c hc => exists_proposal hc, fun name immune himmune => ?_⟩
  refine ⟨percentEncoding name immune, accept_proposal name immune, fun t => ?_⟩
  have hspelled := spelled?_flatMap t
  refine ⟨_, _, rfl, ?_, ?_, ?_, hspelled, fun h => ?_⟩
  · rw [Sanitizer.text_ofRules_encode]
    intro v hv
    obtain ⟨u, -, hu⟩ := RuleSet.mem_encode.mp hv
    exact mem_replacement_percentEncoding hu
  · rw [Sanitizer.text_ofRules_encode]
    exact octets?_encode himmune name t
  · obtain ⟨characters, hcharacters, -⟩ := Option.map_eq_some_iff.mp hspelled
    exact ByteArray.isSome_utf8Decode?_iff.mp (Option.isSome_of_eq_some hcharacters)
  · rw [hspelled, map_shown_of_no_surrogate h]

/-- A percent sign before digits, units of one, two and three octets, a pair of
surrogates and half a pair. -/
theorem spelled?_octets_encode_component :
    (∀ v ∈ unreserved, isPlain v = true) ∧
    ∃ rules, (proposal (units "UriComponentStrict") unreserved).accept = .ok rules ∧
      ∃ out octets, (Sanitizer.ofRules rules).text .encode
        (some (units "%41~" ++ [0x7f, 0x80, 0x7ff, 0x800, 0xd83d, 0xde00, 0xdc00])) = .ok (some out) ∧
      octets? out = some octets ∧ spelled? octets =
        some (units "%41~" ++ [0x7f, 0x80, 0x7ff, 0x800, 0xfffd, 0xfffd, 0xfffd]) := by
  have himmune : ∀ v ∈ unreserved, isPlain v = true := List.all_iff_forall_prop.mp (by decide)
  obtain ⟨rules, haccept, hencode⟩ :=
    spelled?_octets_encode.2 (units "UriComponentStrict") unreserved himmune
  obtain ⟨out, octets, hout, -, hoctets, -, hspelled, -⟩ := hencode
    (units "%41~" ++ [0x7f, 0x80, 0x7ff, 0x800, 0xd83d, 0xde00, 0xdc00])
  exact ⟨himmune, rules, haccept, out, octets, hout, hoctets, hspelled⟩

end InertText.Uri
