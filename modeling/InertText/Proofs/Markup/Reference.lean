import InertText.Proofs.Text.HexReading
import InertText.Proofs.Text.Occurrence
import InertText.Rules.EntityTable

/-!
# References of markup

An ampersand of markup begins a reference and a semicolon ends it. Between them
stands the name of a unit, or a code point in hexadecimal digits. Which names
there are, and which numbers stand for the code point that they give, depends on
the kind of markup. A text is expanded from left to right, and not at all when
one of its ampersands begins no complete reference.
-/
namespace InertText.Markup

/-- What the references of one kind of markup stand for. -/
structure Dialect where
  names : List (Text × CodeUnit)
  names_alphanumeric : ∀ p ∈ names, p.1.all CodeUnit.isAlphanumeric = true
  /-- Whether a number stands for the code point that it gives. -/
  refers : ℕ → Bool

namespace Dialect

variable (d : Dialect)

/-- What stands between the ampersand and the semicolon is a name, or digits
behind a number sign and an `x`. -/
def meaning? (name : Text) : Option Text :=
  match d.names.lookup name with
  | some u => some [u]
  | none => (Text.dropPrefix? (units "#x") name).bind fun digits =>
      ((Hex.read? digits).filter d.refers).bind Hex.codePoint?

/-- What a reference stands for, behind its ampersand, and what follows it. -/
def reference? (t : Text) : Option (Text × Text) :=
  (Text.cutAt? [unit ';'] t).bind fun (name, rest) =>
    (d.meaning? name).map fun value => (value, rest)

variable {d} {name value t rest : Text} {u v : CodeUnit}

lemma isAlphanumeric_of_lookup (h : d.names.lookup name = some u) (hv : v ∈ name) :
    v.isAlphanumeric = true := by
  have hname := d.names_alphanumeric _ (mem_of_lookup h)
  exact List.all_eq_true.mp hname v hv

lemma meaning?_of_lookup (h : d.names.lookup name = some u) : d.meaning? name = some [u] := by
  rw [meaning?, h]

lemma meaning?_digits (width : ℤ) (h : d.refers u.toNat = true) :
    d.meaning? (units "#x" ++ Hex.text width u) = some [u] := by
  have hname : d.names.lookup (units "#x" ++ Hex.text width u) = none := by
    rw [Option.eq_none_iff_forall_ne_some]
    intro v hv
    have hsign : (unit '#').isAlphanumeric = true := isAlphanumeric_of_lookup hv List.mem_cons_self
    exact absurd hsign (by decide)
  rw [meaning?, hname]
  simp only [Text.dropPrefix?_append, Option.bind_some, Hex.read?_text, Option.filter_some, h,
    if_true, Hex.codePoint?_toNat]

/-- A name holds letters and digits only, and the sign in front of a number. -/
lemma mem_of_meaning? (h : d.meaning? name = some value) (hv : v ∈ name) :
    v = unit '#' ∨ v.isAlphanumeric = true := by
  unfold meaning? at h
  split at h
  · rename_i u hu
    exact .inr (isAlphanumeric_of_lookup hu hv)
  · obtain ⟨digits, hdigits, hread⟩ := Option.bind_eq_some_iff.mp h
    obtain ⟨n, hn, -⟩ := Option.bind_eq_some_iff.mp hread
    rw [Text.dropPrefix?_eq_some_iff.mp hdigits] at hv
    rcases List.mem_append.mp hv with hv | hv
    · rcases List.mem_pair.mp hv with rfl | rfl
      · exact .inl rfl
      · exact .inr (by decide)
    · exact .inr (Hex.isAlphanumeric_of_read? (Option.eq_some_of_filter_eq_some hn) hv)

lemma not_mem_of_meaning? (h : d.meaning? name = some value) (hs : v ≠ unit '#')
    (ha : v.isAlphanumeric = false) : v ∉ name := by
  intro hv
  rcases mem_of_meaning? h hv with hv | hv
  · exact hs hv
  · simp [ha] at hv

lemma reference?_append (h : d.meaning? name = some value) (rest : Text) :
    d.reference? (name ++ unit ';' :: rest) = some (value, rest) := by
  have hname : unit ';' ∉ name := not_mem_of_meaning? h (by decide) (by decide)
  rw [reference?, Text.cutAt?_singleton hname, Option.bind_some]
  simp only [h, Option.map_some]

lemma exists_name_of_reference? (h : d.reference? t = some (value, rest)) :
    ∃ name, d.meaning? name = some value ∧ t = name ++ unit ';' :: rest := by
  obtain ⟨⟨name, after⟩, hcut, hmeaning⟩ := Option.bind_eq_some_iff.mp h
  obtain ⟨v, hv, he⟩ := Option.map_eq_some_iff.mp hmeaning
  obtain ⟨rfl, rfl⟩ := Prod.mk.inj he
  exact ⟨name, hv, Text.eq_append_of_cutAt? hcut⟩

lemma length_lt_of_reference? (h : d.reference? t = some (value, rest)) :
    rest.length < t.length := by
  obtain ⟨name, -, rfl⟩ := exists_name_of_reference? h
  simp only [List.length_append, List.length_cons]
  omega

variable (d) in
/-- The text with its references expanded. -/
def expand? : Text → Option Text
  | [] => some []
  | u :: t =>
    if u = unit '&' then
      match _h : d.reference? t with
      | none => none
      | some (value, rest) => (expand? rest).map (value ++ ·)
    else (expand? t).map (u :: ·)
termination_by t => t.length
decreasing_by
  · have hlt := length_lt_of_reference? (by assumption)
    simp only [List.length_cons]
    omega
  · simp

@[simp] theorem expand?_nil : d.expand? [] = some [] := by rw [expand?]

lemma expand?_cons (hu : u ≠ unit '&') (t : Text) :
    d.expand? (u :: t) = (d.expand? t).map (u :: ·) := by
  rw [expand?, if_neg hu]

/-- Without an ampersand there is nothing to expand. -/
lemma expand?_eq_self (h : unit '&' ∉ t) : d.expand? t = some t := by
  induction t with
  | nil => exact expand?_nil
  | cons u t ih =>
    rw [List.mem_cons, not_or] at h
    rw [expand?_cons (Ne.symm h.1), ih h.2, Option.map_some]

lemma expand?_ampersand (t : Text) :
    d.expand? (unit '&' :: t) =
      (d.reference? t).bind fun p => (d.expand? p.2).map (p.1 ++ ·) := by
  rw [expand?, if_pos rfl]
  split <;> rename_i h <;> rw [h] <;> rfl

lemma expand?_reference (h : d.meaning? name = some value) (rest : Text) :
    d.expand? (unit '&' :: (name ++ unit ';' :: rest)) = (d.expand? rest).map (value ++ ·) := by
  rw [expand?_ampersand, reference?_append h, Option.bind_some]

/-- The second of two ampersands stands behind the reference that the first one
begins, because no name holds one. -/
lemma exists_rest_of_reference? {before after : Text}
    (h : d.reference? (before ++ unit '&' :: after) = some (value, rest)) :
    ∃ between, rest = between ++ unit '&' :: after ∧ between.length < before.length := by
  obtain ⟨name, hname, he⟩ := exists_name_of_reference? h
  rcases List.append_eq_append_iff.mp he with ⟨tail, hn, ht⟩ | ⟨tail, hb, ht⟩
  · have hmem : unit '&' ∉ name := not_mem_of_meaning? hname (by decide) (by decide)
    cases tail with
    | nil =>
      obtain ⟨hunit, -⟩ := List.cons.inj ht
      exact absurd hunit (by decide)
    | cons v tail =>
      obtain ⟨rfl, -⟩ := List.cons.inj ht
      exact absurd (hn ▸ List.mem_append_right before List.mem_cons_self) hmem
  · cases tail with
    | nil =>
      obtain ⟨hunit, -⟩ := List.cons.inj ht
      exact absurd hunit (by decide)
    | cons v tail =>
      obtain ⟨-, hrest⟩ := List.cons.inj ht
      refine ⟨tail, hrest, ?_⟩
      rw [hb, List.length_append, List.length_cons]
      omega

/-- In a text that can be expanded every ampersand begins a complete reference. -/
theorem isSome_reference?_of_expand? {before after : Text}
    (h : (d.expand? (before ++ unit '&' :: after)).isSome) : (d.reference? after).isSome := by
  -- What precedes the ampersand gets shorter by a unit or by a whole reference.
  induction hn : before.length using Nat.strong_induction_on generalizing before with
  | _ n ih =>
    cases before with
    | nil =>
      rw [List.nil_append, expand?_ampersand] at h
      cases hr : d.reference? after with
      | none => simp [hr] at h
      | some p => rfl
    | cons u before =>
      rw [List.length_cons] at hn
      by_cases hu : u = unit '&'
      · rw [hu, List.cons_append, expand?_ampersand] at h
        cases hr : d.reference? (before ++ unit '&' :: after) with
        | none => simp [hr] at h
        | some p =>
          obtain ⟨between, hrest, hlt⟩ := exists_rest_of_reference? hr
          rw [hr, Option.bind_some, Option.isSome_map, hrest] at h
          exact ih between.length (by omega) h rfl
      · rw [List.cons_append, expand?_cons hu, Option.isSome_map] at h
        exact ih before.length (by omega) h rfl

end Dialect

end InertText.Markup
