import InertText.Proofs.Text.HexReading
import InertText.Proofs.Text.Occurrence
import InertText.Text.Surrogates

/-!
# Literals of a script

A text literal stands between two quotes of one kind. Its body is read element by
element up to the first quote that no backslash protects. A backslash begins an
escape: digits of a unit, a letter for a control, the end of a line, or a unit
that stands for itself. Octal escapes and escapes with too few digits are none.
Between backticks a line may end, but a substitution may not begin.
-/
namespace InertText.Script

/-- The quotes that a literal may stand between. -/
inductive Quote where
  | single
  | double
  | backtick
  deriving DecidableEq, Repr

namespace Quote

def mark : Quote → CodeUnit
  | single => unit '\''
  | double => unit '"'
  | backtick => 0x60

def ofUnit? (u : CodeUnit) : Option Quote := [single, double, backtick].find? fun q => q.mark == u

end Quote

/-- The ends of lines that a backslash takes out of a literal. -/
def isLineEnd (u : CodeUnit) : Bool := u == 0x0a || u == 0x0d || u == 0x2028 || u == 0x2029

/-- What follows the end of a line. A carriage return takes a line feed with it. -/
def afterLineEnd (u : CodeUnit) (t : Text) : Text :=
  if u = 0x0d ∧ t.head? = some 0x0a then t.tail else t

/-- The unit that a unit stands for behind a backslash. -/
def escaped (u : CodeUnit) : CodeUnit :=
  if u = unit 'b' then 0x08
  else if u = unit 't' then 0x09
  else if u = unit 'n' then 0x0a
  else if u = unit 'v' then 0x0b
  else if u = unit 'f' then 0x0c
  else if u = unit 'r' then 0x0d
  else u

/-- The unit of exactly so many hexadecimal digits, and what follows them. -/
def digitEscape? (count : ℕ) (t : Text) : Option (Text × Text) :=
  if count ≤ t.length then
    (Hex.read? (t.take count)).map fun n => ([.ofNat n], t.drop count)
  else none

lemma digitEscape?_text {n : ℕ} {u : CodeUnit} (hn : 0 < n) (hu : u.toNat < 16 ^ n) (rest : Text) :
    digitEscape? n (Hex.text n u ++ rest) = some ([u], rest) := by
  have hlen : (Hex.text n u).length = n := Hex.length_text hn hu
  rw [digitEscape?, if_pos (by rw [List.length_append, hlen]; omega), List.take_left' hlen,
    List.drop_left' hlen, Hex.read?_text, Option.map_some, UInt16.ofNat_toNat]

/-- The units of a code point in hexadecimal digits up to a closing brace. -/
def bracedEscape? (t : Text) : Option (Text × Text) :=
  (Text.cutAt? [0x7d] t).bind fun (digits, rest) =>
    ((Hex.read? digits).bind Hex.codePoint?).map fun units => (units, rest)

/-- The units of an escape, behind its backslash, and what follows it. -/
def escape? : Text → Option (Text × Text)
  | [] => none
  | u :: t =>
    if u = unit 'x' then digitEscape? 2 t
    else if u = unit 'u' then
      if t.head? = some 0x7b then bracedEscape? t.tail else digitEscape? 4 t
    else if u.isDigit then
      if u = unit '0' ∧ t.head?.any CodeUnit.isDigit = false then some ([0x00], t) else none
    else if isLineEnd u then some ([], afterLineEnd u t)
    else some ([escaped u], t)

/-- What a unit means that no backslash protects, and what follows it. -/
def unprotected? (q : Quote) (u : CodeUnit) (t : Text) : Option (Text × Text) :=
  match q with
  | .single | .double => if u = 0x0a ∨ u = 0x0d then none else some ([u], t)
  | .backtick =>
    if u = unit '$' ∧ t.head? = some 0x7b then none
    else if u = 0x0d then some ([0x0a], afterLineEnd u t)
    else some ([u], t)

/-- The units of the first element of a body, and what follows it. -/
def element? (q : Quote) : Text → Option (Text × Text)
  | [] => none
  | u :: t => if u = unit '\\' then escape? t else unprotected? q u t

lemma length_afterLineEnd_le (u : CodeUnit) (t : Text) : (afterLineEnd u t).length ≤ t.length := by
  unfold afterLineEnd
  split_ifs <;> simp

lemma length_le_of_digitEscape? {n : ℕ} {t value rest : Text}
    (h : digitEscape? n t = some (value, rest)) : rest.length ≤ t.length := by
  unfold digitEscape? at h
  split_ifs at h
  obtain ⟨v, -, he⟩ := Option.map_eq_some_iff.mp h
  obtain ⟨-, rfl⟩ := Prod.mk.inj he
  simp

lemma length_le_of_bracedEscape? {t value rest : Text}
    (h : bracedEscape? t = some (value, rest)) : rest.length ≤ t.length := by
  obtain ⟨⟨digits, rest'⟩, hcut, hread⟩ := Option.bind_eq_some_iff.mp h
  obtain ⟨v, -, he⟩ := Option.map_eq_some_iff.mp hread
  obtain ⟨-, rfl⟩ := Prod.mk.inj he
  exact (Text.length_lt_of_cutAt? (by decide) hcut).le

lemma length_lt_of_escape? {t value rest : Text} (h : escape? t = some (value, rest)) :
    rest.length < t.length := by
  cases t with
  | nil => simp [escape?] at h
  | cons u t =>
    rw [List.length_cons, Nat.lt_succ_iff]
    simp only [escape?] at h
    split_ifs at h
    · exact length_le_of_digitEscape? h
    · exact (length_le_of_bracedEscape? h).trans (by simp)
    · exact length_le_of_digitEscape? h
    all_goals obtain ⟨-, rfl⟩ := Prod.mk.inj (Option.some.inj h)
    · exact le_rfl
    · exact length_afterLineEnd_le u t
    · exact le_rfl

lemma length_le_of_unprotected? {q : Quote} {u : CodeUnit} {t value rest : Text}
    (h : unprotected? q u t = some (value, rest)) : rest.length ≤ t.length := by
  cases q with
  | single | double =>
    simp only [unprotected?] at h
    split_ifs at h
    obtain ⟨-, rfl⟩ := Prod.mk.inj (Option.some.inj h)
    exact le_rfl
  | backtick =>
    simp only [unprotected?] at h
    split_ifs at h
    all_goals obtain ⟨-, rfl⟩ := Prod.mk.inj (Option.some.inj h)
    · exact length_afterLineEnd_le u t
    · exact le_rfl

lemma length_lt_of_element? {q : Quote} {t value rest : Text}
    (h : element? q t = some (value, rest)) : rest.length < t.length := by
  cases t with
  | nil => simp [element?] at h
  | cons u t =>
    rw [List.length_cons, Nat.lt_succ_iff]
    simp only [element?] at h
    split_ifs at h
    · exact (length_lt_of_escape? h).le
    · exact length_le_of_unprotected? h

/-- The value of a body up to the quote that closes it, and what follows that. -/
def body? (q : Quote) (t : Text) : Option (Text × Text) :=
  if t.head? = some q.mark then some ([], t.tail)
  else match _h : element? q t with
    | none => none
    | some (value, rest) => (body? q rest).map fun p => (value ++ p.1, p.2)
termination_by t.length
decreasing_by exact length_lt_of_element? (by assumption)

lemma body?_mark_cons (q : Quote) (t : Text) : body? q (q.mark :: t) = some ([], t) := by
  rw [body?, if_pos List.head?_cons]
  rfl

lemma body?_of_element? {q : Quote} {t value rest : Text} (hq : t.head? ≠ some q.mark)
    (he : element? q t = some (value, rest)) :
    body? q t = (body? q rest).map fun p => (value ++ p.1, p.2) := by
  rw [body?, if_neg hq]
  split
  · simp_all
  · rename_i hs
    obtain ⟨rfl, rfl⟩ := Prod.mk.inj (Option.some.inj (he.symm.trans hs))
    rfl

/-- The value of a body whose closing quote ends the text. -/
def value? (q : Quote) (t : Text) : Option Text :=
  (body? q t).bind fun p => if p.2 = [] then some p.1 else none

lemma value?_mark (q : Quote) : value? q [q.mark] = some [] := by
  rw [value?, body?_mark_cons]
  rfl

lemma value?_of_element? {q : Quote} {t value rest : Text} (hq : t.head? ≠ some q.mark)
    (he : element? q t = some (value, rest)) :
    value? q t = (value? q rest).map (value ++ ·) := by
  rw [value?, body?_of_element? hq he, value?]
  cases body? q rest with
  | none => rfl
  | some p => by_cases hp : p.2 = [] <;> simp [hp]

/-- The value of a text that is one complete literal. -/
def evaluate? : Text → Option Text
  | [] => none
  | u :: t => (Quote.ofUnit? u).bind fun q => value? q t

lemma evaluate?_mark_cons (q : Quote) (t : Text) : evaluate? (q.mark :: t) = value? q t := by
  cases q <;> rfl

end InertText.Script
