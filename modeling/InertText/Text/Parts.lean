import InertText.Text.Basic

/-!
# Parts of texts

Texts are joined with a separator and taken apart at a unit or after an opening,
and a text of digits stands for a number.
-/
namespace InertText.Text

def join (separator : Text) (ts : List Text) : Text := (ts.intersperse separator).flatten

/-- The parts of a text between the occurrences of a unit. -/
def splitOn (u : CodeUnit) : Text → List Text
  | [] => [[]]
  | v :: rest =>
    let parts := splitOn u rest
    if v = u then [] :: parts
    else (v :: parts.headD []) :: parts.tail

/-- What follows a given opening, if the text begins with it. -/
def dropPrefix? : Text → Text → Option Text
  | [], t => some t
  | _ :: _, [] => none
  | u :: opening, v :: t => if u = v then dropPrefix? opening t else none

/-- The number that a text of ASCII digits stands for. -/
def toNat? (t : Text) : Option Nat :=
  if t.all CodeUnit.isDigit && !t.isEmpty then
    some (t.foldl (fun n u => 10 * n + (u.toNat - 0x30)) 0)
  else none

theorem join_singleton (separator t : Text) : join separator [t] = t := by simp [join]

theorem join_cons_cons (separator t t' : Text) (ts : List Text) :
    join separator (t :: t' :: ts) = t ++ (separator ++ join separator (t' :: ts)) := by
  simp [join]

/-- There is a separator for every text but the first. -/
theorem length_join (separator t : Text) (ts : List Text) :
    (join separator (t :: ts)).length =
      (t :: ts).flatten.length + separator.length * ts.length := by
  induction ts generalizing t with
  | nil => simp [join]
  | cons t' ts ih =>
    simp only [join_cons_cons, List.flatten_cons, List.length_append, List.length_cons,
      Nat.mul_succ, ih]
    omega

theorem splitOn_ne_nil (u : CodeUnit) (t : Text) : splitOn u t ≠ [] := by
  cases t with
  | nil => simp [splitOn]
  | cons v rest => rw [splitOn]; split <;> simp

theorem dropPrefix?_eq_some_iff {opening t rest : Text} :
    dropPrefix? opening t = some rest ↔ t = opening ++ rest := by
  induction opening generalizing t with
  | nil => simp [dropPrefix?]
  | cons u opening ih =>
    cases t with
    | nil => simp [dropPrefix?]
    | cons v t =>
      by_cases h : u = v
      · simp [dropPrefix?, h, ih]
      · simp [dropPrefix?, h, Ne.symm h]

end InertText.Text
