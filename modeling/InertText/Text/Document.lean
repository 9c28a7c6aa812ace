import InertText.Text.Parts
import InertText.Text.Quoted

/-!
# Documents

A document is a tree of records and lists over texts, numbers and nothing at all.
It is written on one line without blanks: a list between brackets, a record
between braces with a colon behind each key, and a comma between neighbours.
-/
namespace InertText

/-- What is written. A number comes with its spelling. -/
inductive Document where
  | null
  | number (spelling : Text)
  | text (t : Text)
  | list (members : List Document)
  | record (fields : List (Text × Document))
  deriving Inhabited

namespace Document

mutual

def write : Document → Text
  | .null => units "null"
  | .number spelling => spelling
  | .text t => Quoted.quote t
  | .list members => unit '[' :: (Text.join [unit ','] (writeMembers members) ++ [unit ']'])
  | .record fields =>
    unit '\x7b' :: (Text.join [unit ','] (writeFields fields) ++ [unit '\x7d'])

def writeMembers : List Document → List Text
  | [] => []
  | d :: members => d.write :: writeMembers members

def writeFields : List (Text × Document) → List Text
  | [] => []
  | (key, d) :: fields => (Quoted.quote key ++ unit ':' :: d.write) :: writeFields fields

end

theorem writeMembers_eq_map (members : List Document) :
    writeMembers members = members.map write := by
  induction members with
  | nil => rfl
  | cons d members ih => rw [writeMembers, ih, List.map_cons]

def writeField (field : Text × Document) : Text :=
  Quoted.quote field.1 ++ unit ':' :: field.2.write

theorem writeFields_eq_map (fields : List (Text × Document)) :
    writeFields fields = fields.map writeField := by
  induction fields with
  | nil => rfl
  | cons field fields ih => rw [writeFields, ih, List.map_cons, writeField]

end Document

end InertText
