import InertText.Number.Decimal
import InertText.Text.Parts

/-!
# Loosely typed values

Options of a rule set and properties of a writer may arrive with a value of any
kind. A value can be asked whether it counts as true, handed back unchanged as
the cause of an error, and spelled inside a message, unless it is a record that
has a way of its own to be spelled: no value of these kinds can be called.
-/
namespace InertText

/-- A value of a kind that is not known beforehand. -/
inductive Value where
  | null
  | boolean (b : Bool)
  | number (n : Number)
  | text (t : Text)
  | list (vs : List Value)
  | record (fields : List (Text × Value))
  deriving Inhabited

namespace Value

/-- The key under which a record says how it is spelled. -/
def spellingKey : Text := units "toString"

mutual

/-- How a value reads inside a message, if it can be spelled. A list is its members
between commas. -/
def spelling? : Value → Option Text
  | .null => some (units "null")
  | .boolean b => some (units (if b then "true" else "false"))
  | .number n => some n.text
  | .text t => some t
  | .list vs => (memberSpellings? vs).map (Text.join (units ","))
  | .record fields =>
    if fields.any fun field => field.1 == spellingKey then none
    else some (units "[object Object]")

/-- How the members of a list read. A null member is left blank. -/
def memberSpellings? : List Value → Option (List Text)
  | [] => some []
  | .null :: vs => (memberSpellings? vs).map ([] :: ·)
  | v :: vs => v.spelling?.bind fun t => (memberSpellings? vs).map (t :: ·)

end

/-- Whether the value counts as true: null, false, zero and the empty text do
not, all else does. -/
def isTruthy : Value → Bool
  | .null => false
  | .boolean b => b
  | .number n => !n.isZero
  | .text t => !t.isEmpty
  | .list _ => true
  | .record _ => true

def isTrue : Value → Bool
  | .boolean b => b
  | _ => false

end Value

/-- What a failing writer throws or carries: an error with a message, or anything
else. -/
inductive Fault where
  | error (message : Text)
  | value (v : Value)
  | undefined
  | notANumber

/-- An error counts as true, and so do the values that do. -/
def Fault.isTruthy : Fault → Bool
  | .error _ => true
  | .value v => v.isTruthy
  | .undefined | .notANumber => false

/-- The kinds of errors that a caller can tell apart. -/
inductive ErrorKind where
  /-- An argument of the call is wrong. -/
  | argument
  /-- A writer failed. -/
  | delivery
  /-- A value is of a kind that cannot be used. -/
  | type
  /-- Any other error. -/
  | plain
  deriving DecidableEq, Repr

def ErrorKind.name : ErrorKind → String
  | .argument => "ArgumentError"
  | .delivery => "SinkWriteError"
  | .type => "TypeError"
  | .plain => "Error"

end InertText
