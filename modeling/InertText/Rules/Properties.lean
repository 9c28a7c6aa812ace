import InertText.Text.Parts

/-!
# Keyed properties

Pairs of a key and a value make up a record with one property for a key: the
place of a key is that of its first pair, and its value that of its last. A
record lists the keys that are array indices first, in the order of the indices,
and then all other keys by their places.
-/
namespace InertText.Properties

variable {α : Type}

/-- Set the value of a key in place, or add the key at the end. -/
def put (key : Text) (value : α) : List (Text × α) → List (Text × α)
  | [] => [(key, value)]
  | (k, v) :: rest => if k = key then (key, value) :: rest else (k, v) :: put key value rest

/-- The properties of pairs, by the places of their keys. -/
def merge (pairs : List (Text × α)) : List (Text × α) :=
  pairs.foldl (fun properties (k, v) => put k v properties) []

/-- The array index that a key spells: a number below `0xffffffff` without a
leading zero. -/
def index? (key : Text) : Option Nat :=
  if key.length ≤ 10 ∧ (key.head? ≠ some (unit '0') ∨ key.length = 1) then
    key.toNat?.filter (· < 0xffffffff)
  else none

/-- The properties of pairs in the order in which a record lists them. -/
def listed (pairs : List (Text × α)) : List (Text × α) :=
  let properties := merge pairs
  let indexed := properties.filterMap fun p => (index? p.1).map fun i => (i, p)
  (indexed.mergeSort fun a b => a.1 ≤ b.1).map Prod.snd ++
    properties.filter fun p => (index? p.1).isNone

end InertText.Properties
