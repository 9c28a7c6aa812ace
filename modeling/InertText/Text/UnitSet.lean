import InertText.Text.Basic

/-!
# Sets of code units

A set is the ascending list of its members, so equal sets are equal values and
the members are listed in the one order that a reader expects. The lemmas say
who is a member after each operation; nothing else needs to look at the list.
-/
namespace InertText

structure UnitSet where
  members : List CodeUnit
  ascending : members.Pairwise (· < ·)

namespace UnitSet

/-- Put a unit at its place in an ascending list, unless it is there already. -/
def place (u : CodeUnit) : List CodeUnit → List CodeUnit
  | [] => [u]
  | v :: rest => if u < v then u :: v :: rest else if u = v then v :: rest else v :: place u rest

@[simp] theorem mem_place {u v : CodeUnit} {l : List CodeUnit} :
    v ∈ place u l ↔ v = u ∨ v ∈ l := by
  induction l with
  | nil => simp [place]
  | cons w rest ih =>
    rw [place]
    split
    · simp
    · split
      · rename_i h; subst h; simp
      · rw [List.mem_cons, ih, List.mem_cons]
        exact or_left_comm

theorem pairwise_place {l : List CodeUnit} (u : CodeUnit) (h : l.Pairwise (· < ·)) :
    (place u l).Pairwise (· < ·) := by
  induction l with
  | nil => simp [place]
  | cons w rest ih =>
    have ⟨hw, hrest⟩ := List.pairwise_cons.1 h
    rw [place]
    split
    · rename_i huw
      refine List.pairwise_cons.2 ⟨fun v hv => ?_, h⟩
      rcases List.mem_cons.1 hv with rfl | hv
      · exact huw
      · exact UInt16.lt_trans huw (hw v hv)
    · split
      · exact h
      · rename_i hlt hne
        refine List.pairwise_cons.2 ⟨fun v hv => ?_, ih hrest⟩
        rcases mem_place.1 hv with rfl | hv
        · rcases UInt16.lt_or_lt_of_ne hne with hl | hl
          · exact absurd hl hlt
          · exact hl
        · exact hw v hv

theorem pairwise_nil : ([] : List CodeUnit).Pairwise (· < ·) := .nil

def empty : UnitSet := ⟨[], pairwise_nil⟩

instance : EmptyCollection UnitSet := ⟨empty⟩

instance : Membership CodeUnit UnitSet := ⟨fun s u => u ∈ s.members⟩

def contains (s : UnitSet) (u : CodeUnit) : Bool := s.members.contains u

def insert (s : UnitSet) (u : CodeUnit) : UnitSet :=
  ⟨place u s.members, pairwise_place u s.ascending⟩

/-- The set with the units of a text as further members. -/
def insertAll (s : UnitSet) (t : Text) : UnitSet := t.foldr (fun u s => s.insert u) s

def ofText (t : Text) : UnitSet := insertAll ∅ t

@[simp] theorem not_mem_empty (u : CodeUnit) : u ∉ (∅ : UnitSet) := List.not_mem_nil

@[simp] theorem contains_iff {s : UnitSet} {u : CodeUnit} : s.contains u = true ↔ u ∈ s :=
  List.contains_iff_mem

@[simp] theorem mem_insert {s : UnitSet} {u v : CodeUnit} : v ∈ s.insert u ↔ v = u ∨ v ∈ s :=
  mem_place

@[simp] theorem mem_insertAll {s : UnitSet} {t : Text} {u : CodeUnit} :
    u ∈ s.insertAll t ↔ u ∈ t ∨ u ∈ s := by
  induction t with
  | nil => simp [insertAll]
  | cons v rest ih =>
    have step : s.insertAll (v :: rest) = (s.insertAll rest).insert v := rfl
    rw [step, mem_insert, ih, List.mem_cons]
    exact or_assoc.symm

@[simp] theorem mem_ofText {t : Text} {u : CodeUnit} : u ∈ ofText t ↔ u ∈ t := by
  simp [ofText]

end UnitSet

end InertText
