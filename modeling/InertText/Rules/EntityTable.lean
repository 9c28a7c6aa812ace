import InertText.Text.Basic

/-!
# Tables of exact replacements

A table gives some code units a replacement text. It lists its entries in
ascending order of the unit, one entry for a unit, so equal tables are equal
values. `find?_insert` says what a look-up sees after an insertion.
-/
namespace InertText

theorem mem_of_lookup {α β : Type} [BEq α] [LawfulBEq α] {l : List (α × β)} {a : α} {b : β}
    (h : l.lookup a = some b) : (a, b) ∈ l := by
  obtain ⟨before, after, hl, -⟩ := List.lookup_eq_some_iff.1 h
  rw [hl]
  exact List.mem_append_right before List.mem_cons_self

/-- Replacement texts for finitely many code units. -/
structure EntityTable where
  entries : List (CodeUnit × Text)
  ascending : (entries.map Prod.fst).Pairwise (· < ·)

namespace EntityTable

/-- Put an entry at its place in an ascending list. An entry of the same unit
gives way. -/
def place (u : CodeUnit) (t : Text) : List (CodeUnit × Text) → List (CodeUnit × Text)
  | [] => [(u, t)]
  | (v, s) :: rest =>
    if u < v then (u, t) :: (v, s) :: rest
    else if u = v then (u, t) :: rest
    else (v, s) :: place u t rest

theorem mem_units_place {u v : CodeUnit} {t : Text} {l : List (CodeUnit × Text)} :
    v ∈ (place u t l).map Prod.fst ↔ v = u ∨ v ∈ l.map Prod.fst := by
  induction l with
  | nil => simp [place]
  | cons e rest ih =>
    obtain ⟨w, s⟩ := e
    rw [place]
    split
    · simp
    · split
      · rename_i h; subst h; simp
      · rw [List.map_cons, List.mem_cons, ih, List.map_cons, List.mem_cons]
        exact or_left_comm

theorem pairwise_place {l : List (CodeUnit × Text)} (u : CodeUnit) (t : Text)
    (h : (l.map Prod.fst).Pairwise (· < ·)) :
    ((place u t l).map Prod.fst).Pairwise (· < ·) := by
  induction l with
  | nil => simp [place]
  | cons e rest ih =>
    obtain ⟨w, s⟩ := e
    have ⟨hw, hrest⟩ := List.pairwise_cons.1 h
    rw [place]
    split
    · rename_i huw
      refine List.pairwise_cons.2 ⟨fun v hv => ?_, h⟩
      rcases List.mem_cons.1 hv with rfl | hv
      · exact huw
      · exact UInt16.lt_trans huw (hw v hv)
    · split
      · rename_i heq
        subst heq
        exact List.pairwise_cons.2 ⟨hw, hrest⟩
      · rename_i hlt hne
        refine List.pairwise_cons.2 ⟨fun v hv => ?_, ih hrest⟩
        rcases mem_units_place.1 hv with rfl | hv
        · rcases UInt16.lt_or_lt_of_ne hne with hl | hl
          · exact absurd hl hlt
          · exact hl
        · exact hw v hv

theorem pairwise_nil : (([] : List (CodeUnit × Text)).map Prod.fst).Pairwise (· < ·) := .nil

def empty : EntityTable := ⟨[], pairwise_nil⟩

instance : EmptyCollection EntityTable := ⟨empty⟩

def find? (table : EntityTable) (u : CodeUnit) : Option Text := table.entries.lookup u

def insert (table : EntityTable) (u : CodeUnit) (t : Text) : EntityTable :=
  ⟨place u t table.entries, pairwise_place u t table.ascending⟩

/-- The table with replacements set one after the other. -/
def insertAll (table : EntityTable) (entries : List (CodeUnit × Text)) : EntityTable :=
  entries.foldl (fun table (u, t) => table.insert u t) table

/-- The table of a list of replacements, where the last one of a unit counts. -/
def ofList (entries : List (CodeUnit × Text)) : EntityTable := insertAll ∅ entries

@[simp] theorem find?_empty (u : CodeUnit) : find? ∅ u = none := rfl

theorem lookup_place (u v : CodeUnit) (t : Text) (l : List (CodeUnit × Text)) :
    (place u t l).lookup v = if v = u then some t else l.lookup v := by
  induction l with
  | nil => by_cases h : v = u <;> simp [place, List.lookup_cons, h, beq_false_of_ne]
  | cons e rest ih =>
    obtain ⟨w, s⟩ := e
    rw [place]
    split
    · by_cases h : v = u <;> simp [List.lookup_cons, h, beq_false_of_ne]
    · split
      · rename_i heq
        subst heq
        by_cases h : v = u <;> simp [List.lookup_cons, h, beq_false_of_ne]
      · rename_i hne
        rw [List.lookup_cons, ih, List.lookup_cons]
        by_cases h : v = u
        · subst h
          simp [beq_false_of_ne hne]
        · simp [h]

@[simp] theorem find?_insert (table : EntityTable) (u v : CodeUnit) (t : Text) :
    (table.insert u t).find? v = if v = u then some t else table.find? v :=
  lookup_place u v t table.entries

/-- After insertions one after the other the last replacement of a unit counts,
and the table's own one where there is none. -/
theorem find?_insertAll (table : EntityTable) (entries : List (CodeUnit × Text)) (u : CodeUnit) :
    (table.insertAll entries).find? u = (entries.reverse.lookup u).or (table.find? u) := by
  induction entries generalizing table with
  | nil => rfl
  | cons e rest ih =>
    obtain ⟨v, t⟩ := e
    have step : table.insertAll ((v, t) :: rest) = (table.insert v t).insertAll rest := rfl
    rw [step, ih, find?_insert, List.reverse_cons, List.lookup_append]
    by_cases h : u = v
    · subst h
      cases rest.reverse.lookup u <;> simp
    · cases rest.reverse.lookup u <;> simp [List.lookup_cons, h, beq_false_of_ne]

end EntityTable

end InertText
