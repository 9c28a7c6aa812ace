import InertText.Proofs.Rules.Properties
import InertText.Rules.Definition
import Mathlib.Data.Set.List

/-!
# Accepted entities

A record of entities is read property by property. It is accepted if every property of
it is an entity, and then the entities say of each unit what the pairs said of the key
that is the unit alone.
-/
namespace InertText

open Properties (value? listed)

lemma bind_eq_ok_iff {ε α β : Type} {x : Except ε α} {f : α → Except ε β} {b : β} :
    x >>= f = .ok b ↔ ∃ a, x = .ok a ∧ f a = .ok b := by
  cases x <;> simp [bind, Except.bind]

/-- Why a property is no entity: its key is not one unit, or its value is no text. -/
def Offends (key : Text) (v : Value) : Prop := key.length ≠ 1 ∨ ∀ t, v ≠ .text t

def entityProperty (entity : CodeUnit × Text) : Text × Value := ([entity.1], .text entity.2)

variable {pairs : List (Text × Value)} {entities : List (CodeUnit × Text)} {key : Text} {v : Value}
  {u : CodeUnit}

lemma readEntity_eq_ok_iff {property : Text × Value} {entity : CodeUnit × Text} :
    readEntity property = .ok entity ↔ property = entityProperty entity := by
  obtain ⟨key, v⟩ := property
  obtain ⟨u, t⟩ := entity
  match key, v with
  | [], v => simp [readEntity, entityProperty]
  | [w], .text s => simp [readEntity, entityProperty]
  | [w], .null | [w], .boolean _ | [w], .number _ | [w], .list _ | [w], .record _ =>
    simp [readEntity, entityProperty]
  | w :: x :: rest, v => simp [readEntity, entityProperty]

lemma not_offends_iff : ¬ Offends key v ↔ ∃ entity, entityProperty entity = (key, v) := by
  rw [Offends, not_or, not_not, not_forall, List.length_eq_one_iff]
  constructor
  · rintro ⟨⟨u, rfl⟩, t, ht⟩
    exact ⟨(u, t), by rw [entityProperty, not_not.mp ht]⟩
  · rintro ⟨⟨u, t⟩, he⟩
    obtain ⟨rfl, rfl⟩ := Prod.mk.inj he
    exact ⟨⟨u, rfl⟩, t, not_not.mpr rfl⟩

/-- Reading succeeds if what is read are the properties of entities. -/
lemma mapM_readEntity_eq_ok_iff {properties : List (Text × Value)} :
    properties.mapM readEntity = .ok entities ↔ properties = entities.map entityProperty := by
  induction properties generalizing entities with
  | nil => cases entities <;> simp [pure, Except.pure]
  | cons property properties ih =>
    simp only [List.mapM_cons, bind_eq_ok_iff, readEntity_eq_ok_iff, ih, pure, Except.pure,
      Except.ok.injEq]
    constructor
    · rintro ⟨entity, rfl, rest, rfl, rfl⟩
      rfl
    · intro h
      obtain ⟨entity, rest, rfl, hentity, hrest⟩ := List.map_eq_cons_iff.mp h.symm
      exact ⟨entity, hentity.symm, rest, hrest.symm, rfl⟩

lemma readEntities_eq_ok_iff :
    readEntities pairs = .ok entities ↔ listed pairs = entities.map entityProperty :=
  mapM_readEntity_eq_ok_iff

/-- A record is accepted if none of its properties offends. -/
theorem exists_readEntities_iff : (∃ entities, readEntities pairs = .ok entities) ↔
    ∀ key v, value? pairs key = some v → ¬ Offends key v := by
  have hrange : (∃ entities : List _, listed pairs = entities.map entityProperty) ↔
      ∀ property ∈ listed pairs, ∃ entity, entityProperty entity = property := by
    have hset := Set.ext_iff.mp (Set.range_list_map entityProperty) (listed pairs)
    simpa only [Set.mem_range, Set.mem_ofPred_eq, eq_comm] using hset
  simp only [readEntities_eq_ok_iff, hrange, Prod.forall, Properties.mem_listed_iff,
    not_offends_iff]

lemma lookup_map_entityProperty (entities : List (CodeUnit × Text)) (u : CodeUnit) :
    (entities.map entityProperty).lookup [u] = (entities.lookup u).map .text := by
  induction entities with
  | nil => rfl
  | cons entity entities ih =>
    obtain ⟨w, t⟩ := entity
    rw [List.map_cons, entityProperty, lookup_cons_eq_ite, lookup_cons_eq_ite, ih]
    simp only [List.singleton_inj]
    split_ifs <;> rfl

/-- Of the entities for a unit there is one at most, which is what the pairs say. -/
theorem value?_of_readEntities (h : readEntities pairs = .ok entities) (u : CodeUnit) :
    value? pairs [u] = (entities.reverse.lookup u).map .text := by
  have hlisted := readEntities_eq_ok_iff.mp h
  have hkeys : (entities.map Prod.fst).Nodup := by
    have hnodup := Properties.nodup_listed pairs
    have hkey : Prod.fst ∘ entityProperty = (fun u => [u]) ∘ Prod.fst := rfl
    rw [hlisted, List.map_map, hkey, ← List.map_map] at hnodup
    exact hnodup.of_map _
  have hreverse := lookup_eq_of_perm entities.reverse_perm.symm hkeys u
  rw [← Properties.lookup_listed, hlisted, lookup_map_entityProperty, hreverse]

end InertText
