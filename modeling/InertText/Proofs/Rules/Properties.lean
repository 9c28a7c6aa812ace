import InertText.Rules.EntityTable
import InertText.Rules.Properties
import Mathlib.Data.List.Induction
import Mathlib.Data.List.Nodup
import Mathlib.Data.List.Perm.Basic
import Mathlib.Tactic.Common

/-!
# What keyed properties say

Pairs with keys are read by looking a key up. A record that is made of pairs has one
property for a key, with the value of the last pair, so the order in which it lists its
properties makes no difference to what is read.
-/
namespace InertText

section Keyed

variable {α β : Type} [BEq α] [LawfulBEq α] {l r : List (α × β)} {a : α} {b : β}

lemma lookup_cons_eq_ite [DecidableEq α] (k : α) (v : β) (l : List (α × β)) (a : α) :
    ((k, v) :: l).lookup a = if a = k then some v else l.lookup a := by
  rw [List.lookup_cons]
  by_cases h : a = k
  · simp only [beq_iff_eq.mpr h, if_pos h]
  · simp only [beq_false_of_ne h, if_neg h]

/-- Where no key stands twice, a look-up finds whatever pair there is. -/
lemma lookup_eq_some_iff_of_nodup (h : (l.map Prod.fst).Nodup) :
    l.lookup a = some b ↔ (a, b) ∈ l := by
  refine ⟨mem_of_lookup, fun hmem => ?_⟩
  obtain ⟨before, after, rfl⟩ := List.append_of_mem hmem
  refine List.lookup_eq_some_iff.mpr ⟨before, after, rfl, fun p hp => bne_iff_ne.mpr ?_⟩
  rintro rfl
  rw [List.map_append, List.nodup_append] at h
  exact h.2.2 p.1 (List.mem_map_of_mem hp) p.1 List.mem_cons_self rfl

/-- Then the order of the pairs makes no difference. -/
lemma lookup_eq_of_perm (hperm : l.Perm r) (h : (l.map Prod.fst).Nodup) (a : α) :
    l.lookup a = r.lookup a := by
  have hr : (r.map Prod.fst).Nodup := (hperm.map Prod.fst).nodup_iff.mp h
  ext b
  rw [lookup_eq_some_iff_of_nodup h, lookup_eq_some_iff_of_nodup hr]
  exact hperm.mem_iff

end Keyed

namespace Properties

variable {α : Type}

/-- The value that pairs give to a key is that of the last pair with the key. -/
def value? (pairs : List (Text × α)) (key : Text) : Option α := pairs.reverse.lookup key

variable {l : List (Text × α)} {key : Text}

/-- What later pairs say of a key overrides what earlier ones say. -/
lemma value?_append (pairs more : List (Text × α)) (key : Text) :
    value? (pairs ++ more) key = (value? more key).or (value? pairs key) := by
  rw [value?, List.reverse_append, List.lookup_append]
  rfl

lemma value?_eq_none_iff {pairs : List (Text × α)} :
    value? pairs key = none ↔ key ∉ pairs.map Prod.fst := by
  rw [value?, List.lookup_eq_none_iff]
  constructor
  · intro h hmem
    obtain ⟨p, hp, rfl⟩ := List.mem_map.mp hmem
    exact bne_iff_ne.mp (h p (List.mem_reverse.mpr hp)) rfl
  · intro h p hp
    rw [bne_iff_ne]
    rintro rfl
    exact h (List.mem_map_of_mem (List.mem_reverse.mp hp))

lemma lookup_put (k : Text) (v : α) (l : List (Text × α)) (key : Text) :
    (put k v l).lookup key = if key = k then some v else l.lookup key := by
  induction l with
  | nil => rw [put, lookup_cons_eq_ite]
  | cons p l ih =>
    obtain ⟨k', v'⟩ := p
    rw [put]
    by_cases hk : k' = k
    · subst hk
      rw [if_pos rfl, lookup_cons_eq_ite, lookup_cons_eq_ite]
      split_ifs <;> rfl
    · rw [if_neg hk, lookup_cons_eq_ite, ih, lookup_cons_eq_ite]
      by_cases hkey : key = k'
      · rw [if_pos hkey, if_neg (hkey.trans_ne hk), if_pos hkey]
      · rw [if_neg hkey, if_neg hkey]

/-- A key keeps its place, and a new one is put behind all others. -/
lemma keys_put (k : Text) (v : α) (l : List (Text × α)) :
    (put k v l).map Prod.fst =
      if k ∈ l.map Prod.fst then l.map Prod.fst else l.map Prod.fst ++ [k] := by
  induction l with
  | nil => rfl
  | cons p l ih =>
    obtain ⟨k', v'⟩ := p
    rw [put]
    by_cases hk : k' = k
    · subst hk
      simp
    · rw [if_neg hk, List.map_cons, ih]
      simp only [List.map_cons, List.mem_cons, Ne.symm hk, false_or]
      split_ifs <;> rfl

lemma nodup_put (h : (l.map Prod.fst).Nodup) (k : Text) (v : α) :
    ((put k v l).map Prod.fst).Nodup := by
  rw [keys_put]
  split_ifs with hk
  · exact h
  · rw [← List.concat_eq_append]
    exact h.concat hk

lemma merge_concat (pairs : List (Text × α)) (k : Text) (v : α) :
    merge (pairs ++ [(k, v)]) = put k v (merge pairs) := by
  rw [merge, List.foldl_append]
  rfl

lemma nodup_merge (pairs : List (Text × α)) : ((merge pairs).map Prod.fst).Nodup := by
  induction pairs using List.reverseRecOn with
  | nil => exact List.nodup_nil
  | append_singleton pairs p ih =>
    rw [merge_concat]
    exact nodup_put ih p.1 p.2

lemma lookup_merge (pairs : List (Text × α)) (key : Text) :
    (merge pairs).lookup key = value? pairs key := by
  induction pairs using List.reverseRecOn with
  | nil => rfl
  | append_singleton pairs p ih =>
    have hlast : value? [p] key = if key = p.1 then some p.2 else none :=
      lookup_cons_eq_ite p.1 p.2 [] key
    rw [merge_concat, lookup_put, ih, value?_append, hlast]
    split_ifs <;> rfl

/-- A record lists the properties that its pairs make up, the ones with an index as key
before the others. -/
lemma listed_perm_merge (pairs : List (Text × α)) : (listed pairs).Perm (merge pairs) := by
  have hindexed : ((merge pairs).filterMap fun p => (index? p.1).map fun i => (i, p)).map Prod.snd =
      (merge pairs).filter fun p => (index? p.1).isSome := by
    rw [List.map_filterMap, ← List.filterMap_eq_filter]
    congr 1
    funext p
    cases h : index? p.1 <;> simp [Option.guard, h]
  have hothers : (merge pairs).filter (fun p => (index? p.1).isNone) =
      (merge pairs).filter fun p => !(index? p.1).isSome := by
    simp only [Option.not_isSome]
  rw [listed, hothers]
  refine .trans ?_ (List.filter_append_perm (fun p => (index? p.1).isSome) (merge pairs))
  rw [← hindexed]
  exact ((List.mergeSort_perm _ _).map Prod.snd).append_right _

lemma nodup_listed (pairs : List (Text × α)) : ((listed pairs).map Prod.fst).Nodup :=
  ((listed_perm_merge pairs).map Prod.fst).nodup_iff.mpr (nodup_merge pairs)

/-- A record has one property for a key, with the value that its pairs give to it. -/
theorem lookup_listed (pairs : List (Text × α)) (key : Text) :
    (listed pairs).lookup key = value? pairs key := by
  rw [lookup_eq_of_perm (listed_perm_merge pairs) (nodup_listed pairs), lookup_merge]

theorem mem_listed_iff {pairs : List (Text × α)} {v : α} :
    (key, v) ∈ listed pairs ↔ value? pairs key = some v := by
  rw [← lookup_eq_some_iff_of_nodup (nodup_listed pairs), lookup_listed]

end Properties

end InertText
