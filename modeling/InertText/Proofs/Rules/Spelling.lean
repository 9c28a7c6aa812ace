import InertText.Value
import Mathlib.Data.List.Basic

/-!
# Values that cannot be spelled

A record that says itself how it is spelled says it with a value that cannot be
called, and a list that holds such a record at any depth cannot be spelled either.
Every other value can.
-/
namespace InertText.Value

/-- A record says itself how it is spelled, or a member of a list is such a value. -/
inductive Unspellable : Value → Prop where
  | record {fields : List (Text × Value)} {v : Value} (h : (units "toString", v) ∈ fields) :
    Unspellable (.record fields)
  | list {vs : List Value} {v : Value} (hv : v ∈ vs) (h : Unspellable v) : Unspellable (.list vs)

variable {v : Value} {vs : List Value} {fields : List (Text × Value)}

lemma memberSpellings?_cons_eq_none_iff : memberSpellings? (v :: vs) = none ↔
    v.spelling? = none ∨ memberSpellings? vs = none := by
  cases v with
  | null => simp [memberSpellings?, spelling?]
  | _ =>
    simp only [memberSpellings?]
    generalize spelling? _ = spelled
    cases spelled <;> simp

lemma memberSpellings?_eq_none_iff :
    memberSpellings? vs = none ↔ ∃ v ∈ vs, v.spelling? = none := by
  induction vs with
  | nil => simp [memberSpellings?]
  | cons v vs ih => rw [memberSpellings?_cons_eq_none_iff, ih, List.exists_mem_cons_iff]

lemma spelling?_list_eq_none_iff :
    (list vs).spelling? = none ↔ ∃ v ∈ vs, v.spelling? = none := by
  rw [spelling?, Option.map_eq_none_iff, memberSpellings?_eq_none_iff]

lemma spelling?_record_eq_none_iff :
    (record fields).spelling? = none ↔ ∃ v, (units "toString", v) ∈ fields := by
  have hkey : (fields.any fun field => field.1 == spellingKey) = true ↔
      ∃ v, (units "toString", v) ∈ fields := by
    rw [List.any_eq_true]
    constructor
    · rintro ⟨⟨key, v⟩, hmem, hkey⟩
      obtain rfl : key = units "toString" := eq_of_beq hkey
      exact ⟨v, hmem⟩
    · rintro ⟨v, hmem⟩
      exact ⟨_, hmem, beq_self_eq_true _⟩
  rw [spelling?, ← hkey]
  split_ifs with h
  · simp [h]
  · simp [h]

lemma unspellable_of_spelling?_eq_none (v : Value) (h : v.spelling? = none) : v.Unspellable := by
  match v with
  | .null | .boolean _ | .number _ | .text _ => simp [spelling?] at h
  | .list vs =>
    obtain ⟨w, hw, hnone⟩ := spelling?_list_eq_none_iff.mp h
    exact .list hw (unspellable_of_spelling?_eq_none w hnone)
  | .record fields =>
    obtain ⟨w, hw⟩ := spelling?_record_eq_none_iff.mp h
    exact .record hw
termination_by v
decreasing_by
  have hlt := List.sizeOf_lt_of_mem hw
  simp only [list.sizeOf_spec]
  omega

theorem spelling?_eq_none_iff : v.spelling? = none ↔ v.Unspellable := by
  refine ⟨unspellable_of_spelling?_eq_none v, fun h => ?_⟩
  induction h with
  | record hmem => exact spelling?_record_eq_none_iff.mpr ⟨_, hmem⟩
  | list hv _ ih => exact spelling?_list_eq_none_iff.mpr ⟨_, hv, ih⟩

end InertText.Value
