import InertText.Proofs.Rules.Properties
import InertText.Proofs.Text.Written

/-!
# The order of keyed properties

A record lists the keys that are written forms of array indices first, by their numbers,
and behind them the other keys by the places of their first pairs. No two keys are listed
at the same place, so of several properties one is always the first.
-/
namespace InertText.Properties

variable {α : Type} {pairs : List (Text × α)} {key key' : Text} {i j : ℕ}

/-- The key is the written form of an array index. -/
def IsIndex (key : Text) (i : ℕ) : Prop := i < 0xffffffff ∧ key = units i.repr

/-- The first of the two keys is listed before the second in the record of the pairs. -/
inductive Precedes (pairs : List (Text × α)) (key key' : Text) : Prop where
  | indices {i j : ℕ} (hkey : IsIndex key i) (hkey' : IsIndex key' j) (h : i < j)
  | index {i : ℕ} (hkey : IsIndex key i) (hkey' : ∀ j, ¬ IsIndex key' j)
  | places (hkey : ∀ i, ¬ IsIndex key i) (hkey' : ∀ j, ¬ IsIndex key' j)
    (h : (pairs.map Prod.fst).idxOf key < (pairs.map Prod.fst).idxOf key')

lemma index?_eq_some_iff : index? key = some i ↔ IsIndex key i := by
  rw [index?, IsIndex]
  constructor
  · intro h
    split_ifs at h with hform
    obtain ⟨hnumber, hlt⟩ := Option.filter_eq_some_iff.mp h
    exact ⟨of_decide_eq_true hlt, Text.eq_units_repr_of_toNat? hnumber hform.2⟩
  · rintro ⟨hlt, rfl⟩
    have hlength : (units i.repr).length ≤ 10 :=
      Text.length_units_repr_le (lt_trans hlt (by norm_num))
    have hzero : (units i.repr).head? ≠ some (unit '0') ∨ (units i.repr).length = 1 := by
      by_cases hi : i = 0
      · subst hi
        exact .inr rfl
      · exact .inl (Text.head?_units_repr_ne hi)
    rw [if_pos ⟨hlength, hzero⟩, Text.toNat?_units_repr, Option.filter_some]
    simp [hlt]

lemma index?_eq_none_iff : index? key = none ↔ ∀ i, ¬ IsIndex key i := by
  simp only [Option.eq_none_iff_forall_ne_some, ne_eq, index?_eq_some_iff]

lemma IsIndex.unique (h : IsIndex key i) (h' : IsIndex key j) : i = j := by
  have hsome := index?_eq_some_iff.mpr h
  rw [index?_eq_some_iff.mpr h'] at hsome
  exact (Option.some.inj hsome).symm

lemma Precedes.asymm (h : Precedes pairs key key') : ¬ Precedes pairs key' key := by
  intro h'
  cases h with
  | indices hkey hkey' hlt =>
    cases h' with
    | indices hkey₁' hkey₁ hlt' =>
      rw [hkey.unique hkey₁, hkey'.unique hkey₁'] at hlt
      exact lt_asymm hlt hlt'
    | index _ hnot => exact hnot _ hkey
    | places hnot' _ _ => exact hnot' _ hkey'
  | index hkey hnot' =>
    cases h' with
    | indices hkey' _ _ => exact hnot' _ hkey'
    | index hkey' _ => exact hnot' _ hkey'
    | places _ hnot _ => exact hnot _ hkey
  | places hnot hnot' hlt =>
    cases h' with
    | indices hkey' _ _ => exact hnot' _ hkey'
    | index hkey' _ => exact hnot' _ hkey'
    | places _ _ hlt' => exact lt_asymm hlt hlt'

lemma mem_keys_merge : key ∈ (merge pairs).map Prod.fst ↔ key ∈ pairs.map Prod.fst := by
  induction pairs using List.reverseRecOn with
  | nil => rfl
  | append_singleton pairs p ih =>
    rw [merge_concat, keys_put, List.map_append, List.mem_append, List.map_singleton,
      List.mem_singleton]
    split_ifs with hmem
    · rw [ih, iff_self_or]
      rintro rfl
      exact ih.mp hmem
    · rw [List.mem_append, ih, List.mem_singleton]

/-- The keys stand by the places of their first pairs. -/
lemma pairwise_keys_merge (pairs : List (Text × α)) :
    ((merge pairs).map Prod.fst).Pairwise fun key key' =>
      (pairs.map Prod.fst).idxOf key < (pairs.map Prod.fst).idxOf key' := by
  induction pairs using List.reverseRecOn with
  | nil => exact .nil
  | append_singleton pairs p ih =>
    have hplace : ∀ key ∈ (merge pairs).map Prod.fst,
        ((pairs ++ [p]).map Prod.fst).idxOf key = (pairs.map Prod.fst).idxOf key := by
      intro key hkey
      rw [List.map_append, List.idxOf_append_of_mem (mem_keys_merge.mp hkey)]
    have hold : ((merge pairs).map Prod.fst).Pairwise fun key key' =>
        ((pairs ++ [p]).map Prod.fst).idxOf key < ((pairs ++ [p]).map Prod.fst).idxOf key' := by
      refine ih.imp_of_mem fun hkey hkey' hlt => ?_
      rwa [hplace _ hkey, hplace _ hkey']
    rw [merge_concat, keys_put]
    split_ifs with hmem
    · exact hold
    · refine List.pairwise_append.mpr ⟨hold, List.pairwise_singleton _ _, fun key hkey key' h => ?_⟩
      have hnew : p.1 ∉ pairs.map Prod.fst := fun h => hmem (mem_keys_merge.mpr h)
      rw [List.mem_singleton.mp h, hplace key hkey, List.map_append,
        List.idxOf_append_of_notMem hnew]
      exact Nat.lt_add_right _ (List.idxOf_lt_length_iff.mpr (mem_keys_merge.mp hkey))

/-- Sorting by the numbers puts indices in their order. -/
lemma pairwise_indices (indexed : List (ℕ × Text × α)) :
    (indexed.mergeSort fun a b => a.1 ≤ b.1).Pairwise fun a b => a.1 ≤ b.1 := by
  have htrans (a b c : ℕ × Text × α) (hab : decide (a.1 ≤ b.1) = true)
      (hbc : decide (b.1 ≤ c.1) = true) : decide (a.1 ≤ c.1) = true :=
    decide_eq_true (le_trans (of_decide_eq_true hab) (of_decide_eq_true hbc))
  have htotal (a b : ℕ × Text × α) : (decide (a.1 ≤ b.1) || decide (b.1 ≤ a.1)) = true := by
    rw [Bool.or_eq_true, decide_eq_true_eq, decide_eq_true_eq]
    exact le_total a.1 b.1
  exact (List.pairwise_mergeSort htrans htotal indexed).imp of_decide_eq_true

/-- A record lists its keys in their order. -/
theorem pairwise_listed (pairs : List (Text × α)) :
    ((listed pairs).map Prod.fst).Pairwise (Precedes pairs) := by
  have hnodup := nodup_listed pairs
  rw [List.pairwise_map]
  rw [listed] at hnodup ⊢
  generalize hindexed :
    ((merge pairs).filterMap fun p => (index? p.1).map fun i => (i, p)) = indexed at hnodup ⊢
  have hindices : ∀ a ∈ indexed.mergeSort fun a b => a.1 ≤ b.1, IsIndex a.2.1 a.1 := by
    intro a ha
    rw [List.mem_mergeSort, ← hindexed, List.mem_filterMap] at ha
    obtain ⟨p, -, hp⟩ := ha
    obtain ⟨i, hi, rfl⟩ := Option.map_eq_some_iff.mp hp
    exact index?_eq_some_iff.mp hi
  have hothers : ∀ p ∈ (merge pairs).filter fun p => (index? p.1).isNone,
      ∀ j, ¬ IsIndex p.1 j := by
    intro p hp
    exact index?_eq_none_iff.mp (Option.isNone_iff_eq_none.mp (List.mem_filter.mp hp).2)
  refine List.pairwise_append.mpr ⟨?_, ?_, ?_⟩
  · -- Of two indices none is the other, so they ascend strictly.
    rw [List.map_append, List.nodup_append] at hnodup
    have hne := List.pairwise_map.mp (List.pairwise_map.mp hnodup.1)
    rw [List.pairwise_map]
    refine ((pairwise_indices indexed).and hne).imp_of_mem fun {a b} ha hb h => ?_
    refine .indices (hindices a ha) (hindices b hb) (lt_of_le_of_ne h.1 fun heq => h.2 ?_)
    rw [(hindices a ha).2, heq, ← (hindices b hb).2]
  · refine ((List.pairwise_map.mp (pairwise_keys_merge pairs)).filter _).imp_of_mem ?_
    exact fun ha hb hlt => .places (hothers _ ha) (hothers _ hb) hlt
  · intro p hp q hq
    obtain ⟨a, ha, rfl⟩ := List.mem_map.mp hp
    exact .index (hindices a ha) (hothers q hq)

end InertText.Properties
