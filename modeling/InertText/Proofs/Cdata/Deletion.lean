import InertText.Proofs.Cdata.Scan
import InertText.Proofs.Context.Output
import Mathlib.Logic.Relation

/-!
# Filtering as exhaustive deletion

A deletion takes one terminator out of a text and may bring a new one about. The
filtering scan comes back to the same state after a terminator, so a deletion
changes nothing that it writes, and on a text without terminators it writes the
text. Hence all orders of deletions end in one text, the filtered one.
-/
namespace InertText.Cdata

/-- One occurrence of the terminator is taken out of a text. -/
def Deletes (t r : Text) : Prop :=
  ∃ before after, t = before ++ (terminator ++ after) ∧ r = before ++ after

variable {t r : Text}

lemma Deletes.length_eq (h : Deletes t r) : t.length = r.length + 3 := by
  obtain ⟨before, after, rfl, rfl⟩ := h
  simp only [List.length_append, terminator, List.length_cons, List.length_nil]
  omega

lemma Deletes.subset (h : Deletes t r) : r ⊆ t := by
  obtain ⟨before, after, rfl, rfl⟩ := h
  intro u hu
  rcases List.mem_append.mp hu with hu | hu
  · exact List.mem_append_left _ hu
  · exact List.mem_append_right _ (List.mem_append_right _ hu)

lemma forall_not_deletes_iff : (∀ r, ¬ Deletes t r) ↔ ¬ terminator <:+: t := by
  constructor
  · rintro h ⟨before, after, rfl⟩
    exact h (before ++ after) ⟨before, after, by simp, rfl⟩
  · rintro h r ⟨before, after, rfl, -⟩
    exact h ⟨before, after, by simp⟩

/-- Every deletion shortens the text, so none can go on for ever. -/
lemma not_exists_forall_deletes (t : Text) :
    ¬ ∃ f : ℕ → Text, f 0 = t ∧ ∀ n, Deletes (f n) (f (n + 1)) := by
  rintro ⟨f, -, hf⟩
  have hlen : ∀ n, (f n).length + 3 * n = (f 0).length := by
    intro n
    induction n with
    | zero => rfl
    | succ n ih =>
      have hstep := (hf n).length_eq
      omega
  have hlast := hlen ((f 0).length + 1)
  omega

lemma exists_deleted (t : Text) :
    ∃ r, Relation.ReflTransGen Deletes t r ∧ ∀ s, ¬ Deletes r s := by
  induction hn : t.length using Nat.strong_induction_on generalizing t with
  | _ n ih =>
    by_cases h : ∃ s, Deletes t s
    · obtain ⟨s, hs⟩ := h
      have hlen := hs.length_eq
      obtain ⟨r, hsr, hr⟩ := ih s.length (by omega) s rfl
      exact ⟨r, hsr.head hs, hr⟩
    · exact ⟨t, .refl, not_exists.mp h⟩

/-- A terminator brings the filtering scan back to where it was. -/
lemma foldl_next_terminator (s : Scan) : terminator.foldl (Scan.next .filter) s = s := by
  have hp : 2 ≤ s.pending + 1 + 1 := by omega
  rw [terminator, List.foldl_cons, List.foldl_cons, List.foldl_cons, List.foldl_nil,
    Scan.next_bracket, Scan.next_bracket, Scan.next_filter_closing hp]
  rfl

lemma Deletes.foldl_next_eq (h : Deletes t r) (s : Scan) :
    t.foldl (Scan.next .filter) s = r.foldl (Scan.next .filter) s := by
  obtain ⟨before, after, rfl, rfl⟩ := h
  simp only [List.foldl_append, foldl_next_terminator]

lemma Deletes.pieces_eq (h : Deletes t r) : pieces .filter t = pieces .filter r := by
  rw [pieces, h.foldl_next_eq, pieces]

/-- Where deletions lead, the units stay allowed and the output stays the same. -/
lemma invariant_of_deletions (h : Relation.ReflTransGen Deletes t r)
    (ht : ∀ u ∈ t, isForbidden u = false) :
    (∀ u ∈ r, isForbidden u = false) ∧ pieces .filter r = pieces .filter t := by
  induction h with
  | refl => exact ⟨ht, rfl⟩
  | tail _ hstep ih =>
    exact ⟨fun u hu => ih.1 u (hstep.subset hu), hstep.pieces_eq ▸ ih.2⟩

/-- As long as the pending brackets and the text to come hold no terminator, the
filtering scan writes all of them. -/
lemma flatten_foldl_next_filter {s : Scan} (ht : ∀ u ∈ t, isForbidden u = false)
    (hs : ¬ terminator <:+: brackets s.pending ++ t) :
    (t.foldl (Scan.next .filter) s).finish.flatten = s.settled ++ (brackets s.pending ++ t) := by
  induction t generalizing s with
  | nil => rw [List.foldl_nil, Scan.flatten_finish, List.append_nil]
  | cons u t ih =>
    have hu := ht u List.mem_cons_self
    have htail := fun v hv => ht v (List.mem_cons_of_mem u hv)
    rw [List.foldl_cons]
    by_cases hb : u = bracket
    · subst hb
      rw [← brackets_succ_append] at hs ⊢
      rw [Scan.next_bracket, ih htail hs]
      rfl
    by_cases hc : u = closing ∧ 2 ≤ s.pending
    · obtain ⟨rfl, hp⟩ := hc
      obtain ⟨n, hn⟩ := Nat.exists_eq_add_of_le' hp
      rw [hn, brackets_add_two_append] at hs
      exact absurd ⟨brackets n, t, by simp⟩ hs
    · have hrest : ¬ terminator <:+: brackets 0 ++ t := by
        intro h
        have hsuffix : t <:+: brackets s.pending ++ u :: t := ⟨brackets s.pending ++ [u], [], by simp⟩
        exact hs (h.trans hsuffix)
      rw [Scan.next_of_ne_bracket hb hu hc, ih htail hrest, Scan.settled_push]
      simp [Scan.settled]

lemma flatten_pieces_filter_of_no_terminator (ht : ∀ u ∈ t, isForbidden u = false)
    (h : ¬ terminator <:+: t) : (pieces .filter t).flatten = t := by
  rw [pieces, flatten_foldl_next_filter ht (by simpa using h)]
  rfl

/-- Deleting terminators from the allowed units of a text always comes to an end,
in whatever order it is done, and the only text it can end in is the filtered one,
which holds no terminator. -/
theorem deletions_end_in_output (t : Text) :
    (¬ ∃ f : ℕ → Text, f 0 = allowed t ∧ ∀ n, Deletes (f n) (f (n + 1))) ∧
    (∀ r, (Relation.ReflTransGen Deletes (allowed t) r ∧ ∀ s, ¬ Deletes r s) ↔
      r = Context.cdataContent.output .filter t) ∧
    ¬ terminator <:+: Context.cdataContent.output .filter t := by
  have hallowed : ∀ u ∈ allowed t, isForbidden u = false := fun u hu => (mem_allowed.mp hu).2
  have hend : ∀ r, Relation.ReflTransGen Deletes (allowed t) r → (∀ s, ¬ Deletes r s) →
      r = Context.cdataContent.output .filter t := by
    intro r hr hstop
    obtain ⟨hunits, hpieces⟩ := invariant_of_deletions hr hallowed
    rw [Context.output_cdataContent, ← pieces_allowed, ← hpieces]
    exact (flatten_pieces_filter_of_no_terminator hunits (forall_not_deletes_iff.mp hstop)).symm
  obtain ⟨r, hr, hstop⟩ := exists_deleted (allowed t)
  have hout := hend r hr hstop
  refine ⟨not_exists_forall_deletes (allowed t), ?_, ?_⟩
  · intro s
    constructor
    · rintro ⟨hs, hsstop⟩
      exact hend s hs hsstop
    · rintro rfl
      exact hout ▸ ⟨hr, hstop⟩
  · exact hout ▸ forall_not_deletes_iff.mp hstop

end InertText.Cdata
