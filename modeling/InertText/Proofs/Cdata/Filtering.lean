import InertText.Proofs.Cdata.Deletion
import InertText.Proofs.Cdata.Section
import Mathlib.Data.Bool.AllAny

/-!
# Filtered content of sections

Filtering ends in a text of allowed units without a terminator, and neither mode of
the scan changes such a text. Encoding changes every other one: it never writes a
forbidden unit, and of allowed units with a terminator it makes a longer text.
-/
namespace InertText.Cdata

variable {t r new : Text} {u : CodeUnit}

lemma Deletes.sublist (h : Deletes t r) : r.Sublist t := by
  obtain ⟨before, after, rfl, rfl⟩ := h
  exact (List.sublist_append_right terminator after).append_left before

/-- What is left of a text is a part of it in its order. -/
lemma sublist_of_deletions (h : Relation.ReflTransGen Deletes t r) : r.Sublist t := by
  induction h with
  | refl => exact List.Sublist.refl t
  | tail _ hstep ih => exact hstep.sublist.trans ih

lemma allowed_eq_self (ht : ∀ u ∈ t, isForbidden u = false) : allowed t = t := by
  rw [allowed, List.filter_eq_self]
  exact fun u hu => by rw [ht u hu, Bool.not_false]

lemma pieces_eq_self (ht : ∀ u ∈ t, isForbidden u = false) (h : ¬ terminator <:+: t)
    (mode : Mode) : (pieces mode t).flatten = t := by
  cases mode with
  | encode =>
    rw [flatten_pieces_encode, allowed_eq_self ht, replaceTerminators_of_no_terminator h]
  | filter => exact flatten_pieces_filter_of_no_terminator ht h

/-- Deletions lead from the allowed text to the filtered one. -/
lemma deletions_flatten_pieces (t : Text) :
    Relation.ReflTransGen Deletes (allowed t) (pieces .filter t).flatten ∧
    (∀ u ∈ (pieces .filter t).flatten, isForbidden u = false) ∧
    ¬ terminator <:+: (pieces .filter t).flatten := by
  obtain ⟨r, hr, hstop⟩ := exists_deleted (allowed t)
  obtain ⟨hunits, hpieces⟩ := invariant_of_deletions hr fun u hu => (mem_allowed.mp hu).2
  have hnone := forall_not_deletes_iff.mp hstop
  have hout : (pieces .filter t).flatten = r := by
    rw [← pieces_allowed, ← hpieces, pieces_eq_self hunits hnone]
  rw [hout]
  exact ⟨hr, hunits, hnone⟩

/-- The filtered text is a part of the text in its order, and the scan has nothing
left to do in it. -/
lemma flatten_pieces_filter (t : Text) :
    (pieces .filter t).flatten.Sublist t ∧
    (∀ u ∈ (pieces .filter t).flatten, isForbidden u = false) ∧
    ¬ terminator <:+: (pieces .filter t).flatten := by
  obtain ⟨hdeletions, hunits, hnone⟩ := deletions_flatten_pieces t
  exact ⟨(sublist_of_deletions hdeletions).trans List.filter_sublist, hunits, hnone⟩

lemma mem_replaceTerminators (h : u ∈ replaceTerminators new t) : u ∈ t ∨ u ∈ new := by
  induction t using replaceTerminators.induct with
  | case1 t hcut =>
    rw [replaceTerminators_of_no_terminator (Text.cutAt?_eq_none_iff.mp hcut)] at h
    exact .inl h
  | case2 t before after hcut ih =>
    have ht := Text.eq_append_of_cutAt? hcut
    rw [replaceTerminators_of_cutAt? hcut, List.mem_append, List.mem_append] at h
    rcases h with (hbefore | hnew) | hafter
    · exact .inl (ht ▸ List.mem_append_left _ hbefore)
    · exact .inr hnew
    · refine (ih hafter).imp_left fun hu => ?_
      rw [ht]
      exact List.mem_append_right _ (List.mem_append_right _ hu)

lemma length_le_replaceTerminators (hnew : terminator.length ≤ new.length) (t : Text) :
    t.length ≤ (replaceTerminators new t).length := by
  induction t using replaceTerminators.induct with
  | case1 t hcut =>
    rw [replaceTerminators_of_no_terminator (Text.cutAt?_eq_none_iff.mp hcut)]
  | case2 t before after hcut ih =>
    have ht := congrArg List.length (Text.eq_append_of_cutAt? hcut)
    rw [replaceTerminators_of_cutAt? hcut]
    simp only [List.length_append] at ht ⊢
    omega

/-- A replacement longer than a terminator shows in the length. -/
lemma replaceTerminators_ne_self (hnew : terminator.length < new.length)
    (h : terminator <:+: t) : replaceTerminators new t ≠ t := by
  intro hself
  cases hcut : Text.cutAt? terminator t with
  | none => exact Text.cutAt?_eq_none_iff.mp hcut h
  | some p =>
    have ht := congrArg List.length (Text.eq_append_of_cutAt? hcut)
    have hafter := length_le_replaceTerminators hnew.le p.2
    have hlength := congrArg List.length hself
    rw [replaceTerminators_of_cutAt? hcut] at hlength
    simp only [List.length_append] at ht hlength
    omega

/-- Encoding leaves only texts alone in which there is nothing to do. -/
lemma forall_allowed_of_encode (h : (pieces .encode t).flatten = t) :
    (∀ u ∈ t, isForbidden u = false) ∧ ¬ terminator <:+: t := by
  have hsplit : ∀ u ∈ splitTerminator, isForbidden u = false :=
    List.all_iff_forall_prop.mp (by decide)
  rw [flatten_pieces_encode] at h
  have hunits : ∀ u ∈ t, isForbidden u = false := by
    intro u hu
    rw [← h] at hu
    rcases mem_replaceTerminators hu with hu | hu
    · exact (mem_allowed.mp hu).2
    · exact hsplit u hu
  rw [allowed_eq_self hunits] at h
  exact ⟨hunits, fun hterm => replaceTerminators_ne_self (by decide) hterm h⟩

end InertText.Cdata
