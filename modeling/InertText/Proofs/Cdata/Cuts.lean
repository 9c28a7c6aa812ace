import InertText.Proofs.Cdata.Filtering
import InertText.Proofs.Cdata.Replacement

/-!
# Content that comes in parts

A text may be filtered part by part, and the result once more: what is deleted early
would have been deleted in any case. Encoding looks for terminators only, so encoding
the parts differs from encoding the whole exactly when a terminator of the allowed
text begins in one part and ends in the next. Then the whole has a replacement more.
-/
namespace InertText.Cdata

variable {x y new : Text} {u : CodeUnit}

/-- What is deleted early makes no difference to the scan, in whatever state it is. -/
lemma foldl_next_of_deletions {t r : Text} (h : Relation.ReflTransGen Deletes t r) (s : Scan) :
    r.foldl (Scan.next .filter) s = t.foldl (Scan.next .filter) s := by
  induction h with
  | refl => rfl
  | tail _ hstep ih => rw [← hstep.foldl_next_eq, ih]

lemma foldl_next_flatten_pieces (t : Text) (s : Scan) :
    (pieces .filter t).flatten.foldl (Scan.next .filter) s = t.foldl (Scan.next .filter) s := by
  rw [foldl_next_of_deletions (deletions_flatten_pieces t).1, Scan.foldl_next_allowed]

lemma foldl_next_flatten_map (parts : List Text) (s : Scan) :
    (parts.map fun part => (pieces .filter part).flatten).flatten.foldl (Scan.next .filter) s =
      parts.flatten.foldl (Scan.next .filter) s := by
  induction parts generalizing s with
  | nil => rfl
  | cons part parts ih =>
    rw [List.map_cons, List.flatten_cons, List.flatten_cons, List.foldl_append, List.foldl_append,
      foldl_next_flatten_pieces, ih]

/-- A terminator lies across the cut between two texts: it begins in the first and
ends in the second. -/
def Across (x y : Text) : Prop :=
  ∃ before after, x ++ y = before ++ (terminator ++ after) ∧
    before.length < x.length ∧ x.length < before.length + terminator.length

lemma not_across_nil (y : Text) : ¬ Across [] y := by
  rintro ⟨before, after, -, hlt, -⟩
  exact absurd hlt (Nat.not_lt_zero _)

/-- A terminator that lies across a cut begins at once, and then the first text is too
short for it, or further on. -/
lemma across_cons :
    Across (u :: x) y ↔
      (terminator <+: u :: (x ++ y) ∧ ¬ terminator <+: u :: x) ∨ Across x y := by
  constructor
  · rintro ⟨before, after, he, hlt, hgt⟩
    cases before with
    | nil =>
      refine .inl ⟨⟨after, he.symm⟩, fun hp => ?_⟩
      have hle := hp.length_le
      rw [List.length_nil, Nat.zero_add] at hgt
      omega
    | cons v before =>
      obtain ⟨-, hrest⟩ := List.cons.inj he
      rw [List.length_cons, List.length_cons] at hlt hgt
      exact .inr ⟨before, after, hrest, by omega, by omega⟩
  · rintro (⟨⟨after, he⟩, hnot⟩ | ⟨before, after, he, hlt, hgt⟩)
    · refine ⟨[], after, he.symm, Nat.succ_pos _, ?_⟩
      by_contra hge
      rw [List.length_nil, Nat.zero_add] at hge
      have hshort : u :: x <+: u :: (x ++ y) := List.prefix_append (u :: x) y
      exact hnot (List.prefix_of_prefix_length_le ⟨after, he⟩ hshort (by omega))
    · refine ⟨u :: before, after, by rw [List.cons_append, he, List.cons_append], ?_, ?_⟩
      · rw [List.length_cons, List.length_cons]
        omega
      · rw [List.length_cons, List.length_cons]
        omega

lemma Across.append_left (h : Across x y) (front : Text) : Across (front ++ x) y := by
  induction front with
  | nil => exact h
  | cons u front ih => exact across_cons.mpr (.inr ih)

/-- Of the places in a text where a terminator begins only those at the cut are places
in neither part. -/
lemma occurrences_append (x y : Text) :
    occurrences x + occurrences y ≤ occurrences (x ++ y) ∧
    (occurrences (x ++ y) = occurrences x + occurrences y ↔ ¬ Across x y) := by
  induction x with
  | nil => simp [occurrences, not_across_nil]
  | cons u x ih =>
    obtain ⟨hle, hiff⟩ := ih
    have hmono : terminator <+: u :: x → terminator <+: u :: (x ++ y) :=
      fun hp => hp.trans (List.prefix_append (u :: x) y)
    rw [across_cons, not_or, ← hiff, List.cons_append, occurrences, occurrences]
    by_cases hwhole : terminator <+: u :: (x ++ y)
    · by_cases hpart : terminator <+: u :: x
      · simp only [hwhole, hpart, if_true, not_true, and_false, not_false_iff, true_and]
        omega
      · simp only [hwhole, hpart, if_true, if_false, not_false_iff, and_true, not_true, false_and,
          iff_false]
        omega
    · have hpart : ¬ terminator <+: u :: x := fun hp => hwhole (hmono hp)
      simp only [hwhole, hpart, if_false, false_and, not_false_iff, true_and]
      omega

lemma replaceTerminators_append_of_free (hx : ¬ terminator <:+: x) (h : ¬ Across x y) :
    replaceTerminators new (x ++ y) = x ++ replaceTerminators new y := by
  induction x with
  | nil => rfl
  | cons u x ih =>
    rw [List.infix_cons_iff, not_or] at hx
    rw [across_cons, not_or] at h
    have hp : ¬ terminator <+: u :: (x ++ y) := fun hp => h.1 ⟨hp, hx.1⟩
    rw [List.cons_append, replaceTerminators_cons hp, ih hx.2 h.2, List.cons_append]

/-- Where no terminator lies across the cut, both parts are searched on their own. -/
lemma replaceTerminators_append (h : ¬ Across x y) :
    replaceTerminators new (x ++ y) = replaceTerminators new x ++ replaceTerminators new y := by
  induction hn : x.length using Nat.strong_induction_on generalizing x with
  | _ n ih =>
    cases hcut : Text.cutAt? terminator x with
    | none =>
      have hx := Text.cutAt?_eq_none_iff.mp hcut
      rw [replaceTerminators_append_of_free hx h, replaceTerminators_of_no_terminator hx]
    | some p =>
      obtain ⟨before, after⟩ := p
      have hx := Text.eq_append_of_cutAt? hcut
      have hbefore := Text.not_infix_of_cutAt? terminator_ne_nil hcut
      have hlt := Text.length_lt_of_cutAt? terminator_ne_nil hcut
      have hafter : ¬ Across after y := by
        intro hacross
        rw [hx, ← List.append_assoc] at h
        exact h (hacross.append_left (before ++ terminator))
      have hwhole : x ++ y = before ++ (terminator ++ (after ++ y)) := by
        rw [hx, List.append_assoc, List.append_assoc]
      have hrest := ih after.length (hn ▸ hlt) hafter rfl
      calc replaceTerminators new (x ++ y)
          = before ++ new ++ replaceTerminators new (after ++ y) := by
            rw [hwhole, replaceTerminators_append_terminator hbefore]
        _ = before ++ new ++ replaceTerminators new after ++ replaceTerminators new y := by
            rw [hrest, List.append_assoc _ (replaceTerminators new after)]
        _ = replaceTerminators new x ++ replaceTerminators new y := by
            rw [replaceTerminators_of_cutAt? hcut]

lemma allowed_append (a b : Text) : allowed (a ++ b) = allowed a ++ allowed b :=
  List.filter_append a b

lemma pieces_encode_append_iff (a b : Text) :
    (pieces .encode (a ++ b)).flatten = (pieces .encode a).flatten ++ (pieces .encode b).flatten ↔
      ¬ Across (allowed a) (allowed b) := by
  constructor
  · intro h
    have hlength := congrArg List.length h
    rw [List.length_append, length_pieces_encode, length_pieces_encode, length_pieces_encode,
      allowed_append, List.length_append] at hlength
    exact (occurrences_append (allowed a) (allowed b)).2.mp (by omega)
  · intro h
    rw [flatten_pieces_encode, flatten_pieces_encode, flatten_pieces_encode, allowed_append,
      replaceTerminators_append h]

/-- Filtering parts and then what they make together is filtering the whole. Encoding
two parts is encoding the whole if and only if no terminator of the allowed text lies
across the cut. -/
theorem output_of_parts :
    (∀ parts : List Text,
      Context.cdataContent.output .filter
          (parts.map (Context.cdataContent.output .filter)).flatten =
        Context.cdataContent.output .filter parts.flatten) ∧
    ∀ a b : Text,
      Context.cdataContent.output .encode (a ++ b) =
          Context.cdataContent.output .encode a ++ Context.cdataContent.output .encode b ↔
        ¬ Across (allowed a) (allowed b) := by
  constructor
  · intro parts
    have hscan := foldl_next_flatten_map parts Scan.start
    exact congrArg (fun s : Scan => s.finish.flatten) hscan
  · intro a b
    exact pieces_encode_append_iff a b

/-- A control in front of the cut does not keep a terminator from lying across it. -/
example : Across (allowed (units "]]" ++ [0x01])) (allowed (units ">")) :=
  ⟨[], [], rfl, by decide, by decide⟩

end InertText.Cdata
