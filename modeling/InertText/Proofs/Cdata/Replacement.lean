import InertText.Proofs.Cdata.Section

/-!
# Encoding as search and replace

Two terminators cannot overlap. So a text is divided at its terminators, and there
are as many of them as places where one begins. Encoding divides the allowed text
and joins its parts with the replacement instead, which makes the text longer by the
same number of units for each terminator.
-/
namespace InertText.Cdata

/-- The number of places in a text where a terminator begins. -/
def occurrences : Text → ℕ
  | [] => 0
  | u :: t => (if terminator <+: u :: t then 1 else 0) + occurrences t

/-- A text as the parts between its terminators. -/
structure Division (t : Text) where
  first : Text
  others : List Text
  free : ∀ part ∈ first :: others, ¬ terminator <:+: part
  join_eq : Text.join terminator (first :: others) = t

/-- The parts with another text between them. -/
def Division.joined {t : Text} (d : Division t) (new : Text) : Text :=
  Text.join new (d.first :: d.others)

variable {t before : Text} {first : Text} {others : List Text}

lemma occurrences_of_no_terminator (h : ¬ terminator <:+: t) : occurrences t = 0 := by
  induction t with
  | nil => rfl
  | cons u t ih =>
    rw [List.infix_cons_iff, not_or] at h
    rw [occurrences, if_neg h.1, ih h.2]

/-- The last units of a text without terminators cannot begin one that is put there,
nor can the units of that terminator begin another. -/
lemma occurrences_append_terminator (h : ¬ terminator <:+: before) (after : Text) :
    occurrences (before ++ (terminator ++ after)) = occurrences after + 1 := by
  induction before with
  | nil =>
    have hhead : terminator <+: bracket :: bracket :: closing :: after := ⟨after, rfl⟩
    have hsecond : ¬ terminator <+: bracket :: closing :: after := by
      intro hp
      exact bracket_ne_closing (List.cons_prefix_cons.mp (List.cons_prefix_cons.mp hp).2).1
    have hthird : ¬ terminator <+: closing :: after := by
      intro hp
      exact bracket_ne_closing (List.cons_prefix_cons.mp hp).1
    show occurrences (bracket :: bracket :: closing :: after) = _
    rw [occurrences, occurrences, occurrences, if_pos hhead, if_neg hsecond, if_neg hthird]
    omega
  | cons u before ih =>
    have hcut := cutAt?_append_terminator h after
    rw [List.infix_cons_iff, not_or] at h
    have hp : ¬ terminator <+: u :: (before ++ (terminator ++ after)) := by
      rintro ⟨rest, hrest⟩
      rw [List.cons_append, ← hrest, Text.cutAt?_mark_append] at hcut
      exact List.cons_ne_nil u before (Prod.mk.inj (Option.some.inj hcut)).1.symm
    rw [List.cons_append, occurrences, if_neg hp, ih h.2, Nat.zero_add]

/-- Where no part holds a terminator, those between the parts are all there are. -/
lemma occurrences_join (h : ∀ part ∈ first :: others, ¬ terminator <:+: part) :
    occurrences (Text.join terminator (first :: others)) = others.length := by
  induction others generalizing first with
  | nil =>
    have hfirst := h first List.mem_cons_self
    rw [Text.join_singleton, occurrences_of_no_terminator hfirst, List.length_nil]
  | cons part others ih =>
    obtain ⟨hfirst, hothers⟩ := List.forall_mem_cons.mp h
    rw [Text.join_cons_cons, occurrences_append_terminator hfirst, ih hothers, List.length_cons]

lemma replaceTerminators_join (h : ∀ part ∈ first :: others, ¬ terminator <:+: part) (new : Text) :
    replaceTerminators new (Text.join terminator (first :: others)) =
      Text.join new (first :: others) := by
  induction others generalizing first with
  | nil =>
    have hfirst := h first List.mem_cons_self
    rw [Text.join_singleton, Text.join_singleton, replaceTerminators_of_no_terminator hfirst]
  | cons part others ih =>
    obtain ⟨hfirst, hothers⟩ := List.forall_mem_cons.mp h
    rw [Text.join_cons_cons, Text.join_cons_cons, replaceTerminators_append_terminator hfirst,
      ih hothers, List.append_assoc]

namespace Division

lemma replaceTerminators_eq (d : Division t) (new : Text) :
    replaceTerminators new t = d.joined new := by
  have hjoin := replaceTerminators_join d.free new
  rwa [d.join_eq] at hjoin

lemma length_others (d : Division t) : d.others.length = occurrences t := by
  have hjoin := occurrences_join d.free
  rw [d.join_eq] at hjoin
  exact hjoin.symm

/-- The part before the first terminator goes in front of the parts behind it. -/
def cons (first : Text) (hfirst : ¬ terminator <:+: first) {after : Text} (d : Division after) :
    Division (first ++ (terminator ++ after)) where
  first := first
  others := d.first :: d.others
  free := List.forall_mem_cons.mpr ⟨hfirst, d.free⟩
  join_eq := by rw [Text.join_cons_cons, d.join_eq]

/-- Every text can be divided. -/
lemma exists_of_text (t : Text) : Nonempty (Division t) := by
  induction hn : t.length using Nat.strong_induction_on generalizing t with
  | _ n ih =>
    cases hcut : Text.cutAt? terminator t with
    | none =>
      have ht := Text.cutAt?_eq_none_iff.mp hcut
      exact ⟨t, [], List.forall_mem_singleton.mpr ht, Text.join_singleton _ _⟩
    | some p =>
      obtain ⟨before, after⟩ := p
      have hbefore := Text.not_infix_of_cutAt? terminator_ne_nil hcut
      have hlt := Text.length_lt_of_cutAt? terminator_ne_nil hcut
      obtain ⟨d⟩ := ih after.length (hn ▸ hlt) after rfl
      rw [Text.eq_append_of_cutAt? hcut]
      exact ⟨d.cons before hbefore⟩

end Division

/-- Each terminator is three units, and each replacement as long as it is. -/
lemma length_replaceTerminators (new t : Text) :
    (replaceTerminators new t).length + terminator.length * occurrences t =
      t.length + new.length * occurrences t := by
  obtain ⟨d⟩ := Division.exists_of_text t
  have hold := Text.length_join terminator d.first d.others
  have hnew := Text.length_join new d.first d.others
  rw [d.join_eq, d.length_others] at hold
  rw [d.length_others] at hnew
  rw [d.replaceTerminators_eq, Division.joined, hnew, hold]
  omega

lemma length_pieces_encode (t : Text) :
    (pieces .encode t).flatten.length = (allowed t).length + 12 * occurrences (allowed t) := by
  have hlength := length_replaceTerminators splitTerminator (allowed t)
  have hold : terminator.length = 3 := rfl
  have hnew : splitTerminator.length = 15 := rfl
  rw [hold, hnew] at hlength
  rw [flatten_pieces_encode]
  omega

/-- The scan for encoding replaces the terminators of the allowed text and nothing
else. There is a way to divide that text at its terminators, and in whichever way it
is done, the parts with the replacement between them are the output, which has twelve
units more for each place where a terminator begins. -/
theorem pieces_encode_replaces (t : Text) :
    (pieces .encode t).flatten = replaceTerminators splitTerminator (allowed t) ∧
    Nonempty (Division (allowed t)) ∧
    (∀ d : Division (allowed t), (pieces .encode t).flatten = d.joined splitTerminator ∧
      d.others.length = occurrences (allowed t)) ∧
    (pieces .encode t).flatten.length = (allowed t).length + 12 * occurrences (allowed t) := by
  refine ⟨flatten_pieces_encode t, Division.exists_of_text _, ?_, length_pieces_encode t⟩
  intro d
  rw [flatten_pieces_encode]
  exact ⟨d.replaceTerminators_eq splitTerminator, d.length_others⟩

/-- Of a run of three brackets, with a control in it, the last two end the section. -/
example : (pieces .encode (units "]]" ++ 0x01 :: units "]>>")).flatten =
    units "]]]>]]<![CDATA[>>" := by
  decide

end InertText.Cdata
