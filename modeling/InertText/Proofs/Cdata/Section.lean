import InertText.Proofs.Context.Output
import InertText.Proofs.Cdata.Scan

/-!
# Sections in element content

Element content is character data and sections in any order. A section ends at
the first terminator after its opening, and character data holds neither markup
nor a terminator. The encoded text between an opening and a terminator is read
as such content, and what is read is the allowed text: every terminator of it is
spread over the end of one section, the data between, and the next section.
-/
namespace InertText.Cdata

/-- The text with another one in the place of every terminator, from the left. -/
def replaceTerminators (new t : Text) : Text :=
  match _h : Text.cutAt? terminator t with
  | none => t
  | some (before, after) => before ++ new ++ replaceTerminators new after
termination_by t.length
decreasing_by exact Text.length_lt_of_cutAt? terminator_ne_nil (by assumption)

lemma replaceTerminators_of_no_terminator {new t : Text} (h : ¬ terminator <:+: t) :
    replaceTerminators new t = t := by
  have hcut := Text.cutAt?_eq_none_iff.mpr h
  rw [replaceTerminators]
  split
  · rfl
  · simp_all

lemma replaceTerminators_of_cutAt? {new t before after : Text}
    (h : Text.cutAt? terminator t = some (before, after)) :
    replaceTerminators new t = before ++ new ++ replaceTerminators new after := by
  rw [replaceTerminators]
  split <;> simp_all

lemma replaceTerminators_cons {new t : Text} {u : CodeUnit} (h : ¬ terminator <+: u :: t) :
    replaceTerminators new (u :: t) = u :: replaceTerminators new t := by
  have hcut := Text.cutAt?_cons h
  cases ht : Text.cutAt? terminator t with
  | none =>
    rw [ht, Option.map_none] at hcut
    rw [replaceTerminators_of_no_terminator (Text.cutAt?_eq_none_iff.mp hcut),
      replaceTerminators_of_no_terminator (Text.cutAt?_eq_none_iff.mp ht)]
  | some p =>
    rw [ht, Option.map_some] at hcut
    rw [replaceTerminators_of_cutAt? hcut, replaceTerminators_of_cutAt? ht]
    rfl

/-- The first terminator after a text without any is the one that was put there:
the last units of the text cannot be part of an earlier one. -/
lemma cutAt?_append_terminator {before : Text} (h : ¬ terminator <:+: before) (after : Text) :
    Text.cutAt? terminator (before ++ (terminator ++ after)) = some (before, after) := by
  induction before with
  | nil => exact Text.cutAt?_mark_append terminator after
  | cons u t ih =>
    rw [List.infix_cons_iff, not_or] at h
    have hp : ¬ terminator <+: u :: (t ++ (terminator ++ after)) := by
      intro hp
      match t with
      | [] => exact bracket_ne_closing (terminator_prefix_iff.mp hp).2.2.symm
      | [v] => exact bracket_ne_closing (terminator_prefix_iff.mp hp).2.2.symm
      | v :: w :: t => exact h.1 (terminator_prefix_iff.mpr (terminator_prefix_iff.mp hp))
    rw [List.cons_append, Text.cutAt?_cons hp, ih h.2]
    rfl

lemma replaceTerminators_append_terminator {new before : Text} (h : ¬ terminator <:+: before)
    (after : Text) : replaceTerminators new (before ++ (terminator ++ after)) =
      before ++ new ++ replaceTerminators new after :=
  replaceTerminators_of_cutAt? (cutAt?_append_terminator h after)

lemma replaceTerminators_brackets_append {new t : Text} {u : CodeUnit} {n : ℕ}
    (hu : u ≠ bracket) (hn : ¬ (u = closing ∧ 2 ≤ n)) :
    replaceTerminators new (brackets n ++ u :: t) = brackets n ++ u :: replaceTerminators new t := by
  induction n with
  | zero => exact replaceTerminators_cons (not_prefix_brackets_append hu hn)
  | succ n ih =>
    have hp := not_prefix_brackets_append (t := t) hu hn
    rw [brackets_succ, List.cons_append] at hp ⊢
    rw [replaceTerminators_cons hp, ih fun h => hn ⟨h.1, by omega⟩, List.cons_append]

/-- Whatever state the encoding scan is in, it goes on like a replacement of the
terminators of the text to come, with the pending brackets before it. -/
lemma flatten_foldl_next_encode {t : Text} (ht : ∀ u ∈ t, isForbidden u = false) (s : Scan) :
    (t.foldl (Scan.next .encode) s).finish.flatten =
      s.settled ++ replaceTerminators splitTerminator (brackets s.pending ++ t) := by
  induction t generalizing s with
  | nil =>
    rw [List.foldl_nil, Scan.flatten_finish, List.append_nil,
      replaceTerminators_of_no_terminator (not_infix_brackets _)]
  | cons u t ih =>
    have hu := ht u List.mem_cons_self
    have htail := fun v hv => ht v (List.mem_cons_of_mem u hv)
    rw [List.foldl_cons, ih htail]
    by_cases hb : u = bracket
    · subst hb
      rw [Scan.next_bracket, brackets_succ_append]
      rfl
    by_cases hc : u = closing ∧ 2 ≤ s.pending
    · obtain ⟨rfl, hp⟩ := hc
      obtain ⟨n, hn⟩ := Nat.exists_eq_add_of_le' hp
      rw [Scan.next_encode_closing hp, Scan.settled_push, hn, brackets_add_two_append,
        replaceTerminators_append_terminator (not_infix_brackets n)]
      simp [Scan.settled]
    · rw [Scan.next_of_ne_bracket hb hu hc, Scan.settled_push,
        replaceTerminators_brackets_append hb hc]
      simp [Scan.settled]

theorem flatten_pieces_encode (t : Text) :
    (pieces .encode t).flatten = replaceTerminators splitTerminator (allowed t) := by
  rw [← pieces_allowed, pieces, flatten_foldl_next_encode fun u hu => (mem_allowed.mp hu).2]
  rfl

def sectionOpening : Text := units "<![CDATA["

/-- The content of the section that a text begins with, and what follows it. -/
def section? (t : Text) : Option (Text × Text) :=
  (Text.dropPrefix? sectionOpening t).bind (Text.cutAt? terminator)

lemma length_lt_of_section? {t content rest : Text} (h : section? t = some (content, rest)) :
    rest.length < t.length := by
  obtain ⟨inner, hinner, hcut⟩ := Option.bind_eq_some_iff.mp h
  have hlt := Text.length_lt_of_cutAt? terminator_ne_nil hcut
  rw [Text.dropPrefix?_eq_some_iff.mp hinner, List.length_append]
  omega

/-- What a text says as element content: the contents of its sections and the
character data between them. Text that is no such content says nothing: it holds
markup or a terminator in its character data, or a section that never ends. -/
def readContent? (t : Text) : Option Text :=
  match _h : section? t with
  | some (content, rest) => (readContent? rest).map (content ++ ·)
  | none =>
    match t with
    | [] => some []
    | u :: rest =>
      if u = unit '<' ∨ u = unit '&' ∨ terminator <+: u :: rest then none
      else (readContent? rest).map (u :: ·)
termination_by t.length
decreasing_by
  · exact length_lt_of_section? (by assumption)
  · simp

lemma readContent?_section {content : Text} (h : ¬ terminator <:+: content) (rest : Text) :
    readContent? (sectionOpening ++ (content ++ (terminator ++ rest))) =
      (readContent? rest).map (content ++ ·) := by
  have hs : section? (sectionOpening ++ (content ++ (terminator ++ rest))) = some (content, rest) := by
    rw [section?, Text.dropPrefix?_append, Option.bind_some, cutAt?_append_terminator h]
  rw [readContent?]
  split <;> simp_all

lemma readContent?_nil : readContent? [] = some [] := by
  rw [readContent?]
  rfl

lemma readContent?_cons {u : CodeUnit} {t : Text} (hl : u ≠ unit '<') (ha : u ≠ unit '&')
    (ht : ¬ terminator <+: u :: t) :
    readContent? (u :: t) = (readContent? t).map (u :: ·) := by
  have hs : section? (u :: t) = none := by
    rw [section?, Option.bind_eq_none_iff]
    intro rest hrest
    obtain ⟨hunit, -⟩ := List.cons_eq_cons.mp (Text.dropPrefix?_eq_some_iff.mp hrest)
    exact absurd hunit hl
  rw [readContent?]
  split <;> simp_all

lemma splitTerminator_append (t : Text) :
    splitTerminator ++ t = terminator ++ (brackets 2 ++ (sectionOpening ++ ([closing] ++ t))) := rfl

lemma readContent?_brackets_append (n : ℕ) (t : Text) :
    readContent? (brackets n ++ (sectionOpening ++ t)) =
      (readContent? (sectionOpening ++ t)).map (brackets n ++ ·) := by
  induction n with
  | zero => simp
  | succ n ih =>
    have hp : ¬ terminator <+: bracket :: (brackets n ++ (sectionOpening ++ t)) :=
      not_prefix_brackets_append (u := unit '<') (n := n + 1) (by decide) fun h => by
        exact absurd h.1 (by decide)
    rw [brackets_succ, List.cons_append, readContent?_cons (by decide) (by decide) hp, ih,
      Option.map_map]
    rfl

lemma not_infix_append_of_not_mem {before t : Text} (hb : bracket ∉ before)
    (ht : ¬ terminator <:+: t) : ¬ terminator <:+: before ++ t := by
  induction before with
  | nil => exact ht
  | cons u before ih =>
    rw [List.mem_cons, not_or] at hb
    rw [List.cons_append, List.infix_cons_iff, not_or]
    exact ⟨fun hp => hb.1 (List.cons_prefix_cons.mp hp).1, ih hb.2⟩

/-- The induction goes from one terminator of the text to the next. Behind each of
them a section is open again, and its content begins with the last unit of the
terminator, so the statement leaves room for units at the front. -/
lemma readContent?_replaceTerminators {before : Text} (hb : bracket ∉ before) (t : Text) :
    readContent? (sectionOpening ++
      (before ++ (replaceTerminators splitTerminator t ++ terminator))) = some (before ++ t) := by
  induction hn : t.length using Nat.strong_induction_on generalizing t before with
  | _ n ih =>
    cases hcut : Text.cutAt? terminator t with
    | none =>
      have ht := Text.cutAt?_eq_none_iff.mp hcut
      have hread := readContent?_section (not_infix_append_of_not_mem hb ht) []
      rw [readContent?_nil, Option.map_some, List.append_nil, List.append_nil,
        List.append_assoc] at hread
      rw [replaceTerminators_of_no_terminator ht, hread]
    | some p =>
      obtain ⟨head, tail⟩ := p
      have ht := Text.eq_append_of_cutAt? hcut
      have hhead := Text.not_infix_of_cutAt? terminator_ne_nil hcut
      have hlt := Text.length_lt_of_cutAt? terminator_ne_nil hcut
      have htail : readContent? (sectionOpening ++
          ([closing] ++ (replaceTerminators splitTerminator tail ++ terminator))) =
            some ([closing] ++ tail) := ih tail.length (hn ▸ hlt) (by decide) tail rfl
      have hread := readContent?_section (not_infix_append_of_not_mem hb hhead)
        (brackets 2 ++ (sectionOpening ++
          ([closing] ++ (replaceTerminators splitTerminator tail ++ terminator))))
      rw [readContent?_brackets_append, htail] at hread
      rw [replaceTerminators_of_cutAt? hcut]
      simp only [List.append_assoc, splitTerminator_append] at hread ⊢
      rw [hread, ht]
      rfl

/-- The encoded text of a section, with the section's opening before it and its
terminator behind it, is read to the end and says exactly the allowed text. -/
theorem readContent?_output_encode (t : Text) :
    readContent? (sectionOpening ++
      (Context.cdataContent.output .encode t ++ terminator)) = some (allowed t) := by
  rw [Context.output_cdataContent, flatten_pieces_encode]
  exact readContent?_replaceTerminators List.not_mem_nil (allowed t)

end InertText.Cdata
