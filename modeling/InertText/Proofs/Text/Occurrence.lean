import InertText.Text.Parts
import Mathlib.Data.List.Infix
import Mathlib.Tactic.Common

/-!
# The first occurrence of a mark

A reader that looks for a mark takes the first one it meets. `cutAt?` takes a
text apart there; the lemmas say that nothing is lost, that the mark does not
stand earlier, and that a text without the mark is not taken apart at all.
-/
namespace InertText.Text

@[simp] theorem dropPrefix?_append (opening t : Text) :
    dropPrefix? opening (opening ++ t) = some t :=
  dropPrefix?_eq_some_iff.mpr rfl

theorem dropPrefix?_eq_none_iff {opening t : Text} :
    dropPrefix? opening t = none ↔ ¬ opening <+: t := by
  rw [Option.eq_none_iff_forall_ne_some]
  constructor
  · rintro h ⟨rest, rfl⟩
    exact h rest (dropPrefix?_append opening rest)
  · intro h rest hrest
    exact h ⟨rest, (dropPrefix?_eq_some_iff.mp hrest).symm⟩

/-- What stands before the first occurrence of a mark and what follows it. -/
def cutAt? (mark : Text) : Text → Option (Text × Text)
  | [] => (dropPrefix? mark []).map fun after => ([], after)
  | u :: t =>
    match dropPrefix? mark (u :: t) with
    | some after => some ([], after)
    | none => (cutAt? mark t).map fun (before, after) => (u :: before, after)

@[simp] theorem cutAt?_mark_append (mark t : Text) : cutAt? mark (mark ++ t) = some ([], t) := by
  cases h : mark ++ t with
  | nil =>
    obtain ⟨rfl, rfl⟩ := List.append_eq_nil_iff.mp h
    rfl
  | cons u rest => rw [cutAt?, ← h, dropPrefix?_append]

theorem cutAt?_cons {mark t : Text} {u : CodeUnit} (h : ¬ mark <+: u :: t) :
    cutAt? mark (u :: t) = (cutAt? mark t).map fun p => (u :: p.1, p.2) := by
  rw [cutAt?, dropPrefix?_eq_none_iff.mpr h]

/-- Where the first unit of a mark does not occur, the mark does not begin. -/
theorem cutAt?_append {u : CodeUnit} {mark before : Text} (h : u ∉ before) (after : Text) :
    cutAt? (u :: mark) (before ++ (u :: mark ++ after)) = some (before, after) := by
  induction before with
  | nil => exact cutAt?_mark_append (u :: mark) after
  | cons v before ih =>
    rw [List.mem_cons, not_or] at h
    obtain ⟨hv, hbefore⟩ := h
    have hprefix : ¬ u :: mark <+: v :: (before ++ (u :: mark ++ after)) :=
      fun hp => hv (List.cons_prefix_cons.mp hp).1
    rw [List.cons_append, cutAt?_cons hprefix, ih hbefore]
    rfl

theorem cutAt?_singleton {u : CodeUnit} {before : Text} (h : u ∉ before) (after : Text) :
    cutAt? [u] (before ++ u :: after) = some (before, after) :=
  cutAt?_append h after

/-- Nothing is lost where a text is cut. -/
theorem eq_append_of_cutAt? {mark t before after : Text}
    (h : cutAt? mark t = some (before, after)) : t = before ++ (mark ++ after) := by
  induction t generalizing before with
  | nil =>
    obtain ⟨rest, hrest, he⟩ := Option.map_eq_some_iff.mp h
    obtain ⟨rfl, rfl⟩ := Prod.mk.inj he
    have ht := dropPrefix?_eq_some_iff.mp hrest
    simpa using ht
  | cons u t ih =>
    by_cases hp : mark <+: u :: t
    · obtain ⟨rest, hrest⟩ := hp
      rw [← hrest, cutAt?_mark_append] at h
      obtain ⟨rfl, rfl⟩ := Prod.mk.inj (Option.some.inj h)
      exact hrest.symm
    · rw [cutAt?_cons hp] at h
      obtain ⟨⟨b, a⟩, hcut, he⟩ := Option.map_eq_some_iff.mp h
      obtain ⟨rfl, rfl⟩ := Prod.mk.inj he
      rw [ih hcut, List.cons_append]

theorem cutAt?_eq_none_iff {mark t : Text} : cutAt? mark t = none ↔ ¬ mark <:+: t := by
  induction t with
  | nil =>
    rw [cutAt?, Option.map_eq_none_iff, dropPrefix?_eq_none_iff, List.prefix_nil, List.infix_nil]
  | cons u t ih =>
    rw [List.infix_cons_iff, not_or, ← ih]
    by_cases hp : mark <+: u :: t
    · obtain ⟨rest, hrest⟩ := hp
      simp [← hrest]
    · rw [cutAt?_cons hp, Option.map_eq_none_iff]
      constructor
      · intro h
        exact ⟨hp, h⟩
      · exact And.right

/-- The mark does not stand before the place where a text is cut. -/
theorem not_infix_of_cutAt? {mark t before after : Text} (hm : mark ≠ [])
    (h : cutAt? mark t = some (before, after)) : ¬ mark <:+: before := by
  induction t generalizing before with
  | nil =>
    obtain ⟨rest, _, he⟩ := Option.map_eq_some_iff.mp h
    obtain ⟨rfl, rfl⟩ := Prod.mk.inj he
    simpa using hm
  | cons u t ih =>
    by_cases hp : mark <+: u :: t
    · obtain ⟨rest, hrest⟩ := hp
      rw [← hrest, cutAt?_mark_append] at h
      obtain ⟨rfl, rfl⟩ := Prod.mk.inj (Option.some.inj h)
      simpa using hm
    · have ht := eq_append_of_cutAt? h
      rw [cutAt?_cons hp] at h
      obtain ⟨⟨b, a⟩, hcut, he⟩ := Option.map_eq_some_iff.mp h
      obtain ⟨rfl, rfl⟩ := Prod.mk.inj he
      rw [List.infix_cons_iff, not_or]
      refine ⟨fun hpre => hp ?_, ih hcut⟩
      rw [ht]
      exact hpre.trans (List.prefix_append _ _)

theorem length_lt_of_cutAt? {mark t before after : Text} (hm : mark ≠ [])
    (h : cutAt? mark t = some (before, after)) : after.length < t.length := by
  have hlen := congrArg List.length (eq_append_of_cutAt? h)
  have hpos := List.length_pos_iff.mpr hm
  simp only [List.length_append] at hlen
  omega

end InertText.Text
