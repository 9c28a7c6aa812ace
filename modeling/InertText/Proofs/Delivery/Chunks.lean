import InertText.Delivery.Call
import Mathlib.Data.List.Flatten
import Mathlib.Tactic.Common

/-!
# The chunks of a delivery

How pieces are gathered into chunks depends on the pieces alone. A group of pieces
is closed by the piece that brings it to the capacity, and what is left at the end
is a last group. A delivery calls the writer with the groups one after the other,
each as one chunk, until the first error.
-/
namespace InertText

namespace Writer

/-- Hand one chunk to a writer that may refuse it. -/
def take (w : Writer) (chunk : Text) : Option WriteError × Writer :=
  match w.refusal? with
  | some fault => (some (.refused fault), w)
  | none => ((w.write chunk).1.map .thrown, (w.write chunk).2)

/-- Hand over chunks in order until one of them brings an error to light. -/
def takeAll : Writer → List Text → Option WriteError × Writer
  | w, [] => (none, w)
  | w, chunk :: chunks =>
    match w.take chunk with
    | (none, w) => takeAll w chunks
    | (some e, w) => (some e, w)

lemma received_take {w w' : Writer} {chunk : Text} (h : w.take chunk = (none, w')) :
    w'.received = w.received ++ [chunk] := by
  unfold take at h
  split at h
  · simp at h
  · obtain ⟨-, rfl⟩ := Prod.mk.inj h
    rfl

/-- A writer that was called without an error has received every chunk. -/
lemma received_takeAll {w w' : Writer} {chunks : List Text} (h : w.takeAll chunks = (none, w')) :
    w'.received = w.received ++ chunks := by
  induction chunks generalizing w with
  | nil =>
    obtain ⟨-, rfl⟩ := Prod.mk.inj h
    simp
  | cons chunk chunks ih =>
    rw [takeAll] at h
    split at h
    · rename_i w₁ hw₁
      rw [ih h, received_take hw₁, List.append_assoc, List.singleton_append]
    · simp at h

lemma takeAll_append (w : Writer) (front back : List Text) :
    w.takeAll (front ++ back) =
      match w.takeAll front with
      | (none, w') => w'.takeAll back
      | (some e, w') => (some e, w') := by
  induction front generalizing w with
  | nil => rfl
  | cons chunk front ih =>
    rw [List.cons_append, takeAll, takeAll]
    split
    · exact ih _
    · rfl

lemma takeAll_singleton (w : Writer) (chunk : Text) : w.takeAll [chunk] = w.take chunk := by
  rw [takeAll]
  split <;> simp_all [takeAll]

/-- A writer that can be called and that takes whatever chunks come. -/
def NeverFails (w : Writer) : Prop := w.callable = true ∧ ∀ chunks, (w.takeAll chunks).1 = none

/-- Without a fault and without a plan to throw or to end there is nothing that
could fail. -/
lemma neverFails_of_no_plan {w : Writer} (hcallable : w.callable = true)
    (hrefusal : w.refusal? = none) (hthrowing : ∀ call, w.throwing call = none)
    (hend : w.endAfter = none) :
    w.NeverFails := by
  refine ⟨hcallable, fun chunks => ?_⟩
  clear hcallable
  induction chunks generalizing w with
  | nil => rfl
  | cons chunk chunks ih =>
    have htake : w.take chunk = (none, { w with received := w.received ++ [chunk] }) := by
      simp [take, hrefusal, write, hthrowing, hend]
    rw [takeAll, htake]
    exact ih hrefusal hthrowing hend

end Writer

namespace Batch

/-- The groups that a piece closed, and the pieces of the group that is still open. -/
def gather : List Text → List Text → List (List Text) × List Text
  | held, [] => ([], held)
  | held, piece :: pieces =>
    if capacity ≤ (held ++ [piece]).flatten.length then
      ((held ++ [piece]) :: (gather [] pieces).1, (gather [] pieces).2)
    else gather (held ++ [piece]) pieces

/-- A group that its last piece closed. -/
structure Closed (group : List Text) : Prop where
  full : capacity ≤ group.flatten.length
  open_before : group.dropLast.flatten.length < capacity

variable {held pieces : List Text}

lemma flatten_ne_nil {group : List Text} (h : capacity ≤ group.flatten.length) :
    group.flatten ≠ [] := by
  intro hnil
  rw [hnil] at h
  exact absurd h (by decide)

lemma flatten_gather (held pieces : List Text) :
    (gather held pieces).1.flatten ++ (gather held pieces).2 = held ++ pieces := by
  induction pieces generalizing held with
  | nil => simp [gather]
  | cons piece pieces ih =>
    rw [gather]
    split_ifs
    · simp [ih]
    · simp [ih]

lemma closed_of_mem_gather (hheld : held.flatten.length < capacity) (pieces : List Text) :
    ∀ group ∈ (gather held pieces).1, Closed group := by
  induction pieces generalizing held with
  | nil => simp [gather]
  | cons piece pieces ih =>
    rw [gather]
    split_ifs with hfull
    · intro group hgroup
      rcases List.mem_cons.mp hgroup with rfl | hgroup
      · exact ⟨hfull, by rwa [List.dropLast_concat]⟩
      · exact ih (by decide) group hgroup
    · exact ih (Nat.lt_of_not_le hfull)

lemma length_flatten_gather_lt (hheld : held.flatten.length < capacity) (pieces : List Text) :
    (gather held pieces).2.flatten.length < capacity := by
  induction pieces generalizing held with
  | nil => exact hheld
  | cons piece pieces ih =>
    rw [gather]
    split_ifs with hfull
    · exact ih (by decide)
    · exact ih (Nat.lt_of_not_le hfull)

/-- The open group goes on with the pieces that follow. -/
lemma gather_append (held front back : List Text) :
    gather held (front ++ back) =
      ((gather held front).1 ++ (gather (gather held front).2 back).1,
        (gather (gather held front).2 back).2) := by
  induction front generalizing held with
  | nil => rfl
  | cons piece front ih =>
    rw [List.cons_append, gather, gather]
    split_ifs
    · rw [ih]
      rfl
    · exact ih _

lemma gather_of_length_lt (h : (held ++ pieces).flatten.length < capacity) :
    gather held pieces = ([], held ++ pieces) := by
  induction pieces generalizing held with
  | nil => rw [gather, List.append_nil]
  | cons piece pieces ih =>
    have happend : held ++ piece :: pieces = held ++ [piece] ++ pieces := by simp
    have hopen : ¬ capacity ≤ (held ++ [piece]).flatten.length := by
      rw [happend, List.flatten_append, List.length_append] at h
      omega
    rw [gather, if_neg hopen, happend]
    exact ih (happend ▸ h)

/-- The piece that takes those before it to the capacity closes their group, and the pieces
behind it start anew. -/
lemma gather_of_fills {front : List Text} {last : Text} (hopen : front.flatten.length < capacity)
    (hfull : capacity ≤ (front ++ [last]).flatten.length) (back : List Text) :
    gather [] (front ++ last :: back) =
      ((front ++ [last]) :: (gather [] back).1, (gather [] back).2) := by
  have hfront : gather [] front = ([], front) := gather_of_length_lt hopen
  rw [gather_append, hfront, gather, if_pos hfull]
  rfl

/-- A division of pieces into groups of consecutive ones, one group for each chunk.
Every chunk holds some text and stays below the capacity until its last piece, and
all chunks but the last reach the capacity. -/
structure Grouping (pieces : List Text) where
  groups : List (List Text)
  rest : List Text
  flatten_append_rest : groups.flatten ++ rest = pieces
  /-- No text is left behind the last group. -/
  rest_empty : ∀ piece ∈ rest, piece = []
  nonempty : ∀ group ∈ groups, group.flatten ≠ []
  open_before_last : ∀ group ∈ groups, group.dropLast.flatten.length < 8192
  full : ∀ group ∈ groups.dropLast, 8192 ≤ group.flatten.length

/-- The chunks that a writer is called with, one for each group. -/
def Grouping.chunks (g : Grouping pieces) : List Text := g.groups.map List.flatten

/-- The division that a batch makes: the closed groups, and after them the open one
if it holds any text. -/
def grouping (pieces : List Text) : Grouping pieces :=
  have hempty : ([] : List Text).flatten.length < capacity := by decide
  have hclosed := closed_of_mem_gather hempty pieces
  have hflatten := flatten_gather [] pieces
  if h : (gather [] pieces).2.flatten = [] then {
    groups := (gather [] pieces).1
    rest := (gather [] pieces).2
    flatten_append_rest := hflatten
    rest_empty := List.flatten_eq_nil_iff.mp h
    nonempty := fun group hgroup => flatten_ne_nil (hclosed group hgroup).full
    open_before_last := fun group hgroup => (hclosed group hgroup).open_before
    full := fun group hgroup => (hclosed group (List.dropLast_subset _ hgroup)).full }
  else {
    groups := (gather [] pieces).1 ++ [(gather [] pieces).2]
    rest := []
    flatten_append_rest := by simpa using hflatten
    rest_empty := by simp
    nonempty := by
      intro group hgroup
      rcases List.mem_append.mp hgroup with hgroup | hgroup
      · exact flatten_ne_nil (hclosed group hgroup).full
      · rwa [List.mem_singleton.mp hgroup]
    open_before_last := by
      intro group hgroup
      rcases List.mem_append.mp hgroup with hgroup | hgroup
      · exact (hclosed group hgroup).open_before
      · rw [List.mem_singleton.mp hgroup]
        have hsublist := (List.dropLast_sublist (gather [] pieces).2).flatten
        exact Nat.lt_of_le_of_lt hsublist.length_le (length_flatten_gather_lt hempty pieces)
    full := by
      rw [List.dropLast_concat]
      exact fun group hgroup => (hclosed group hgroup).full }

lemma chunks_grouping (pieces : List Text) :
    (grouping pieces).chunks = (gather [] pieces).1.map List.flatten ++
      if (gather [] pieces).2.flatten = [] then [] else [(gather [] pieces).2.flatten] := by
  unfold grouping
  split_ifs <;> simp [Grouping.chunks]

/-- A batch that has gathered pieces without handing them over. -/
def holding (w : Writer) (held : List Text) : Batch := ⟨w, held.flatten.toArray⟩

lemma flush_holding (w : Writer) (held : List Text) :
    (holding w held).flush =
      if held.flatten = [] then (none, holding w held)
      else ((w.take held.flatten).1, start (w.take held.flatten).2) := by
  by_cases h : held.flatten = []
  · simp [flush, holding, h]
  · have hne : held.flatten.toArray.isEmpty = false := by simpa using h
    rw [flush, holding, hne, if_neg h, Writer.take]
    cases w.refusal? <;> rfl

lemma append_holding (w : Writer) (held : List Text) (piece : Text) :
    (holding w held).append piece =
      if capacity ≤ (held ++ [piece]).flatten.length then (holding w (held ++ [piece])).flush
      else (none, holding w (held ++ [piece])) := by
  have hgathered : held.flatten.toArray ++ piece = (held ++ [piece]).flatten.toArray := by
    rw [List.toArray_appendList, List.flatten_concat]
  simp only [append, holding, hgathered, List.size_toArray]

/-- Gathering pieces hands over the closed groups and holds the open one. After an
error nothing is held. -/
lemma appendAll_holding (w : Writer) (held pieces : List Text) :
    (holding w held).appendAll pieces =
      match w.takeAll ((gather held pieces).1.map List.flatten) with
      | (none, w') => (none, holding w' (gather held pieces).2)
      | (some e, w') => (some e, start w') := by
  -- Behind a chunk the batch holds nothing, so the statement is for all held pieces.
  induction pieces generalizing w held with
  | nil => rfl
  | cons piece pieces ih =>
    rw [appendAll, append_holding, gather]
    split_ifs with hfull
    · rw [flush_holding, if_neg (flatten_ne_nil hfull), List.map_cons, Writer.takeAll]
      cases htake : w.take (held ++ [piece]).flatten with
      | mk error w' =>
        cases error with
        | none => exact ih w' []
        | some e => rfl
    · exact ih w (held ++ [piece])

end Batch

/-- A delivery without a failure of its own is nothing but the handing over of its
chunks. -/
theorem Emission.deliver_eq_takeAll {e : Emission} (h : e.failure = none) (w : Writer) :
    e.deliver w = ((w.takeAll (Batch.grouping e.pieces).chunks).1.map .write,
      (w.takeAll (Batch.grouping e.pieces).chunks).2) := by
  have hgather := Batch.appendAll_holding w [] e.pieces
  have hstart : Batch.holding w [] = Batch.start w := rfl
  rw [hstart] at hgather
  rw [Emission.deliver, hgather, h, Batch.chunks_grouping, Writer.takeAll_append]
  cases htake : w.takeAll ((Batch.gather [] e.pieces).1.map List.flatten) with
  | mk error w' =>
    cases error with
    | none =>
      dsimp only
      rw [Batch.flush_holding]
      split_ifs
      · rfl
      · rw [Writer.takeAll_singleton]
        rfl
    | some e => rfl

end InertText
