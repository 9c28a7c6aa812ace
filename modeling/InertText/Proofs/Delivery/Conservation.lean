import InertText.Proofs.Delivery.Attempts

/-!
# Batches that go on after errors

An error is no reason to stop using a batch. Whatever a caller appends and flushes, and
whatever the writer makes of it, a text is either gathered or has been taken to the
writer, once and in its order. An action takes everything to the writer that has been
gathered by then, or nothing, and a failed chunk is never taken there again.
-/
namespace InertText

lemma Writer.Attempts.append {w v w' : Writer} {front back : List Attempt}
    (h : w.Attempts front v) (h' : v.Attempts back w') : w.Attempts (front ++ back) w' := by
  induction h with
  | nil _ => exact h'
  | cons hoffered _ ih => exact .cons hoffered (ih h')

namespace Batch

/-- What a caller may do with a batch. -/
inductive Action where
  | append (piece : Text)
  | flush

namespace Action

/-- The text that an action adds to a batch. -/
def piece : Action → Text
  | append piece => piece
  | flush => []

/-- The number of units at which an action takes what is gathered to the writer. -/
def enough : Action → ℕ
  | append _ => 8192
  | flush => 1

/-- The texts that actions add, as one text. -/
def appended (actions : List Action) : Text := actions.flatMap piece

end Action

/-- Perform an action: its error, and the batch after it. -/
def perform (b : Batch) : Action → Option WriteError × Batch
  | .append piece => b.append piece
  | .flush => b.flush

def after (b : Batch) (actions : List Action) : Batch :=
  actions.foldl (fun b action => (b.perform action).2) b

/-- All that is gathered when the action has added its text. -/
def filled (b : Batch) (action : Action) : Text := b.gathered.toList ++ action.piece

/-- The attempt that an action makes to hand over what is gathered, with its outcome. -/
def attempt? (b : Batch) (action : Action) : Option Attempt :=
  if action.enough ≤ (b.filled action).length then
    some ⟨b.filled action, (b.perform action).1⟩
  else none

def attempts : Batch → List Action → List Attempt
  | _, [] => []
  | b, action :: actions => (b.attempt? action).toList ++ attempts (b.perform action).2 actions

/-- The chunks of the attempts as one text. -/
def attempted (b : Batch) (actions : List Action) : Text :=
  (b.attempts actions).flatMap Attempt.chunk

variable {b : Batch} {action : Action} {actions more : List Action} {piece : Text}

lemma holding_gathered (b : Batch) : holding b.writer [b.gathered.toList] = b := by
  rw [holding, List.flatten_singleton, Array.toArray_toList]

/-- All that an action can do: it takes what is gathered to the writer and holds nothing
afterwards, or it holds what is gathered. -/
lemma perform_eq (b : Batch) (action : Action) :
    b.perform action =
      if action.enough ≤ (b.filled action).length then
        ((b.writer.take (b.filled action)).1, start (b.writer.take (b.filled action)).2)
      else (none, ⟨b.writer, (b.filled action).toArray⟩) := by
  cases action with
  | append piece =>
    have happend := append_holding b.writer [b.gathered.toList] piece
    have hflush := flush_holding b.writer [b.gathered.toList, piece]
    have hfilled : [b.gathered.toList, piece].flatten = b.filled (.append piece) := by
      simp [filled, Action.piece]
    have hholding : holding b.writer [b.gathered.toList, piece] =
        ⟨b.writer, (b.filled (.append piece)).toArray⟩ := by rw [holding, hfilled]
    have henough : (Action.append piece).enough = capacity := rfl
    rw [holding_gathered, List.singleton_append, hflush, hfilled, hholding] at happend
    rw [perform, happend, henough]
    split_ifs with hfull hnil
    · exact absurd (hnil ▸ hfull) (by decide)
    · rfl
    · rfl
  | flush =>
    have hflush := flush_holding b.writer [b.gathered.toList]
    have hfilled : b.filled .flush = b.gathered.toList := List.append_nil _
    rw [holding_gathered, List.flatten_singleton] at hflush
    rw [perform, hflush, hfilled, Action.enough]
    by_cases hnil : b.gathered.toList = []
    · have hnone : ¬ 1 ≤ b.gathered.toList.length := by simp [hnil]
      rw [if_pos hnil, if_neg hnone, Array.toArray_toList]
    · have hsome : 1 ≤ b.gathered.toList.length := List.length_pos_iff.mpr hnil
      rw [if_neg hnil, if_pos hsome]

lemma error_perform (b : Batch) (action : Action) :
    (b.perform action).1 = (b.attempt? action).bind Attempt.error := by
  rw [attempt?, perform_eq]
  split_ifs <;> rfl

/-- An action offers its writer the chunk of its attempt, and no other. -/
lemma attempts_perform (b : Batch) (action : Action) :
    b.writer.Attempts (b.attempt? action).toList (b.perform action).2.writer := by
  rw [attempt?, perform_eq]
  split_ifs
  · exact .cons (b.writer.offered_take _) (.nil _)
  · exact .nil b.writer

/-- What is gathered and what an action adds has been taken to the writer by the action
or is gathered after it. -/
lemma attempted_perform (b : Batch) (action : Action) :
    (b.attempt? action).toList.flatMap Attempt.chunk ++ (b.perform action).2.gathered.toList =
      b.gathered.toList ++ action.piece := by
  rw [attempt?, perform_eq]
  split_ifs
  · simp [start, filled]
  · simp [filled]

lemma enough_le (action : Action) : action.enough ≤ capacity := by
  cases action with
  | append piece => exact Nat.le_refl capacity
  | flush => decide

lemma size_gathered_perform_lt (b : Batch) (action : Action) :
    (b.perform action).2.gathered.size < capacity := by
  rw [perform_eq]
  split_ifs with h
  · simp only [start, List.size_toArray, List.length_nil]
    decide
  · have hle := enough_le action
    simp only [List.size_toArray]
    omega

/-- After an error nothing is gathered. -/
lemma gathered_perform_of_error (h : (b.perform action).1 ≠ none) :
    (b.perform action).2.gathered = #[] := by
  rw [perform_eq] at h ⊢
  split_ifs at h ⊢
  · rfl
  · exact absurd rfl h

lemma capacity_le_of_error (h : (b.append piece).1 ≠ none) :
    8192 ≤ b.gathered.size + piece.length := by
  have hperform := b.perform_eq (.append piece)
  rw [perform] at hperform
  rw [hperform] at h
  split_ifs at h with hfull
  · simpa [filled, Action.piece, Action.enough] using hfull
  · exact absurd rfl h

lemma flush_of_empty (h : b.gathered = #[]) : b.flush = (none, b) := by
  rw [flush, h]
  rfl

lemma attempts_append (b : Batch) (actions more : List Action) :
    b.attempts (actions ++ more) = b.attempts actions ++ (b.after actions).attempts more := by
  induction actions generalizing b with
  | nil => rfl
  | cons action actions ih =>
    rw [List.cons_append, attempts, ih, attempts, List.append_assoc]
    rfl

lemma attempts_after (b : Batch) (actions : List Action) :
    b.writer.Attempts (b.attempts actions) (b.after actions).writer := by
  induction actions generalizing b with
  | nil => exact .nil b.writer
  | cons action actions ih => exact (b.attempts_perform action).append (ih _)

/-- Nothing is lost and nothing is taken to the writer twice, from whatever batch on. -/
lemma attempted_after (b : Batch) (actions : List Action) :
    b.attempted actions ++ (b.after actions).gathered.toList =
      b.gathered.toList ++ Action.appended actions := by
  induction actions generalizing b with
  | nil => simp [attempted, attempts, after, Action.appended]
  | cons action actions ih =>
    have hattempted : b.attempted (action :: actions) =
        (b.attempt? action).toList.flatMap Attempt.chunk ++
          (b.perform action).2.attempted actions := List.flatMap_append
    have hafter : b.after (action :: actions) = (b.perform action).2.after actions := rfl
    have happended : Action.appended (action :: actions) =
        action.piece ++ Action.appended actions := List.flatMap_cons
    rw [hattempted, hafter, List.append_assoc, ih, ← List.append_assoc, attempted_perform,
      happended, List.append_assoc]

lemma size_gathered_after_lt (w : Writer) (actions : List Action) :
    ((start w).after actions).gathered.size < capacity := by
  rcases actions.eq_nil_or_concat with rfl | ⟨front, last, rfl⟩
  · exact Nat.zero_lt_succ 8191
  · rw [List.concat_eq_append, after, List.foldl_append]
    exact size_gathered_perform_lt _ last

/-- Whatever is appended to a batch and flushed, and whatever its writer makes of it: at
every point what has been taken to the writer and what is gathered are together what was
appended, in this order, and less than the capacity is gathered. The writer was offered
the chunks of the attempts one after the other and has kept those that it did not refuse.
An action fails when its attempt does, an append only if it fills the batch, and a flush
of an empty batch does nothing. After a failure only what is appended from then on is
taken to the writer. -/
theorem attempted_append_gathered (w : Writer) (actions : List Action) :
    let b := (start w).after actions
    (start w).attempted actions ++ b.gathered.toList = Action.appended actions ∧
    b.gathered.size < 8192 ∧
    w.Attempts ((start w).attempts actions) b.writer ∧
    b.writer.received = w.received ++
      (((start w).attempts actions).filter Attempt.isCall).map Attempt.chunk ∧
    (∀ more, (start w).attempts (actions ++ more) =
      (start w).attempts actions ++ b.attempts more) ∧
    (∀ action, (b.perform action).1 = (b.attempt? action).bind Attempt.error ∧
      ((b.perform action).1 ≠ none → ∀ more, (b.perform action).2.attempted more ++
        ((b.perform action).2.after more).gathered.toList = Action.appended more)) ∧
    (∀ piece, (b.append piece).1 ≠ none → 8192 ≤ b.gathered.size + piece.length) ∧
    (b.gathered = #[] → b.flush = (none, b)) := by
  refine ⟨attempted_after (start w) actions, size_gathered_after_lt w actions,
    attempts_after (start w) actions, (attempts_after (start w) actions).received,
    attempts_append (start w) actions,
    fun action => ⟨error_perform _ action, fun h more => ?_⟩,
    fun piece => capacity_le_of_error, flush_of_empty⟩
  have hafter := attempted_after (((start w).after actions).perform action).2 more
  rwa [gathered_perform_of_error h] at hafter

/-- A writer whose second call throws and that has ended after it. What it threw on and
what it refuses is gone, and the batch goes on with what comes then. -/
theorem attempted_append_gathered_throwing :
    let w : Writer := ⟨true, none, none, none,
      fun call => if call = 2 then some .undefined else none, some 2, []⟩
    let actions : List Action := [.append (units "a"), .flush, .flush, .append (units "b"),
      .append (units "c"), .flush, .append (units "d")]
    let b := (start w).after actions
    (start w).attempts actions =
      [⟨units "a", none⟩, ⟨units "bc", some (.thrown .undefined)⟩] ∧
    b.gathered.toList = units "d" ∧
    (b.perform .flush).1 = some (.refused (.error (units "Cannot write after end"))) ∧
    (b.perform .flush).2.attempted [.append (units "e")] ++
      ((b.perform .flush).2.after [.append (units "e")]).gathered.toList = units "e" := by
  dsimp only
  have hrest := ((attempted_append_gathered
    ⟨true, none, none, none, fun call => if call = 2 then some .undefined else none, some 2, []⟩
    [.append (units "a"), .flush, .flush, .append (units "b"), .append (units "c"), .flush,
      .append (units "d")]).2.2.2.2.2.1
    .flush).2 (by decide) [.append (units "e")]
  rw [Action.appended, List.flatMap_singleton] at hrest
  exact ⟨rfl, rfl, rfl, hrest⟩

end Batch

end InertText
