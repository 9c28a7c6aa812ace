import InertText.Delivery.Writer

/-!
# Batches

Pieces are gathered until they reach the capacity of a batch and then go to the
writer as one chunk, which never cuts a piece in two. A batch is emptied before
the writer is asked: a chunk that the writer refuses or throws on is lost, and
no later call can hand it over again.
-/
namespace InertText

/-- How handing a chunk to a writer fails. -/
inductive WriteError where
  /-- The writer takes no more chunks, for this reason. -/
  | refused (cause : Fault)
  /-- The call threw this. -/
  | thrown (cause : Fault)

namespace WriteError

def message : WriteError → Text
  | .refused _ => units "The output writer can no longer be written to"
  | .thrown _ => units "An error occurred while writing to the output writer"

def cause : WriteError → Fault
  | .refused fault => fault
  | .thrown fault => fault

end WriteError

/-- A writer with the units gathered for its next chunk. -/
structure Batch where
  writer : Writer
  gathered : Array CodeUnit

namespace Batch

/-- The number of gathered units at which a chunk is handed over. -/
def capacity : Nat := 8192

def start (w : Writer) : Batch := ⟨w, #[]⟩

/-- Hand over what is gathered. An empty batch asks nothing of the writer. -/
def flush (b : Batch) : Option WriteError × Batch :=
  if b.gathered.isEmpty then (none, b)
  else
    match b.writer.refusal? with
    | some fault => (some (.refused fault), start b.writer)
    | none =>
      let (thrown, writer) := b.writer.write b.gathered.toList
      (thrown.map .thrown, start writer)

/-- Gather a piece, and hand over everything once the capacity is reached. -/
def append (b : Batch) (piece : Text) : Option WriteError × Batch :=
  let filled : Batch := { b with gathered := b.gathered ++ piece }
  if capacity ≤ filled.gathered.size then filled.flush else (none, filled)

/-- Gather pieces in order until one of them brings an error to light. -/
def appendAll : Batch → List Text → Option WriteError × Batch
  | b, [] => (none, b)
  | b, piece :: pieces =>
    match b.append piece with
    | (none, b) => appendAll b pieces
    | (some e, b) => (some e, b)

/-- Nothing is left after a chunk was handed over, whatever became of it. -/
@[simp] theorem gathered_flush (b : Batch) : b.flush.2.gathered = #[] := by
  unfold flush
  split
  · rename_i h
    exact Array.isEmpty_iff.1 h
  · split <;> rfl

end Batch

end InertText
