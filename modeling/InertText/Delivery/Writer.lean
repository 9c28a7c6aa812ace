import InertText.Value

/-!
# Writers

A writer takes chunks of text from a sanitizer. It may refuse them because of
what it says about itself, and any call may throw. The chunks that it was called
with are kept, and their number decides which calls throw and after which one
the writer has ended.
-/
namespace InertText

/-- A receiver of chunks, with what it says about itself and how it will behave. -/
structure Writer where
  /-- Whether it can be called at all. -/
  callable : Bool
  /-- The fault that it reports. -/
  errored : Option Fault
  /-- Whether it says that it is destroyed. -/
  destroyed : Option Value
  /-- Whether it says that it has ended. -/
  ended : Option Value
  /-- What a call throws, by its number from one. -/
  throwing : Nat → Option Fault
  /-- The number of the call after which it has ended. -/
  endAfter : Option Nat
  /-- The chunks that it was called with, that of a throwing call included. -/
  received : List Text

namespace Writer

/-- Why the writer takes no further chunk. A fault that it reports comes first,
if it counts as true; being destroyed or ended has to be said with true itself. -/
def refusal? (w : Writer) : Option Fault :=
  match w.errored.filter Fault.isTruthy with
  | some fault => some fault
  | none =>
    if w.destroyed.any Value.isTrue then
      some (.error (units "Cannot write to a destroyed stream"))
    else if w.ended.any Value.isTrue then
      some (.error (units "Cannot write after end"))
    else none

/-- One call with a chunk: what it throws, and the writer after it. -/
def write (w : Writer) (chunk : Text) : Option Fault × Writer :=
  let call := w.received.length + 1
  let ended := if w.endAfter = some call then some (.boolean true) else w.ended
  (w.throwing call, { w with ended := ended, received := w.received ++ [chunk] })

@[simp] theorem received_write (w : Writer) (chunk : Text) :
    (w.write chunk).2.received = w.received ++ [chunk] := rfl

end Writer

end InertText
