import InertText.Delivery.Batch
import InertText.Sanitizer

/-!
# Calls of a sanitizer

A call returns the output as one text or delivers it to a writer. Absent input
has absent output and asks nothing of a writer, not even that there is one.
-/
namespace InertText

/-- Why a call fails. -/
inductive CallError where
  | unknownContext (name : Text)
  | noWriter
  | write (e : WriteError)
  /-- A custom transformation gave up with this message. -/
  | raised (message : Text)

def CallError.message : CallError → Text
  | .unknownContext name => units "Unknown context: " ++ name
  | .noWriter => units "Writer cannot be null"
  | .write e => e.message
  | .raised message => message

def CallError.kind : CallError → ErrorKind
  | .unknownContext _ | .noWriter => .argument
  | .write _ => .delivery
  | .raised _ => .plain

/-- What a delivery leaves behind: its error, if it failed, and the writer. -/
structure Delivered where
  error : Option CallError
  writer : Option Writer

/-- Deliver pieces and what is left in the batch after them. When a custom
transformation gave up, what is left in the batch is not handed over. -/
def Emission.deliver (e : Emission) (w : Writer) : Option CallError × Writer :=
  match (Batch.start w).appendAll e.pieces, e.failure with
  | (some error, b), _ => (some (.write error), b.writer)
  | (none, b), some message => (some (.raised message), b.writer)
  | (none, b), none =>
    let (error, b) := b.flush
    (error.map .write, b.writer)

namespace Sanitizer

/-- The output of a call as one text. -/
def text (s : Sanitizer) (mode : Mode) : Option Text → Except CallError (Option Text)
  | none => .ok none
  | some input =>
    let emission := s.emit mode input
    match emission.failure with
    | some message => .error (.raised message)
    | none => .ok (some emission.text)

def deliver (s : Sanitizer) (mode : Mode) (input : Option Text) (w : Option Writer) : Delivered :=
  match input, w.filter Writer.callable with
  | none, _ => ⟨none, w⟩
  | some _, none => ⟨some .noWriter, w⟩
  | some input, some w =>
    let (error, w) := (s.emit mode input).deliver w
    ⟨error, some w⟩

end Sanitizer

/-- The two forms of a call. Its output is returned, or it is delivered to the writer
that the call names, which may be absent all the same. -/
inductive Form where
  | returning
  | delivering (w : Option Writer)

/-- What a call comes to in its form. -/
inductive Outcome where
  | returned (output : Except CallError (Option Text))
  | delivered (d : Delivered)

namespace Sanitizer

def call (s : Sanitizer) (mode : Mode) (input : Option Text) : Form → Outcome
  | .returning => .returned (s.text mode input)
  | .delivering w => .delivered (s.deliver mode input w)

end Sanitizer

end InertText
