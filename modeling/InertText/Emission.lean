import InertText.Text.Basic

/-!
# Emissions

Whatever makes a text inert hands its output over in pieces. A caller that wants
one text gets the pieces joined, and a writer gets them gathered into chunks, so
the pieces are all that the two have in common. A custom transformation may give
up after some pieces, which an emission records as its failure.
-/
namespace InertText

/-- The two ways to make a text inert. -/
inductive Mode where
  /-- Every unsafe unit is written in another form. -/
  | encode
  /-- Every unsafe unit is left out. -/
  | filter
  deriving DecidableEq, Repr

/-- The name under which a command line asks for a mode. -/
def Mode.name : Mode → String
  | .encode => "encode"
  | .filter => "filter"

/-- What a transformation hands over: pieces in order and, if it gave up after
them, the message of its error. -/
structure Emission where
  pieces : List Text
  failure : Option Text

namespace Emission

def text (e : Emission) : Text := e.pieces.flatten

def complete (pieces : List Text) : Emission := ⟨pieces, none⟩

@[simp] theorem text_complete (pieces : List Text) : (complete pieces).text = pieces.flatten := rfl

end Emission

end InertText
