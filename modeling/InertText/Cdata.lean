import InertText.Emission
import InertText.Rules.Replacement

/-!
# Content of CDATA sections

A section ends at the first `]]>`, so that sequence must not survive. One pass
over the text counts the brackets of the current run and writes them only when
the next unit shows whether the run ends in a terminator. Encoding closes the
section after the two brackets and opens another for the rest; filtering deletes
the terminator and leaves the brackets before it pending, so that a deletion
cannot make a new terminator. Forbidden controls are skipped without ending a
run, for the same reason.
-/
namespace InertText.Cdata

/-- The unit that terminators begin with. -/
def bracket : CodeUnit := unit ']'

def closing : CodeUnit := unit '>'

def brackets (n : Nat) : Text := List.replicate n bracket

/-- What encoding writes for a terminator: the section ends between its second
bracket and its last unit, and a new section begins there. -/
def splitTerminator : Text := units "]]>]]<![CDATA[>"

/-- The units that XML forbids. Tab, line feed and carriage return are allowed in
a section, although markup outside of one may have to escape them. -/
def isForbidden (u : CodeUnit) : Bool :=
  u != 0x09 && u != 0x0a && u != 0x0d && ControlPolicy.drop.covers u

/-- The state of the pass: the pieces written so far and the length of the run
of brackets that is not written yet. -/
structure Scan where
  written : Array Text
  pending : Nat

namespace Scan

def start : Scan := ⟨#[], 0⟩

/-- The state after one more unit. -/
def next (mode : Mode) (s : Scan) (u : CodeUnit) : Scan :=
  if u = bracket then { s with pending := s.pending + 1 }
  else if isForbidden u then s
  else if u = closing ∧ 2 ≤ s.pending then
    match mode with
    | .encode => ⟨s.written.push (brackets (s.pending - 2) ++ splitTerminator), 0⟩
    | .filter => { s with pending := s.pending - 2 }
  else ⟨s.written.push (brackets s.pending ++ [u]), 0⟩

/-- All pieces of a text that ends here. -/
def finish (s : Scan) : List Text :=
  if s.pending = 0 then s.written.toList else (s.written.push (brackets s.pending)).toList

end Scan

def pieces (mode : Mode) (t : Text) : List Text := (t.foldl (Scan.next mode) Scan.start).finish

end InertText.Cdata
