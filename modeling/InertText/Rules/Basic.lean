import InertText.Rules.EntityTable
import InertText.Text.UnitSet

/-!
# Rule sets

A rule set describes one output context: which units may stand as they are,
which take a backslash, which have a replacement of their own, and what happens
to control units and to the rest.
-/
namespace InertText

/-- What becomes of the units that the output context forbids outright. -/
inductive ControlPolicy where
  /-- No unit is singled out. -/
  | keep
  /-- A control unit becomes a reference to the replacement character. -/
  | replace
  /-- A unit that XML forbids is dropped. -/
  | drop
  deriving DecidableEq, Repr

/-- How a unit is written when no earlier rule applies. -/
inductive Fallback where
  /-- A hexadecimal character reference of markup. -/
  | reference
  /-- A two-digit escape of a script literal, used for ASCII only. -/
  | scriptEscape
  /-- A four-digit Unicode escape. -/
  | unicodeEscape
  /-- The octets of the unit in UTF-8, each as a percent sign and two digits. -/
  | percentOctets
  deriving DecidableEq, Repr

namespace ControlPolicy

def all : List ControlPolicy := [.keep, .replace, .drop]

/-- The name under which a rule set asks for the policy. -/
def name : ControlPolicy → String
  | .keep => "none"
  | .replace => "html-replace"
  | .drop => "xml-drop"

def ofName? (t : Text) : Option ControlPolicy := all.find? fun p => units p.name == t

end ControlPolicy

namespace Fallback

def all : List Fallback := [.reference, .scriptEscape, .unicodeEscape, .percentOctets]

/-- The name under which a rule set asks for the fallback. -/
def name : Fallback → String
  | .reference => "html-hex"
  | .scriptEscape => "js-hex"
  | .unicodeEscape => "json-unicode"
  | .percentOctets => "percent-utf8"

def ofName? (t : Text) : Option Fallback := all.find? fun f => units f.name == t

end Fallback

/-- The rules of one output context. -/
structure RuleSet where
  name : Text
  /-- Units that always stand as they are. -/
  immune : UnitSet
  /-- Units that take a backslash. -/
  escape : UnitSet
  /-- Units with a replacement of their own. -/
  entities : EntityTable
  control : ControlPolicy
  /-- Units strictly above this one stand as they are. -/
  passthroughAbove : Option CodeUnit
  fallback : Fallback

/-- What a rule set may gain: a new name, more immune and escaped units and more
replacements. -/
structure Extension where
  name : Text
  immune : Text
  escape : Text
  entities : List (CodeUnit × Text)

/-- The rule set with an extension. A new replacement of a unit takes the place
of the one it had. -/
def RuleSet.extend (rules : RuleSet) (e : Extension) : RuleSet :=
  { rules with
    name := e.name
    immune := rules.immune.insertAll e.immune
    escape := rules.escape.insertAll e.escape
    entities := rules.entities.insertAll e.entities }

@[simp] theorem RuleSet.mem_immune_extend {rules : RuleSet} {e : Extension} {u : CodeUnit} :
    u ∈ (rules.extend e).immune ↔ u ∈ e.immune ∨ u ∈ rules.immune :=
  UnitSet.mem_insertAll

@[simp] theorem RuleSet.mem_escape_extend {rules : RuleSet} {e : Extension} {u : CodeUnit} :
    u ∈ (rules.extend e).escape ↔ u ∈ e.escape ∨ u ∈ rules.escape :=
  UnitSet.mem_insertAll

theorem RuleSet.find?_entities_extend (rules : RuleSet) (e : Extension) (u : CodeUnit) :
    (rules.extend e).entities.find? u =
      (e.entities.reverse.lookup u).or (rules.entities.find? u) :=
  EntityTable.find?_insertAll rules.entities e.entities u

end InertText
