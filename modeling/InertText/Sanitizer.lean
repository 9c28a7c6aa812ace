import InertText.Cdata

/-!
# Sanitizers

A sanitizer makes texts inert for one output context. Those made from a rule set
judge every unit on its own and hand over one piece for a unit; the one for
CDATA sections looks at runs of brackets. Any other function will do as well.
-/
namespace InertText

/-- A named transformation of texts with its two modes. -/
structure Sanitizer where
  name : Text
  emit : Mode → Text → Emission

namespace Sanitizer

/-- The sanitizer of a rule set, under the name of the rule set. Filtering hands
over the units that encoding would leave as they are. -/
def ofRules (rules : RuleSet) : Sanitizer where
  name := rules.name
  emit
    | .encode, t => .complete (t.map rules.replacement)
    | .filter, t => .complete ((t.filter rules.keeps).map fun u => [u])

def cdata : Sanitizer where
  name := units "CDATAContent"
  emit mode t := .complete (Cdata.pieces mode t)

def rename (s : Sanitizer) (name : Text) : Sanitizer := { s with name := name }

@[simp] theorem text_ofRules_encode (rules : RuleSet) (t : Text) :
    ((ofRules rules).emit .encode t).text = rules.encode t := by
  simp [ofRules, RuleSet.encode, List.flatMap_def]

@[simp] theorem text_ofRules_filter (rules : RuleSet) (t : Text) :
    ((ofRules rules).emit .filter t).text = rules.filter t := by
  simp [ofRules, RuleSet.filter, ← List.flatMap_def]

end Sanitizer

end InertText
