import InertText.Rules.Basic

/-!
# Rule sets of URI components

All units but the unreserved ones are written as percent forms of their octets.
-/
namespace InertText.Uri

/-- Punctuation that no component needs to escape. -/
def unreserved : Text := units "-_.~"

def percentEncoding (name immune : Text) : RuleSet where
  name := name
  immune := .ofText immune
  escape := ∅
  entities := ∅
  control := .keep
  passthroughAbove := none
  fallback := .percentOctets

/-- A component in which some delimiters may stand. -/
def component : RuleSet := percentEncoding (units "UriComponent") (unreserved ++ units "!*'()")

/-- A component of unreserved units only. -/
def strictComponent : RuleSet := percentEncoding (units "UriComponentStrict") unreserved

end InertText.Uri
