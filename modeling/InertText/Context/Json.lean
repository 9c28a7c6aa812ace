import InertText.Rules.Basic

/-!
# The rule set of JSON strings

Up to 0x9f only digits and letters stand as they are, so the text can stand in a
script element too.
-/
namespace InertText.Json

def value : RuleSet where
  name := units "JSONValue"
  immune := ∅
  escape := .ofText (units "\x08\t\n\x0c\r\"\\/")
  entities := ∅
  control := .keep
  passthroughAbove := some 0x9f
  fallback := .unicodeEscape

end InertText.Json
