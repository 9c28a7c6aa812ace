import InertText.Rules.Basic

/-!
# Rule sets of HTML

All contexts of HTML share one base, which on its own is the strictest: white
space and both quotes are written as references. A context that is closed by a
tag or by one kind of quote allows white space and the other quote.
-/
namespace InertText.Html

/-- The white space that may stand in content and in quoted values. -/
def whitespace : Text := units "\t\n\r "

/-- The rules that all contexts share. -/
def base : RuleSet where
  name := units "HtmlBase"
  immune := .ofText (units "!#$%^()*+,-./:;=?@[\\]_\x7b|\x7d~")
  escape := ∅
  entities := .ofList [
    (unit '"', units "&quot;"), (unit '&', units "&amp;"), (unit '<', units "&lt;"),
    (unit '>', units "&gt;"), (0xa0, units "&nbsp;")]
  control := .replace
  passthroughAbove := some 0x9f
  fallback := .reference

/-- The base under another name and with more immune units. -/
def allowing (name immune : Text) : RuleSet :=
  base.extend { name := name, immune := immune, escape := [], entities := [] }

def content : RuleSet := allowing (units "HtmlContent") whitespace

def doubleQuotedAttribute : RuleSet :=
  allowing (units "HtmlInDoubleQuoteAttribute") (whitespace ++ units "'")

def singleQuotedAttribute : RuleSet :=
  allowing (units "HtmlInSingleQuoteAttribute") (whitespace ++ units "\"")

def unquotedAttribute : RuleSet := allowing (units "HtmlUnquotedAttribute") []

end InertText.Html
