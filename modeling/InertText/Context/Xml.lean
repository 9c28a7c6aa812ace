import InertText.Rules.Basic

/-!
# Rule sets of XML

All contexts of XML share one base. Units that XML forbids are dropped, because
no reference may stand for them either. The content of a comment allows markup,
which means nothing there, but not the hyphen: two of them would end the comment.
-/
namespace InertText.Xml

/-- The rules that all contexts share. -/
def base : RuleSet where
  name := units "XmlBase"
  immune := .ofText (units ",;:._ ()\t\n\r")
  escape := ∅
  entities := .ofList [
    (unit '"', units "&quot;"), (unit '&', units "&amp;"), (unit '\'', units "&apos;"),
    (unit '<', units "&lt;"), (unit '>', units "&gt;")]
  control := .drop
  passthroughAbove := some 0x9f
  fallback := .reference

/-- A rule set under another name and with more immune units. -/
def allowing (rules : RuleSet) (name immune : Text) : RuleSet :=
  rules.extend { name := name, immune := immune, escape := [], entities := [] }

def content : RuleSet := allowing base (units "XmlContent") (units "-")

def doubleQuotedAttribute : RuleSet :=
  allowing content (units "XmlInDoubleQuoteAttribute") (units "'")

def singleQuotedAttribute : RuleSet :=
  allowing content (units "XmlInSingleQuoteAttribute") (units "\"")

def commentContent : RuleSet :=
  allowing base (units "XmlCommentContent") (units "\"'<!>#$%^*+/=?@[\\]\x7b|\x7d~")

end InertText.Xml
