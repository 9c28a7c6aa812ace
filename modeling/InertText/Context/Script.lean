import InertText.Rules.Basic

/-!
# Rule sets of script literals

A text goes between the quotes of a string literal. The five short controls and
the backslash always take a backslash. Where the script stands inside a page the
hyphen and the slash take one too, so that neither the end of a comment nor that
of the script element can appear. Quotes take one where quotes mean nothing to
the text around the script, and are written as digits where they do.
-/
namespace InertText.Script

/-- Punctuation that is harmless in every literal. -/
def harmless : Text := units "~!@#%^*()_+=|[]:;<>?,."

/-- Units that could close the markup around a script. -/
def closesMarkup : Text := units "-/"

/-- Units that always take a backslash. -/
def alwaysEscaped : Text := units "\x08\t\n\x0c\r\\"

def quotes : Text := units "\"'"

/-- A rule set of literals with its immune and its escaped units. -/
def literal (name immune escape : Text) : RuleSet where
  name := name
  immune := .ofText immune
  escape := .ofText escape
  entities := ∅
  control := .keep
  passthroughAbove := some 0x7f
  fallback := .scriptEscape

def inHtml : RuleSet :=
  literal (units "JavaScriptInHTML") (harmless ++ units " ") (alwaysEscaped ++ closesMarkup)

def inAttribute : RuleSet :=
  literal (units "JavaScriptInAttribute") (harmless ++ closesMarkup ++ units " ") alwaysEscaped

def inBlock : RuleSet :=
  literal (units "JavaScriptInBlock") (harmless ++ units " ")
    (alwaysEscaped ++ closesMarkup ++ quotes)

/-- A literal in a script that stands alone. -/
def inSource : RuleSet :=
  literal (units "JavaScriptInSource") (harmless ++ closesMarkup ++ units " ")
    (alwaysEscaped ++ quotes)

end InertText.Script
