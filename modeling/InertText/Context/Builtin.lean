import InertText.Context.Html
import InertText.Context.Json
import InertText.Context.Script
import InertText.Context.Uri
import InertText.Context.Xml
import InertText.Sanitizer

/-!
# Built-in output contexts

Sixteen output contexts are known by name. All but the content of CDATA sections
are described by a rule set.
-/
namespace InertText

/-- A built-in output context. -/
inductive Context where
  | cdataContent
  | htmlContent
  | htmlInSingleQuoteAttribute
  | htmlInDoubleQuoteAttribute
  | htmlUnquotedAttribute
  | scriptInHtml
  | scriptInAttribute
  | scriptInBlock
  | scriptInSource
  | jsonValue
  | uriComponent
  | uriComponentStrict
  | xmlContent
  | xmlInSingleQuoteAttribute
  | xmlInDoubleQuoteAttribute
  | xmlCommentContent
  deriving DecidableEq, Repr

namespace Context

def all : List Context := [
  .cdataContent, .htmlContent, .htmlInSingleQuoteAttribute, .htmlInDoubleQuoteAttribute,
  .htmlUnquotedAttribute, .scriptInHtml, .scriptInAttribute, .scriptInBlock, .scriptInSource,
  .jsonValue, .uriComponent, .uriComponentStrict, .xmlContent, .xmlInSingleQuoteAttribute,
  .xmlInDoubleQuoteAttribute, .xmlCommentContent]

def name : Context → String
  | .cdataContent => "CDATAContent"
  | .htmlContent => "HtmlContent"
  | .htmlInSingleQuoteAttribute => "HtmlInSingleQuoteAttribute"
  | .htmlInDoubleQuoteAttribute => "HtmlInDoubleQuoteAttribute"
  | .htmlUnquotedAttribute => "HtmlUnquotedAttribute"
  | .scriptInHtml => "JavaScriptInHTML"
  | .scriptInAttribute => "JavaScriptInAttribute"
  | .scriptInBlock => "JavaScriptInBlock"
  | .scriptInSource => "JavaScriptInSource"
  | .jsonValue => "JSONValue"
  | .uriComponent => "UriComponent"
  | .uriComponentStrict => "UriComponentStrict"
  | .xmlContent => "XmlContent"
  | .xmlInSingleQuoteAttribute => "XmlInSingleQuoteAttribute"
  | .xmlInDoubleQuoteAttribute => "XmlInDoubleQuoteAttribute"
  | .xmlCommentContent => "XmlCommentContent"

def ofName? (name : Text) : Option Context := all.find? fun c => units c.name == name

/-- The rule set of a context, if one describes it. -/
def rules? : Context → Option RuleSet
  | .cdataContent => none
  | .htmlContent => some Html.content
  | .htmlInSingleQuoteAttribute => some Html.singleQuotedAttribute
  | .htmlInDoubleQuoteAttribute => some Html.doubleQuotedAttribute
  | .htmlUnquotedAttribute => some Html.unquotedAttribute
  | .scriptInHtml => some Script.inHtml
  | .scriptInAttribute => some Script.inAttribute
  | .scriptInBlock => some Script.inBlock
  | .scriptInSource => some Script.inSource
  | .jsonValue => some Json.value
  | .uriComponent => some Uri.component
  | .uriComponentStrict => some Uri.strictComponent
  | .xmlContent => some Xml.content
  | .xmlInSingleQuoteAttribute => some Xml.singleQuotedAttribute
  | .xmlInDoubleQuoteAttribute => some Xml.doubleQuotedAttribute
  | .xmlCommentContent => some Xml.commentContent

def sanitizer (c : Context) : Sanitizer := c.rules?.elim .cdata .ofRules

end Context

end InertText
