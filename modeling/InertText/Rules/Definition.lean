import InertText.Rules.Basic
import InertText.Rules.Properties
import InertText.Text.Quoted
import InertText.Value

/-!
# Proposed rule sets

A caller proposes a rule set or an extension with values of any kind. Accepting
a proposal checks it once, in the order policy, fallback, threshold, entities,
and turns it into a rule set whose type leaves nothing to check. The error tells
of the first offence and shows what was given, where that can be spelled.
-/
namespace InertText

/-- Why a proposal is not accepted. The first three show what was given. -/
inductive RuleError where
  | unknownPolicy (shown : Text)
  | unknownFallback (shown : Text)
  | thresholdOutOfRange (shown : Text)
  /-- What was given cannot be shown. -/
  | unspellable
  | keyNotOneUnit (key : Text)
  | replacementNotText (key : Text)

namespace RuleError

def message : RuleError → Text
  | .unknownPolicy shown => units "Invalid control policy: " ++ shown
  | .unknownFallback shown => units "Invalid fallback encoding: " ++ shown
  | .thresholdOutOfRange shown => units "Invalid passthrough threshold: " ++ shown
  | .unspellable => units "Cannot convert object to primitive value"
  | .keyNotOneUnit key => units "Entity keys must be a single code unit: " ++ Quoted.quote key
  | .replacementNotText key =>
    units "Entity replacement for " ++ Quoted.quote key ++ units " must be a string"

/-- An error is one of arguments, unless it comes up while its message is put together. -/
def kind : RuleError → ErrorKind
  | .unspellable => .type
  | _ => .argument

/-- The error that shows a value. -/
def showing (error : Text → RuleError) (v : Value) : RuleError :=
  v.spelling?.elim .unspellable error

end RuleError

/-- An extension as a caller proposes it: the entities are pairs of a key and a
value of any kind. -/
structure ProposedExtension where
  name : Text
  immune : Text
  escape : Text
  entities : List (Text × Value)

/-- A rule set as a caller proposes it. A policy or threshold that is missing or
null is left open, but a fallback has to be chosen. -/
structure ProposedRuleSet extends ProposedExtension where
  control : Option Value
  passthroughAbove : Option Value
  fallback : Option Value

def readEntity : Text × Value → Except RuleError (CodeUnit × Text)
  | ([u], .text t) => .ok (u, t)
  | ([u], _) => .error (.replacementNotText [u])
  | (key, _) => .error (.keyNotOneUnit key)

/-- The replacements of a record of entities, or the first offence in the order
in which the record lists its properties. -/
def readEntities (pairs : List (Text × Value)) : Except RuleError (List (CodeUnit × Text)) :=
  (Properties.listed pairs).mapM readEntity

/-- The policy of a name. Without one no unit is singled out. -/
def readPolicy : Option Value → Except RuleError ControlPolicy
  | none | some .null => .ok .keep
  | some (.text t) => (ControlPolicy.ofName? t).elim (.error (.unknownPolicy t)) .ok
  | some v => .error (.showing .unknownPolicy v)

def readFallback : Option Value → Except RuleError Fallback
  | none => .error (.unknownFallback (units "undefined"))
  | some (.text t) => (Fallback.ofName? t).elim (.error (.unknownFallback t)) .ok
  | some v => .error (.showing .unknownFallback v)

/-- The threshold that a number stands for, an integer by value. -/
def readThreshold : Option Value → Except RuleError (Option CodeUnit)
  | none | some .null => .ok none
  | some (.number n) =>
    match n.toInt? with
    | some i =>
      if 0 ≤ i ∧ i ≤ 0xffff then .ok (some (.ofNat i.toNat))
      else .error (.thresholdOutOfRange n.text)
    | none => .error (.thresholdOutOfRange n.text)
  | some v => .error (.showing .thresholdOutOfRange v)

def ProposedExtension.accept (p : ProposedExtension) : Except RuleError Extension := do
  let entities ← readEntities p.entities
  return { name := p.name, immune := p.immune, escape := p.escape, entities := entities }

def ProposedRuleSet.accept (p : ProposedRuleSet) : Except RuleError RuleSet := do
  let control ← readPolicy p.control
  let fallback ← readFallback p.fallback
  let passthroughAbove ← readThreshold p.passthroughAbove
  let entities ← readEntities p.entities
  return {
    name := p.name
    immune := .ofText p.immune
    escape := .ofText p.escape
    entities := .ofList entities
    control := control
    passthroughAbove := passthroughAbove
    fallback := fallback }

end InertText
