import InertText.Context.Builtin
import InertText.Delivery.Call

/-!
# Registered contexts

A caller may register a sanitizer under a name of its own and use it like a
built-in context. A built-in name always means the built-in context, so nothing
can be registered under one.
-/
namespace InertText

/-- Why a sanitizer is not registered. -/
inductive RegistryError where
  | invalidName (name : Text)
  | builtinName (name : Text)
  | notSanitizer

def RegistryError.message : RegistryError → Text
  | .invalidName name => units "Invalid context name: " ++ name
  | .builtinName name => units "Built-in context cannot be overridden: " ++ name
  | .notSanitizer => units "Context manipulator must be a Manipulator instance"

/-- A registration can only fail because of its arguments. -/
def RegistryError.kind : RegistryError → ErrorKind := fun _ => .argument

/-- The sanitizers that callers have registered, at most one for a name. -/
structure Registry where
  custom : List (Text × Sanitizer)

namespace Registry

def empty : Registry := ⟨[]⟩

/-- A name begins with an ASCII letter and goes on with letters, digits,
underscores and hyphens. -/
def isValidName : Text → Bool
  | [] => false
  | u :: rest =>
    u.isAlphanumeric && !u.isDigit &&
      rest.all fun v => v.isAlphanumeric || v == unit '_' || v == unit '-'

/-- Register a sanitizer, which replaces the one of that name. What was offered
need not be a sanitizer, but the name is looked at first. -/
def register (r : Registry) (name : Text) (offered : Option Sanitizer) :
    Except RegistryError Registry :=
  if !isValidName name then .error (.invalidName name)
  else if (Context.ofName? name).isSome then .error (.builtinName name)
  else match offered with
    | none => .error .notSanitizer
    | some s => .ok ⟨(name, s) :: r.custom.filter fun entry => entry.1 != name⟩

/-- Whether a sanitizer is registered under the name, and the registry without it. -/
def unregister (r : Registry) (name : Text) : Bool × Registry :=
  (r.custom.any fun entry => entry.1 == name, ⟨r.custom.filter fun entry => entry.1 != name⟩)

def find? (r : Registry) (name : Text) : Option Sanitizer :=
  match Context.ofName? name with
  | some c => some c.sanitizer
  | none => r.custom.lookup name

/-- The sanitizer of a name that has to be known. -/
def require (r : Registry) (name : Text) : Except CallError Sanitizer :=
  (r.find? name).elim (.error (.unknownContext name)) .ok

/-- The output of a call for a named context as one text. -/
def text (r : Registry) (name : Text) (mode : Mode) (input : Option Text) :
    Except CallError (Option Text) := do
  (← r.require name).text mode input

/-- Deliver the output of a call for a named context. An unknown name is found
before the input or the writer is looked at. -/
def deliver (r : Registry) (name : Text) (mode : Mode) (input : Option Text)
    (w : Option Writer) : Delivered :=
  match r.require name with
  | .error e => ⟨some e, w⟩
  | .ok s => s.deliver mode input w

/-- A call for a named context in either form. -/
def call (r : Registry) (name : Text) (mode : Mode) (input : Option Text) : Form → Outcome
  | .returning => .returned (r.text name mode input)
  | .delivering w => .delivered (r.deliver name mode input w)

end Registry

end InertText
