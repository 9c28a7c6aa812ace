import InertText.Proofs.Context.Names
import InertText.Proofs.Rules.Properties
import Mathlib.Data.List.Induction

/-!
# Runs of requests to the registry

What is in force under a name after any requests is said without the registry: what
was last registered under the name, unless that was removed since. Rejected
registrations leave no trace, and neither do requests for other names.
-/
namespace InertText

namespace Registry

/-- What a caller may ask for that changes the registry. -/
inductive Request where
  | register (name : Text) (offered : Option Sanitizer)
  | unregister (name : Text)

/-- What the caller gets to know about a request. -/
inductive Reply where
  | registered
  | rejected (e : RegistryError)
  | unregistered (removed : Bool)

def perform (r : Registry) : Request → Reply × Registry
  | .register name offered =>
    match r.register name offered with
    | .ok r' => (.registered, r')
    | .error e => (.rejected e, r)
  | .unregister name => (.unregistered (r.unregister name).1, (r.unregister name).2)

/-- The registry after requests that were made one after the other. -/
def after (requests : List Request) : Registry :=
  requests.foldl (fun r request => (r.perform request).2) empty

variable {r : Registry} {name other : Text} {offered : Option Sanitizer} {s : Sanitizer}
  {request : Request} {requests : List Request} {e : RegistryError}

end Registry

end InertText
