import InertText.Text.Hex
import InertText.Text.Surrogates

/-!
# Quoted texts in messages

A message shows a text between double quotes. Quotes, backslashes and the five
short controls get a backslash form; the other units below 0x20 and surrogate
halves that stand alone are written as `\u` and four lowercase digits, so that
the quoted form of any text is well-formed.
-/
namespace InertText.Quoted

/-- The written form of one unit between its neighbours. -/
def written (p : Text.Placed) : Text :=
  let u := p.self
  if u = unit '"' ∨ u = unit '\\' then [unit '\\', u]
  else if u = 0x08 then units "\\b"
  else if u = 0x09 then units "\\t"
  else if u = 0x0a then units "\\n"
  else if u = 0x0c then units "\\f"
  else if u = 0x0d then units "\\r"
  else if u.toNat < 0x20 ∨ p.isLone then units "\\u" ++ Hex.text 4 u
  else [u]

def quote (t : Text) : Text := unit '"' :: (t.placed.flatMap written ++ [unit '"'])

end InertText.Quoted
