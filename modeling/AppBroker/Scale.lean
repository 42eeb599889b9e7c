import AppBroker.Error
import AppBroker.Text.Blank
import AppBroker.Text.Digit

/-!
# Scale expressions

A scale expression is a number of containers: `N` itself, or `+N` and `-N` relative to the current
number. Blanks around it are ignored, and its digits may be of any script.
-/

namespace AppBroker.Scale

/-- How the number of an expression counts. -/
inductive Mode where
  | absolute | more | fewer
  deriving DecidableEq, Repr

/-- Splits off the sign. -/
def splitSign : List Char → Mode × List Char
  | '+' :: rest => (.more, rest)
  | '-' :: rest => (.fewer, rest)
  | cs => (.absolute, cs)

/-- The number that an expression denotes when there are `current` containers. -/
def Mode.apply (current : Int) (n : Nat) : Mode → Int
  | .absolute => n
  | .more => current + n
  | .fewer => current - n

/-- The target of a scale expression. -/
def parse (expr : String) (current : Int) : Outcome Int :=
  let (mode, digits) := splitSign (Text.trim expr).toList
  match Text.numeral digits with
  | .word => refuse (.invalid (.scaleExpression expr))
  | .number n => .ok (mode.apply current n)
  | .unreadable => fail .badValue

end AppBroker.Scale
