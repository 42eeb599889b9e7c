import AppBroker.Error

/-!
# Application names

An application name is a lower case letter followed by lower case letters, digits and
underscores. One line end after the name is not noticed. An application is told from all others by
its tenant and its name.
-/

namespace AppBroker

/-- An application of a tenant. -/
structure AppKey where
  tenant : String
  name : String
  deriving DecidableEq, Repr

end AppBroker

namespace AppBroker.Name

/-- The letters a to z. -/
def isLower (c : Char) : Bool := 'a' ≤ c && c ≤ 'z'

/-- The characters that may follow the first letter. -/
def isInner (c : Char) : Bool := isLower c || ('0' ≤ c && c ≤ '9') || c = '_'

/-- A text without one line end at its end. -/
def dropLineEnd (cs : List Char) : List Char :=
  if cs.getLast? = some '\n' then cs.dropLast else cs

/-- Whether a text is an application name, a last line end aside. -/
def isValid (name : String) : Bool :=
  match dropLineEnd name.toList with
  | [] => false
  | c :: cs => isLower c && cs.all isInner

/-- Refuses a text that is no application name. -/
def check (name : String) : Outcome Unit :=
  if isValid name then .ok () else refuse (.invalid (.applicationName name))

end AppBroker.Name
