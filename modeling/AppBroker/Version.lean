import AppBroker.Error
import AppBroker.Text.Digit

/-!
# The order of versions

A version is cut at every `.`, `-` and `+`. Components are compared from the left: two numbers by
value, two words by their characters, and a number ranks above a word. A version that runs out of
components first ranks lower, and versions with the same components are ordered by their text.
-/

namespace AppBroker.Version

/-- One component of a version. -/
inductive Component where
  | word (text : String)
  | number (value : Nat)
  deriving DecidableEq, Repr

/-- Numbers rank above words. -/
def Component.compare : Component → Component → Ordering
  | .word a, .word b => Ord.compare a b
  | .word _, .number _ => .lt
  | .number _, .word _ => .gt
  | .number a, .number b => Ord.compare a b

/-- What a version is ordered by. -/
structure Key where
  components : List Component
  raw : String
  deriving DecidableEq, Repr

/-- By components, then by text. -/
def Key.compare (a b : Key) : Ordering :=
  (List.compareLex Component.compare a.components b.components).then (Ord.compare a.raw b.raw)

/-- Where a version is cut. -/
def isSeparator (c : Char) : Bool := c = '.' || c = '-' || c = '+'

/-- Reads a component; one made of digits that write no number is a bad value. -/
def component (cs : List Char) : Outcome Component :=
  match Text.numeral cs with
  | .word => .ok (.word (String.ofList cs))
  | .number n => .ok (.number n)
  | .unreadable => fail .badValue

/-- The key of a version. -/
def key (version : String) : Outcome Key := do
  let components ← (version.toList.splitOnP isSeparator).mapM component
  return ⟨components, version⟩

/-- Pairs each version with its key. -/
def keyed (versions : List String) : Outcome (List Key) :=
  versions.mapM key

/-- Versions in ascending order; equal ones keep their places. -/
def sort (versions : List String) : Outcome (List String) := do
  let keys ← keyed versions
  return (keys.mergeSort fun a b => (a.compare b).isLE).map Key.raw

/-- Versions in descending order; equal ones keep their places. -/
def sortDescending (versions : List String) : Outcome (List String) := do
  let keys ← keyed versions
  return (keys.mergeSort fun a b => (b.compare a).isLE).map Key.raw

/-- The highest key of a list; of equal ones, the first. -/
def maximum : List Key → Option Key
  | [] => none
  | k :: ks => some (ks.foldl (fun best k => if best.compare k = .lt then k else best) k)

/-- The highest version, if there is one. -/
def latest (versions : List String) : Outcome (Option String) := do
  let keys ← keyed versions
  return (maximum keys).map Key.raw

/-- The version that a request selects: the latest for an empty request, else that very one. -/
def select (versions : List String) (requested : String) : Outcome (Option String) :=
  if requested = "" then latest versions
  else .ok (if requested ∈ versions then some requested else none)

end AppBroker.Version
