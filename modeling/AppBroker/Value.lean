import AppBroker.Value.Binary64
import AppBroker.Value.Moment

/-!
# Dynamic values

The values that configuration, manifests and stored records are made of before their fields are
read: scalars, sequences, sets and mappings.
-/

namespace AppBroker

/-- A value read from a document. -/
inductive Value where
  | null
  | bool (b : Bool)
  | int (n : Int)
  | real (x : Binary64)
  | text (s : String)
  /-- Text with halves of surrogate pairs in it, by how it is shown. -/
  | illFormed (shown : String)
  | bytes (data : List UInt8)
  | date (d : Date)
  | moment (m : Moment)
  | list (items : List Value)
  | tuple (items : List Value)
  | set (items : List Value)
  | map (entries : List (Value × Value))
  /-- A sequence or mapping inside itself. -/
  | cycle (isMapping : Bool)
  deriving Repr, Inhabited

namespace Value

/-- Whether a value counts as true. -/
def isTruthy : Value → Bool
  | null => false
  | bool b => b
  | int n => n ≠ 0
  | real x => !x.isZero
  | text s => s ≠ ""
  | illFormed _ => true
  | bytes data => !data.isEmpty
  | date _ | moment _ => true
  | list items | tuple items | set items => !items.isEmpty
  | map entries => !entries.isEmpty
  | cycle _ => true

/-- The number that a value is as a key: truth values are 0 and 1, and a number with a zero
fraction is the whole number. -/
def keyNumber? : Value → Option Int
  | bool b => some (if b then 1 else 0)
  | int n => some n
  | real x => x.toInt?
  | _ => none

/-- Whether two scalars are the same key. -/
def sameKey (a b : Value) : Bool :=
  match a.keyNumber?, b.keyNumber? with
  | some m, some n => m = n
  | some _, none => false
  | none, some _ => false
  | none, none =>
    match a, b with
    | null, null => true
    | real x, real y => x = y && x ≠ .nan
    | text s, text t => s = t
    | bytes s, bytes t => s = t
    | date d, date e => d = e
    | moment d, moment e => d = e
    | _, _ => false

/-- Whether a value may be a key: sequences, sets and mappings may not. -/
def isKey : Value → Bool
  | list _ | set _ | map _ | cycle _ => false
  | _ => true

/-- Writes an entry of a mapping: a key that is there keeps its place and its spelling. -/
def insert : List (Value × Value) → Value → Value → List (Value × Value)
  | [], key, value => [(key, value)]
  | (k, v) :: rest, key, value =>
    if sameKey k key then (k, value) :: rest else (k, v) :: insert rest key value

/-- The value under a text key. -/
def get? (entries : List (Value × Value)) (key : String) : Option Value :=
  (entries.find? fun entry => match entry.1 with
    | text s => s = key
    | _ => false).map (·.2)

/-- The entries whose key is not a given text. -/
def erase (entries : List (Value × Value)) (key : String) : List (Value × Value) :=
  entries.filter fun entry => match entry.1 with
    | text s => s ≠ key
    | _ => true

/-- Whether every key is text, so that the entries can be fields. -/
def hasTextKeys (entries : List (Value × Value)) : Bool :=
  entries.all fun entry => match entry.1 with
    | text _ | illFormed _ => true
    | _ => false

end Value

end AppBroker
