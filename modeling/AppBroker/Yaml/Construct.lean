import AppBroker.Yaml.Scalar

/-!
# Values of a document

The value of a node depends on its kind. A scalar is read by the rules of its kind, a sequence is
a list, and a mapping is a table in which the last of equal keys counts. The entries of the
mappings that a merge key names come before the own ones. A text may also be asked for as bytes,
and a collection as a set or as a list of pairs.

Values are made in rounds: a collection is filled in the round after the one that meets it. So of
several faults in a document the one of the earliest round counts, and of those the first.
-/

namespace AppBroker.Yaml

/-- A value in the making, or the fault that counts and the number of rounds before it. -/
inductive Making (α : Type) where
  | made (value : α)
  | failed (round : Nat) (cause : Breakage)

namespace Making

/-- Of two faults the one of the earlier round counts, or else the first. -/
def seq {α β : Type} (f : Making (α → β)) (x : Unit → Making α) : Making β :=
  match f, x () with
  | made f, made a => made (f a)
  | made _, failed round cause => failed round cause
  | failed round cause, made _ => failed round cause
  | failed round cause, failed later other =>
    if later < round then failed later other else failed round cause

instance : Applicative Making where
  pure := made
  seq := seq

/-- What is made at once. -/
def now {α : Type} : Reading α → Making α
  | .ok a => made a
  | .error cause => failed 0 cause

/-- What is made one round later. -/
def later {α : Type} : Making α → Making α
  | made a => made a
  | failed round cause => failed (round + 1) cause

/-- The value, or the fault that counts. -/
def toReading {α : Type} : Making α → Reading α
  | made a => .ok a
  | failed _ cause => .error cause

end Making

namespace Construct

open Token (malformed)

/-- Whether a node is a merge key. -/
def isMerge : Node → Bool
  | .scalar .merge _ => true
  | _ => false

/-- Whether a kind is that of a value made at once. -/
def isScalarKind : Kind → Bool
  | .null | .bool | .int | .float | .binary | .timestamp | .str => true
  | _ => false

/-- Whether a kind is that of a collection. -/
def isCollectionKind : Kind → Bool
  | .seq | .map | .set | .omap | .pairs => true
  | _ => false

/-- A fault in a node whose kind asks for another shape: a collection is found out when it is
filled. -/
def mismatch {α : Type} (kind : Kind) : Making α :=
  if isCollectionKind kind then .later (.now malformed) else .now malformed

/-- A key, which is no collection, so that it is made at once. -/
def checkedKey : Making Value → Making Value
  | .made v => if v.isKey then .made v else .now malformed
  | .failed 0 cause => .failed 0 cause
  | .failed (_ + 1) _ => .now malformed

/-- A table of entries, of which a later one overwrites. -/
def table (entries : List (Value × Value)) : List (Value × Value) :=
  entries.foldl (fun t (k, v) => Value.insert t k v) []

mutual

/-- The text that stands for a node where a scalar is asked for: its own, or that of the default
entry of a mapping. -/
def defaultText : Node → Option Content
  | .scalar _ text => some text
  | .mapping _ entries => defaultEntry entries
  | _ => none

/-- The text under the first default key. -/
def defaultEntry : List (Node × Node) → Option Content
  | [] => none
  | (.scalar .value _, v) :: _ => defaultText v
  | _ :: rest => defaultEntry rest

end

mutual

/-- Whether all that the merge keys of a mapping name can be merged. -/
def canMergeAll : List (Node × Node) → Bool
  | [] => true
  | (k, v) :: rest => (!isMerge k || canMerge v) && canMergeAll rest

/-- Whether a node is a mapping, or a list of mappings, all of whose merge keys are in order. -/
def canMerge : Node → Bool
  | .mapping _ entries => canMergeAll entries
  | .sequence _ items => canMergeItems items
  | .cycle isMapping => isMapping
  | .scalar _ _ => false

/-- Whether nodes are mappings all of whose merge keys are in order. -/
def canMergeItems : List Node → Bool
  | [] => true
  | .mapping _ entries :: rest => canMergeAll entries && canMergeItems rest
  | .cycle isMapping :: rest => isMapping && canMergeItems rest
  | _ :: _ => false

end

/-- All entries of a mapping, the merged ones first. -/
def allEntries (entries : List (Node × Node)) (merged own : Making (List (Value × Value))) :
    Making (List (Value × Value)) :=
  if canMergeAll entries then (· ++ ·) <$> merged <*> own else .now malformed

mutual

/-- The value of a node. -/
def value : Node → Making Value
  | .scalar kind text => if isScalarKind kind then .now (scalar kind text) else mismatch kind
  | .cycle isMapping => pure (.cycle isMapping)
  | .sequence kind items =>
    match kind with
    | .seq => .later (.list <$> values items)
    | .omap | .pairs => .later (.list <$> pairs items)
    | _ => mismatch kind
  | .mapping kind entries =>
    match kind with
    | .map => .later ((fun all => .map (table all))
        <$> allEntries entries (mergedEntries entries) (ownEntries entries))
    | .set => .later ((fun all => .set ((table all).map (·.1)))
        <$> allEntries entries (mergedEntries entries) (ownEntries entries))
    | _ =>
      match defaultEntry entries with
      | some text =>
        if kind = .timestamp then .now (.error .wrongType)
        else if isScalarKind kind then .now (scalar kind text)
        else mismatch kind
      | none => mismatch kind

/-- The values of nodes in order. -/
def values : List Node → Making (List Value)
  | [] => pure []
  | n :: ns => List.cons <$> value n <*> values ns

/-- The pairs that mappings of one entry each make. -/
def pairs : List Node → Making (List Value)
  | [] => pure []
  | n :: ns => List.cons <$> pair n <*> pairs ns

/-- The pair that a mapping of one entry makes. -/
def pair : Node → Making Value
  | .mapping _ [(k, v)] => (fun key val => .tuple [key, val]) <$> value k <*> value v
  | _ => .now malformed

/-- The entries that merge keys bring. -/
def mergedEntries : List (Node × Node) → Making (List (Value × Value))
  | [] => pure []
  | (k, v) :: rest =>
    if isMerge k then (· ++ ·) <$> brought v <*> mergedEntries rest else mergedEntries rest

/-- The entries that a mapping brings where it is merged, or a list of mappings, of which the
first counts most. -/
def brought : Node → Making (List (Value × Value))
  | .mapping _ entries => allEntries entries (mergedEntries entries) (ownEntries entries)
  | .sequence _ items => broughtByItems items
  | _ => pure []

/-- The entries that each of several nodes brings, the last first. -/
def broughtByItems : List Node → Making (List (Value × Value))
  | [] => pure []
  | n :: ns => (· ++ ·) <$> broughtByItems ns <*> brought n

/-- The entries of a mapping apart from its merge keys. -/
def ownEntries : List (Node × Node) → Making (List (Value × Value))
  | [] => pure []
  | (k, v) :: rest =>
    if isMerge k then ownEntries rest
    else
      let key := match k with
        | .scalar .value text => .now (scalar .str text)
        | k => checkedKey (value k)
      (fun key val more => (key, val) :: more) <$> key <*> value v <*> ownEntries rest

end

end Construct

/-- The value of a document; a text without one is null. Where numbers are kept as text, a plain
scalar that looks like a number is text. -/
def read (numbers : Bool) (text : List Char) : Reading Value := do
  match ← Node.ofTokens numbers (← tokens text) with
  | some n => (Construct.value n).toReading
  | none => return .null

/-- The value of a document, for those who may also refuse it. -/
def load (numbers : Bool) (text : List Char) : Outcome Value :=
  (read numbers text).mapError .breakage

end AppBroker.Yaml
