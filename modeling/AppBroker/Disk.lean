import AppBroker.Error
import AppBroker.Table
import AppBroker.Text.Encoding

/-!
# The disk

A disk maps paths to files, directories and symbolic links. A path is the list of names from the
top, and the top itself is always a directory. Places outside of the top are told apart by a first
name that no file has. Operations find their place by walking a path name
by name, following links on the way; what they do there is stated by prefixes, so that copying,
moving and removing a tree leave every path outside of it alone.
-/

namespace AppBroker

/-- Names from the top of the disk. -/
abbrev Path := List String

namespace Path

/-- How the top of the disk is shown. -/
def top : String := "<root>"

/-- The first name of places by their way from the very top. -/
def farTop : String := "/"

/-- The first name of places by their way from wherever work goes on. -/
def workplace : String := "./"

/-- A path as it is shown. -/
def text : Path → String
  | [] => top
  | first :: names =>
    let way := "/".intercalate names
    if first = farTop then farTop ++ way
    else if first = workplace then (if names.isEmpty then "." else way)
    else "/".intercalate (top :: first :: names)

/-- The path that a relative text names; empty names and single dots count for nothing. -/
def ofText (s : String) : Path :=
  ((s.toList.splitOn '/').map String.ofList).filter fun name => name ≠ "" && name ≠ "."

/-- The path that a shown text names. -/
def ofShown (s : String) : Path :=
  if s.toList.head? = some '/' then farTop :: ofText s
  else match ofText s with
    | [] => [workplace]
    | first :: names => if first = top then names else workplace :: first :: names

/-- The last name. -/
def name (p : Path) : String := p.getLast?.getD ""

/-- The path without its last name. -/
def parent (p : Path) : Path := p.dropLast

end Path

/-- What a path leads to. -/
inductive Entry where
  | file (data : List UInt8)
  | directory
  | link (target : String)
  deriving DecidableEq, Repr

/-- Why the disk refuses. -/
inductive DiskFault where
  | absent | notDirectory | isDirectory | exists | notEmpty | nameTooLong | tooManyLinks | badName
  | outside
  deriving DecidableEq, Repr

namespace DiskFault

/-- How a fault ends an operation. -/
def breakage : DiskFault → Breakage
  | badName => .badValue
  | _ => .fileSystem

/-- Whether a fault only means that nothing is there. -/
def meansAbsent : DiskFault → Bool
  | absent | notDirectory | tooManyLinks | badName | outside => true
  | _ => false

end DiskFault

/-- A disk, by path. -/
structure Disk where
  entries : Table Path Entry := []
  deriving Repr

namespace Disk

/-- The answer of the disk. -/
abbrev Answer (α : Type) := Except DiskFault α

/-- What lies at a path, no link followed. -/
def entry? (d : Disk) (p : Path) : Option Entry :=
  if p = [] then some .directory else d.entries.get? p

/-- The longest name in bytes. -/
def maxName : Nat := 255

/-- Walks names from a directory; the last name need not exist, and if it is a link it is
followed on request. The bound is on the number of names and links. -/
def walk (d : Disk) (follow : Bool) : Nat → Path → List String → Answer Path
  | _, here, [] => .ok here
  | 0, _, _ => .error .tooManyLinks
  | fuel + 1, here, name :: rest =>
    match d.entry? here with
    | some .directory =>
      if name = "" || name = "." then d.walk follow fuel here rest
      else if name = ".." then
        if here = [] then .error .outside else d.walk follow fuel here.parent rest
      else if maxName < name.utf8ByteSize then .error .nameTooLong
      else
        let child := here ++ [name]
        match d.entry? child with
        | some (.link target) =>
          if rest = [] && !follow then .ok child
          else if target.toList.head? = some '/' then .error .outside
          else d.walk follow fuel here ((target.toList.splitOn '/').map String.ofList ++ rest)
        | some _ => d.walk follow fuel child rest
        | none => if rest = [] then .ok child else .error .absent
    | some _ => .error .notDirectory
    | none => .error .absent

/-- Finds the place of a path. -/
def locate (d : Disk) (p : Path) (follow : Bool := true) : Answer Path :=
  if p.any fun name => '\x00' ∈ name.toList then .error .badName
  else d.walk follow (p.length + 1000) [] p

/-- What a path leads to, links followed. -/
def stat (d : Disk) (p : Path) : Answer Entry := do
  match d.entry? (← d.locate p) with
  | some e => return e
  | none => .error .absent

/-- Whether a test holds of what a path leads to; some faults are reported, and the others mean
that nothing is there. -/
def test (d : Disk) (p : Path) (holds : Entry → Bool) : Outcome Bool :=
  match d.stat p with
  | .ok e => .ok (holds e)
  | .error fault => if fault.meansAbsent then .ok false else fail fault.breakage

/-- Whether a path leads to anything. -/
def exists? (d : Disk) (p : Path) : Outcome Bool := d.test p fun _ => true

/-- Whether a path leads to a directory. -/
def isDirectory (d : Disk) (p : Path) : Outcome Bool := d.test p (· = .directory)

/-- Whether a path leads to a file. -/
def isFile (d : Disk) (p : Path) : Outcome Bool := d.test p fun
  | .file _ => true
  | _ => false

/-- Lets a fault end an operation. -/
def orBreak {α : Type} : Answer α → Outcome α
  | .ok a => .ok a
  | .error fault => fail fault.breakage

/-- The name of a path's entry in a directory, if it lies directly in it. -/
def childName? (dir p : Path) : Option String :=
  if p ≠ [] && p.parent = dir then some p.name else none

/-- The names in a directory that was found. -/
def names (d : Disk) (dir : Path) : List String :=
  d.entries.keys.filterMap (childName? dir)

/-- The names in a directory. -/
def list (d : Disk) (p : Path) : Answer (List String) := do
  let dir ← d.locate p
  match d.entry? dir with
  | some .directory => return d.names dir
  | some _ => .error .notDirectory
  | none => .error .absent

/-- The bytes of a file. -/
def read (d : Disk) (p : Path) : Answer (List UInt8) := do
  match ← d.stat p with
  | .file data => return data
  | .directory => .error .isDirectory
  | .link _ => .error .tooManyLinks

/-- The text of a file. -/
def readText (d : Disk) (p : Path) : Outcome (List Char) := do
  let data ← orBreak (d.read p)
  match Text.decode? data with
  | some cs => return Text.unifyLineEnds cs
  | none => fail .badValue

/-- Puts an entry at a place that was found. -/
def put (d : Disk) (p : Path) (e : Entry) : Disk := ⟨d.entries.insert p e⟩

/-- Writes a file. -/
def write (d : Disk) (p : Path) (data : List UInt8) : Answer Disk := do
  let place ← d.locate p
  match d.entry? place with
  | some .directory => .error .isDirectory
  | _ => return d.put place (.file data)

/-- Makes one directory. -/
def makeDirectory (d : Disk) (p : Path) : Answer Disk := do
  let place ← d.locate p false
  match d.entry? place with
  | some _ => .error .exists
  | none => return d.put place .directory

/-- Makes the directories of a path that are missing, after those that lead to it. -/
def makeDirectoriesFrom (d : Disk) (lead : Path) : List String → Answer Disk
  | [] => .ok d
  | name :: rest => do
    let here := lead ++ [name]
    let d ← match d.stat here with
      | .ok .directory => pure d
      | .ok _ => .error .exists
      | .error .absent => d.makeDirectory here
      | .error fault => .error fault
    d.makeDirectoriesFrom here rest

/-- Makes all directories of a path. -/
def makeDirectories (d : Disk) (p : Path) : Answer Disk :=
  if p.any fun name => '\x00' ∈ name.toList then .error .badName
  else d.makeDirectoriesFrom [] p

/-- Makes a symbolic link. -/
def makeLink (d : Disk) (p : Path) (target : String) : Answer Disk := do
  let place ← d.locate p false
  match d.entry? place with
  | some _ => .error .exists
  | none => return d.put place (.link target)

/-- Whether a path lies at or below another. -/
def isWithin (tree p : Path) : Bool := tree.isPrefixOf p

/-- Takes away everything at or below a place. -/
def cut (d : Disk) (tree : Path) : Disk :=
  ⟨d.entries.filter fun e => !isWithin tree e.1⟩

/-- Everything at or below a place, by the path from there. -/
def subtree (d : Disk) (tree : Path) : Table Path Entry :=
  d.entries.filterMap fun e =>
    if isWithin tree e.1 then some (e.1.drop tree.length, e.2) else none

/-- What lies below a place, by the shown path from there, sorted. -/
def listing (d : Disk) (tree : Path) : Table String Entry :=
  let below := (d.subtree tree).filter (·.1 ≠ [])
  (below.map fun e => ("/".intercalate e.1, e.2)).mergeSort fun a b => Text.le a.1 b.1

/-- Puts a tree at a place. -/
def graft (d : Disk) (place : Path) (tree : Table Path Entry) : Disk :=
  ⟨tree.foldl (fun t e => t.insert (place ++ e.1) e.2) d.entries⟩

/-- Moves a file, a link or a tree to a place where nothing is, or in place of an empty directory
or of a file. -/
def move (d : Disk) (source target : Path) : Answer Disk := do
  let source ← d.locate source false
  let some moved := d.entry? source | .error .absent
  let target ← d.locate target false
  if source = [] || (isWithin source target && source ≠ target) then .error .outside
  else
    match d.entry? target, moved with
    | some .directory, .directory =>
      if d.names target = [] then return (d.cut source).graft target (d.subtree source)
      else .error .notEmpty
    | some .directory, _ => .error .isDirectory
    | some _, .directory => .error .notDirectory
    | _, _ => return (d.cut source).graft target (d.subtree source)

/-- Removes an empty directory. -/
def removeDirectory (d : Disk) (p : Path) : Answer Disk := do
  let place ← d.locate p false
  match d.entry? place with
  | some .directory => if d.names place = [] then return d.cut place else .error .notEmpty
  | some _ => .error .notDirectory
  | none => .error .absent

/-- Removes a directory and everything below it. -/
def removeTree (d : Disk) (p : Path) : Answer Disk := do
  let place ← d.locate p false
  match d.entry? place with
  | some .directory => return d.cut place
  | some _ => .error .notDirectory
  | none => .error .absent

/-- Removes whatever is at a path. -/
def remove (d : Disk) (p : Path) : Answer Disk := do
  let place ← d.locate p false
  match d.entry? place with
  | some _ => return d.cut place
  | none => .error .absent

/-- Copies a directory and everything below it, links as links, to a place where nothing is. -/
def copyTree (d : Disk) (source target : Path) : Answer Disk := do
  let source ← d.locate source
  match d.entry? source with
  | some .directory =>
    let target ← d.locate target false
    if isWithin source target then .error .nameTooLong
    else if (d.entry? target).isSome then .error .exists
    else return (d.put target .directory).graft target ((d.subtree source).filter (·.1 ≠ []))
  | some _ => .error .notDirectory
  | none => .error .absent

end Disk

end AppBroker
