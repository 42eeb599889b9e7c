import AppBroker.Archive.Gzip
import AppBroker.Archive.Tar
import AppBroker.Archive.Zip
import AppBroker.Disk.Update

/-!
# Archives

An archive is told by the end of its name and unpacked below a directory, member by member. Zip
entries that would leave the directory are passed over. Members of a tape archive go where they are
named, which need not be below the directory.
-/

namespace AppBroker.Archive

/-- The kinds of archives. -/
inductive Format where
  | zip | tape
  deriving DecidableEq, Repr

/-- The ends of names that tell a kind. -/
def suffixes : List (String × Format) :=
  [(".zip", .zip), (".tar", .tape), (".tar.gz", .tape), (".tgz", .tape), (".tar.bz2", .tape),
   (".tbz2", .tape), (".tar.xz", .tape), (".txz", .tape)]

/-- The kind that a name tells. -/
def formatOf? (name : String) : Option Format :=
  (suffixes.find? fun (suffix, _) => suffix.toList.isSuffixOf name.toList).map (·.2)

/-- The places below a directory that a name with slashes leads through. -/
def namesOf (name : String) : List String :=
  ((name.toList.splitOn '/').map String.ofList).filter (· ≠ "")

/-- Makes the directories of a path unless something is there. A path that ends with a step back
is there as soon as it can be made. -/
def ensure (p : Path) : Action Disk Unit := fun d =>
  match d.exists? p with
  | .error e => (.error e, d)
  | .ok true => (.ok (), d)
  | .ok false =>
    let (made, d) := Disk.update (·.makeDirectories p) d
    (if p.getLast? = some ".." then fail .fileSystem else made, d)

/-- Whether an entry of a zip archive stays below the directory. -/
def staysBelow (name : String) : Bool :=
  let cs := name.toList
  cs.head? ≠ some '/' && !(cs.zip (cs.drop 1)).any fun pair => pair = ('.', '.')

/-- The entry that bytes are taken from: the last one of a name. -/
def entryNamed (entries : List Zip.Entry) (e : Zip.Entry) : Zip.Entry :=
  (entries.reverse.find? (·.name = e.name)).getD e

/-- Makes the directories of a path; the path may be that of a directory already. -/
def ensureDirectory (p : Path) : Action Disk Unit := fun d =>
  match d.isDirectory p with
  | .error e => (.error e, d)
  | .ok true => (.ok (), d)
  | .ok false => Disk.update (·.makeDirectories p) d

/-- Takes entries out of a zip archive. -/
def takeEntries (data : List UInt8) (base : Path) (all : List Zip.Entry) :
    List Zip.Entry → Action Disk Unit
  | [] => pure ()
  | e :: rest => do
    if staysBelow e.name then
      let names := namesOf e.name
      let isDirectory := e.name.toList.getLast? = some '/'
      ensureDirectory (base ++ if isDirectory then names else names.dropLast)
      if !isDirectory then
        let e := entryNamed all e
        let packed ← Zip.packedBytes data e
        Disk.update (·.write (base ++ names) [])
        Disk.update (·.write (base ++ names) (← Zip.unpacked e packed))
    takeEntries data base all rest

/-- Where a member of a tape archive goes, and the directory that leads there. A name from the top
is out of reach. -/
def memberPlace (base : Path) (name : String) : Disk.Answer (Path × Path) :=
  if name.toList.head? = some '/' then .error .outside
  else
    let names := namesOf name
    if names.isEmpty then .ok (base.parent, base) else .ok (base ++ names.dropLast, base ++ names)

/-- Makes a directory unless one is there. -/
def makeDirectory (p : Path) : Action Disk Unit :=
  Disk.update fun d => match d.makeDirectory p, d.stat p with
    | .error .exists, .ok .directory => .ok d
    | answer, _ => answer

/-- Makes a symbolic link in place of what is there, unless that is a directory. -/
def makeLink (p : Path) (target : String) : Action Disk Unit :=
  Disk.update fun d => do
    let place ← d.locate p false
    match d.entry? place with
    | some .directory => .error .isDirectory
    | some _ => (d.cut place).makeLink p target
    | none => d.makeLink p target

/-- Makes a second name for a file or a link. -/
def makeSecondName (source place : Path) : Action Disk Unit :=
  Disk.update fun d => do
    let source ← d.locate source false
    let place ← d.locate place false
    match d.entry? source, d.entry? place with
    | none, _ => .error .absent
    | some .directory, _ => .error .isDirectory
    | _, some _ => .error .exists
    | some e, none => return d.put place e

/-- Makes a place where nothing can be read. -/
def makeSpecial (p : Path) : Action Disk Unit :=
  Disk.update fun d => do
    let place ← d.locate p false
    if (d.entry? place).isSome then .error .exists
    return d.put place (.file [])

/-- A name with its single dots and steps back carried out. -/
def plainNames (name : String) : List String :=
  (namesOf name).foldl (fun done part =>
    if part = "." then done
    else if part = ".." then
      if done.getLast?.all (· = "..") then done ++ [part] else done.dropLast
    else done ++ [part]) []

/-- The names that lead from the top of the archive to what a link member stands for, and whether
only members before it are meant. -/
def linkNames? (m : Tar.Member) : Option (List String × Bool) :=
  match m.kind with
  | .symbolicLink target =>
    let lead := "/".intercalate (namesOf m.name).dropLast
    some (plainNames (if lead = "" then target else lead ++ "/" ++ target), false)
  | .hardLink target => some (plainNames target, true)
  | _ => none

/-- Takes out a member at a place. A link that cannot be made stands for the member it names, if
there is one; a second name for a file that is not there must name one. `before` has the members
before it, the last first, and `all` all of them. The fuel bounds how many links are followed. -/
def takeMember (base : Path) (failure : Option Breakage) (all : List Tar.Member)
    (lead place : Path) : Nat → List Tar.Member → Tar.Member → Action Disk Unit
  | 0, _, _ => Action.ofOutcome (fail .tooDeep)
  | fuel + 1, before, m => do
    ensure lead
    let named : Option (Tar.Member × List Tar.Member) :=
      (linkNames? m).bind fun (names, isEarlier) =>
        let candidates := if isEarlier then before else all.reverse
        match candidates.dropWhile fun other => plainNames other.name ≠ names with
        | [] => none
        | found :: earlier => some (found, earlier)
    let fallBack (absence : Action Disk Unit) : Action Disk Unit :=
      match failure, named with
      | some why, _ => Action.ofOutcome (fail why)
      | none, some (found, earlier) => takeMember base failure all lead place fuel earlier found
      | none, none => absence
    let orFallBack (make : Action Disk Unit) : Action Disk Unit := do
      match ← make.outcome with
      | .ok () => return
      | .error _ => fallBack (return)
    match m.kind with
    | .file data =>
      Disk.update (·.write place [])
      Disk.update (·.write place (← data))
    | .directory => makeDirectory place
    | .special => makeSpecial place
    | .symbolicLink target => orFallBack (makeLink place target)
    | .hardLink target =>
      let source := base ++ namesOf target
      if ← Disk.look (·.exists? source) then orFallBack (makeSecondName source place)
      else fallBack (Action.ofOutcome (fail .missingKey))

/-- Takes members out of a tape archive, after those that were taken out before, the last first. -/
def takeMembers (base : Path) (failure : Option Breakage) (all before : List Tar.Member) :
    List Tar.Member → Action Disk Unit
  | [] => pure ()
  | m :: rest => do
    let (lead, place) ← Disk.orBreak (memberPlace base m.name)
    takeMember base failure all lead place (all.length + 1) before m
    takeMembers base failure all (m :: before) rest

/-- Opens a tape archive, packed or not. -/
def openTape (data : List UInt8) : Outcome (Option Tar.Contents) := do
  if [0x1f, 0x8b].isPrefixOf data then
    match ← Tar.open? (Gzip.unpack data).inPieces with
    | some contents => return some contents
    | none => Tar.open? (.ofBytes data)
  else Tar.open? (.ofBytes data)

/-- Refuses a file that is no archive. -/
def refuseArchive {α : Type} (shown reason : String) : Outcome α :=
  refuse (.manifest (.unsupportedArchive shown reason))

/-- Unpacks an archive below a directory; `shown` is how its place is shown. -/
def unpack (shown name : String) (data : List UInt8) (base : Path) : Action Disk Unit := do
  match formatOf? name with
  | none => Action.ofOutcome (refuseArchive shown ("Unknown archive format '" ++ shown ++ "'"))
  | some .zip =>
    if !Zip.isZip data then
      Action.ofOutcome (refuseArchive shown (shown ++ " is not a zip file"))
    let entries ← Zip.entries data
    takeEntries data base entries entries
  | some .tape =>
    match ← openTape data with
    | none =>
      Action.ofOutcome
        (refuseArchive shown (shown ++ " is not a compressed or uncompressed tar file"))
    | some contents =>
      takeMembers base contents.failure contents.members [] contents.members
      match contents.failure with
      | some why => Action.ofOutcome (fail why)
      | none => pure ()

end AppBroker.Archive
