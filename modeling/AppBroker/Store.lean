import AppBroker.Clock
import AppBroker.Disk
import AppBroker.Record
import AppBroker.Yaml.Codec

/-!
# The record store

Records are kept in one YAML file for each tenant, under the names of their applications. Reading a
file gives its records in the order in which they stand; a record without a time takes it from the
clock. Writing replaces the file as a whole, records sorted by name: it is first written under
another name, which must be a possible one, and then put in place.
-/

namespace AppBroker.Store

/-- The file of a tenant; a tenant that starts with a slash has it outside of the store. -/
def file (root : Path) (tenant : String) : Path :=
  let names := ((tenant ++ ".yaml").toList.splitOn '/').map String.ofList
  if tenant.toList.head? = some '/' then Path.farTop :: names else root ++ names

/-- The name under which the file of a tenant is first written. -/
def draftName (tenant : String) : String := "." ++ tenant ++ "-xxxxxxxx.yaml"

/-- The fields of a stored record with the name put in front. They must be a mapping with text keys
and no name. -/
def fieldsOf (name : Value) : Value → Outcome (List (Value × Value))
  | .map entries =>
    if Value.hasTextKeys entries && (Value.get? entries "name").isNone then
      .ok ((.text "name", name) :: entries)
    else fail .wrongType
  | _ => fail .wrongType

/-- Reads stored records one by one. -/
def readRecords (clock : Clock) : List (Value × Value) → Outcome (Table String Record) × Clock
  | [] => (.ok [], clock)
  | (name, value) :: rest =>
    match fieldsOf name value with
    | .error e => (.error e, clock)
    | .ok fields =>
      let later := if Record.needsClock fields then clock.afterNow else clock
      match Record.ofFields clock.moment fields with
      | .unfit issues => (fail (.unfit issues), later)
      | .fit r =>
        match readRecords later rest with
        | (.error e, clock) => (.error e, clock)
        | (.ok records, clock) => (.ok ((r.name, r) :: records), clock)

/-- The mapping under the key of applications; nothing stands for none. -/
def applications (v : Value) : Outcome (List (Value × Value)) :=
  if !v.isTruthy then .ok []
  else match v with
    | .map entries =>
      match (Value.get? entries "applications").getD .null with
      | .map records => .ok records
      | other => if other.isTruthy then fail .missingPart else .ok []
    | _ => fail .missingPart

/-- The records of a tenant. -/
def load (codec : Yaml.Codec) (d : Disk) (root : Path) (clock : Clock) (tenant : String) :
    Outcome (Table String Record) × Clock :=
  let p := file root tenant
  let stored : Outcome (List (Value × Value)) := do
    if !(← d.exists? p) then return []
    applications (← codec.load (← d.readText p))
  match stored with
  | .error e => (.error e, clock)
  | .ok entries => readRecords clock entries

/-- A record as it is written under its name. -/
def entryDocument (entry : String × Record) : String × Yaml.Document :=
  (entry.1, .map [("plugins", .list (entry.2.plugins.map .text)),
    ("scaling", .number entry.2.scaling), ("created_at", .text entry.2.createdAt.toText)])

/-- Records as they are written. -/
def toDocument (records : Table String Record) : Yaml.Document :=
  .map [("applications",
    .map ((records.mergeSort fun a b => Text.le a.1 b.1).map entryDocument))]

/-- Whether the file of a tenant can be drafted. -/
def checkDraft (d : Disk) (root : Path) (tenant : String) : Outcome Unit := do
  let names := ((draftName tenant).toList.splitOn '/').map String.ofList
  let _ ← Disk.orBreak (d.write (root ++ names) [])
  return ()

/-- Writes the records of a tenant. -/
def save (codec : Yaml.Codec) (d : Disk) (root : Path) (tenant : String)
    (records : Table String Record) : Outcome Disk := do
  checkDraft d root tenant
  let place ← Disk.orBreak (d.locate (file root tenant) false)
  if d.entry? place = some .directory then fail .fileSystem
  return d.put place (.file (Text.encode (codec.print (toDocument records))))

/-- The records after one more is added. -/
def withNew (tenant : String) (r : Record) (records : Table String Record) :
    Outcome (Table String Record) :=
  if records.contains r.name then refuse (.applicationExists r.name tenant)
  else .ok (records.insert r.name r)

/-- The records after one is replaced. -/
def withChanged (tenant : String) (r : Record) (records : Table String Record) :
    Outcome (Table String Record) :=
  if records.contains r.name then .ok (records.insert r.name r)
  else refuse (.applicationAbsent r.name tenant)

/-- The records after one is removed. -/
def without (tenant name : String) (records : Table String Record) :
    Outcome (Table String Record) :=
  if records.contains name then .ok (records.erase name)
  else refuse (.applicationAbsent name tenant)

/-- Records sorted by name. -/
def sorted (records : Table String Record) : List Record :=
  (records.mergeSort fun a b => Text.le a.1 b.1).map (·.2)

/-- The end of the name of a tenant's file. -/
def suffix : String := ".yaml"

/-- The tenant that a name is the file of, if it is one. -/
def tenantOf? (name : String) : Option String :=
  let cs := name.toList
  if suffix.toList.isSuffixOf cs && cs.head? ≠ some '.' then
    some (String.ofList (cs.take (cs.length - suffix.length)))
  else none

/-- The tenants that have a file, sorted. -/
def tenants (d : Disk) (root : Path) : Outcome (List String) := do
  if !(← d.isDirectory root) then return []
  let names ← Disk.orBreak (d.list root)
  return (names.filterMap tenantOf?).mergeSort Text.le

end AppBroker.Store
