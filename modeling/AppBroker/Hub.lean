import AppBroker.Manifest
import AppBroker.Tag
import AppBroker.Version

/-!
# The plugin hub

Installed plugins lie on disk by scope, name and version. The scope is a tenant, or the system
scope under a name that starts with a dot, which no tenant's does. Reading the hub looks at nothing
but the disk: a tag without a version means the latest one that is installed.
-/

namespace AppBroker.Hub

/-- The directory of the system scope. -/
def systemScope : String := ".system"

/-- The directory in which installations are prepared. -/
def stagingName : String := ".staging"

/-- Whether a text can name a directory of its own: not empty, no separators, not hidden. -/
def isComponent (value : String) : Bool :=
  value ≠ "" && !(value.toList.any fun c => c = '/' || c = '\\') && !Manifest.isHidden value

/-- Refuses a text that cannot name a directory of its own. -/
def checkComponent (what value : String) : Outcome Unit :=
  if isComponent value then .ok () else refuse (.invalid (.component what value))

/-- The directory of a scope. -/
def scopePath (root : Path) (tenant : String) : Outcome Path := do
  if tenant = "" then return root ++ [systemScope]
  checkComponent "namespace" tenant
  return root ++ [tenant]

/-- The directory of a plugin, with a directory in it for each version. -/
def pluginPath (root : Path) (tenant name : String) : Outcome Path := do
  let scope ← scopePath root tenant
  checkComponent "plugin name" name
  return scope ++ [name]

/-- Keeps the names of directories in a directory that are not hidden. -/
def visibleDirectories (d : Disk) (base : Path) : List String → Outcome (List String)
  | [] => .ok []
  | name :: names => do
    let isDirectory ← d.isDirectory (base ++ [name])
    let rest ← visibleDirectories d base names
    return if isDirectory && !Manifest.isHidden name then name :: rest else rest

/-- The installed versions in a plugin's directory. -/
def versionsIn (d : Disk) (base : Path) : Outcome (List String) := do
  visibleDirectories d base (← Disk.orBreak (d.list base))

/-- The directory of the version that a tag denotes. -/
def find (d : Disk) (root : Path) (tag : Tag) : Outcome Path := do
  let base ← pluginPath root tag.tenant tag.name
  if !(← d.isDirectory base) then refuse (.pluginAbsent tag.qualifiedName)
  let versions ← versionsIn d base
  if versions.isEmpty then refuse (.pluginAbsent tag.qualifiedName)
  match ← Version.select versions tag.version with
  | none => refuse (.versionAbsent tag.qualifiedName tag.version)
  | some version => return base ++ [version]

/-- The plugin that a tag denotes. -/
def plugin (d : Disk) (root : Path) (tag : Tag) : Outcome Plugin := do
  let path ← find d root tag
  return { ← Manifest.read d path with tenant := tag.tenant }

/-- A result together with the warnings given on the way to it. -/
structure Warned (α : Type) where
  warnings : List String
  result : Outcome α

/-- The plugin of the first version whose manifest can be read; each one that cannot is skipped
with a warning. -/
def firstReadable (d : Disk) (base : Path) : List String → Warned (Option Plugin)
  | [] => ⟨[], .ok none⟩
  | version :: rest =>
    match Manifest.read d (base ++ [version]) with
    | .ok p => ⟨[], .ok (some p)⟩
    | .error (.refusal (.manifest flaw)) =>
      let later := firstReadable d base rest
      ⟨("Skipping plugin " ++ base.name ++ "/" ++ version ++ ": " ++ flaw.message)
        :: later.warnings, later.result⟩
    | .error e => ⟨[], .error e⟩

/-- The plugin in a directory, at its latest readable version. -/
def latestIn (d : Disk) (base : Path) : Warned (Option Plugin) :=
  match versionsIn d base >>= Version.sortDescending with
  | .ok versions => firstReadable d base versions
  | .error e => ⟨[], .error e⟩

/-- The plugins in directories of a scope. -/
def pluginsIn (d : Disk) (scope : Path) (tenant : String) (category : Option Category) :
    List String → Warned (List Plugin)
  | [] => ⟨[], .ok []⟩
  | name :: names =>
    match d.isDirectory (scope ++ [name]) with
    | .error e => ⟨[], .error e⟩
    | .ok isDirectory =>
      if !isDirectory || Manifest.isHidden name then pluginsIn d scope tenant category names
      else
        let first := latestIn d (scope ++ [name])
        match first.result with
        | .error e => ⟨first.warnings, .error e⟩
        | .ok found =>
          let rest := pluginsIn d scope tenant category names
          let kept := (found.filter fun p => category.all (p.category = ·)).map
            fun p => { p with tenant := tenant }
          ⟨first.warnings ++ rest.warnings, rest.result.map (kept.toList ++ ·)⟩

/-- The plugins of a scope, each at its latest readable version; with a category, those of it. -/
def list (d : Disk) (root : Path) (tenant : String) (category : Option Category) :
    Warned (List Plugin) :=
  let names : Outcome (Path × List String) := do
    let scope ← scopePath root tenant
    if !(← d.isDirectory scope) then return (scope, [])
    return (scope, ← Disk.orBreak (d.list scope))
  match names with
  | .ok (scope, names) => pluginsIn d scope tenant category names
  | .error e => ⟨[], .error e⟩

end AppBroker.Hub
