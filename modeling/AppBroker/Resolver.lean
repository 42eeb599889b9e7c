import AppBroker.Hub

/-!
# Resolution

A caller sees the plugins of the own tenant, those of the system scope, and the shared ones of
other tenants. A tag that names a tenant is looked up there and nowhere else; one that names none
is looked up with the caller first and then in the system scope. What another tenant does not
share looks the same as what is not there.
-/

namespace AppBroker.Resolver

/-- The plugin that a tag denotes for a caller. -/
def resolve (d : Disk) (root : Path) (caller : String) (reference : Tag) : Outcome Plugin :=
  let tag := reference.withoutService
  if tag.tenant ≠ "" then
    let foreign := tag.tenant ≠ caller
    match Hub.plugin d root tag with
    | .error (.refusal (.versionAbsent name version)) =>
      if foreign then refuse (.pluginAbsent tag.format) else refuse (.versionAbsent name version)
    | .error e => .error e
    | .ok p => if foreign && !p.shared then refuse (.pluginAbsent tag.format) else .ok p
  else if caller ≠ "" then
    match Hub.plugin d root (tag.withTenant caller) with
    | .error (.refusal r) => if r.isAbsence then Hub.plugin d root tag else .error (.refusal r)
    | other => other
  else Hub.plugin d root tag

/-- The tag of a plugin with its tenant and version, in a slot. -/
def concreteTag (p : Plugin) (service : String) : Outcome Tag :=
  Tag.ofParts p.name p.tenant p.version service

/-- Resolves references in order, up to the first that fails; each result has the concrete tag. -/
def resolveAll (d : Disk) (root : Path) (caller : String) :
    List Tag → Outcome (List (Tag × Plugin))
  | [] => .ok []
  | tag :: tags => do
    let p ← resolve d root caller tag
    let concrete ← concreteTag p tag.service
    return (concrete, p) :: (← resolveAll d root caller tags)

/-- Resolves references that may turn out to be malformed, each read only when its turn comes. -/
def resolveEach (d : Disk) (root : Path) (caller : String) :
    List (Outcome Tag) → Outcome (List (Tag × Plugin))
  | [] => .ok []
  | reference :: rest => do
    let first ← resolveAll d root caller [← reference]
    return first ++ (← resolveEach d root caller rest)

/-- Plugins in the order of their display names; equal ones keep their places. -/
def byDisplayName (plugins : List Plugin) : List Plugin :=
  plugins.mergeSort fun p q => Text.le p.displayName q.displayName

/-- Plugins by name, those of the second list in place of those of the first. -/
def merge (base others : List Plugin) : Table String Plugin :=
  (base ++ others).foldl (fun t p => Table.insert t p.name p) []

/-- The plugins of the caller's own tenant. -/
def own (d : Disk) (root : Path) (caller : String) (category : Option Category) :
    Hub.Warned (List Plugin) :=
  if caller = "" then ⟨[], .ok []⟩
  else
    let listed := Hub.list d root caller category
    ⟨listed.warnings, listed.result.map byDisplayName⟩

/-- The plugins of the system scope, overridden and extended by the caller's own. -/
def installed (d : Disk) (root : Path) (caller : String) (category : Option Category) :
    Hub.Warned (List Plugin) :=
  let system := Hub.list d root "" category
  match system.result with
  | .error e => ⟨system.warnings, .error e⟩
  | .ok base =>
    let mine := if caller = "" then ⟨[], .ok []⟩ else Hub.list d root caller category
    ⟨system.warnings ++ mine.warnings,
      mine.result.map fun others => byDisplayName (merge base others).values⟩

end AppBroker.Resolver
