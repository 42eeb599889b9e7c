import AppBroker.Error

/-!
# Plugin tags

A tag refers to an installed plugin. Its written form is `[service:][namespace/]name[:version]`;
without a namespace the service form keeps its last colon, `service:name:version`, so that the
version may be empty. `Tag.format` writes a tag and `Tag.parse` reads it back: the slash is split
off first, then the colons on each side. Nothing is normalised, neither case nor blanks.
-/

namespace AppBroker

/-- A reference to an installed plugin. An empty tenant means the system scope, an empty version
the latest one, an empty service the framework slot. -/
structure Tag where
  name : String
  tenant : String
  version : String
  service : String
  name_ne_empty : name ≠ ""
  deriving DecidableEq

namespace Tag

/-- The written form of a tag's parts. -/
def formatParts (name tenant version service : String) : String :=
  let versioned := if version = "" then name else name ++ ":" ++ version
  if tenant ≠ "" then
    let full := tenant ++ "/" ++ versioned
    if service ≠ "" then service ++ ":" ++ full else full
  else if service ≠ "" then service ++ ":" ++ name ++ ":" ++ version
  else versioned

/-- The written form of a tag. -/
def format (t : Tag) : String :=
  formatParts t.name t.tenant t.version t.service

/-- Builds a tag from any parts; only an empty name is refused. -/
def ofParts (name tenant version service : String) : Outcome Tag :=
  if h : name = "" then
    refuse (.malformedTag (formatParts name tenant version service) (.emptyPart "plugin name"))
  else .ok ⟨name, tenant, version, service, h⟩

/-- The tenant and the name, or just the name in the system scope. -/
def qualifiedName (t : Tag) : String :=
  if t.tenant = "" then t.name else t.tenant ++ "/" ++ t.name

/-- The same plugin in another scope. -/
def withTenant (t : Tag) (tenant : String) : Tag := { t with tenant }

/-- Another version of the same plugin. -/
def withVersion (t : Tag) (version : String) : Tag := { t with version }

/-- The plugin in another slot. -/
def withService (t : Tag) (service : String) : Tag := { t with service }

/-- The plugin in the framework slot. -/
def withoutService (t : Tag) : Tag := { t with service := "" }

/-- Reads a name and, after a colon, a version. -/
def versioned (cs : List Char) : Except TagFlaw (List Char × List Char) :=
  match cs.splitOn ':' with
  | [name] => if name = [] then .error (.emptyPart "plugin name") else .ok (name, [])
  | [name, version] =>
    if name = [] then .error (.emptyPart "plugin name")
    else if version = [] then .error (.emptyPart "version")
    else .ok (name, version)
  | _ => .error .tooManyColons

/-- Reads a tenant and, before a colon, a service. The service comes first in the answer. -/
def inScope (cs : List Char) : Except TagFlaw (List Char × List Char) := do
  let (service, tenant) ← match cs.splitOn ':' with
    | [tenant] => pure ([], tenant)
    | [service, tenant] =>
      if service = [] then .error (.emptyPart "service name") else pure (service, tenant)
    | service :: _ =>
      if service = [] then .error (.emptyPart "service name") else .error .tooManyColons
    | [] => .error .tooManyColons
  if tenant = [] then .error (.emptyPart "namespace") else return (service, tenant)

/-- Reads the parts of a tag: the slash first, then the colons on each side of it. The answer is
name, tenant, version and service. -/
def split (cs : List Char) :
    Except TagFlaw (List Char × List Char × List Char × List Char) :=
  if cs = [] then .error .emptyTag
  else match cs.splitOn '/' with
    | [whole] =>
      match whole.splitOn ':' with
      | [service, name, version] =>
        if service = [] then .error (.emptyPart "service name")
        else if name = [] then .error (.emptyPart "plugin name")
        else .ok (name, [], version, service)
      | _ => do
        let (name, version) ← versioned whole
        return (name, [], version, [])
    | [head, rest] => do
      let (service, tenant) ← inScope head
      let (name, version) ← versioned rest
      return (name, tenant, version, service)
    | _ => .error .tooManySlashes

/-- Reads a written tag. -/
def parse (text : String) : Outcome Tag :=
  match split text.toList with
  | .error flaw => refuse (.malformedTag text flaw)
  | .ok (name, tenant, version, service) =>
    ofParts (String.ofList name) (String.ofList tenant) (String.ofList version)
      (String.ofList service)

end Tag

end AppBroker
