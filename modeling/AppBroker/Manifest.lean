import AppBroker.Disk
import AppBroker.Plugin
import AppBroker.Yaml.Construct

/-!
# Plugin manifests

A plugin directory has its manifest at the top, or inside the only directory at the top whose name
does not start with a dot. The manifest is a YAML mapping in which numbers are kept as text, so
that the version `1.10` stays what it is. Where the plugin lies is not for the manifest to say.
-/

namespace AppBroker.Manifest

/-- The name of a manifest. -/
def fileName : String := "manifest.yml"

/-- Whether a name is hidden. -/
def isHidden (name : String) : Bool := name.toList.head? = some '.'

/-- Finds the manifest of a directory. -/
def find (d : Disk) (dir : Path) : Outcome Path := do
  if ← d.isFile (dir ++ [fileName]) then return dir ++ [fileName]
  let names ← Disk.orBreak (d.list dir)
  match names.filter fun name => !isHidden name with
  | [only] =>
    if ← d.isDirectory (dir ++ [only]) then
      if ← d.isFile (dir ++ [only, fileName]) then return dir ++ [only, fileName]
  | _ => pure ()
  refuse (.manifest (.absent dir.text))

/-- Reads a plugin from the characters of its manifest. -/
def ofText (path : Path) (cs : List Char) : Outcome Plugin :=
  match Yaml.load false cs with
  | .error (.breakage .malformedYaml) => refuse (.manifest (.malformed path.text))
  | .error e => .error e
  | .ok (.map entries) =>
    let entries := Value.erase (Value.erase entries "namespace") "path"
    if !Value.hasTextKeys entries then fail .wrongType
    else match Plugin.ofFields entries with
      | .fit p => .ok { p with path := path.parent.text }
      | .unfit issues => refuse (.manifest (.unfit path.text issues))
  | .ok _ => refuse (.manifest (.notAMapping path.text))

/-- Reads the plugin in a directory. -/
def read (d : Disk) (dir : Path) : Outcome Plugin := do
  let path ← find d dir
  ofText path (← d.readText path)

end AppBroker.Manifest
