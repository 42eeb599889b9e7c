import AppBroker.Archive
import AppBroker.Hub

/-!
# Installing and removing plugins

An installation is prepared in a staging directory: the payload is copied from a directory or
unpacked from an archive, and its manifest is read. Then the payload takes the place of whatever
was installed under the same scope, name and version, as a whole. The staging directory is gone
afterwards, however the installation ends.
-/

namespace AppBroker.Hub

/-- Makes the directory of a hub. -/
def prepare (root : Path) : Action Disk Unit := Disk.update (·.makeDirectories root)

/-- The staging directory of an installation. -/
def stagingPath (root : Path) : Path := root ++ [stagingName, "install-*"]

/-- Puts the payload of a source into the staging directory. -/
def stage (staging source : Path) : Action Disk Unit := do
  let payload := staging ++ ["payload"]
  if ← Disk.look (·.isDirectory source) then
    let manifest ← Disk.look fun d => Manifest.find d source
    Disk.update (·.copyTree manifest.parent payload)
  else
    let extracted := staging ++ ["extract"]
    let data ← Disk.look fun d => Disk.orBreak (d.read source)
    Archive.unpack source.text source.name data extracted
    let manifest ← Disk.look fun d => Manifest.find d extracted
    Disk.update (·.move manifest.parent payload)

/-- Puts the staged payload where its manifest says. -/
def place (root staging : Path) (tenant : String) : Action Disk Plugin := do
  let payload := staging ++ ["payload"]
  let staged ← Disk.look fun d => Manifest.read d payload
  checkComponent "plugin name" staged.name
  checkComponent "version" staged.version
  let base ← pluginPath root tenant staged.name
  let target := base ++ [staged.version]
  Disk.update (·.makeDirectories base)
  if ← Disk.look (·.exists? target) then Disk.update (·.move target (staging ++ ["previous"]))
  Disk.update (·.move payload target)
  let installed ← Disk.look fun d => Manifest.read d target
  return { installed with tenant }

/-- Installs a plugin from a directory or an archive. -/
def install (root : Path) (tenant : String) (source : Path) : Action Disk Plugin := do
  if !(← Disk.look (·.exists? source)) then
    Action.ofOutcome (refuse (.manifest (.noSource source.text)))
  let _ ← scopePath root tenant
  let staging := stagingPath root
  if !(← Disk.look (·.isDirectory staging.parent)) then Disk.update (·.makeDirectory staging.parent)
  Disk.update (·.makeDirectory staging)
  (do stage staging source; place root staging tenant).followedBy
    (Disk.tryUpdate (·.removeTree staging))

/-- Removes versions of a plugin, in order. -/
def removeVersions (tag : Tag) (base : Path) : List String → Action Disk Unit
  | [] => pure ()
  | version :: rest => do
    if !(← Disk.look (·.isDirectory (base ++ [version]))) then
      Action.ofOutcome (refuse (.versionAbsent tag.qualifiedName version))
    Disk.update (·.removeTree (base ++ [version]))
    removeVersions tag base rest

/-- Removes the version of a plugin that a tag names, or all of them. -/
def remove (root : Path) (tag : Tag) : Action Disk Unit := do
  let base ← pluginPath root tag.tenant tag.name
  if !(← Disk.look (·.isDirectory base)) then
    Action.ofOutcome (refuse (.pluginAbsent tag.qualifiedName))
  let installed ← Disk.look (versionsIn · base)
  if tag.version ≠ "" then
    if tag.version ∉ installed then
      Action.ofOutcome (refuse (.versionAbsent tag.qualifiedName tag.version))
    removeVersions tag base [tag.version]
  else
    let versions ← Version.sort installed
    if versions.isEmpty then Action.ofOutcome (refuse (.pluginAbsent tag.qualifiedName))
    removeVersions tag base versions
  Disk.tryUpdate (·.removeDirectory base)

end AppBroker.Hub
