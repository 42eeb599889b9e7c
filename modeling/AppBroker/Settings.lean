import AppBroker.Disk
import AppBroker.Value.Field
import AppBroker.Yaml.Construct
import AppBroker.Yaml.Print

/-!
# Settings

The settings of the platform come from a YAML file with a section for each part. Every field has a
default, and so has the file as a whole: a missing or empty one stands for all defaults. Saving
writes every field in its section.
-/

namespace AppBroker

/-- Which container engine to use. -/
inductive EngineChoice where
  | auto | docker | podman
  deriving DecidableEq, Repr

namespace EngineChoice

/-- The word for a choice. -/
def word : EngineChoice → String
  | auto => "auto"
  | docker => "docker"
  | podman => "podman"

end EngineChoice

/-- The public URL scheme. -/
inductive PublicScheme where
  | http | https
  deriving DecidableEq, Repr

namespace PublicScheme

/-- The word for a scheme. -/
def word : PublicScheme → String
  | http => "http"
  | https => "https"

end PublicScheme

/-- The level of the log. -/
inductive LogLevel where
  | debug | info | warning | error
  deriving DecidableEq, Repr

namespace LogLevel

/-- The word for a level. -/
def word : LogLevel → String
  | debug => "DEBUG"
  | info => "INFO"
  | warning => "WARNING"
  | error => "ERROR"

end LogLevel

/-- How containers are run. -/
structure RuntimeSettings where
  engine : EngineChoice := .auto
  network : String := "cumulus"
  imageRegistry : String := "cumulus"
  stopTimeout : Int := 10
  deriving DecidableEq, Repr

/-- The names of the platform. -/
structure PlatformSettings where
  domain : String := "cumulus.local"
  scheme : PublicScheme := .http
  sshPort : Int := 2200
  deriving DecidableEq, Repr

/-- All settings. -/
structure Settings where
  hubDirectory : String := "~/.cumulus/plugins"
  proxyUrl : String := "memory://"
  runtime : RuntimeSettings := {}
  platform : PlatformSettings := {}
  storeDirectory : String := "~/.cumulus/users"
  logLevel : LogLevel := .info
  deriving DecidableEq, Repr

namespace Settings

open AppBroker.Field

/-- The words for engines. -/
def engineWords : List (String × EngineChoice) :=
  [("auto", .auto), ("docker", .docker), ("podman", .podman)]

/-- The words for public schemes. -/
def schemeWords : List (String × PublicScheme) := [("http", .http), ("https", .https)]

/-- The words for log levels. -/
def levelWords : List (String × LogLevel) :=
  [("DEBUG", .debug), ("INFO", .info), ("WARNING", .warning), ("ERROR", .error)]

/-- Reads how containers are run. -/
def runtimeOfFields (entries : List (Value × Value)) : Checked RuntimeSettings :=
  let d : RuntimeSettings := {}
  RuntimeSettings.mk <$> optional entries "engine" d.engine (choice false .notAChoice engineWords)
    <*> optional entries "network" d.network text
    <*> optional entries "image_registry" d.imageRegistry text
    <*> optional entries "stop_timeout" d.stopTimeout (integerIn 0 none)

/-- Reads the names of the platform. -/
def platformOfFields (entries : List (Value × Value)) : Checked PlatformSettings :=
  let d : PlatformSettings := {}
  PlatformSettings.mk <$> optional entries "domain" d.domain text
    <*> optional entries "scheme" d.scheme (choice false .notAChoice schemeWords)
    <*> optional entries "ssh_port" d.sshPort (integerIn 1 (some 65535))

/-- Reads the settings; unknown sections and fields are ignored. -/
def ofFields (entries : List (Value × Value)) : Checked Settings :=
  let d : Settings := {}
  let section' {α : Type} (key : String) (default : α)
      (read : List (Value × Value) → Checked α) : Checked α :=
    optional entries key default (record read)
  Settings.mk
    <$> section' "hub" d.hubDirectory (fun fs => optional fs "dir" d.hubDirectory text)
    <*> section' "proxy" d.proxyUrl (fun fs => optional fs "url" d.proxyUrl text)
    <*> section' "runtime" d.runtime runtimeOfFields
    <*> section' "platform" d.platform platformOfFields
    <*> section' "store" d.storeDirectory (fun fs => optional fs "dir" d.storeDirectory text)
    <*> section' "logging" d.logLevel
      (fun fs => optional fs "level" d.logLevel (choice false .notAChoice levelWords))

/-- The settings as they are written. -/
def toDocument (s : Settings) : Yaml.Document :=
  .map [
    ("hub", .map [("dir", .text s.hubDirectory)]),
    ("proxy", .map [("url", .text s.proxyUrl)]),
    ("runtime", .map [("engine", .text s.runtime.engine.word),
      ("network", .text s.runtime.network), ("image_registry", .text s.runtime.imageRegistry),
      ("stop_timeout", .number s.runtime.stopTimeout)]),
    ("platform", .map [("domain", .text s.platform.domain),
      ("scheme", .text s.platform.scheme.word), ("ssh_port", .number s.platform.sshPort)]),
    ("store", .map [("dir", .text s.storeDirectory)]),
    ("logging", .map [("level", .text s.logLevel.word)])]

/-- Reads settings from the characters of the file shown as `shown`. -/
def ofText (shown : String) (cs : List Char) : Outcome Settings :=
  match Yaml.load true cs with
  | .error (.breakage .malformedYaml) => refuse (.settings (.malformed shown))
  | .error e => .error e
  | .ok .null => .ok {}
  | .ok (.map entries) =>
    if !Value.hasTextKeys entries then fail .wrongType
    else match ofFields entries with
      | .fit s => .ok s
      | .unfit issues => refuse (.settings (.unfit issues))
  | .ok _ => refuse (.settings (.notAMapping shown))

/-- Reads the settings in a file. -/
def load (d : Disk) (p : Path) : Outcome Settings := do
  if !(← d.exists? p) then return {}
  match d.read p with
  | .error .badName => fail .badValue
  | .error _ => refuse (.settings (.unreadable p.text))
  | .ok data =>
    match Text.decode? data with
    | none => fail .badValue
    | some cs => ofText p.text (Text.unifyLineEnds cs)

/-- Saves the settings in a file, making the directories that lead to it. -/
def save (s : Settings) (d : Disk) (p : Path) : Outcome Disk := do
  let d ← Disk.orBreak (d.makeDirectories p.parent)
  Disk.orBreak (d.write p (Text.encode (Yaml.print s.toDocument)))

end Settings

end AppBroker
