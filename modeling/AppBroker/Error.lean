/-!
# What can go wrong

A refusal is an answer of the platform's own rules: a malformed reference, a missing plugin, an
engine call that failed. It names its cause, and `Refusal.message` is its wording. A breakage is
anything else that ends an operation: a file that cannot be read, a value of the wrong type, a
peer that answers nonsense. Operations recover from refusals only; a breakage always escapes.
-/

namespace AppBroker

/-- Why a value does not fit a field. -/
inductive FieldProblem where
  | missing | notText | illFormedText | tooShort
  | notInteger | unreadableInteger | integerTooLong | fractional | notFinite
  | belowMinimum | aboveMaximum
  | notBoolean | unreadableBoolean
  | notInCategory | notAChoice
  | notAList | notATuple | notARecord
  | notAMoment | unreadableMoment | momentOutOfRange
  | refusedValue
  deriving DecidableEq, Repr

/-- A field that does not fit: the way to it from the top, and the problem. -/
structure FieldIssue where
  location : List String
  problem : FieldProblem
  deriving DecidableEq, Repr

/-- Why a text is no plugin tag. -/
inductive TagFlaw where
  | emptyTag
  | emptyPart (part : String)
  | tooManySlashes
  | tooManyColons
  | other (reason : String)
  deriving DecidableEq, Repr

/-- The wording of a flaw. -/
def TagFlaw.message : TagFlaw → String
  | .emptyTag => "empty tag"
  | .emptyPart part => "empty " ++ part
  | .tooManySlashes => "too many '/' separators"
  | .tooManyColons => "too many ':' separators"
  | .other reason => reason

/-- Why a request is invalid. -/
inductive Invalidity where
  | applicationName (name : String)
  | emptyFramework
  | scaling (target : Int)
  | scaleExpression (expr : String)
  | component (what value : String)
  | notFramework (tag : String)
  | notService (tag : String)
  | duplicateService (slot : String)
  | category (word : String)
  | other (reason : String)
  deriving DecidableEq, Repr

/-- The wording of an invalid request. -/
def Invalidity.message : Invalidity → String
  | .applicationName name =>
    "The application name can only contain lower case letters, digits or underscores, "
      ++ "and must start with a letter: '" ++ name ++ "'"
  | .emptyFramework => "The application framework cannot be empty."
  | .scaling target => "scaling must be at least 1, got " ++ toString target
  | .scaleExpression expr => "invalid scale: '" ++ expr ++ "'"
  | .component what value => "invalid " ++ what ++ ": '" ++ value ++ "'"
  | .notFramework tag => tag ++ ": not a framework plugin"
  | .notService tag => tag ++ ": not a service plugin"
  | .duplicateService slot => "duplicate service '" ++ slot ++ "'"
  | .category word => word ++ " is not a valid Category"
  | .other reason => reason

/-- Why a plugin manifest cannot be used. -/
inductive ManifestFlaw where
  | absent (directory : String)
  | malformed (path : String)
  | notAMapping (path : String)
  | unfit (path : String) (issues : List FieldIssue)
  | noSource (path : String)
  | unsupportedArchive (path reason : String)
  | other (reason : String)
  deriving DecidableEq, Repr

/-- The wording of a manifest's flaw. -/
def ManifestFlaw.message : ManifestFlaw → String
  | .absent directory => directory ++ ": manifest.yml not found"
  | .malformed path => "Invalid YAML in " ++ path ++ ": not a YAML document"
  | .notAMapping path => path ++ ": manifest must be a mapping"
  | .unfit path _ => path ++ ": manifest validation failed: some fields do not fit"
  | .noSource path => path ++ ": no such file or directory"
  | .unsupportedArchive path reason => path ++ ": unsupported plugin archive: " ++ reason
  | .other reason => reason

/-- Why a configuration file cannot be used. -/
inductive SettingsFlaw where
  | malformed (path : String)
  | unreadable (path : String)
  | notAMapping (path : String)
  | unfit (issues : List FieldIssue)
  | other (reason : String)
  deriving DecidableEq, Repr

/-- The wording of a configuration's flaw. -/
def SettingsFlaw.message : SettingsFlaw → String
  | .malformed path => "Invalid YAML in " ++ path ++ ": not a YAML document"
  | .unreadable path => "Failed to read config from " ++ path ++ ": the file cannot be read"
  | .notAMapping path => "Configuration in " ++ path ++ " must be a mapping"
  | .unfit _ => "Configuration validation failed: some fields do not fit"
  | .other reason => reason

/-- A failed call to the container engine: what was attempted, on what, and the engine's text.
`gone` tells that the engine does not know the container. -/
structure EngineFailure where
  operation : String
  message : String
  app : Option String := none
  container : Option String := none
  gone : Bool := false
  deriving DecidableEq, Repr

/-- The wording of a failed engine call; empty parts of the context are left out. -/
def EngineFailure.text (e : EngineFailure) : String :=
  let named (label : String) : Option String → List String
    | none => []
    | some value => if value = "" then [] else [label ++ "=" ++ value]
  let context := named "app" e.app ++ named "container" e.container
  let inside := if context.isEmpty then "" else " (" ++ ", ".intercalate context ++ ")"
  e.operation ++ " failed" ++ inside ++ ": " ++ e.message

/-- An answer of the platform's own rules. -/
inductive Refusal where
  | other (reason : String)
  | malformedTag (tag : String) (flaw : TagFlaw)
  | invalid (why : Invalidity)
  | absent (what : String)
  | pluginAbsent (tag : String)
  | versionAbsent (tag version : String)
  | applicationAbsent (name tenant : String)
  | applicationExists (name tenant : String)
  | noTenant (user : String)
  | manifest (flaw : ManifestFlaw)
  | engine (failure : EngineFailure)
  | routing (reason : String)
  | routingUnset
  | unknownScheme (scheme : String)
  | settings (flaw : SettingsFlaw)
  deriving DecidableEq, Repr

namespace Refusal

/-- The wording of a refusal. -/
def message : Refusal → String
  | other reason => reason
  | malformedTag tag flaw => "invalid plugin tag '" ++ tag ++ "': " ++ flaw.message
  | invalid why => why.message
  | absent what => what
  | pluginAbsent tag => tag ++ ": plugin not found"
  | versionAbsent tag version => tag ++ ": version not found: " ++ version
  | applicationAbsent name tenant =>
    "application '" ++ name ++ "' not found in namespace '" ++ tenant ++ "'"
  | applicationExists name tenant =>
    "application '" ++ name ++ "' already exists in namespace '" ++ tenant ++ "'"
  | noTenant user => if user = "" then "no namespace" else "user '" ++ user ++ "' has no namespace"
  | manifest flaw => flaw.message
  | engine failure => failure.text
  | routing reason => reason
  | routingUnset => "proxy URL not configured"
  | unknownScheme scheme => "unsupported proxy scheme: " ++ scheme
  | settings flaw => flaw.message

/-- Whether something the caller referenced does not exist. -/
def isAbsence : Refusal → Bool
  | absent _ | pluginAbsent _ | versionAbsent _ _ | applicationAbsent _ _ => true
  | _ => false

/-- Whether the routing layer refused or failed an update. -/
def isRouting : Refusal → Bool
  | routing _ | routingUnset | unknownScheme _ => true
  | _ => false

/-- Whether a manifest is missing or invalid. -/
def isManifest : Refusal → Bool
  | manifest _ => true
  | _ => false

/-- The fields that did not fit, if that is the cause. -/
def issues? : Refusal → Option (List FieldIssue)
  | manifest (.unfit _ issues) => some issues
  | settings (.unfit issues) => some issues
  | _ => none

end Refusal

/-- Anything else that ends an operation. -/
inductive Breakage where
  /-- A text is not a YAML document. -/
  | malformedYaml
  /-- A tape archive is damaged. -/
  | damagedTape
  /-- A zip archive is damaged. -/
  | damagedZip
  /-- A compressed stream is damaged. -/
  | damagedStream
  /-- A stream ends early. -/
  | truncatedStream
  /-- An archive is locked with a password. -/
  | lockedArchive
  /-- An archive uses a feature that is not supported. -/
  | unsupported
  /-- The file system refuses. -/
  | fileSystem
  /-- A value is of the right type and still unusable. -/
  | badValue
  /-- A value is of the wrong type. -/
  | wrongType
  /-- A required key is missing. -/
  | missingKey
  /-- A value lacks what is asked of it. -/
  | missingPart
  /-- A position is outside a sequence. -/
  | outOfRange
  /-- A value is nested too deeply. -/
  | tooDeep
  /-- The engine fails in a way no rule covers. -/
  | engineFault
  /-- The HTTP client refuses a URL. -/
  | refusedUrl
  /-- Console markup does not balance. -/
  | badMarkup
  /-- No engine can be reached. -/
  | unreachable (message : String)
  /-- Fields do not fit. -/
  | unfit (issues : List FieldIssue)
  deriving DecidableEq, Repr

/-- Why an operation ended without a result. -/
inductive Failure where
  | refusal (cause : Refusal)
  | breakage (cause : Breakage)
  deriving DecidableEq, Repr

instance : Coe Refusal Failure := ⟨.refusal⟩
instance : Coe Breakage Failure := ⟨.breakage⟩

/-- The result of an operation. -/
abbrev Outcome (α : Type) := Except Failure α

/-- Ends an operation with a refusal. -/
def refuse {α : Type} (cause : Refusal) : Outcome α := .error (.refusal cause)

/-- Ends an operation with a breakage. -/
def fail {α : Type} (cause : Breakage) : Outcome α := .error (.breakage cause)

@[simp] theorem ok_bind {ε α β : Type} (a : α) (f : α → Except ε β) : (Except.ok a >>= f) = f a := rfl

@[simp] theorem error_bind {ε α β : Type} (e : ε) (f : α → Except ε β) :
    (Except.error e >>= f) = .error e := rfl

theorem mapError_error {ε δ α : Type} (e : ε) (f : ε → δ) :
    (Except.error e : Except ε α).mapError f = .error (f e) := rfl

end AppBroker
