import AppBroker.Engine
import AppBroker.Error
import AppBroker.Settings
import AppBroker.Value

/-!
# Connecting to an engine

An engine is named in the settings, or given by the environment, or looked for: at the place where
Docker listens, and else at the sockets where Podman does. Whichever answers is asked what it is.
-/

namespace AppBroker

/-- The engines that are told apart. -/
inductive EngineKind where
  | docker | podman
  deriving DecidableEq, Repr

/-- The word for an engine. -/
def EngineKind.word : EngineKind → String
  | docker => "docker"
  | podman => "podman"

/-- What is known of where engines may listen; an empty host is none. -/
structure Surroundings where
  containerHost : String := ""
  dockerHost : String := ""
  sockets : List String := []
  deriving Repr

/-- A place where an engine may be. -/
inductive EngineTarget where
  /-- The place that the environment gives by itself. -/
  | usual
  /-- A place by its address, under a name for it. -/
  | place (address label : String)
  /-- Nothing is left to try. -/
  | nowhere
  deriving DecidableEq, Repr

namespace EngineTarget

/-- The name of a target. -/
def label : EngineTarget → String
  | usual => "Docker daemon"
  | place _ label => label
  | nowhere => ""

/-- The sockets where Podman listens, for the user and for the machine. -/
def podmanSockets : List String := ["/run/user/1000/podman/podman.sock", "/run/podman/podman.sock"]

/-- The place where Podman listens, if it does. -/
def podman (s : Surroundings) : EngineTarget :=
  match podmanSockets.find? fun socket => socket ∈ s.sockets with
  | some socket => place ("unix://" ++ socket) "Podman"
  | none => nowhere

/-- The targets for a choice of engine, in the order in which they are tried. Only the names of
the two engines choose one; anything else leaves it open. -/
def candidates (choice : String) (s : Surroundings) : List EngineTarget :=
  if choice = EngineChoice.docker.word then [usual]
  else if choice = EngineChoice.podman.word then [podman s]
  else
    let host := if s.containerHost ≠ "" then s.containerHost else s.dockerHost
    if host ≠ "" then [place host host] else [usual, podman s]

end EngineTarget

namespace EngineKind

/-- Whether a word stands anywhere in a text. -/
def standsIn (word : List Char) : List Char → Bool
  | [] => word.isEmpty
  | c :: cs => word.isPrefixOf (c :: cs) || standsIn word cs

/-- Whether a name, in any case, has the word for Podman in it. -/
def namesPodman (name : String) : Bool :=
  standsIn EngineKind.podman.word.toList (name.toList.map Char.toLower)

/-- The value under a key of a mapping, or a default. -/
def field (key : String) (default : Value) : Value → Outcome Value
  | .map entries => .ok ((Value.get? entries key).getD default)
  | _ => fail .missingPart

/-- Whether the name in a mapping is a name of Podman. -/
def isPodman (v : Value) : Outcome Bool := do
  match ← field "Name" (.text "") v with
  | .text name => return namesPodman name
  | _ => fail .missingPart

/-- Whether one of the components has a name of Podman. -/
def anyPodman : List Value → Outcome Bool
  | [] => .ok false
  | v :: vs => do if ← isPodman v then return true else anyPodman vs

/-- The components in a report: a sequence, or whatever else can be gone through. -/
def components : Value → Outcome (List Value)
  | .list items | .tuple items | .set items => .ok items
  | .map entries => .ok (entries.map (·.1))
  | .text s => .ok (s.toList.map fun c => .text (String.singleton c))
  | _ => fail .wrongType

/-- Which engine a report is of; one that gives none is taken for Docker. -/
def ofReport : Option Value → Outcome EngineKind
  | none => .ok docker
  | some report => do
    if ← anyPodman (← components (← field "Components" (.list []) report)) then return podman
    if ← isPodman (← field "Platform" (.map []) report) then return podman
    return docker

end EngineKind

/-- How an attempt to connect went: the targets that were tried, and the engine and its kind. -/
structure Connecting where
  tried : List EngineTarget := []
  engine : Engine
  result : Outcome (EngineKind × String)

namespace Connecting

/-- What is said when nothing is left to try. -/
def noEngine : String :=
  "No container engine found. Install Docker or Podman, or set CONTAINER_HOST / DOCKER_HOST "
    ++ "environment variable."

/-- Connects to the engine at a target. `refusal` tells why there is no connection, and `report`
is what the engine says of itself. -/
def toTarget (refusal : EngineTarget → Option String) (report : Option Value) (e : Engine)
    (target : EngineTarget) : Connecting :=
  let failed (e : Engine) (message : String) : Connecting :=
    ⟨[target], e,
      fail (.unreachable ("Failed to connect to " ++ target.label ++ ": " ++ message))⟩
  if target = .nowhere then ⟨[], e, fail (.unreachable noEngine)⟩
  else match refusal target with
    | some message => failed e message
    | none =>
      match e.ping with
      | (.error fault, e) => failed e fault.message
      | (.ok (), e) =>
        let (answer, e) := e.version
        let report := match answer with
          | .ok () => report
          | .error _ => none
        ⟨[target], e, (EngineKind.ofReport report).map fun kind => (kind, target.label)⟩

/-- Whether an attempt found no engine, so that the next target is tried. -/
def isUnreachable (c : Connecting) : Bool :=
  match c.result with
  | .error (.breakage (.unreachable _)) => true
  | _ => false

/-- Tries targets until one can be reached. -/
def firstOf (refusal : EngineTarget → Option String) (report : Option Value) (e : Engine) :
    List EngineTarget → Connecting
  | [] => ⟨[], e, fail (.unreachable noEngine)⟩
  | [target] => toTarget refusal report e target
  | target :: rest =>
    let first := toTarget refusal report e target
    if first.isUnreachable then
      let later := firstOf refusal report first.engine rest
      { later with tried := first.tried ++ later.tried }
    else first

end Connecting

end AppBroker
