import AppBroker.Action
import AppBroker.Clock
import AppBroker.Disk
import AppBroker.Engine
import AppBroker.Engine.Handle
import AppBroker.Routing
import AppBroker.Settings
import AppBroker.Yaml.Codec

/-!
# The world around the broker

The broker works on a disk, with a container engine, a router, a clock, and possibly a service for
source control. What it does to them, and what it warns of, is noted in the order in which it
happens. The runtime remembers whether it is connected to the engine, and the last sequence number
that it gave to a container.
-/

namespace AppBroker

/-- How serious a notice is. -/
inductive Severity where
  | warning | error
  deriving DecidableEq, Repr

/-- The word for a severity. -/
def Severity.word : Severity → String
  | warning => "WARNING"
  | error => "ERROR"

/-- Something that happened. -/
inductive Event where
  | engine (effect : EngineEffect)
  | request (request : HttpRequest)
  | deployed (tenant name branch : String)
  | notice (severity : Severity) (text : String)
  deriving DecidableEq, Repr

/-- A branch or a label of a repository. -/
structure Branch where
  id : String
  display : String
  type : String := "branch"
  deriving DecidableEq, Repr

/-- A service for source control: the branch that is deployed. -/
structure SourceControl where
  current : String := "main"
  deriving DecidableEq, Repr

/-- The runtime that drives the engine. -/
structure Runtime where
  settings : RuntimeSettings := {}
  domain : String := "cumulus.local"
  isConnected : Bool := false
  lastSequence : Int := 0
  deriving DecidableEq, Repr

/-- A broker's own parts: where its hub and store lie and how records are written, its runtime and
its router, and the names under which applications are public. -/
structure Broker where
  hub : Path
  store : Path
  codec : Yaml.Codec := .standard
  runtime : Runtime := {}
  router : Router := .memory []
  platform : PlatformSettings := {}

/-- Everything that an operation may look at or change. -/
structure World where
  disk : Disk := {}
  clock : Clock := {}
  idsGiven : Nat := 0
  engine : Engine := {}
  /-- What the engine says of itself. -/
  report : Option Value := some (.map [])
  replies : List HttpReply := []
  source : Option SourceControl := none
  broker : Broker
  trace : List Event := []

namespace World

/-- Notes that something happened. -/
def note (w : World) (event : Event) : World := { w with trace := w.trace ++ [event] }

/-- Notes a warning or an error. -/
def warn (severity : Severity) (text : String) : Action World Unit :=
  Action.modify (·.note (.notice severity text))

/-- Does an action on the disk. -/
def onDisk {α : Type} (m : Action Disk α) : Action World α :=
  m.on (·.disk) fun disk w => { w with disk }

/-- Changes the runtime. -/
def setRuntime (w : World) (runtime : Runtime) : World :=
  { w with broker := { w.broker with runtime } }

/-- Changes the router. -/
def setRouter (w : World) (router : Router) : World :=
  { w with broker := { w.broker with router } }

end World

end AppBroker
