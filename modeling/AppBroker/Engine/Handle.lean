import AppBroker.Name
import AppBroker.Tag

/-!
# Container handles

A handle refers to one container of an application and tells what its labels say: the
application, the tenant, the service slot it fills, and the tag it runs from. Handles are ordered
by creation, a higher sequence number being newer.
-/

namespace AppBroker

/-- The state of a container. -/
inductive ContainerState where
  | created | running | paused | restarting | exited | dead | unknown
  deriving DecidableEq, Repr

namespace ContainerState

/-- The word for a state. -/
def word : ContainerState → String
  | created => "created"
  | running => "running"
  | paused => "paused"
  | restarting => "restarting"
  | exited => "exited"
  | dead => "dead"
  | unknown => "unknown"

/-- The states that an engine reports by name. -/
def all : List ContainerState := [created, running, paused, restarting, exited, dead]

/-- The state that an engine's status stands for, in any case. -/
def ofStatus (status : String) : ContainerState :=
  let lower := String.ofList (status.toList.map Char.toLower)
  (all.find? fun s => s.word = lower).getD unknown

end ContainerState

/-- A reference to one container. -/
structure Handle where
  id : String
  name : String
  app : String
  tenant : String
  service : String
  tag : Tag
  sequence : Int
  state : ContainerState := .unknown
  address : String := ""
  deriving DecidableEq

namespace Handle

/-- The application that the container belongs to. -/
def key (h : Handle) : AppKey := ⟨h.tenant, h.app⟩

/-- Whether the container fills the framework slot. -/
def isFramework (h : Handle) : Bool := h.service = ""

/-- The first twelve characters of the id. -/
def shortId (h : Handle) : String := String.ofList (h.id.toList.take 12)

end Handle

end AppBroker
