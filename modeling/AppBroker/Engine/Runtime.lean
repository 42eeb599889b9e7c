import AppBroker.Engine.Connection
import AppBroker.Text.Blank
import AppBroker.Text.Integer
import AppBroker.World

/-!
# The runtime

The runtime drives the engine for the broker. It connects when it first needs the engine, and keeps
nothing of its own but the connection and the last sequence number: containers are found again by
their labels. A call that found nothing to change counts as done, and so does the removal of a
container that is gone. Failures are refusals that name the operation, the application and the
container.
-/

namespace AppBroker.Runtime

/-- The labels of a container. -/
def appLabel : String := "cumulus.app"

/-- The label with the tenant. -/
def tenantLabel : String := "cumulus.namespace"

/-- The label with the service slot, empty for the framework's. -/
def serviceLabel : String := "cumulus.service"

/-- The label with the tag that the container runs from. -/
def tagLabel : String := "cumulus.tag"

/-- The label with the sequence number. -/
def sequenceLabel : String := "cumulus.sequence"

/-- A label that must be there. -/
def labelOf (c : Container) (key : String) : Outcome String :=
  match c.labels.get? key with
  | some value => .ok value
  | none => fail .missingKey

/-- The address of a container on a network, or else the one outside of networks. -/
def addressOn (network : String) (c : Container) : String :=
  let own := (c.networks.get? network).getD ""
  if own = "" then c.address else own

/-- The handle that a container's labels make. -/
def handleOf (network : String) (c : Container) : Outcome Handle := do
  let app ← labelOf c appLabel
  let tenant ← labelOf c tenantLabel
  let tag ← Tag.parse (← labelOf c tagLabel)
  match Text.integer? ((c.labels.get? sequenceLabel).getD "0") with
  | none => fail .badValue
  | some sequence =>
    return { id := c.id, name := c.name, app, tenant
             service := (c.labels.get? serviceLabel).getD ""
             tag, sequence, state := .ofStatus c.status, address := addressOn network c }

/-- What a failed call means: the engine may fail in ways that are no refusals. -/
def failureOf (operation : String) (app container : Option String) (f : Fault) : Failure :=
  match f.kind with
  | .unforeseen => .breakage .engineFault
  | kind => .refusal (.engine
      { operation, message := f.message, app, container, gone := kind = .notFound })

/-- A call to the engine. -/
abbrev EngineCall (α : Type) := Engine → Engine.Answer α

/-- Connects to the engine unless that is done. -/
def connect : Action World Unit := fun w =>
  if w.broker.runtime.isConnected then (.ok (), w)
  else
    let c := Connecting.firstOf (fun _ => none) w.report w.engine
      (EngineTarget.candidates w.broker.runtime.settings.engine.word {})
    let w := { w with engine := c.engine }
    match c.result with
    | .ok _ => (.ok (), w.setRuntime { w.broker.runtime with isConnected := true })
    | .error e => (.error e, w)

/-- Turns a failed connection into the failure of an operation. -/
def blame {α : Type} (operation : String) (app container : Option String) (m : Action World α) :
    Action World α := fun w =>
  match m w with
  | (.error (.breakage (.unreachable message)), w) =>
    (refuse (.engine { operation, message, app, container }), w)
  | other => other

/-- Calls the engine, connecting first, and notes what the call has done. -/
def call {α : Type} (operation : String) (app container : Option String) (m : EngineCall α)
    (effect : Option EngineEffect := none) : Action World α :=
  (blame operation app container connect).bind fun _ w =>
    let (answer, engine) := m w.engine
    let w := { w with engine }
    match answer with
    | .error fault => (.error (failureOf operation app container fault), w)
    | .ok a => (.ok a, match effect with
        | some effect => w.note (.engine effect)
        | none => w)

/-- The image that a tag runs from. -/
def imageOf (registry : String) (tag : Tag) : String :=
  let name := tag.name ++ ":" ++ tag.version
  if tag.tenant = "" then registry ++ "/" ++ name else registry ++ "/" ++ tag.tenant ++ "/" ++ name

/-- A number with eight hexadecimal digits. -/
def serial (n : Nat) : String :=
  let digits := Nat.toDigits 16 n
  String.ofList (List.replicate (8 - digits.length) '0' ++ digits)

/-- What the container of an application's slot is made from. -/
def specOf (r : Runtime) (app tenant : String) (tag : Tag) (given : Nat) (sequence : Int) :
    ContainerSpec :=
  let slot := if tag.service = "" then "app" else tag.service
  { image := imageOf r.settings.imageRegistry tag
    name := app ++ "-" ++ tenant ++ "-" ++ slot ++ "-" ++ serial given
    hostname := slot
    labels := [(appLabel, app), (tenantLabel, tenant), (serviceLabel, tag.service),
      (tagLabel, tag.format), (sequenceLabel, toString sequence)]
    environment := [("CUMULUS_APP_NAME", app), ("CUMULUS_APP_NAMESPACE", tenant),
      ("CUMULUS_APP_DNS", app ++ "-" ++ tenant ++ "." ++ r.domain), ("CUMULUS_SERVICE", slot)]
    network := r.settings.network }

/-- A new id and a new sequence number, which is greater than all before it whatever the clock
says. -/
def nextSerial : Action World (Nat × Int) := fun w =>
  let r := w.broker.runtime
  let sequence := max w.clock.nanos (r.lastSequence + 1)
  let given := w.idsGiven + 1
  (.ok (given, sequence),
    { w with idsGiven := given, clock := w.clock.afterCount }.setRuntime
      { r with lastSequence := sequence })

/-- Makes a container for a slot of an application, without starting it. None is made where the
sequence number cannot be written down. -/
def create (app tenant : String) (tag : Tag) : Action World Handle :=
  nextSerial.bind fun (given, sequence) w =>
    let r := w.broker.runtime
    let spec := specOf r app tenant tag given sequence
    if (Text.numeral? sequence).isNone then (fail .badValue, w)
    else
      match call "create" (some app) none (·.create ⟨tenant, app⟩ spec) (some (.create spec)) w with
      | (.error e, w) => (.error e, w)
      | (.ok c, w) => (handleOf r.settings.network c, w)

/-- The handles of containers. -/
def handlesOf (network : String) (cs : List Container) : Outcome (List Handle) :=
  cs.mapM (handleOf network)

/-- The containers of an application, oldest first: all of them, or those of a slot. Engines differ
on filters without a value, so the slot is looked at once more. -/
def find (app tenant : String) (service : Option String) : Action World (List Handle) := fun w =>
  let filters := [(appLabel, app), (tenantLabel, tenant)]
    ++ (service.map fun s => (serviceLabel, s)).toList
  match call "find" (some app) none (·.list ⟨tenant, app⟩ filters) none w with
  | (.error e, w) => (.error e, w)
  | (.ok cs, w) =>
    let handles := (handlesOf w.broker.runtime.settings.network cs).map fun hs =>
      (hs.filter fun h => service.all (h.service = ·)).mergeSort fun a b => a.sequence ≤ b.sequence
    (handles, w)

/-- A handle with the state and the address that the container has now. -/
def inspect (h : Handle) : Action World Handle := fun w =>
  match call "inspect" (some h.app) (some h.name) (·.get h.key h.id) none w with
  | (.error e, w) => (.error e, w)
  | (.ok c, w) => (handleOf w.broker.runtime.settings.network c, w)

/-- Whether a fault says that nothing had to change. -/
def isUnchanged (f : Fault) : Bool := f.kind = .answered (some notModified)

/-- A call that counts as done when nothing had to change. -/
def settling (m : EngineCall Unit) : EngineCall Bool := fun e =>
  match m e with
  | (.ok (), e) => (.ok true, e)
  | (.error fault, e) => if isUnchanged fault then (.ok false, e) else (.error fault, e)

/-- Changes a container's state; what was done is noted if anything was. -/
def change (operation : String) (h : Handle) (m : EngineCall Unit) (effect : EngineEffect) :
    Action World Unit := fun w =>
  match call operation (some h.app) (some h.name) (settling m) none w with
  | (.error e, w) => (.error e, w)
  | (.ok changed, w) => (.ok (), if changed then w.note (.engine effect) else w)

/-- Starts a container. -/
def start (h : Handle) : Action World Unit := change "start" h (·.start h.key h.id) (.start h.id)

/-- Stops a container. -/
def stop (h : Handle) : Action World Unit := fun w =>
  change "stop" h (·.stop h.key h.id) (.stop h.id w.broker.runtime.settings.stopTimeout) w

/-- Restarts a container. -/
def restart (h : Handle) : Action World Unit := fun w =>
  change "restart" h (·.restart h.key h.id) (.restart h.id w.broker.runtime.settings.stopTimeout) w

/-- Removes a container; one that is gone is removed. -/
def destroy (h : Handle) : Action World Unit := fun w =>
  match change "destroy" h (·.remove h.key h.id) (.remove h.id) w with
  | (.error (.refusal (.engine f)), w) =>
    if f.gone then (.ok (), w) else (refuse (.engine f), w)
  | other => other

/-- The text that a command gave, unless it ended with a status. -/
def outputOf (h : Handle) (result : ExecResult) : Outcome String :=
  let output := Text.decodeReplacing (result.output.getD [])
  match result.exitCode.filter (· ≠ 0) with
  | none => .ok output
  | some code => refuse (.engine
      { operation := "exec"
        message := "command exited with status " ++ toString code ++ ": " ++ Text.trim output
        app := some h.app, container := some h.name })

/-- Runs a command in a container. -/
def exec (h : Handle) (user : String) (command : List String) : Action World String := fun w =>
  match call "exec" (some h.app) (some h.name) (·.exec h.key h.id command user)
      (some (.exec h.id command user)) w with
  | (.error e, w) => (.error e, w)
  | (.ok result, w) => (outputOf h result, w)

/-- Ends the connection to the engine if there is one. -/
def close : Action World Unit :=
  Action.modify fun w => if w.broker.runtime.isConnected then w.note (.engine .close) else w

end AppBroker.Runtime
