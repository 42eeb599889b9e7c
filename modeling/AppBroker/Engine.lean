import AppBroker.Name
import AppBroker.Table

/-!
# The container engine

The engine keeps containers in the order in which they were made. It makes, lists, inspects,
starts, stops, restarts and removes them and runs commands in them. A call may fail: which calls
do is a function of the calls made before, so that any pattern of failures can be asked about.
Starting a running container and stopping one that does not run are answered with the status
"not modified"; a failed call changes nothing but the history.
-/

namespace AppBroker

/-- What the engine can be asked to do. -/
inductive EngineVerb where
  | ping | version | create | list | get | start | stop | restart | remove | exec
  deriving DecidableEq, Repr

/-- A call as the engine's failures see it: what is asked, about which container or application,
and the application that it is asked for, if there is one. -/
structure EngineRequest where
  verb : EngineVerb
  key : String
  scope : Option AppKey := none
  deriving DecidableEq, Repr

/-- How a call fails. Only an answer of the engine has a status. -/
inductive FaultKind where
  | answered (status : Option Nat)
  | notFound
  | broken
  | disconnected
  | unforeseen
  deriving DecidableEq, Repr

/-- A failed call. -/
structure Fault where
  kind : FaultKind
  message : String
  deriving DecidableEq, Repr

/-- The status of a call that found nothing to change. -/
def notModified : Nat := 304

/-- What a container is made from. -/
structure ContainerSpec where
  image : String
  name : String
  hostname : String
  labels : Table String String
  environment : Table String String
  network : String
  deriving DecidableEq, Repr

/-- A container. It has an address on each of its networks, and possibly one outside of them. -/
structure Container where
  number : Nat
  id : String
  name : String
  image : String := ""
  labels : Table String String := []
  status : String := "created"
  networks : Table String String := []
  address : String := ""
  deriving DecidableEq, Repr

namespace Container

/-- The status of a container that runs. -/
def runningStatus : String := "running"

/-- Whether a container runs. -/
def isRunning (c : Container) : Bool := c.status = runningStatus

/-- Sets the address on every network. -/
def setAddresses (c : Container) (address : String) : Container :=
  { c with networks := c.networks.map fun entry => (entry.1, address) }

/-- The container running, at the addresses that its number gives. -/
def started (c : Container) : Container :=
  { c.setAddresses ("10.0.0." ++ toString c.number) with status := runningStatus }

/-- The container no longer running, without addresses. -/
def stopped (c : Container) : Container :=
  { c.setAddresses "" with status := "exited" }

/-- Whether a container carries a label. An engine that is lenient takes a filter without a value
as satisfied. -/
def hasLabel (c : Container) (lenient : Bool) (filter : String × String) : Bool :=
  (lenient && filter.2 = "") || c.labels.get? filter.1 = some filter.2

end Container

/-- What a command that was run in a container gave. -/
structure ExecResult where
  exitCode : Option Int
  output : Option (List UInt8)
  deriving DecidableEq, Repr

/-- A call that the engine has carried out. -/
inductive EngineEffect where
  | create (spec : ContainerSpec)
  | start (id : String)
  | stop (id : String) (timeout : Int)
  | restart (id : String) (timeout : Int)
  | remove (id : String)
  | exec (id : String) (command : List String) (user : String)
  | close
  deriving DecidableEq, Repr

/-- The engine: its containers, how many were ever made, and what it answers with. -/
structure Engine where
  containers : List Container := []
  made : Nat := 0
  limit : Option Int := none
  lenient : Bool := false
  commandResult : Option ExecResult := none
  history : List EngineRequest := []
  faults : List EngineRequest → EngineRequest → Option Fault := fun _ _ => none

namespace Engine

/-- The answer of the engine, with the engine after the call. -/
abbrev Answer (α : Type) := Except Fault α × Engine

/-- The container with an id. -/
def find? (e : Engine) (id : String) : Option Container := e.containers.find? (·.id = id)

/-- Puts a container in the place of the one with its id, or last. -/
def replaceIn (c : Container) : List Container → List Container
  | [] => [c]
  | d :: ds => if d.id = c.id then c :: ds else d :: replaceIn c ds

/-- Stores a container. -/
def store (e : Engine) (c : Container) : Engine :=
  { e with containers := replaceIn c e.containers }

/-- Changes the container with an id. -/
def change (e : Engine) (id : String) (f : Container → Container) : Engine :=
  { e with containers := e.containers.map fun c => if c.id = id then f c else c }

/-- Drops a container. -/
def drop (e : Engine) (id : String) : Engine :=
  { e with containers := e.containers.filter (·.id ≠ id) }

/-- The number of the next container. -/
def nextNumber (e : Engine) : Nat := e.made + 1

/-- A number with four digits, or more if it needs them. -/
def idOf (number : Nat) : String :=
  let digits := Nat.toDigits 10 number
  String.ofList ('c' :: List.replicate (4 - digits.length) '0' ++ digits)

/-- Notes a call, and lets it fail if it is to fail. -/
def accept (e : Engine) (request : EngineRequest) : Answer Unit :=
  let after := { e with history := request :: e.history }
  match e.faults e.history request with
  | some fault => (.error fault, after)
  | none => (.ok (), after)

/-- Makes a container, which does not run yet. -/
def create (e : Engine) (scope : AppKey) (spec : ContainerSpec) : Answer Container :=
  match e.accept ⟨.create, (spec.labels.get? "cumulus.app").getD "", scope⟩ with
  | (.error fault, e) => (.error fault, e)
  | (.ok (), e) =>
    if e.limit.any fun limit => limit ≤ (e.containers.length : Int) then
      (.error ⟨.answered (some 500), "quota exceeded"⟩, e)
    else
      let number := e.nextNumber
      let c : Container :=
        { number, id := idOf number, name := spec.name, image := spec.image, labels := spec.labels
          networks := [(spec.network, "")] }
      (.ok c, { e.store c with made := number })

/-- The containers that carry all of some labels, newest first. -/
def list (e : Engine) (scope : AppKey) (filters : List (String × String)) :
    Answer (List Container) :=
  match e.accept ⟨.list, "*", scope⟩ with
  | (.error fault, e) => (.error fault, e)
  | (.ok (), e) =>
    (.ok (e.containers.reverse.filter fun c => filters.all (c.hasLabel e.lenient)), e)

/-- The container with an id. -/
def get (e : Engine) (scope : AppKey) (id : String) : Answer Container :=
  match e.accept ⟨.get, id, scope⟩ with
  | (.error fault, e) => (.error fault, e)
  | (.ok (), e) =>
    match e.find? id with
    | some c => (.ok c, e)
    | none => (.error ⟨.notFound, "No such container: " ++ id⟩, e)

/-- Gets a container and asks for something about it. -/
def about (e : Engine) (scope : AppKey) (verb : EngineVerb) (id : String) : Answer Container :=
  match e.get scope id with
  | (.error fault, e) => (.error fault, e)
  | (.ok c, e) =>
    match e.accept ⟨verb, id, scope⟩ with
    | (.error fault, e) => (.error fault, e)
    | (.ok (), e) => (.ok c, e)

/-- The answer that nothing had to change. -/
def unchanged : Fault := ⟨.answered (some notModified), "not modified"⟩

/-- Starts a container. -/
def start (e : Engine) (scope : AppKey) (id : String) : Answer Unit :=
  match e.about scope .start id with
  | (.error fault, e) => (.error fault, e)
  | (.ok c, e) => if c.isRunning then (.error unchanged, e) else (.ok (), e.change id .started)

/-- Stops a container. -/
def stop (e : Engine) (scope : AppKey) (id : String) : Answer Unit :=
  match e.about scope .stop id with
  | (.error fault, e) => (.error fault, e)
  | (.ok c, e) => if c.isRunning then (.ok (), e.change id .stopped) else (.error unchanged, e)

/-- Restarts a container, or starts it. -/
def restart (e : Engine) (scope : AppKey) (id : String) : Answer Unit :=
  match e.about scope .restart id with
  | (.error fault, e) => (.error fault, e)
  | (.ok _, e) => (.ok (), e.change id .started)

/-- Removes a container, running or not. -/
def remove (e : Engine) (scope : AppKey) (id : String) : Answer Unit :=
  match e.about scope .remove id with
  | (.error fault, e) => (.error fault, e)
  | (.ok _, e) => (.ok (), e.drop id)

/-- Runs a command in a container. -/
def exec (e : Engine) (scope : AppKey) (id : String) (command : List String) (user : String) :
    Answer ExecResult :=
  match e.about scope .exec id with
  | (.error fault, e) => (.error fault, e)
  | (.ok _, e) =>
    let echo := user ++ "$ " ++ " ".intercalate command ++ "\n"
    (.ok (e.commandResult.getD ⟨some 0, some echo.toUTF8.toList⟩), e)

/-- Asks whether the engine is there. -/
def ping (e : Engine) : Answer Unit := e.accept ⟨.ping, "*", none⟩

/-- Asks for the engine's own account of itself. -/
def version (e : Engine) : Answer Unit := e.accept ⟨.version, "*", none⟩

end Engine

end AppBroker
