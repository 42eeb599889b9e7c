import AppBroker.Name
import AppBroker.Program

/-!
# The lifecycle of applications

Every operation that changes an application holds its lock while it looks at it and changes it.
Requests are checked before anything else happens. Creating, growing, starting and restarting stop
at the first container that fails; stopping, shrinking and removing go on through all of them and
give the first failure in the end. An application that cannot be created leaves nothing behind.
Trouble with routes is warned of and changes nothing about containers.
-/

namespace AppBroker

/-- Who makes a request, and for which tenant; an empty tenant is none. -/
structure Caller where
  user : String
  tenant : String
  deriving DecidableEq, Repr

namespace Caller

/-- The tenant that a request is for. -/
def required (c : Caller) : Outcome String :=
  if c.tenant = "" then refuse (.noTenant c.user) else .ok c.tenant

/-- The lock of one of the caller's applications. -/
def key (c : Caller) (name : String) : AppKey := ⟨c.tenant, name⟩

end Caller

namespace PlatformSettings

/-- The public host of an application. -/
def appHost (p : PlatformSettings) (name tenant : String) : String :=
  name ++ "-" ++ tenant ++ "." ++ p.domain

/-- The public host of a container: services have one of their own below the application's. -/
def frontend (p : PlatformSettings) (h : Handle) : String :=
  let host := p.appHost h.app h.tenant
  if h.isFramework then host else h.service ++ "." ++ host

end PlatformSettings

namespace Lifecycle

open Program

variable (platform : PlatformSettings)

/-- Routes the endpoints of a plugin to a container as it is now. -/
def routeEndpoints (h : Handle) (p : Plugin) : Program Unit := do
  let current ← perform (.inspect h)
  let endpoints := p.endpoints.map fun e => e.bind current.address (platform.frontend current)
  perform (.route (.publish current.id endpoints))

/-- Routes a running container's endpoints. Failures are only warned of. -/
def publish (h : Handle) : Program Unit := do
  match ← attempt (perform (.plugin h.tag.withoutService)) with
  | .error r =>
    if r.isAbsence then warn .warning ("Cannot publish " ++ h.name ++ ": " ++ r.message)
    else refuse r
  | .ok p =>
    if p.endpoints.isEmpty then return ()
    match ← attempt (routeEndpoints platform h p) with
    | .ok () => return ()
    | .error r =>
      warn .warning ("Failed to publish endpoints of " ++ h.name ++ ": " ++ r.message)

/-- Drops a container's routes. Failures of the router are only warned of. -/
def retract (h : Handle) : Program Unit := do
  match ← attempt (perform (.route (.retract h.id))) with
  | .ok () => return ()
  | .error r =>
    if r.isRouting then
      warn .warning ("Failed to retract endpoints of " ++ h.name ++ ": " ++ r.message)
    else refuse r

/-- Starts a container and routes its endpoints. -/
def startOne (h : Handle) : Program Unit := do
  perform (.start h)
  publish platform h

/-- Starts containers in order, up to the first that fails. -/
def startAll (hs : List Handle) : Program Unit := do
  let _ ← forEach (startOne platform) hs
  return ()

/-- Restarts a container and routes its endpoints. -/
def restartOne (h : Handle) : Program Unit := do
  perform (.restart h)
  publish platform h

/-- Drops a container's routes and stops it. -/
def stopOne (h : Handle) : Program Unit := do
  retract h
  perform (.stop h)

/-- Drops a container's routes and removes it. -/
def destroyOne (h : Handle) : Program Unit := do
  retract h
  perform (.destroy h)

/-- Does something to every container, going on after refusals; gives the first of them. -/
def sweep (act : Handle → Program Unit) : List Handle → Program (Option Refusal)
  | [] => return none
  | h :: hs => do
    match ← attempt (act h) with
    | .ok () => sweep act hs
    | .error r =>
      warn .warning r.message
      let _ ← sweep act hs
      return some r

/-- Does something to every container and fails with the first refusal. -/
def sweepStrictly (act : Handle → Program Unit) (hs : List Handle) : Program Unit := do
  match ← sweep act hs with
  | none => return ()
  | some r => refuse r

/-- The record of one of the caller's applications. -/
def recordOf (caller : Caller) (name : String) : Program Record := do
  let tenant ← caller.required
  match ← perform (.record tenant name) with
  | some r => return r
  | none => refuse (.applicationAbsent name caller.tenant)

/-- Makes a container for each of some tags. -/
def createAll (app tenant : String) (tags : List Tag) : Program (List Handle) :=
  forEach (fun tag => perform (.create app tenant tag)) tags

/-- Some number of containers for each tag, the tags taking turns. -/
def replicas (count : Int) (tags : List Tag) : List Tag :=
  (List.replicate count.toNat tags).flatten

/-- Undoes a creation that failed. What cannot be removed is told and left. -/
def rollBack (name tenant : String) : Program Unit := do
  let cleaned ← attempt do
    sweepStrictly destroyOne (← perform (.find name tenant none))
  if let .error r := cleaned then
    warn .error ("Cleanup of " ++ name ++ " left containers behind: " ++ r.message)
  perform (.removeRecord tenant name)

/-- Makes the containers of a new application: the framework's, then one for each service. -/
def populate (name tenant : String) (tags : List Tag) (scaling : Int) : Program (List Handle) := do
  let made ← createAll name tenant (replicas scaling (tags.take 1))
  return made ++ (← createAll name tenant (tags.drop 1))

/-- Makes the containers of a new application, or undoes the creation. -/
def populateOrUndo (name tenant : String) (tags : List Tag) (scaling : Int) :
    Program (List Handle) := do
  match ← attempt (populate name tenant tags scaling) with
  | .ok handles => return handles
  | .error r =>
    warn .error ("Creating " ++ name ++ " failed, removing partial containers")
    rollBack name tenant
    refuse r

/-- Creates an application while its lock is held. -/
def createHeld (caller : Caller) (name framework : String) (services : List String)
    (scaling : Int) (start : Bool) : Program (List Handle) := do
  if (← perform (.record caller.tenant name)).isSome then
    refuse (.applicationExists name caller.tenant)
  let composition ← perform (.compose caller.tenant framework services)
  let tags := composition.map (·.1)
  let createdAt ← perform .now
  perform (.addRecord caller.tenant { name, plugins := tags.map Tag.format, scaling, createdAt })
  let handles ← populateOrUndo name caller.tenant tags scaling
  if start then startAll platform handles
  return handles

/-- Checks a request to create an application. -/
def checkCreate (caller : Caller) (name framework : String) (scaling : Int) : Outcome Unit := do
  Name.check name
  if framework = "" then AppBroker.refuse (.invalid .emptyFramework)
  if scaling < 1 then AppBroker.refuse (.invalid (.scaling scaling))
  let _ ← caller.required
  return ()

/-- Creates an application, and on request starts it. -/
def create (caller : Caller) (name framework : String) (services : List String) (scaling : Int)
    (start : Bool) : Program (List Handle) := do
  checkCreate caller name framework scaling
  holding (caller.key name) (createHeld platform caller name framework services scaling start)

/-- The applications that handles belong to, in the order in which they come first. -/
def appsOf (hs : List Handle) : List String := (hs.map Handle.app).eraseDups

/-- Starts given containers, one application after the other. -/
def startContainers (caller : Caller) (hs : List Handle) : Program Unit := do
  let _ ← forEach (fun app =>
    holding (caller.key app) (startAll platform (hs.filter (·.app = app)))) (appsOf hs)
  return ()

/-- Starts all containers of an application while its lock is held. -/
def startHeld (caller : Caller) (name : String) : Program Unit := do
  let _ ← recordOf caller name
  startAll platform (← perform (.find name caller.tenant none))

/-- Starts all containers of an application. -/
def start (caller : Caller) (name : String) : Program Unit :=
  holding (caller.key name) (startHeld platform caller name)

/-- Stops all containers of an application while its lock is held. -/
def stopHeld (caller : Caller) (name : String) : Program Unit := do
  let _ ← recordOf caller name
  sweepStrictly stopOne (← perform (.find name caller.tenant none))

/-- Stops all containers of an application. -/
def stop (caller : Caller) (name : String) : Program Unit :=
  holding (caller.key name) (stopHeld caller name)

/-- Restarts all containers of an application while its lock is held. -/
def restartHeld (caller : Caller) (name : String) : Program Unit := do
  let _ ← recordOf caller name
  let _ ← forEach (restartOne platform) (← perform (.find name caller.tenant none))
  return ()

/-- Restarts all containers of an application. -/
def restart (caller : Caller) (name : String) : Program Unit :=
  holding (caller.key name) (restartHeld platform caller name)

/-- The framework containers of an application, oldest first. -/
def frameworkContainers (caller : Caller) (name : String) : Program (List Handle) :=
  perform (.find name caller.tenant (some ""))

/-- What new framework containers run from: what the oldest one does, or else what the record
says. -/
def growthTag (r : Record) : List Handle → Outcome Tag
  | h :: _ => .ok h.tag
  | [] => do Tag.parse (← r.framework)

/-- Adds framework containers; they are started if the application runs. -/
def grow (caller : Caller) (r : Record) (name : String) (current : List Handle) (target : Int) :
    Program Unit := do
  let tag ← growthTag r current
  let added ← createAll name caller.tenant (replicas (target - current.length) [tag])
  if current.any (·.state = .running) then startAll platform added

/-- Brings the framework containers to a number. -/
def adjust (caller : Caller) (r : Record) (name : String) (current : List Handle) (target : Int) :
    Program Unit :=
  if (current.length : Int) < target then grow platform caller r name current target
  else if target < current.length then sweepStrictly destroyOne (current.drop target.toNat)
  else return ()

/-- Sets the number of framework containers while the lock of the application is held. -/
def scaleHeld (caller : Caller) (name : String) (target : Int) : Program (List Handle) := do
  let r ← recordOf caller name
  let current ← frameworkContainers caller name
  adjust platform caller r name current target
  if r.scaling ≠ target then
    perform (.replaceRecord caller.tenant { r with scaling := target })
  frameworkContainers caller name

/-- Sets the number of framework containers, and gives them, oldest first. -/
def scale (caller : Caller) (name : String) (target : Int) : Program (List Handle) := do
  if target < 1 then refuse (.invalid (.scaling target))
  holding (caller.key name) (scaleHeld platform caller name target)

/-- Removes an application with all its containers while its lock is held. Containers that stay are
told of after the record is gone. -/
def removeHeld (name tenant : String) : Program Unit := do
  let record ← perform (.record tenant name)
  let handles ← perform (.find name tenant none)
  if record.isNone && handles.isEmpty then refuse (.applicationAbsent name tenant)
  let failure ← sweep destroyOne handles
  if record.isSome then perform (.removeRecord tenant name)
  match failure with
  | none => return ()
  | some r => refuse r

/-- Removes an application with all its containers. -/
def remove (caller : Caller) (name : String) : Program Unit := do
  let tenant ← caller.required
  holding (caller.key name) (removeHeld name tenant)

/-! ## Queries -/

/-- The caller's applications. -/
def list (caller : Caller) : Program (List Record) :=
  if caller.tenant = "" then return [] else perform (.records caller.tenant)

/-- The number of framework containers. -/
def count (caller : Caller) (name : String) : Program Nat := do
  return (← frameworkContainers caller name).length

/-- What is told about an application. -/
structure Info where
  name : String
  tenant : String
  createdAt : Moment
  url : String
  sshUrl : String
  framework : Option Plugin := none
  services : List Plugin := []
  scaling : Nat := 0

/-- Adds the plugins that recorded tags denote now. Missing ones are warned of and left out. -/
def addPlugins (info : Info) : List String → Program Info
  | [] => return info
  | text :: texts => do
    let read : Program Plugin := do
      let tag ← Tag.parse text
      perform (.plugin tag.withoutService)
    match ← attempt read with
    | .ok p =>
      let info := match p.category with
        | .framework => { info with framework := some p.public }
        | .service => { info with services := info.services ++ [p.public] }
      addPlugins info texts
    | .error r =>
      if r.isAbsence then
        warn .warning
          ("Application " ++ info.name ++ " references a missing plugin: " ++ r.message)
        addPlugins info texts
      else refuse r

/-- What is told about one of the caller's applications. -/
def info (caller : Caller) (name : String) : Program Info := do
  let r ← recordOf caller name
  let start : Info :=
    { name, tenant := caller.tenant, createdAt := r.createdAt
      url := platform.scheme.word ++ "://" ++ platform.appHost name caller.tenant
      sshUrl := "ssh://" ++ name ++ "-" ++ caller.tenant ++ "@" ++ platform.domain ++ ":"
        ++ toString platform.sshPort }
  let info ← addPlugins start r.plugins
  return { info with scaling := ← count caller name }

/-- Runs a command in the first container of a service, or of the framework. -/
def exec (caller : Caller) (name service user : String) (command : List String) :
    Program String := do
  let _ ← recordOf caller name
  match ← perform (.find name caller.tenant (some service)) with
  | h :: _ => perform (.exec h user command)
  | [] =>
    let slot := if service = "" then "framework" else service
    refuse (.absent ("no containers for service '" ++ slot ++ "' of " ++ name))

/-- Deploys a branch of an application. -/
def deploy (caller : Caller) (name branch : String) : Program Unit := do
  let _ ← recordOf caller name
  perform (.deploy caller.tenant name branch)

/-- The deployed branch of an application, and all of its branches. -/
def deployments (caller : Caller) (name : String) : Program (Branch × List Branch) := do
  let _ ← recordOf caller name
  perform (.branches caller.tenant name)

/-! ## The whole platform -/

/-- Routes containers of one application anew if they run; gives how many do. -/
def resyncApp (tenant : String) (r : Record) : Program Nat := do
  let running := (← perform (.find r.name tenant none)).filter (·.state = .running)
  let _ ← forEach (publish platform) running
  return running.length

/-- All counts together. -/
def total (counts : List Nat) : Nat := counts.foldl (· + ·) 0

/-- Routes the containers of one tenant anew. -/
def resyncTenant (tenant : String) : Program Nat := do
  return total (← forEach (resyncApp platform tenant) (← perform (.records tenant)))

/-- Drops all routes and routes every running container anew; gives how many there are. -/
def resync : Program Nat := do
  perform (.route .clear)
  return total (← forEach (resyncTenant platform) (← perform .tenants))

/-- Ends the connections of the broker. -/
def close : Program Unit := perform .disconnect

end Lifecycle

end AppBroker
