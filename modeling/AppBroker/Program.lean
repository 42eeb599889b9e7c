import AppBroker.Composition
import AppBroker.Engine.Runtime
import AppBroker.Hub
import AppBroker.Store

/-!
# Programs

An operation of the broker is a program: a tree of calls to the world, each followed by whatever the
answer leads to, with locks taken and given up in between. What a program does is settled when it
is run. Run by itself it finds every lock free; run together with others it waits for those that
are taken. Everything happens in calls, so between two calls of one program any number of calls of
other programs may happen.
-/

namespace AppBroker

/-- A call to the world. -/
inductive Call where
  /-- The record of an application, if there is one. -/
  | record (tenant name : String)
  /-- The records of a tenant, sorted by name. -/
  | records (tenant : String)
  /-- The tenants that have records, sorted. -/
  | tenants
  | addRecord (tenant : String) (r : Record)
  | replaceRecord (tenant : String) (r : Record)
  | removeRecord (tenant name : String)
  /-- The composition that references denote for a caller. -/
  | compose (caller framework : String) (services : List String)
  /-- The installed plugin that a tag denotes. -/
  | plugin (tag : Tag)
  /-- The time of day. -/
  | now
  /-- Makes a container for a slot of an application. -/
  | create (app tenant : String) (tag : Tag)
  /-- The containers of an application, oldest first. -/
  | find (app tenant : String) (service : Option String)
  /-- A handle as its container is now. -/
  | inspect (h : Handle)
  | start (h : Handle)
  | stop (h : Handle)
  | restart (h : Handle)
  | destroy (h : Handle)
  /-- Runs a command in a container. -/
  | exec (h : Handle) (user : String) (command : List String)
  | route (change : RouteChange)
  /-- Deploys a branch of an application. -/
  | deploy (tenant name branch : String)
  /-- The branch that is deployed, and all branches. -/
  | branches (tenant name : String)
  | disconnect
  | warn (severity : Severity) (text : String)
  deriving DecidableEq

/-- What the answer to a call holds. -/
abbrev Call.Value : Call → Type
  | record _ _ => Option Record
  | records _ => List Record
  | tenants => List String
  | compose _ _ _ => List (Tag × Plugin)
  | plugin _ => Plugin
  | now => Moment
  | create _ _ _ | inspect _ => Handle
  | find _ _ _ => List Handle
  | exec _ _ _ => String
  | branches _ _ => Branch × List Branch
  | addRecord _ _ | replaceRecord _ _ | removeRecord _ _ | start _ | stop _ | restart _ | destroy _
  | route _ | deploy _ _ _ | disconnect | warn _ _ => Unit

/-- A program that gives a value or fails. -/
inductive Program (α : Type) where
  | done (result : Outcome α)
  | call (c : Call) (next : Outcome c.Value → Program α)
  | lock (key : AppKey) (next : Program α)
  | unlock (key : AppKey) (next : Program α)

namespace Program

variable {α β : Type}

/-- Goes on with the outcome of a program, be it a failure. -/
def andThen : Program α → (Outcome α → Program β) → Program β
  | done result, f => f result
  | call c next, f => call c fun answer => (next answer).andThen f
  | lock key next, f => lock key (next.andThen f)
  | unlock key next, f => unlock key (next.andThen f)

/-- Goes on with the value of a program; a failure ends the whole. -/
def bind (p : Program α) (f : α → Program β) : Program β :=
  p.andThen fun
    | .ok a => f a
    | .error e => done (.error e)

instance : Monad Program where
  pure a := done (.ok a)
  bind := bind

instance : MonadLift Outcome Program := ⟨done⟩

/-- A single call. -/
def perform (c : Call) : Program c.Value := call c done

/-- Gives up with a refusal. -/
def refuse (r : Refusal) : Program α := done (AppBroker.refuse r)

/-- The value of a program, or the refusal that it ends with; a breakage still ends the whole. -/
def attempt (p : Program α) : Program (Except Refusal α) :=
  p.andThen fun
    | .ok a => done (.ok (.ok a))
    | .error (.refusal r) => done (.ok (.error r))
    | .error e => done (.error e)

/-- Runs a program while holding a lock, which is given up however the program ends. -/
def holding (key : AppKey) (p : Program α) : Program α :=
  lock key (p.andThen fun result => unlock key (done result))

/-- Runs a program and, however it ends, another one after it; a failure of the second wins. -/
def finally' (p : Program α) (last : Program Unit) : Program α :=
  p.andThen fun result => last.bind fun _ => done result

/-- Runs a program for each element, in order, up to the first failure. -/
def forEach (f : β → Program α) : List β → Program (List α)
  | [] => done (.ok [])
  | b :: bs => (f b).bind fun a => (forEach f bs).bind fun as => done (.ok (a :: as))

/-- Notes a warning or an error. -/
def warn (severity : Severity) (text : String) : Program Unit := perform (.warn severity text)

end Program

namespace World

/-- The records of a tenant, with the clock moved on. -/
def load (tenant : String) : Action World (Table String Record) := fun w =>
  let (records, clock) := Store.load w.broker.codec w.disk w.broker.store w.clock tenant
  (records, { w with clock })

/-- The record that fields make; one without a time takes it from the clock. -/
def newRecord (fields : List (Value × Value)) : Action World Record := fun w =>
  let clock := if Record.needsClock fields then w.clock.afterNow else w.clock
  ((Record.ofFields w.clock.moment fields).toOutcome, { w with clock })

/-- Changes the records of a tenant. -/
def rewrite (tenant : String) (f : Table String Record → Outcome (Table String Record)) :
    Action World Unit :=
  (load tenant).bind fun records w =>
    match (do Store.save w.broker.codec w.disk w.broker.store tenant (← f records)) with
    | .ok disk => (.ok (), { w with disk })
    | .error e => (.error e, w)

/-- Looks something up on the disk. -/
def look {α : Type} (f : World → Outcome α) : Action World α := fun w => (f w, w)

/-- Changes the routes. -/
def route (c : RouteChange) : Action World Unit := fun w =>
  let changed := w.broker.router.change w.replies c
  (changed.result,
    { w.setRouter changed.router with
      replies := changed.replies
      trace := w.trace ++ changed.sent.map .request })

/-- Uses the service for source control, if there is one. -/
def withSource {α : Type} (f : SourceControl → Action World α) : Action World α := fun w =>
  match w.source with
  | none => (refuse (.other "source control is not configured"), w)
  | some source => f source w

/-- A branch by its name. -/
def branchNamed (name : String) : Branch := { id := "refs/heads/" ++ name, display := name }

/-- The label of an application's repository. -/
def labelOf (tenant name : String) : Branch :=
  let text := tenant ++ "-" ++ name
  { id := "refs/tags/" ++ text, display := text, type := "tag" }

/-- Deploys a branch; the one that is broken is refused. -/
def deploy (tenant name branch : String) : Action World Unit :=
  withSource fun _ w =>
    let w := w.note (.deployed tenant name branch)
    if branch = "broken" then (refuse (.other "scm refused"), w)
    else (.ok (), { w with source := some ⟨branch⟩ })

/-- The answer to a call. -/
def answer : (c : Call) → Action World c.Value
  | .record tenant name => (load tenant).bind fun records => pure (records.get? name)
  | .records tenant => (load tenant).bind fun records => pure (Store.sorted records)
  | .tenants => look fun w => Store.tenants w.disk w.broker.store
  | .addRecord tenant r => rewrite tenant (Store.withNew tenant r)
  | .replaceRecord tenant r => rewrite tenant (Store.withChanged tenant r)
  | .removeRecord tenant name => rewrite tenant (Store.without tenant name)
  | .compose caller framework services =>
    look fun w => Composition.resolve w.disk w.broker.hub caller framework services
  | .plugin tag => look fun w => Hub.plugin w.disk w.broker.hub tag
  | .now => fun w => (.ok w.clock.moment, { w with clock := w.clock.afterNow })
  | .create app tenant tag => Runtime.create app tenant tag
  | .find app tenant service => Runtime.find app tenant service
  | .inspect h => Runtime.inspect h
  | .start h => Runtime.start h
  | .stop h => Runtime.stop h
  | .restart h => Runtime.restart h
  | .destroy h => Runtime.destroy h
  | .exec h user command => Runtime.exec h user command
  | .route change => route change
  | .deploy tenant name branch => deploy tenant name branch
  | .branches tenant name => withSource fun source =>
    pure (branchNamed source.current, [branchNamed "main", branchNamed "dev", labelOf tenant name])
  | .disconnect => Runtime.close
  | .warn severity text => warn severity text

end World

/-- Runs a program by itself. -/
def Program.run {α : Type} : Program α → Action World α
  | .done result => fun w => (result, w)
  | .call c next => fun w =>
    let (answer, w) := w.answer c
    (next answer).run w
  | .lock _ next => next.run
  | .unlock _ next => next.run

end AppBroker
