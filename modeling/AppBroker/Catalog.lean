import AppBroker.Hub.Install
import AppBroker.Lifecycle
import AppBroker.Resolver

/-!
# The catalog

What callers see of the hub, and what they may change in it. Looking through the hub skips plugins
whose manifests cannot be read, and warns of each. A caller installs and removes plugins in the own
tenant only.
-/

namespace AppBroker.Catalog

/-- Looks through the hub, and warns of what had to be skipped. -/
def survey {α : Type} (look : Disk → Path → Hub.Warned α) : Action World α := fun w =>
  let found := look w.disk w.broker.hub
  (found.result, found.warnings.foldl (fun w text => w.note (.notice .warning text)) w)

/-- Looks something up in the hub. -/
def consult {α : Type} (look : Disk → Path → Outcome α) : Action World α := fun w =>
  (look w.disk w.broker.hub, w)

/-- Changes the hub. -/
def change {α : Type} (act : Path → Action Disk α) : Action World α := fun w =>
  World.onDisk (act w.broker.hub) w

/-- The plugins that a caller can use without naming a tenant. -/
def plugins (caller : Caller) (category : Option Category) : Action World (List Plugin) :=
  survey fun d root => Resolver.installed d root caller.tenant category

/-- The plugins of the caller's own tenant. -/
def ownPlugins (caller : Caller) (category : Option Category) : Action World (List Plugin) :=
  survey fun d root => Resolver.own d root caller.tenant category

/-- The plugin that a reference denotes for a caller. -/
def pluginInfo (caller : Caller) (reference : String) : Action World Plugin :=
  consult fun d root => do Resolver.resolve d root caller.tenant (← Tag.parse reference)

/-- Installs a plugin for the caller's tenant. -/
def install (caller : Caller) (source : Path) : Action World Plugin := do
  let tenant ← caller.required
  change fun root => Hub.install root tenant source

/-- Removes a plugin of the caller's tenant; a tenant in the reference counts for nothing. -/
def remove (caller : Caller) (reference : String) : Action World Unit := do
  let tenant ← caller.required
  let tag ← Tag.parse reference
  change fun root => Hub.remove root (tag.withTenant tenant)

end AppBroker.Catalog
