import AppBroker.Resolver

/-!
# Compositions

An application is composed of one framework and any number of services. Every reference is made
concrete, the framework's first. A service fills the slot that its reference names, or else the
one named for the plugin, and no slot is filled twice.
-/

namespace AppBroker.Composition

/-- The slot of a service. -/
def slot (tag : Tag) (p : Plugin) : String := if tag.service ≠ "" then tag.service else p.name

/-- Puts services into their slots; `taken` are the slots filled before. -/
def fill (taken : List String) : List (Tag × Plugin) → Outcome (List (Tag × Plugin))
  | [] => .ok []
  | (tag, p) :: rest => do
    if p.category ≠ .service then refuse (.invalid (.notService tag.format))
    let slot := slot tag p
    if slot ∈ taken then refuse (.invalid (.duplicateService slot))
    return (tag.withService slot, p) :: (← fill (slot :: taken) rest)

/-- The composition that a caller's references denote. All are read before any is resolved. -/
def resolve (d : Disk) (root : Path) (caller framework : String) (services : List String) :
    Outcome (List (Tag × Plugin)) := do
  let frameworkTag := (← Tag.parse framework).withoutService
  let serviceTags ← services.mapM Tag.parse
  match ← Resolver.resolveAll d root caller (frameworkTag :: serviceTags) with
  | [] => fail .outOfRange
  | (tag, p) :: rest =>
    if p.category ≠ .framework then refuse (.invalid (.notFramework framework))
    return (tag, p) :: (← fill [] rest)

end AppBroker.Composition
