import AppBroker.Action
import AppBroker.Disk

/-!
# Actions on the disk

Operations that change the disk step by step. A fault ends them, and the steps before it stay done.
-/

namespace AppBroker.Disk

/-- Changes the disk. -/
def update (f : Disk → Answer Disk) : Action Disk Unit := fun d =>
  match f d with
  | .ok d => (.ok (), d)
  | .error fault => (fail fault.breakage, d)

/-- Looks something up on the disk. -/
def look {α : Type} (f : Disk → Outcome α) : Action Disk α := fun d => (f d, d)

/-- Changes the disk, or leaves it as it is if that is refused. -/
def tryUpdate (f : Disk → Answer Disk) : Action Disk Unit := fun d =>
  match f d with
  | .ok d => (.ok (), d)
  | .error _ => (.ok (), d)

end AppBroker.Disk
