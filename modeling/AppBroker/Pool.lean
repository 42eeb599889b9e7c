import AppBroker.Lock
import AppBroker.Program

/-!
# Programs run together

A pool runs programs in one world. Each step advances one of them by a single call, or by taking or
giving up a lock. A program that asks for a lock joins its queue and goes on once it is the first
there. Which program advances when is given from outside, so that every order can be asked about.
-/

namespace AppBroker

/-- Programs that run together, by number, and the locks that they hold or wait for. -/
structure Pool (α : Type) where
  world : World
  locks : LockTable AppKey Nat := {}
  tasks : List (Program α)

namespace Pool

variable {α : Type}

/-- Replaces what is left of a program. -/
def advance (p : Pool α) (i : Nat) (rest : Program α) : Pool α :=
  { p with tasks := p.tasks.set i rest }

/-- Asks for a lock unless that has been done. -/
def ask (p : Pool α) (i : Nat) (key : AppKey) : Pool α :=
  if i ∈ p.locks.queue key then p else { p with locks := p.locks.join key i }

/-- Advances a program by one step, if it can. -/
def step (p : Pool α) (i : Nat) : Pool α :=
  match p.tasks[i]? with
  | none | some (.done _) => p
  | some (.call c next) =>
    let (answer, world) := p.world.answer c
    { p with world }.advance i (next answer)
  | some (.lock key next) =>
    let p := p.ask i key
    if p.locks.holder? key = some i then p.advance i next else p
  | some (.unlock key next) => { p with locks := p.locks.leave key i }.advance i next

/-- Advances programs in a given order. -/
def run (p : Pool α) (order : List Nat) : Pool α := order.foldl step p

/-- The outcome of a program that has ended. -/
def outcome? (p : Pool α) (i : Nat) : Option (Outcome α) :=
  match p.tasks[i]? with
  | some (.done result) => some result
  | _ => none

/-- Whether every program has ended. -/
def isFinished (p : Pool α) : Bool :=
  p.tasks.all fun
    | .done _ => true
    | _ => false

/-- Whether a call is over at once, without waiting for the disk, the engine or a service. -/
def isImmediate : Call → Bool
  | .now | .warn _ _ => true
  | _ => false

/-- Advances a program up to the next call that takes time, or to a lock that is taken. -/
def turn (p : Pool α) (i : Nat) : Program α → Pool α
  | .done _ => p
  | .call c next =>
    let (answer, world) := p.world.answer c
    let p := { p with world }.advance i (next answer)
    if isImmediate c then p.turn i (next answer) else p
  | .lock key next =>
    let p := p.ask i key
    if p.locks.holder? key = some i then (p.advance i next).turn i next else p
  | .unlock key next => ({ p with locks := p.locks.leave key i }.advance i next).turn i next

/-- Gives every program a turn. -/
def round (p : Pool α) : Pool α :=
  (List.range p.tasks.length).foldl (fun p i =>
    match p.tasks[i]? with
    | some task => p.turn i task
    | none => p) p

/-- Gives turns until every program has ended; the fuel bounds the number of rounds. -/
def finish : Nat → Pool α → Pool α
  | 0, p => p
  | fuel + 1, p => if p.isFinished then p else finish fuel p.round

/-- Runs programs together, each in turn, for a bounded number of rounds. Gives the outcomes of
those that have ended, and the number of locks that are left. -/
def together (rounds : Nat) (tasks : List (Program α)) : Action World (List (Outcome α) × Nat) :=
  fun w =>
    let p := finish rounds { world := w, tasks }
    (.ok ((List.range tasks.length).filterMap p.outcome?, p.locks.size), p.world)

end Pool

end AppBroker
