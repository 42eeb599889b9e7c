import AppBroker.Lock.Keyed

/-!
# Parties of a lock

A party asks for a key, waits, holds it until it is told to finish, and gives it up, be it that
its work ends, fails, or is cancelled. Told to finish while it waits, it finishes as soon as it
gets the key; cancelled while it waits, it leaves the queue without ever holding the key. Whoever
asks again, for the same key or for another, is one party more.
-/

namespace AppBroker

/-- How work ends. -/
inductive Ending where
  | completed | failed
  deriving DecidableEq, Repr

/-- Where a party stands. -/
inductive Phase where
  | waiting | holding
  | ended (how : Ending)
  | cancelled
  deriving DecidableEq, Repr

/-- Somebody who asked for a key and got to use the mutex that the key had then; `told` is how the
work is to end once the key is held. -/
structure Party (κ τ : Type) where
  who : τ
  key : κ
  lock : Nat
  phase : Phase := .waiting
  told : Option Ending := none
  deriving Repr

/-- Whether a party is still to give up its key. -/
def Party.isOpen {κ τ : Type} (p : Party κ τ) : Bool := p.phase = .waiting || p.phase = .holding

/-- What becomes of a mutex when a party, known by its place, is done with it. -/
def Party.letGo {κ τ : Type} (p : Party κ τ) (i : Nat) (m : Mutex Nat) : Mutex Nat :=
  if p.phase = .holding then m.release else m.quit i

/-- A keyed lock with the parties that asked for a key, which are known by their place, and the
order in which keys were got. -/
structure LockRoom (κ τ : Type) where
  locks : KeyedLock κ Nat := {}
  asked : List (Party κ τ) := []
  got : List Nat := []
  deriving Repr

/-- What may happen to a party. -/
inductive LockStep (κ τ : Type) where
  | acquire (who : τ) (key : κ)
  | finish (who : τ) (how : Ending)
  | cancel (who : τ)
  deriving Repr

/-- Who a step is about. -/
def LockStep.who {κ τ : Type} : LockStep κ τ → τ
  | .acquire who _ => who
  | .finish who _ => who
  | .cancel who => who

namespace LockRoom

variable {κ τ : Type} [DecidableEq κ] [DecidableEq τ]

/-- The last party of each who asked. -/
def parties (r : LockRoom κ τ) : Table τ (Party κ τ) :=
  r.asked.foldl (fun t p => t.insert p.who p) []

/-- Who got a key, in order. -/
def order (r : LockRoom κ τ) : List τ := r.got.filterMap fun i => (r.asked[i]?).map Party.who

/-- The last party of somebody that is still to give up its key. -/
def current? (r : LockRoom κ τ) (who : τ) : Option (Nat × Party κ τ) :=
  (List.range r.asked.length).reverse.findSome? fun i =>
    (r.asked[i]?).bind fun p => if p.who = who ∧ p.isOpen then some (i, p) else none

/-- Asks for a key. -/
def ask (r : LockRoom κ τ) (who : τ) (key : κ) : Nat × LockRoom κ τ :=
  let (lock, locks) := r.locks.enter key r.asked.length
  (lock, { r with locks, asked := r.asked ++ [{ who, key, lock }] })

/-- Hands a free mutex to a party, the first that waits for it. -/
def give (r : LockRoom κ τ) (lock i : Nat) : LockRoom κ τ :=
  { locks := r.locks.onMutex lock Mutex.pass
    asked := r.asked.modify i fun p => { p with phase := .holding }
    got := r.got ++ [i] }

/-- Ends the use that a party makes of its key. -/
def part (r : LockRoom κ τ) (i : Nat) (p : Party κ τ) (phase : Phase) : LockRoom κ τ :=
  let (counted, locks) := KeyedLock.leave p.key (r.locks.onMutex p.lock (p.letGo i))
  let phase := match counted with
    | .ok () => phase
    | .error _ => .ended .failed
  { r with locks, asked := r.asked.modify i fun p => { p with phase } }

/-- Hands a free mutex on to those who wait for it, up to the first that has not been told how to
end. -/
def settle (r : LockRoom κ τ) (lock : Nat) : List Nat → LockRoom κ τ
  | [] => r
  | next :: rest =>
    let r := r.give lock next
    match r.asked[next]? with
    | none => r
    | some p =>
      match p.told with
      | none => r
      | some how => (r.part next p (.ended how)).settle lock rest

/-- Lets those have a mutex who can. -/
def wake (r : LockRoom κ τ) (lock : Nat) : LockRoom κ τ :=
  if (r.locks.mutex lock).isLocked then r else r.settle lock (r.locks.mutex lock).waiters

/-- Tells a party how to end once it holds its key; what it was told first counts. -/
def tell (r : LockRoom κ τ) (i : Nat) (how : Ending) : LockRoom κ τ :=
  { r with asked := r.asked.modify i fun p => { p with told := p.told.or (some how) } }

/-- Takes a step, up to where nothing more goes on by itself. -/
def step (r : LockRoom κ τ) : LockStep κ τ → LockRoom κ τ
  | .acquire who key =>
    let (lock, r) := r.ask who key
    r.wake lock
  | .finish who how =>
    match r.current? who with
    | none => r
    | some (i, p) =>
      if p.phase = .holding then (r.part i p (.ended how)).wake p.lock else r.tell i how
  | .cancel who =>
    match r.current? who with
    | none => r
    | some (i, p) => (r.part i p .cancelled).wake p.lock

/-- Takes steps. -/
def run (r : LockRoom κ τ) (steps : List (LockStep κ τ)) : LockRoom κ τ := steps.foldl step r

/-- Whether the key of somebody's last party is locked. -/
def isLockedFor (r : LockRoom κ τ) (who : τ) : Bool :=
  match r.parties.get? who with
  | none => false
  | some party => r.locks.isLocked party.key

end LockRoom

end AppBroker
