import AppBroker.Action
import AppBroker.Table

/-!
# Mutexes by key

A mutex has an owner or none, and those who wait for it in the order in which they asked. A keyed
lock makes a mutex for a key on its first use, counts the users of the key, be they owner or
waiting, and forgets the key with its last user. Whoever uses a key keeps the mutex that was there
when it asked: should the table forget a key too early, the next user would get another mutex and
two would own the same key.
-/

namespace AppBroker

/-- A mutex, handed on first come, first served. -/
structure Mutex (τ : Type) where
  owner : Option τ := none
  waiters : List τ := []
  deriving DecidableEq, Repr

namespace Mutex

variable {τ : Type}

def isLocked (m : Mutex τ) : Bool := m.owner.isSome

/-- Queues up. -/
def ask (m : Mutex τ) (who : τ) : Mutex τ := { m with waiters := m.waiters ++ [who] }

/-- Hands a free mutex to the first who waits. -/
def pass (m : Mutex τ) : Mutex τ := { owner := m.waiters.head?, waiters := m.waiters.tail }

def release (m : Mutex τ) : Mutex τ := { m with owner := none }

/-- Stops waiting. -/
def quit [DecidableEq τ] (m : Mutex τ) (who : τ) : Mutex τ :=
  { m with waiters := m.waiters.erase who }

/-- The owner and those who wait, in turn. -/
def line (m : Mutex τ) : List τ := m.owner.toList ++ m.waiters

theorem eq_default_of_line {m : Mutex τ} (h : m.line = []) : m = {} := by
  obtain ⟨_ | owner, waiters⟩ := m
  · simpa [line] using h
  · simp [line] at h

end Mutex

/-- Mutexes by key. A mutex is known by its place among all that were ever made. -/
structure KeyedLock (κ τ : Type) where
  locks : Table κ Nat := []
  users : Table κ Int := []
  mutexes : List (Mutex τ) := []
  deriving Repr

namespace KeyedLock

variable {κ τ : Type} [DecidableEq κ]

def mutex (t : KeyedLock κ τ) (lock : Nat) : Mutex τ := (t.mutexes[lock]?).getD {}

def onMutex (t : KeyedLock κ τ) (lock : Nat) (f : Mutex τ → Mutex τ) : KeyedLock κ τ :=
  { t with mutexes := t.mutexes.modify lock f }

/-- The mutex of a key, which is new if the key has none. -/
def reserve (t : KeyedLock κ τ) (key : κ) : Nat × KeyedLock κ τ :=
  match t.locks.get? key with
  | some lock => (lock, t)
  | none =>
    let lock := t.mutexes.length
    (lock, { t with locks := t.locks.insert key lock, mutexes := t.mutexes ++ [{}] })

/-- Counts one more user of a key and queues it up. -/
def enter (t : KeyedLock κ τ) (key : κ) (who : τ) : Nat × KeyedLock κ τ :=
  let (lock, t) := t.reserve key
  let t := { t with users := t.users.insert key ((t.users.get? key).getD 0 + 1) }
  (lock, t.onMutex lock (·.ask who))

/-- Counts one user of a key less, and forgets the key after the last. -/
def leave (key : κ) : Action (KeyedLock κ τ) Unit := fun t =>
  match t.users.get? key with
  | none => (fail .missingKey, t)
  | some users =>
    if users - 1 = 0 then
      let t := { t with users := t.users.erase key }
      if t.locks.contains key then (.ok (), { t with locks := t.locks.erase key })
      else (fail .missingKey, t)
    else (.ok (), { t with users := t.users.insert key (users - 1) })

/-- Whether somebody owns a key. -/
def isLocked (t : KeyedLock κ τ) (key : κ) : Bool :=
  match t.locks.get? key with
  | none => false
  | some lock => (t.mutex lock).isLocked

/-- The number of keys in the table. -/
def size (t : KeyedLock κ τ) : Nat := t.locks.length

/-- The mutex of a key in use; a key that is not in use has nobody in line. -/
def mutexOf (t : KeyedLock κ τ) (key : κ) : Mutex τ :=
  match t.locks.get? key with
  | none => {}
  | some lock => t.mutex lock

variable {t : KeyedLock κ τ} {key : κ} {lock : Nat}

theorem mutexOf_eq (h : t.locks.get? key = some lock) : t.mutexOf key = t.mutex lock := by
  simp [mutexOf, h]

theorem isLocked_eq : t.isLocked key = (t.mutexOf key).isLocked := by
  unfold isLocked mutexOf
  split <;> rfl

omit [DecidableEq κ] in
theorem mutex_onMutex (h : lock < t.mutexes.length) (f : Mutex τ → Mutex τ) (l : Nat) :
    (t.onMutex lock f).mutex l = if lock = l then f (t.mutex l) else t.mutex l := by
  unfold mutex onMutex
  rw [List.getElem?_modify]
  split
  · next heq => subst heq; simp [h]
  · simp

@[simp] theorem mutex_leave (l : Nat) : ((leave key t).2).mutex l = t.mutex l := by
  unfold leave
  split
  · rfl
  · dsimp only
    repeat' split
    all_goals rfl

end KeyedLock

end AppBroker
