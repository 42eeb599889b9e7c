import AppBroker.Table

/-!
# Keyed locks

A lock table keeps a queue for every key that somebody holds or waits for. The first of a queue
holds the key and the others wait in the order in which they asked. A queue that becomes empty is
dropped, so the table only has entries for keys in use.
-/

namespace AppBroker

/-- The queues, by key; no queue is empty. -/
structure LockTable (κ τ : Type) where
  queues : Table κ (List τ) := []
  deriving Repr

namespace LockTable

variable {κ τ : Type} [DecidableEq κ]

/-- Who holds a key and who waits for it, holder first. -/
def queue (t : LockTable κ τ) (key : κ) : List τ := (t.queues.get? key).getD []

/-- Who holds a key. -/
def holder? (t : LockTable κ τ) (key : κ) : Option τ := (t.queue key).head?

/-- Whether somebody holds a key. -/
def isLocked (t : LockTable κ τ) (key : κ) : Bool := (t.holder? key).isSome

/-- The number of keys in use. -/
def size (t : LockTable κ τ) : Nat := t.queues.length

/-- Sets the queue of a key. -/
def setQueue (t : LockTable κ τ) (key : κ) : List τ → LockTable κ τ
  | [] => ⟨t.queues.erase key⟩
  | first :: rest => ⟨t.queues.insert key (first :: rest)⟩

/-- Asks for a key. -/
def join (t : LockTable κ τ) (key : κ) (who : τ) : LockTable κ τ :=
  t.setQueue key (t.queue key ++ [who])

/-- Gives up a key, be it held or waited for. -/
def leave [DecidableEq τ] (t : LockTable κ τ) (key : κ) (who : τ) : LockTable κ τ :=
  t.setQueue key ((t.queue key).erase who)

@[simp] theorem queue_setQueue (t : LockTable κ τ) (key k : κ) (q : List τ) :
    (t.setQueue key q).queue k = if key = k then q else t.queue k := by
  cases q <;> simp only [setQueue, queue, Table.get?_erase, Table.get?_insert]
    <;> split <;> simp_all

theorem queue_join (t : LockTable κ τ) (key k : κ) (who : τ) :
    (t.join key who).queue k = if key = k then t.queue key ++ [who] else t.queue k := by
  simp [join]

theorem queue_leave [DecidableEq τ] (t : LockTable κ τ) (key k : κ) (who : τ) :
    (t.leave key who).queue k = if key = k then (t.queue key).erase who else t.queue k := by
  simp [leave]

end LockTable

end AppBroker
