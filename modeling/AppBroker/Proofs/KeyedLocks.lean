import AppBroker.Lock.Keyed

/-!
# The table of a keyed lock

A table is neat if every key in it has a mutex of its own, and a key is there, with as many users
as its line is long, as long as its line is not empty. Entering and leaving keep a table neat and
change the mutex of one key only; in a neat table leaving never fails. So what follows from here on
is told from `mutexOf` alone: where the mutexes lie and how users are counted no longer matters.
-/

namespace AppBroker

namespace KeyedLock

variable {κ τ : Type} [DecidableEq κ] {t : KeyedLock κ τ} {key : κ} {lock : Nat}

/-- Every key in the table has a mutex of its own. -/
structure Placed (t : KeyedLock κ τ) : Prop where
  nodup : t.locks.keys.Nodup
  made : ∀ k lock, t.locks.get? k = some lock → lock < t.mutexes.length
  apart : ∀ k k' lock, t.locks.get? k = some lock → t.locks.get? k' = some lock → k = k'

theorem Placed.mutexOf_onMutex (h : t.Placed) (hk : t.locks.get? key = some lock)
    (f : Mutex τ → Mutex τ) (k : κ) :
    (t.onMutex lock f).mutexOf k = if key = k then f (t.mutexOf k) else t.mutexOf k := by
  have hl := h.made key lock hk
  unfold mutexOf
  rw [show (t.onMutex lock f).locks = t.locks from rfl]
  cases hk' : t.locks.get? k with
  | none => simp [show key ≠ k by rintro rfl; simp [hk] at hk']
  | some l =>
    have : lock = l ↔ key = k :=
      ⟨fun e => h.apart _ _ _ hk (e ▸ hk'), fun e => by subst e; simpa [hk] using hk'⟩
    simp only [mutex_onMutex hl, this]

theorem Placed.onMutex (h : t.Placed) (lock : Nat) (f : Mutex τ → Mutex τ) :
    (t.onMutex lock f).Placed where
  nodup := h.nodup
  made k l hl := by simpa [KeyedLock.onMutex] using h.made k l hl
  apart := h.apart

theorem get?_reserve (t : KeyedLock κ τ) (key k : κ) : (t.reserve key).2.locks.get? k =
    if key = k then some (t.reserve key).1 else t.locks.get? k := by
  unfold reserve
  split
  · split <;> simp_all
  · exact Table.get?_insert _ _ _ _

theorem reserve_fst (h : t.locks.get? key = some lock) : (t.reserve key).1 = lock := by
  simp [reserve, h]

theorem users_reserve (t : KeyedLock κ τ) (key : κ) : (t.reserve key).2.users = t.users := by
  unfold reserve
  split <;> rfl

theorem Placed.reserve (h : t.Placed) (key : κ) :
    (t.reserve key).2.Placed ∧ ∀ k, (t.reserve key).2.mutexOf k = t.mutexOf k := by
  unfold KeyedLock.reserve
  cases hk : t.locks.get? key with
  | some lock => exact ⟨h, fun _ => rfl⟩
  | none =>
    have hget (k : κ) := Table.get?_insert t.locks key k t.mutexes.length
    refine ⟨⟨Table.nodup_keys_insert h.nodup _ _, fun k lock hl => ?_, fun k k' lock hl hl' => ?_⟩,
      fun k => ?_⟩
    · have := h.made k lock
      simp only [hget, List.length_append] at hl ⊢
      grind
    · have := h.made k lock
      have := h.made k' lock
      have := h.apart k k' lock
      simp only [hget] at hl hl'
      grind
    · have := h.made k
      simp only [mutexOf, mutex, hget]
      grind

/-- A key is in the table as long as somebody is in its line, and counts as many users. -/
structure Neat (t : KeyedLock κ τ) : Prop extends t.Placed where
  entry : ∀ k, t.locks.contains k ↔ (t.mutexOf k).line ≠ []
  counted : ∀ k, t.users.get? k =
    if (t.mutexOf k).line = [] then none else some ((t.mutexOf k).line.length : Int)

/-- What it is to change the mutex of one key. -/
structure Changed (t t' : KeyedLock κ τ) (key : κ) (f : Mutex τ → Mutex τ) : Prop where
  neat : t'.Neat
  mutexOf : ∀ k, t'.mutexOf k = if key = k then f (t.mutexOf k) else t.mutexOf k
  kept : ∀ k lock, t.locks.get? k = some lock → (t'.mutexOf k).line ≠ [] →
    t'.locks.get? k = some lock

theorem Neat.onMutex (h : t.Neat) (hk : t.locks.get? key = some lock) {f : Mutex τ → Mutex τ}
    (hf : (f (t.mutexOf key)).line = (t.mutexOf key).line) :
    t.Changed (t.onMutex lock f) key f where
  neat := by
    have hline (k : κ) : ((t.onMutex lock f).mutexOf k).line = (t.mutexOf k).line := by
      rw [h.mutexOf_onMutex hk]
      split
      · next hkk => exact hkk ▸ hf
      · rfl
    refine ⟨h.toPlaced.onMutex lock f, fun k => ?_, fun k => ?_⟩
    · rw [hline]; exact h.entry k
    · rw [hline]; exact h.counted k
  mutexOf := h.mutexOf_onMutex hk f
  kept _ _ hl _ := hl

theorem Neat.enter (h : t.Neat) (key : κ) (who : τ) :
    t.Changed (t.enter key who).2 key (·.ask who)
      ∧ (t.enter key who).2.locks.get? key = some (t.enter key who).1 := by
  obtain ⟨hplaced, hview⟩ := h.toPlaced.reserve key
  have hget := get?_reserve t key
  let counting : KeyedLock κ τ := { (t.reserve key).2 with
    users := t.users.insert key ((t.users.get? key).getD 0 + 1) }
  have heq : (t.enter key who).2 = counting.onMutex (t.reserve key).1 (·.ask who) := by
    simp only [KeyedLock.enter, users_reserve]
    rfl
  have hlock : (t.reserve key).2.locks.get? key = some (t.reserve key).1 := by simp [hget]
  have hc : counting.Placed := ⟨hplaced.nodup, hplaced.made, hplaced.apart⟩
  have hmutex (k : κ) : (t.enter key who).2.mutexOf k =
      if key = k then (t.mutexOf k).ask who else t.mutexOf k := by
    rw [heq, hc.mutexOf_onMutex hlock, ← hview k]
    rfl
  refine ⟨⟨⟨heq ▸ hc.onMutex _ _, fun k => ?_, fun k => ?_⟩, hmutex, fun k lock hl _ => ?_⟩, hlock⟩
  · have := h.entry k
    rw [hmutex]
    show ((t.reserve key).2.locks.get? k).isSome ↔ _
    rw [hget]
    split
    · simp [Mutex.line, Mutex.ask]
    · exact this
  · rw [hmutex, heq]
    show (t.users.insert key _).get? k = _
    rw [Table.get?_insert]
    have := h.counted k
    split
    · next hk =>
      subst hk
      rw [this]
      split <;> simp_all [Mutex.line, Mutex.ask]
      omega
    · exact this
  · show (t.reserve key).2.locks.get? k = _
    rw [hget]
    split
    · next hk => subst hk; rw [reserve_fst hl]
    · exact hl

theorem Neat.leave (h : t.Neat) (hk : t.locks.get? key = some lock) {f : Mutex τ → Mutex τ}
    (hf : (f (t.mutexOf key)).line.length + 1 = (t.mutexOf key).line.length) :
    (KeyedLock.leave key (t.onMutex lock f)).1 = .ok ()
      ∧ t.Changed (KeyedLock.leave key (t.onMutex lock f)).2 key f := by
  have hview := h.mutexOf_onMutex hk f
  have hplaced := h.toPlaced.onMutex lock f
  have hcount : t.users.get? key = some ((t.mutexOf key).line.length : Int) := by
    rw [h.counted, if_neg]
    exact List.ne_nil_of_length_pos (by omega)
  have hin : t.locks.contains key := by simp [Table.contains, hk]
  unfold KeyedLock.leave
  rw [show (t.onMutex lock f).users = t.users from rfl, hcount]
  dsimp only
  rw [show (t.onMutex lock f).locks = t.locks from rfl, if_pos hin]
  by_cases hlast : (f (t.mutexOf key)).line = []
  · have hone : ((t.mutexOf key).line.length : Int) - 1 = 0 := by simp [hlast] at hf; omega
    rw [if_pos hone]
    have hget (k : κ) := Table.get?_erase t.locks key k
    have hempty : f (t.mutexOf key) = {} := Mutex.eq_default_of_line hlast
    have hmutex (k : κ) : (KeyedLock.mutexOf ⟨t.locks.erase key, t.users.erase key,
        (t.onMutex lock f).mutexes⟩ k) = if key = k then f (t.mutexOf k) else t.mutexOf k := by
      rw [← hview k]
      by_cases hkk : key = k
      · subst hkk
        rw [hview, if_pos rfl, hempty]
        simp [mutexOf, hget]
      · simp [mutexOf, hget, hkk, KeyedLock.onMutex, mutex]
    refine ⟨rfl, ⟨⟨⟨?_, ?_, ?_⟩, fun k => ?_, fun k => ?_⟩, hmutex, fun k l hl hne => ?_⟩⟩
    · exact h.nodup.sublist (List.filter_sublist.map _)
    · intro k l hl
      have := hplaced.made k l
      simp only [hget] at hl
      grind [KeyedLock.onMutex]
    · intro k k' l hl hl'
      have := h.apart k k' l
      simp only [hget] at hl hl'
      grind
    · have := h.entry k
      rw [hmutex]
      simp only [Table.contains, hget] at this ⊢
      split
      · next hkk => subst hkk; simp [hlast]
      · exact this
    · have := h.counted k
      rw [hmutex]
      simp only [Table.get?_erase]
      split
      · next hkk => subst hkk; simp [hlast]
      · exact this
    · simp only [hmutex, hget] at hne ⊢
      split
      · next hkk => subst hkk; simp [hlast] at hne
      · exact hl
  · have hmore : ((t.mutexOf key).line.length : Int) - 1 ≠ 0 := by
      have := List.length_pos_iff.2 hlast
      omega
    rw [if_neg hmore]
    have hcounting : Placed ⟨t.locks, t.users.insert key (((t.mutexOf key).line.length : Int) - 1),
        (t.onMutex lock f).mutexes⟩ := ⟨hplaced.nodup, hplaced.made, hplaced.apart⟩
    refine ⟨rfl, ⟨⟨hcounting, fun k => ?_, fun k => ?_⟩, hview, fun _ _ hl _ => hl⟩⟩
    · have := h.entry k
      show _ ↔ ((t.onMutex lock f).mutexOf k).line ≠ []
      rw [hview]
      split
      · next hkk => subst hkk; simpa [hlast] using hin
      · exact this
    · have := h.counted k
      show _ = if ((t.onMutex lock f).mutexOf k).line = [] then none
        else some (((t.onMutex lock f).mutexOf k).line.length : Int)
      rw [hview]
      simp only [Table.get?_insert]
      split
      · next hkk =>
        subst hkk
        rw [if_neg hlast]
        congr 1
        omega
      · exact this

end KeyedLock

end AppBroker
