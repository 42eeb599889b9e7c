import AppBroker.Pool
import Mathlib.Logic.Function.Basic

/-!
# Who holds a lock

While programs of a pool take and give up locks one at a time, each holds at most one: `inside`
says which. Nobody else holds it then, everybody in a queue holds its lock or is about to take it,
and nobody stands in a queue twice. Each kind of step keeps this, with `inside` changed for the
program that takes or gives up a lock.
-/

namespace AppBroker.Pool

variable {α : Type}

/-- The lock that each program holds is the one that the lock table says. -/
structure Ordered (p : Pool α) (inside : Nat → Option AppKey) : Prop where
  holds : ∀ i k, inside i = some k → p.locks.holder? k = some i
  queued : ∀ i k, i ∈ p.locks.queue k →
    inside i = some k ∨ ∃ next, p.tasks[i]? = some (.lock k next)
  nodup : ∀ k, (p.locks.queue k).Nodup

section Step

variable {p : Pool α} {i : Nat}

theorem step_call {c : Call} {next : Outcome c.Value → Program α}
    (h : p.tasks[i]? = some (.call c next)) :
    p.step i = { p with world := (p.world.answer c).2 }.advance i (next (p.world.answer c).1) := by
  simp [step, h]

theorem step_lock {k : AppKey} {next : Program α} (h : p.tasks[i]? = some (.lock k next)) :
    p.step i = if (p.ask i k).locks.holder? k = some i then (p.ask i k).advance i next
      else p.ask i k := by
  simp [step, h]

theorem step_unlock {k : AppKey} {next : Program α} (h : p.tasks[i]? = some (.unlock k next)) :
    p.step i = { p with locks := p.locks.leave k i }.advance i next := by
  simp [step, h]

theorem step_done {r : Outcome α} (h : p.tasks[i]? = some (.done r)) : p.step i = p := by
  simp [step, h]

theorem step_none (h : p.tasks[i]? = none) : p.step i = p := by
  simp [step, h]

theorem getElem?_advance {rest : Program α} {j : Nat} (h : (p.tasks[i]?).isSome) :
    (p.advance i rest).tasks[j]? = if i = j then some rest else p.tasks[j]? := by
  have hi : i < p.tasks.length := by simpa using h
  simp only [advance, List.getElem?_set]
  split
  · simp_all
  · rfl

@[simp] theorem ask_tasks (k : AppKey) : (p.ask i k).tasks = p.tasks := by
  unfold ask; split <;> rfl

@[simp] theorem ask_world (k : AppKey) : (p.ask i k).world = p.world := by
  unfold ask; split <;> rfl

theorem queue_ask (k k' : AppKey) : (p.ask i k).locks.queue k' =
    if k = k' ∧ i ∉ p.locks.queue k then p.locks.queue k' ++ [i] else p.locks.queue k' := by
  unfold ask
  by_cases hi : i ∈ p.locks.queue k
  · simp [hi]
  · by_cases hk : k = k'
    · subst hk; simp [hi, LockTable.queue_join]
    · simp [hi, hk, LockTable.queue_join]

/-- Asking again changes nothing, and asking for the first time puts one last. -/
theorem holder?_ask {k k' : AppKey} {j : Nat} (h : p.locks.holder? k' = some j) :
    (p.ask i k).locks.holder? k' = some j := by
  unfold LockTable.holder? at h ⊢
  rw [queue_ask]
  split
  · cases hq : p.locks.queue k' with
    | nil => rw [hq] at h; cases h
    | cons a q => rw [hq] at h; exact h
  · exact h

end Step

namespace Ordered

variable {p : Pool α} {inside : Nat → Option AppKey} {i : Nat}

theorem holder_unique (h : p.Ordered inside) {k : AppKey} {j : Nat} (hi : inside i = some k)
    (hj : inside j = some k) : i = j := by
  have := (h.holds i k hi).symm.trans (h.holds j k hj)
  exact Option.some.inj this

/-- A program that makes a call goes on holding what it holds. -/
theorem call (h : p.Ordered inside) {c : Call} {next : Outcome c.Value → Program α}
    (ht : p.tasks[i]? = some (.call c next)) : (p.step i).Ordered inside := by
  rw [step_call ht]
  refine ⟨h.holds, fun j k hj => ?_, h.nodup⟩
  rcases h.queued j k hj with hin | ⟨next', hn⟩
  · exact .inl hin
  · refine .inr ⟨next', ?_⟩
    rw [getElem?_advance (by simp [ht])]
    have hne : i ≠ j := by rintro rfl; rw [ht] at hn; cases hn
    simpa [hne] using hn

theorem ask (h : p.Ordered inside) {k : AppKey} {next : Program α}
    (ht : p.tasks[i]? = some (.lock k next)) : (p.ask i k).Ordered inside := by
  refine ⟨fun j k' hj => holder?_ask (h.holds j k' hj), fun j k' hj => ?_, fun k' => ?_⟩
  · rw [queue_ask] at hj
    rw [ask_tasks]
    split at hj
    · rename_i hk
      obtain ⟨rfl, -⟩ := hk
      rcases List.mem_append.1 hj with hj | hj
      · exact h.queued j _ hj
      · rw [List.mem_singleton] at hj
        subst hj
        exact .inr ⟨next, ht⟩
    · exact h.queued j k' hj
  · rw [queue_ask]
    split
    · rename_i hk
      obtain ⟨rfl, hi⟩ := hk
      exact List.nodup_append.2 ⟨h.nodup _, by simp, by
        rintro a ha b hb rfl
        rw [List.mem_singleton] at hb
        exact hi (hb ▸ ha)⟩
    · exact h.nodup k'

/-- Nobody is inside a lock when another program comes to hold it. -/
theorem free_of_holder (h : p.Ordered inside) {k : AppKey} {next : Program α}
    (ht : p.tasks[i]? = some (.lock k next)) (hout : inside i = none)
    (hold : (p.ask i k).locks.holder? k = some i) (j : Nat) : inside j ≠ some k := by
  intro hj
  have := ((h.ask ht).holds j k hj).symm.trans hold
  rw [Option.some.inj this, hout] at hj
  cases hj

/-- A program that comes to hold a lock is inside it. -/
theorem enter (h : p.Ordered inside) {k : AppKey} {next : Program α}
    (ht : p.tasks[i]? = some (.lock k next)) (hout : inside i = none)
    (hold : (p.ask i k).locks.holder? k = some i) :
    ((p.ask i k).advance i next).Ordered (Function.update inside i (some k)) := by
  have ha := h.ask ht
  refine ⟨fun j k' hj => ?_, fun j k' hj => ?_, ha.nodup⟩
  · by_cases hij : j = i
    · subst hij
      rw [Function.update_self, Option.some.injEq] at hj
      subst hj
      exact hold
    · rw [Function.update_of_ne hij] at hj
      exact ha.holds j k' hj
  · by_cases hij : j = i
    · subst hij
      rcases ha.queued j k' hj with hin | ⟨next', hn⟩
      · rw [hout] at hin; cases hin
      · rw [ask_tasks, ht] at hn
        cases hn
        exact .inl (Function.update_self ..)
    · rw [Function.update_of_ne hij]
      rcases ha.queued j k' hj with hin | ⟨next', hn⟩
      · exact .inl hin
      · refine .inr ⟨next', ?_⟩
        rw [getElem?_advance (by simp [ht])]
        simpa [Ne.symm hij] using hn

/-- A program that gives up its lock is outside of all. -/
theorem leave (h : p.Ordered inside) {k : AppKey} {next : Program α}
    (ht : p.tasks[i]? = some (.unlock k next)) (hin : inside i = some k) :
    (p.step i).Ordered (Function.update inside i none) := by
  rw [step_unlock ht]
  have hq (k' : AppKey) : ({ p with locks := p.locks.leave k i }.advance i next).locks.queue k'
      = if k = k' then (p.locks.queue k).erase i else p.locks.queue k' :=
    LockTable.queue_leave _ _ _ _
  refine ⟨fun j k' hj => ?_, fun j k' hj => ?_, fun k' => ?_⟩
  · by_cases hij : j = i
    · subst hij; simp at hj
    · rw [Function.update_of_ne hij] at hj
      have hk : k ≠ k' := by rintro rfl; exact hij (h.holder_unique hj hin)
      show (LockTable.queue _ k').head? = some j
      rw [hq, if_neg hk]
      exact h.holds j k' hj
  · have hmem : j ∈ p.locks.queue k' := by
      rw [hq] at hj
      split at hj
      · rename_i hk; exact hk ▸ List.mem_of_mem_erase hj
      · exact hj
    have hij : j ≠ i := by
      rintro rfl
      rcases h.queued j k' hmem with hin' | ⟨next', hn⟩
      · obtain rfl := Option.some.inj (hin.symm.trans hin')
        rw [hq, if_pos rfl] at hj
        exact (h.nodup k).not_mem_erase hj
      · rw [ht] at hn; cases hn
    rw [Function.update_of_ne hij, getElem?_advance (by simp [ht]), if_neg (Ne.symm hij)]
    exact h.queued j k' hmem
  · rw [hq]
    split
    · exact (h.nodup k).erase i
    · exact h.nodup k'

end Ordered

end AppBroker.Pool
