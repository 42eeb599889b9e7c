import AppBroker.Pool
import AppBroker.Proofs.Handling
import AppBroker.Proofs.Structural

/-!
# What every program keeps, locks or not

A program abides by an invariant if each of its calls keeps it, in whatever older world that others
leave it the call is made. What a program abides by needs no locks: it is kept by programs that run
together in any order, those included that hold no application while they work.
-/

namespace AppBroker

open Program

/-- Whether every call that a program can come to make keeps an invariant, however the world has got
older in between. -/
def Program.Abides {α : Type} (I : World → Prop) : Program α → World → Prop
  | .done _, _ => True
  | .call c next, w => ∀ w', I w' → w.Ages w' →
      I (w'.answer c).2 ∧ w'.Ages (w'.answer c).2 ∧ (next (w'.answer c).1).Abides I (w'.answer c).2
  | .lock _ next, w | .unlock _ next, w => next.Abides I w

namespace Program.Abides

variable {α β : Type} {I : World → Prop} {w w' : World}

theorem after {p : Program α} (h : p.Abides I w) (hw : w.Ages w') : p.Abides I w' := by
  induction p with
  | done r => trivial
  | call c next => exact fun w'' hI hage => h w'' hI (hw.trans hage)
  | lock key next ih => exact ih h
  | unlock key next ih => exact ih h

/-- A call, and what may be done about its answer in the world where it was made. -/
theorem call {c : Call} {f : Outcome c.Value → Program α} (hc : ∀ w, I w → I (w.answer c).2 ∧
      w.Ages (w.answer c).2)
    (hf : ∀ w', I w' → w.Ages w' → (f (w'.answer c).1).Abides I (w'.answer c).2) :
    ((perform c).andThen f).Abides I w :=
  fun w' hI hage => ⟨(hc w' hI).1, (hc w' hI).2, hf w' hI hage⟩

theorem andThen {p : Program β} {f : Outcome β → Program α} (hp : p.Abides I w)
    (hf : ∀ r w', (f r).Abides I w') : (p.andThen f).Abides I w := by
  induction p generalizing w with
  | done r => exact hf r w
  | call c next ih =>
    intro w' hI hage
    obtain ⟨hI', hage', hnext⟩ := hp w' hI hage
    exact ⟨hI', hage', ih _ hnext⟩
  | lock key next ih => exact ih hp
  | unlock key next ih => exact ih hp

theorem structural : Structural fun (α : Type) (p : Program α) => ∀ w, p.Abides I w where
  done _ _ := trivial
  andThen hp hf w := (hp w).andThen fun r w' => hf r w'

theorem holding {k : AppKey} {p : Program α} (hp : p.Abides I w) : (holding k p).Abides I w := by
  show (p.andThen fun result => unlock k (Program.done result)).Abides I w
  exact hp.andThen fun r w' => trivial

end Program.Abides

namespace Pool

variable {α : Type} {I : World → Prop} {p : Pool α}

/-- What all programs of a pool abide by holds, and they go on to abide by it. -/
structure Abiding (I : World → Prop) (p : Pool α) : Prop where
  now : I p.world
  later : ∀ task ∈ p.tasks, task.Abides I p.world

theorem Abiding.advance (h : p.Abiding I) {i : Nat} {rest : Program α}
    (hrest : rest.Abides I p.world) : (p.advance i rest).Abiding I :=
  ⟨h.now, fun task ht => (List.mem_or_eq_of_mem_set ht).elim (h.later task) (· ▸ hrest)⟩

theorem Abiding.step (h : p.Abiding I) (i : Nat) : (p.step i).Abiding I := by
  unfold Pool.step
  cases ht : p.tasks[i]? with
  | none => exact h
  | some task =>
    have htask := h.later task (List.mem_of_getElem? ht)
    cases task with
    | done r => exact h
    | call c next =>
      obtain ⟨hI, hage, hnext⟩ := htask p.world h.now (.refl _)
      exact Abiding.advance (p := { p with world := (p.world.answer c).2 })
        ⟨hI, fun task ht => (h.later task ht).after hage⟩ hnext
    | lock key next =>
      have hask : (p.ask i key).Abiding I := by
        unfold Pool.ask
        split
        · exact h
        · exact ⟨h.now, h.later⟩
      dsimp only
      split
      · refine hask.advance (show next.Abides I (p.ask i key).world from ?_)
        unfold Pool.ask
        split <;> exact htask
      · exact hask
    | unlock key next =>
      exact Abiding.advance (p := { p with locks := p.locks.leave key i }) ⟨h.now, h.later⟩ htask

theorem Abiding.run (h : p.Abiding I) (order : List Nat) : (p.run order).Abiding I := by
  induction order generalizing p with
  | nil => exact h
  | cons i order ih => exact ih (h.step i)

end Pool

end AppBroker
