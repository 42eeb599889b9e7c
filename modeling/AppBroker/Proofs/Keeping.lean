import AppBroker.Proofs.PublicHosts
import AppBroker.Proofs.Sequence

/-!
# Calls under locks

A program keeps to a kind of calls, and gives what is promised, as long as the world that answers it
keeps an invariant (`Program.Keeps`). A guarded program takes one lock at a time and makes only
calls that the lock permits (`Program.Guarded`). Where no permitted call breaks the invariant, programs
that run together keep it, and whoever is about to make a call holds the lock that permits it, with
nobody else in a turn at the same application (`Pool.Guarding.run`, `Pool.Guarding.pending`).
-/

namespace AppBroker

open Program Lifecycle

namespace Program

variable {α β : Type} {I : World → Prop} {S : Call → Prop} {k : AppKey}

/-- Whether a program takes no lock, makes calls of some kind only and gives what is promised unless
it fails, whatever a world with an invariant answers. -/
def Keeps (I : World → Prop) (S : Call → Prop) : Program α → (α → Prop) → Prop
  | .done o, P => ∀ a, o = .ok a → P a
  | .call c next, P => S c ∧ ∀ w, I w → (next (w.answer c).1).Keeps I S P
  | .lock _ _, _ | .unlock _ _, _ => False

namespace Keeps

variable {P P' : α → Prop} {R : β → Prop}

theorem weaken {p : Program α} (h : p.Keeps I S P) (hP : ∀ a, P a → P' a) : p.Keeps I S P' := by
  induction p with
  | done o => exact fun a ha => hP a (h a ha)
  | call c next ih => exact ⟨h.1, fun w hw => ih _ (h.2 w hw)⟩
  | lock key next => exact h
  | unlock key next => exact h

theorem andThen {p : Program β} {f : Outcome β → Program α} (hp : p.Keeps I S R)
    (hf : ∀ o, (∀ b, o = .ok b → R b) → (f o).Keeps I S P) : (p.andThen f).Keeps I S P := by
  induction p with
  | done o => exact hf o hp
  | call c next ih => exact ⟨hp.1, fun w hw => ih _ (hp.2 w hw)⟩
  | lock key next => exact hp.elim
  | unlock key next => exact hp.elim

theorem bind {p : Program β} {f : β → Program α} (hp : p.Keeps I S R)
    (hf : ∀ b, R b → (f b).Keeps I S P) : (p.bind f).Keeps I S P :=
  hp.andThen fun o ho => by
    cases o with
    | ok b => exact hf b (ho b rfl)
    | error e => exact nofun

theorem attempt {p : Program α} (hp : p.Keeps I S P) :
    p.attempt.Keeps I S fun r => ∀ a, r = .ok a → P a :=
  hp.andThen fun o ho => by
    rcases o with (r | b) | a
    · rintro _ ⟨⟩ _ ⟨⟩
    · exact nofun
    · rintro _ ⟨⟩ _ ⟨⟩
      exact ho a rfl

theorem ok {a : α} (h : P a) : (Program.done (.ok a)).Keeps I S P := by
  rintro _ ⟨⟩
  exact h

theorem failed {e : Failure} : (Program.done (.error e) : Program α).Keeps I S P := nofun

theorem forEach {f : β → Program α} {bs : List β} (hf : ∀ b ∈ bs, (f b).Keeps I S P) :
    (Program.forEach f bs).Keeps I S fun as => ∀ a ∈ as, P a := by
  induction bs with
  | nil => exact ok nofun
  | cons b bs ih =>
    refine (hf b List.mem_cons_self).bind fun a ha => ?_
    refine (ih fun b hb => hf b (List.mem_cons_of_mem _ hb)).bind fun as has => ok fun a' ha' => ?_
    rcases List.mem_cons.1 ha' with rfl | ha'
    · exact ha
    · exact has a' ha'

theorem structural : Structural fun (α : Type) (p : Program α) => p.Keeps I S fun _ => True where
  done _ _ _ := trivial
  andThen hp hf := hp.andThen fun o _ => hf o

end Keeps

/-- A call, and what is known of its answer. -/
theorem keeps_perform {c : Call} {P : c.Value → Prop} (hc : S c)
    (h : ∀ (w : World) a, I w → (w.answer c).1 = .ok a → P a) : (perform c).Keeps I S P :=
  ⟨hc, fun w hw a ha => h w a hw ha⟩

theorem keeps_call {c : Call} (hc : S c) : (perform c).Keeps I S fun _ => True :=
  keeps_perform hc fun _ _ _ _ => trivial

/-- A container is routed by the id and under the host that it has when it is looked at. -/
theorem keeps_publish (platform : PlatformSettings) {h : Handle}
    (hplugin : S (.plugin h.tag.withoutService)) (hinspect : S (.inspect h))
    (hwarn : ∀ severity text, S (.warn severity text))
    (hroute : ∀ (w : World) (current : Handle) endpoints, I w →
      (w.answer (.inspect h)).1 = .ok current →
      (∀ e ∈ endpoints, e.frontend = platform.frontend current) →
      S (.route (.publish current.id endpoints))) :
    (publish platform h).Keeps I S fun _ => True := by
  have hrouted (p : Plugin) : (routeEndpoints platform h p).Keeps I S fun _ => True := by
    refine ⟨hinspect, fun w hw => ?_⟩
    cases hc : (w.answer (.inspect h)).1 with
    | error e => exact Keeps.failed
    | ok current =>
      refine keeps_call (hroute w current _ hw hc fun e he => ?_)
      obtain ⟨d, -, rfl⟩ := List.mem_map.1 he
      rfl
  have hS := Keeps.structural (I := I) (S := S)
  refine hS.bind (hS.attempt (keeps_call hplugin)) fun found => ?_
  rcases found with r | p
  · dsimp only
    split
    · exact keeps_call (hwarn _ _)
    · exact Keeps.failed
  · dsimp only
    split
    · exact Keeps.ok trivial
    · refine hS.bind (hS.attempt (hrouted p)) fun routed => ?_
      rcases routed with r | u
      · exact keeps_call (hwarn _ _)
      · exact Keeps.ok trivial

theorem keeps_retract {h : Handle} (hroute : S (.route (.retract h.id)))
    (hwarn : ∀ severity text, S (.warn severity text)) :
    (retract h).Keeps I S fun _ => True := by
  have hS := Keeps.structural (I := I) (S := S)
  refine hS.bind (hS.attempt (keeps_call hroute)) fun retracted => ?_
  rcases retracted with r | u
  · dsimp only
    split
    · exact keeps_call (hwarn _ _)
    · exact Keeps.failed
  · exact Keeps.ok trivial

/-! ## Guarded programs -/

/-- Whether every call is permitted under the lock that is held when it is made, in whatever world
with an invariant; one lock is held at a time and given up in the end. -/
def Guarded (I : World → Prop) (S : Option AppKey → Call → Prop) :
    Program α → Option AppKey → Prop
  | .done _, held => held = none
  | .call c next, held => S held c ∧ ∀ w, I w → (next (w.answer c).1).Guarded I S held
  | .lock k next, none => next.Guarded I S (some k)
  | .unlock k' next, some k => k' = k ∧ next.Guarded I S none
  | .lock _ _, some _ | .unlock _ _, none => False

/-- Whether a program is in the middle of a turn at an application: before anything else happens to
locks it gives that one up. -/
def IsWithin (k : AppKey) : Program α → Prop
  | .call c next => ∀ w : World, (next (w.answer c).1).IsWithin k
  | .unlock k' _ => k' = k
  | .done _ | .lock _ _ => False

section Guarded

variable {S : Option AppKey → Call → Prop}

/-- Where a program is within a turn, it holds the lock for it. -/
theorem Guarded.held_eq {p : Program α} {held : Option AppKey} (h : p.Guarded I S held)
    (hk : p.IsWithin k) {w : World} (hw : I w) : held = some k := by
  induction p generalizing held with
  | done r => exact hk.elim
  | call c next ih => exact ih _ (h.2 w hw) (hk w)
  | lock key next => exact hk.elim
  | unlock key next =>
    cases held with
    | none => exact h.elim
    | some k' => rw [← h.1, show key = k from hk]

/-- What keeps to the calls that a lock permits is guarded while the lock is held. -/
theorem Keeps.guarded {p : Program β} {f : Outcome β → Program α} {held : Option AppKey}
    {P : β → Prop} (hp : p.Keeps I (S held) P) (hf : ∀ o, (f o).Guarded I S held) :
    (p.andThen f).Guarded I S held := by
  induction p with
  | done o => exact hf o
  | call c next ih => exact ⟨hp.1, fun w hw => ih _ (hp.2 w hw)⟩
  | lock key next => exact hp.elim
  | unlock key next => exact hp.elim

/-- Turns at applications are guarded if in each of them is done what its lock permits. -/
theorem guarded_forEach {δ : Type} {key : δ → AppKey} {f : δ → Program β} {ds : List δ}
    {P : β → Prop} (hturn : ∀ d ∈ ds, (f d).Keeps I (S (some (key d))) P)
    {g : Outcome (List β) → Program α} (hg : ∀ o, (g o).Guarded I S none) :
    ((forEach (fun d => holding (key d) (f d)) ds).andThen g).Guarded I S none := by
  induction ds generalizing g with
  | nil => exact hg _
  | cons d ds ih =>
    unfold forEach Program.bind
    rw [andThen_assoc, holding_andThen]
    have hd : (f d).Keeps I (S (some (key d))) P := hturn d List.mem_cons_self
    refine hd.guarded fun o => ⟨rfl, ?_⟩
    cases o with
    | error e => exact hg _
    | ok b =>
      simp only [andThen_assoc]
      refine ih (fun d' hd => hturn d' (List.mem_cons_of_mem d hd)) fun o' => ?_
      cases o' <;> exact hg _

end Guarded

end Program

namespace Pool

variable {α : Type}

/-- The call that a program is about to make. -/
def pending? (p : Pool α) (i : Nat) : Option Call :=
  match p.tasks[i]? with
  | some (.call c _) => some c
  | _ => none

/-- Whether a program holds a lock and no other is in a turn at the same application. -/
structure HeldBy (p : Pool α) (i : Nat) (k : AppKey) : Prop where
  holder : p.locks.holder? k = some i
  alone : ∀ j task, j ≠ i → p.tasks[j]? = some task → ¬ task.IsWithin k

/-- Guarded programs in a world with an invariant hold the locks that the lock table says. -/
structure Guarding (I : World → Prop) (S : Nat → Option AppKey → Call → Prop) (p : Pool α)
    (inside : Nat → Option AppKey) : Prop where
  now : I p.world
  ordered : p.Ordered inside
  guarded : ∀ (i : Nat) (task : Program α), p.tasks[i]? = some task →
    task.Guarded I (S i) (inside i)

variable {I : World → Prop} {S : Nat → Option AppKey → Call → Prop} {p : Pool α}
  {inside : Nat → Option AppKey} {i : Nat}

/-- Whose turn it is goes on, and the others are as before. -/
theorem Guarding.advance (h : p.Guarding I S inside) {p' : Pool α} {rest : Program α}
    {held : Option AppKey} (hp : p'.tasks = p.tasks) (ht : (p.tasks[i]?).isSome)
    (hnow : I p'.world) (hord : (p'.advance i rest).Ordered (Function.update inside i held))
    (hrest : rest.Guarded I (S i) held) :
    (p'.advance i rest).Guarding I S (Function.update inside i held) := by
  refine ⟨hnow, hord, fun j task hj => ?_⟩
  rw [getElem?_advance (hp ▸ ht), hp] at hj
  by_cases hij : i = j
  · subst hij
    rw [if_pos rfl] at hj
    obtain rfl := Option.some.inj hj
    rwa [Function.update_self]
  · rw [if_neg hij] at hj
    rw [Function.update_of_ne (Ne.symm hij)]
    exact h.guarded j task hj

theorem Guarding.call (h : p.Guarding I S inside)
    (hI : ∀ held c w, S i held c → I w → I (w.answer c).2) {c : Call}
    {next : Outcome c.Value → Program α} (ht : p.tasks[i]? = some (.call c next)) :
    (p.step i).Guarding I S inside := by
  obtain ⟨hc, hnext⟩ := h.guarded i _ ht
  have hsame : Function.update inside i (inside i) = inside := Function.update_eq_self i inside
  have hord := h.ordered.call ht
  rw [step_call ht] at hord ⊢
  rw [← hsame] at hord ⊢
  exact h.advance rfl (by simp [ht]) (hI _ c _ hc h.now) hord (hnext _ h.now)

theorem Guarding.lock (h : p.Guarding I S inside) {k : AppKey} {next : Program α}
    (ht : p.tasks[i]? = some (.lock k next)) : ∃ inside, (p.step i).Guarding I S inside := by
  have hguarded := h.guarded i _ ht
  have hout : inside i = none := by
    cases hin : inside i with
    | none => rfl
    | some k' => rw [hin] at hguarded; exact hguarded.elim
  rw [hout] at hguarded
  have hnow : I (p.ask i k).world := by simpa using h.now
  rw [step_lock ht]
  split
  · rename_i hold
    exact ⟨_, h.advance (ask_tasks k) (by simp [ht]) hnow (h.ordered.enter ht hout hold) hguarded⟩
  · exact ⟨inside, hnow, h.ordered.ask ht, by simpa using h.guarded⟩

theorem Guarding.unlock (h : p.Guarding I S inside) {k : AppKey} {next : Program α}
    (ht : p.tasks[i]? = some (.unlock k next)) : ∃ inside, (p.step i).Guarding I S inside := by
  have hguarded := h.guarded i _ ht
  cases hin : inside i with
  | none => rw [hin] at hguarded; exact hguarded.elim
  | some k' =>
    rw [hin] at hguarded
    obtain ⟨rfl, hnext⟩ := hguarded
    have hord := h.ordered.leave ht hin
    rw [step_unlock ht] at hord ⊢
    exact ⟨_, h.advance rfl (by simp [ht]) h.now hord hnext⟩

theorem Guarding.step (h : p.Guarding I S inside)
    (hI : ∀ held c w, S i held c → I w → I (w.answer c).2) :
    ∃ inside, (p.step i).Guarding I S inside := by
  cases ht : p.tasks[i]? with
  | none => exact ⟨inside, by rwa [step_none ht]⟩
  | some task =>
    cases task with
    | done r => exact ⟨inside, by rwa [step_done ht]⟩
    | call c next => exact ⟨inside, h.call hI ht⟩
    | lock k next => exact h.lock ht
    | unlock k next => exact h.unlock ht

theorem Guarding.run (h : p.Guarding I S inside)
    (hI : ∀ i held c w, S i held c → I w → I (w.answer c).2) (order : List Nat) :
    ∃ inside, (p.run order).Guarding I S inside := by
  induction order generalizing p inside with
  | nil => exact ⟨inside, h⟩
  | cons i order ih =>
    obtain ⟨inside', h'⟩ := h.step (hI i)
    exact ih h'

/-- Guarded programs that have not begun. -/
theorem Guarding.start {w : World} {tasks : List (Program α)} (hw : I w)
    (h : ∀ (i : Nat) (task : Program α), tasks[i]? = some task → task.Guarded I (S i) none) :
    ({ world := w, tasks } : Pool α).Guarding I S fun _ => none where
  now := hw
  ordered := ⟨fun _ _ h => by simp at h, fun _ _ h => by simp [LockTable.queue] at h,
    fun _ => by simp [LockTable.queue]⟩
  guarded := h

/-- Who is about to make a call may do so, and is alone with the application that it holds. -/
theorem Guarding.pending (h : p.Guarding I S inside) {c : Call} (hc : p.pending? i = some c) :
    S i (inside i) c ∧ ∀ k, inside i = some k → p.HeldBy i k := by
  unfold pending? at hc
  split at hc
  · rename_i c' next ht
    obtain rfl := Option.some.inj hc
    refine ⟨(h.guarded i _ ht).1, fun k hin => ⟨h.ordered.holds i k hin, ?_⟩⟩
    intro j task hj htask hwithin
    have hjk := (h.guarded j task htask).held_eq hwithin h.now
    exact hj (h.ordered.holder_unique hjk hin)
  · cases hc

end Pool

end AppBroker
