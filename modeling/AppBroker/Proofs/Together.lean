import AppBroker.Proofs.Contract
import AppBroker.Proofs.LockOrder

/-!
# Contracts of programs run together

A program of a pool is safe if, whenever it comes to hold an application that is idle, it meets its
contract and leaves the application idle again. A pool of safe programs keeps the world sound at
every step, and every application that nobody holds is idle, whatever the order of the steps. The
same contracts hold of a program that runs by itself.
-/

namespace AppBroker

section

variable {α β : Type} (t : Terms) (idle : AppKey → World → Prop)

namespace Program

/-- Whether a program, holding an application or none, keeps to the terms from here on and leaves
idle whatever it gives up. -/
def Safe : Program α → Option AppKey → World → Prop
  | .done _, held, _ => held = none
  | .call c next, some k, w => ∀ w', t.sound w' → t.rely k w w' → t.allows c w' →
      t.sound (w'.answer c).2 ∧ (∀ k', k' ≠ k → t.rely k' w' (w'.answer c).2)
        ∧ (next (w'.answer c).1).Safe (some k) (w'.answer c).2
  | .lock k next, none, _ => ∀ w, t.sound w → idle k w → next.Safe (some k) w
  | .unlock k' next, some k, w => k' = k ∧ (∀ w', t.sound w' → t.rely k w w' → idle k w')
      ∧ ∀ w', next.Safe none w'
  | _, _, _ => False

variable {t idle} {k : AppKey} {w w' : World}

theorem Safe.after {p : Program α} (h : p.Safe t idle (some k) w) (hr : t.rely k w w') :
    p.Safe t idle (some k) w' := by
  cases p with
  | done r => exact h
  | call c next => exact fun w'' hs h' => h w'' hs (t.rely_trans _ _ _ _ hr h')
  | lock key next => exact h
  | unlock key next =>
    exact ⟨h.1, fun w'' hs h' => h.2.1 w'' hs (t.rely_trans _ _ _ _ hr h'), h.2.2⟩

theorem Safe.anywhere {p : Program α} (h : p.Safe t idle none w) : p.Safe t idle none w' := by
  cases p <;> exact h

theorem Safe.refl {p : Program α} {held : Option AppKey} (h : p.Safe t idle held w)
    (hr : ∀ k, held = some k → t.rely k w w') : p.Safe t idle held w' := by
  cases held with
  | none => exact h.anywhere
  | some k => exact h.after (hr k rfl)

/-- A contract for what is done inside a lock makes the rest of the program safe. -/
theorem Safe.inside {p : Program β} {f : Outcome β → Program α} {k : AppKey} {w : World}
    (hw : t.sound w) (h : p.Meets t k (fun _ => idle k) w)
    (hf : ∀ r w', (f r).Safe t idle none w') :
    (p.andThen fun r => unlock k (f r)).Safe t idle (some k) w := by
  induction p generalizing w with
  | done r => exact ⟨rfl, h, hf r⟩
  | call c next ih =>
    intro w' hs hr ha
    obtain ⟨hs', hothers, hnext⟩ := h w' hs hr ha
    exact ⟨hs', hothers, ih _ hs' hnext⟩
  | lock key next => exact absurd (t.rely_refl k w) (h w hw)
  | unlock key next => exact absurd (t.rely_refl k w) (h w hw)

theorem Safe.holding {p : Program β} {f : Outcome β → Program α} {k : AppKey}
    (h : ∀ w, t.sound w → idle k w → p.Meets t k (fun _ => idle k) w)
    (hf : ∀ r w', (f r).Safe t idle none w') :
    ((Program.holding k p).andThen f).Safe t idle none w := by
  rw [holding_andThen]
  exact fun w' hs hi => .inside hs (h w' hs hi) hf

end Program

namespace Pool

/-- Whether every call that is made in some order of steps is one of the allowed. -/
def Along (P : Call → World → Prop) : Pool α → List Nat → Prop
  | _, [] => True
  | p, i :: order =>
    (∀ c next, p.tasks[i]? = some (.call c next) → P c p.world) ∧ (p.step i).Along P order

instance decidableAlong (P : Call → World → Prop) [∀ c w, Decidable (P c w)] :
    (p : Pool α) → (order : List Nat) → Decidable (p.Along P order)
  | _, [] => .isTrue trivial
  | p, i :: order =>
    have : Decidable (∀ c next, p.tasks[i]? = some (.call c next) → P c p.world) :=
      match h : p.tasks[i]? with
      | some (.call c next) => decidable_of_iff (P c p.world) <| by
          refine ⟨fun hP c' next' h' => ?_, fun hP => hP c next rfl⟩
          cases h'
          exact hP
      | none | some (.done _) | some (.lock _ _) | some (.unlock _ _) =>
        .isTrue fun _ _ h' => nomatch h'
    have := decidableAlong P (p.step i) order
    inferInstanceAs (Decidable (_ ∧ _))

theorem Along.imp {P P' : Call → World → Prop} {p : Pool α} {order : List Nat}
    (h : p.Along P order) (hP : ∀ c w, P c w → P' c w) : p.Along P' order := by
  induction order generalizing p with
  | nil => trivial
  | cons i order ih => exact ⟨fun c next hc => hP c _ (h.1 c next hc), ih h.2⟩

/-- What stays true of a pool of safe programs. -/
structure Kept (p : Pool α) (inside : Nat → Option AppKey) : Prop where
  ordered : p.Ordered inside
  sound : t.sound p.world
  safe : ∀ (i : Nat) (task : Program α), p.tasks[i]? = some task →
    task.Safe t idle (inside i) p.world
  idle : ∀ k, (∀ i, inside i ≠ some k) → idle k p.world

variable {t idle} {p : Pool α} {inside : Nat → Option AppKey} {i : Nat}

theorem Kept.call (h : p.Kept t idle inside) (hidle : ∀ k w w', t.rely k w w' → idle k w → idle k w')
    {c : Call} {next : Outcome c.Value → Program α} (ht : p.tasks[i]? = some (.call c next))
    (ha : t.allows c p.world) : (p.step i).Kept t idle inside := by
  have hsafe := h.safe i _ ht
  cases hin : inside i with
  | none => rw [hin] at hsafe; exact hsafe.elim
  | some k =>
    rw [hin] at hsafe
    obtain ⟨hs, hothers, hnext⟩ := hsafe p.world h.sound (t.rely_refl _ _) ha
    have hord := h.ordered.call ht
    rw [step_call ht] at hord ⊢
    refine ⟨hord, hs, fun j task hj => ?_, fun k' hk' => ?_⟩
    · rw [getElem?_advance (by simp [ht])] at hj
      split at hj
      · rename_i hij
        obtain rfl := Option.some.inj hj
        rw [← hij, hin]
        exact hnext
      · rename_i hij
        refine (h.safe j task hj).refl fun k' hk' => hothers k' ?_
        rintro rfl
        exact hij (h.ordered.holder_unique hin hk')
    · have hne : k' ≠ k := by rintro rfl; exact hk' i hin
      exact hidle k' _ _ (hothers k' hne) (h.idle k' hk')

theorem Kept.lock (h : p.Kept t idle inside) {k : AppKey} {next : Program α}
    (ht : p.tasks[i]? = some (.lock k next)) : ∃ inside, (p.step i).Kept t idle inside := by
  have hsafe := h.safe i _ ht
  have hout : inside i = none := by
    cases hin : inside i with
    | none => rfl
    | some k' => rw [hin] at hsafe; exact hsafe.elim
  rw [step_lock ht]
  split
  · rename_i hold
    refine ⟨_, h.ordered.enter ht hout hold, by simpa [advance] using h.sound, ?_, fun k' hk' => ?_⟩
    · intro j task hj
      rw [getElem?_advance (by simp [ht])] at hj
      split at hj
      · rename_i hij
        obtain rfl := Option.some.inj hj
        subst hij
        rw [Function.update_self]
        rw [hout] at hsafe
        have hfree := h.idle k (h.ordered.free_of_holder ht hout hold)
        simpa [advance] using hsafe p.world h.sound hfree
      · rename_i hij
        rw [Function.update_of_ne (Ne.symm hij)]
        simpa [advance] using h.safe j task (by simpa using hj)
    · have := h.idle k' fun j hj => by
        by_cases hij : j = i
        · rw [hij, hout] at hj; cases hj
        · exact hk' j (by rwa [Function.update_of_ne hij])
      simpa [advance] using this
  · exact ⟨inside, h.ordered.ask ht, by simpa using h.sound, by simpa using h.safe,
      by simpa using h.idle⟩

theorem Kept.unlock (h : p.Kept t idle inside) {k : AppKey} {next : Program α}
    (ht : p.tasks[i]? = some (.unlock k next)) : ∃ inside, (p.step i).Kept t idle inside := by
  have hsafe := h.safe i _ ht
  cases hin : inside i with
  | none => rw [hin] at hsafe; exact hsafe.elim
  | some k' =>
    rw [hin] at hsafe
    obtain ⟨rfl, hleft, hnext⟩ := hsafe
    have hord := h.ordered.leave ht hin
    rw [step_unlock ht] at hord ⊢
    refine ⟨_, hord, h.sound, fun j task hj => ?_, fun k' hk' => ?_⟩
    · rw [getElem?_advance (by simp [ht])] at hj
      split at hj
      · rename_i hij
        obtain rfl := Option.some.inj hj
        rw [← hij, Function.update_self]
        exact hnext _
      · rename_i hij
        rw [Function.update_of_ne (Ne.symm hij)]
        exact h.safe j task hj
    · by_cases hk : k' = k
      · subst hk
        exact hleft _ h.sound (t.rely_refl _ _)
      · refine h.idle k' fun j hj => hk' j ?_
        have hij : j ≠ i := by
          rintro rfl
          exact hk (Option.some.inj (hj.symm.trans hin))
        rwa [Function.update_of_ne hij]

theorem Kept.step (h : p.Kept t idle inside)
    (hidle : ∀ k w w', t.rely k w w' → idle k w → idle k w')
    (ha : ∀ c next, p.tasks[i]? = some (.call c next) → t.allows c p.world) :
    ∃ inside, (p.step i).Kept t idle inside := by
  cases ht : p.tasks[i]? with
  | none => exact ⟨inside, by rwa [step_none ht]⟩
  | some task =>
    cases task with
    | done r => exact ⟨inside, by rwa [step_done ht]⟩
    | call c next => exact ⟨inside, h.call hidle ht (ha c next ht)⟩
    | lock k next => exact h.lock ht
    | unlock k next => exact h.unlock ht

theorem Kept.run (hidle : ∀ k w w', t.rely k w w' → idle k w → idle k w') {order : List Nat}
    (h : p.Kept t idle inside) (ha : p.Along t.allows order) :
    ∃ inside, (p.run order).Kept t idle inside := by
  induction order generalizing p inside with
  | nil => exact ⟨inside, h⟩
  | cons i order ih =>
    obtain ⟨hi, hrest⟩ := ha
    obtain ⟨inside', h'⟩ := h.step hidle hi
    exact ih h' hrest

/-- A pool of programs that have not begun. -/
theorem Kept.start {w : World} {tasks : List (Program α)} (hs : t.sound w)
    (hsafe : ∀ task ∈ tasks, task.Safe t idle none w) (hidle : ∀ k, idle k w) :
    ({ world := w, tasks } : Pool α).Kept t idle fun _ => none where
  ordered := ⟨fun _ _ h => by simp at h, fun _ _ h => by simp [LockTable.queue] at h,
    fun _ => by simp [LockTable.queue]⟩
  sound := hs
  safe := fun _ _ h => hsafe _ (List.mem_of_getElem? h)
  idle := fun k _ => hidle k

theorem Kept.idle_of_free (h : p.Kept t idle inside) {k : AppKey}
    (hk : p.locks.holder? k = none) : idle k p.world := by
  refine h.idle k fun i hi => ?_
  rw [h.ordered.holds i k hi] at hk
  cases hk

end Pool

namespace Program

/-- Whether every call that a program makes when it runs by itself is one of the allowed. -/
def Along (P : Call → World → Prop) : Program α → World → Prop
  | .done _, _ => True
  | .call c next, w => P c w ∧ (next (w.answer c).1).Along P (w.answer c).2
  | .lock _ next, w | .unlock _ next, w => next.Along P w

section Along

variable {P R : Call → World → Prop} {w : World}

theorem Along.imp {p : Program α} (h : p.Along P w) (hP : ∀ c w, P c w → R c w) :
    p.Along R w := by
  induction p generalizing w with
  | done r => trivial
  | call c next ih => exact ⟨hP c w h.1, ih _ h.2⟩
  | lock key next ih => exact ih h
  | unlock key next ih => exact ih h

theorem along_true {p : Program α} : p.Along (fun _ _ => True) w := by
  induction p generalizing w with
  | done r => trivial
  | call c next ih => exact ⟨trivial, ih _⟩
  | lock key next ih => exact ih
  | unlock key next ih => exact ih

theorem along_andThen {p : Program β} {f : Outcome β → Program α} :
    (p.andThen f).Along P w ↔ p.Along P w ∧ (f (p.run w).1).Along P (p.run w).2 := by
  induction p generalizing w with
  | done r => exact (and_iff_right trivial).symm
  | call c next ih => exact (and_congr_right fun _ => ih _).trans and_assoc.symm
  | lock key next ih => exact ih
  | unlock key next ih => exact ih

theorem along_holding {key : AppKey} {p : Program α} : (holding key p).Along P w ↔ p.Along P w :=
  along_andThen.trans (and_iff_left trivial)

/-- All calls are of one kind, and on a condition of another one as well. -/
theorem along_and_of {clean : Prop} {p : Program α} (h : p.Along P w)
    (h' : clean → p.Along R w) : p.Along (fun c w => P c w ∧ (clean → R c w)) w := by
  induction p generalizing w with
  | done r => trivial
  | call c next ih => exact ⟨⟨h.1, fun hc => (h' hc).1⟩, ih _ h.2 fun hc => (h' hc).2⟩
  | lock key next ih => exact ih h h'
  | unlock key next ih => exact ih h h'

instance decidableAlong (P : Call → World → Prop) [∀ c w, Decidable (P c w)] :
    (p : Program α) → (w : World) → Decidable (p.Along P w)
  | .done _, _ => .isTrue trivial
  | .call c next, w =>
    have := decidableAlong P (next (w.answer c).1) (w.answer c).2
    inferInstanceAs (Decidable (_ ∧ _))
  | .lock _ next, w | .unlock _ next, w => decidableAlong P next w

end Along

/-- A program that runs by itself ends as its contract promises. -/
theorem Meets.run {k : AppKey} {p : Program α} {Q : Outcome α → World → Prop} {w : World}
    (h : p.Meets t k Q w) (hs : t.sound w) (ha : p.Along t.allows w) :
    t.sound (p.run w).2 ∧ (∀ k', k' ≠ k → t.rely k' w (p.run w).2)
      ∧ Q (p.run w).1 (p.run w).2 := by
  induction p generalizing w with
  | done r => exact ⟨hs, fun _ _ => t.rely_refl _ _, h w hs (t.rely_refl _ _)⟩
  | call c next ih =>
    obtain ⟨hc, hrest⟩ := ha
    obtain ⟨hs', hothers, hnext⟩ := h w hs (t.rely_refl _ _) hc
    obtain ⟨hs'', hothers', hQ⟩ := ih _ hnext hs' hrest
    exact ⟨hs'', fun k' hk => t.rely_trans _ _ _ _ (hothers k' hk) (hothers' k' hk), hQ⟩
  | lock key next => exact absurd (t.rely_refl k w) (h w hs)
  | unlock key next => exact absurd (t.rely_refl k w) (h w hs)

end Program

end

end AppBroker
