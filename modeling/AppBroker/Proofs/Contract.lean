import AppBroker.Lifecycle
import AppBroker.Proofs.Laws

/-!
# Contracts

What a program achieves while others work next to it. The world stays sound, and whoever does not
hold an application leaves alone what `rely` says of it. A program that holds one meets a contract
if each of its calls keeps the world sound and leaves all other applications alone, and if its
outcome is what the contract promises. Some calls may be ruled out, such as those that fail.
-/

namespace AppBroker

/-- The terms on which programs share a world. -/
structure Terms where
  sound : World → Prop
  /-- How the world may change for an application that is held. -/
  rely : AppKey → World → World → Prop
  allows : Call → World → Prop
  rely_refl : ∀ k w, rely k w w
  rely_trans : ∀ k w₁ w₂ w₃, rely k w₁ w₂ → rely k w₂ w₃ → rely k w₁ w₃

/-- For the terms on which nothing at all changes for one application. -/
theorem unchanged_trans {k k' : AppKey} {w₁ w₂ w₃ : World} (h : k' = k → w₂ = w₁)
    (h' : k' = k → w₃ = w₂) : k' = k → w₃ = w₁ :=
  fun hk => (h' hk).trans (h hk)

namespace Program

variable {α β : Type} (t : Terms) (k : AppKey)

/-- Whether a program that holds an application keeps to the terms and ends as promised. It takes no
further lock. -/
def Meets : Program α → (Outcome α → World → Prop) → World → Prop
  | .done r, Q, w => ∀ w', t.sound w' → t.rely k w w' → Q r w'
  | .call c next, Q, w => ∀ w', t.sound w' → t.rely k w w' → t.allows c w' →
      t.sound (w'.answer c).2 ∧ (∀ k', k' ≠ k → t.rely k' w' (w'.answer c).2)
        ∧ (next (w'.answer c).1).Meets Q (w'.answer c).2
  | .lock _ _, _, w | .unlock _ _, _, w => ∀ w', t.sound w' → ¬ t.rely k w w'

/-- What holds in the end, of a value or of a failure. -/
def ends (P : α → World → Prop) (E : Failure → World → Prop) : Outcome α → World → Prop
  | .ok a => P a
  | .error e => E e

theorem ends_true (r : Outcome α) (w : World) : ends (fun _ _ => True) (fun _ _ => True) r w := by
  cases r <;> trivial

/-- A call that nobody minds: the world stays sound, and nothing changes for any application. -/
def Minor (c : Call) : Prop :=
  ∀ w, t.sound w → t.allows c w →
    t.sound (w.answer c).2 ∧ ∀ k, t.rely k w (w.answer c).2

variable {t k} {Q Q' : Outcome α → World → Prop} {w w' : World}

/-- Nothing has to hold before the others have had their turn. -/
theorem Meets.of_after {p : Program α}
    (h : ∀ w', t.sound w' → t.rely k w w' → p.Meets t k Q w') : p.Meets t k Q w := by
  cases p <;> exact fun w' hs hr => h w' hs hr w' hs (t.rely_refl _ _)

theorem Meets.weaken {p : Program α} (h : p.Meets t k Q w)
    (hQ : ∀ r w', t.sound w' → Q r w' → Q' r w') : p.Meets t k Q' w := by
  induction p generalizing w with
  | done r => exact fun w' hs hr => hQ r w' hs (h w' hs hr)
  | call c next ih =>
    intro w' hs hr ha
    obtain ⟨hs', hothers, hnext⟩ := h w' hs hr ha
    exact ⟨hs', hothers, ih _ hnext⟩
  | lock key next => exact h
  | unlock key next => exact h

/-- What is promised at the end stays true while others go on. -/
theorem Meets.lasting {p : Program α} (h : p.Meets t k Q w) :
    p.Meets t k (fun r w' => ∀ w'', t.sound w'' → t.rely k w' w'' → Q r w'') w := by
  induction p generalizing w with
  | done r => exact fun w' _ hr w'' hs hr' => h w'' hs (t.rely_trans _ _ _ _ hr hr')
  | call c next ih =>
    intro w' hs hr ha
    obtain ⟨hs', hothers, hnext⟩ := h w' hs hr ha
    exact ⟨hs', hothers, ih _ hnext⟩
  | lock key next => exact h
  | unlock key next => exact h

/-- What neither others nor the program's own calls can change is still true at the end. -/
theorem Meets.frame {p : Program α} {P : World → Prop} (h : p.Meets t k Q w)
    (hothers : ∀ w w', t.sound w' → t.rely k w w' → P w → P w')
    (hown : ∀ w w', t.sound w' → (∀ k', k' ≠ k → t.rely k' w w') → P w → P w') (hP : P w) :
    p.Meets t k (fun r w => Q r w ∧ P w) w := by
  induction p generalizing w with
  | done r => exact fun w' hs hr => ⟨h w' hs hr, hothers _ _ hs hr hP⟩
  | call c next ih =>
    intro w' hs hr ha
    obtain ⟨hs', hother, hnext⟩ := h w' hs hr ha
    exact ⟨hs', hother, ih _ hnext (hown _ _ hs' hother (hothers _ _ hs hr hP))⟩
  | lock key next => exact h
  | unlock key next => exact h

theorem Meets.done {r : Outcome α} (h : ∀ w', t.sound w' → t.rely k w w' → Q r w') :
    (Program.done r).Meets t k Q w := h

/-- A single call, made in whatever world the others leave. -/
theorem Meets.perform {c : Call} {Q : Outcome c.Value → World → Prop}
    (h : ∀ w', t.sound w' → t.rely k w w' → t.allows c w' →
      t.sound (w'.answer c).2 ∧ (∀ k', k' ≠ k → t.rely k' w' (w'.answer c).2)
        ∧ ∀ w'', t.sound w'' → t.rely k (w'.answer c).2 w'' → Q (w'.answer c).1 w'') :
    (Program.perform c).Meets t k Q w := h

/-- After a minor call its answer is known, of the world in which it was made. -/
theorem Meets.minor {c : Call} {Q : Outcome c.Value → World → Prop} (hc : Minor t c)
    (h : ∀ w' w'', t.sound w' → t.sound w'' → t.allows c w' → t.rely k w w' →
      t.rely k (w'.answer c).2 w'' → t.rely k w w'' → Q (w'.answer c).1 w'') :
    (Program.perform c).Meets t k Q w := by
  refine .perform fun w' hs hr ha => ?_
  obtain ⟨hs', hall⟩ := hc w' hs ha
  refine ⟨hs', fun k' _ => hall k', fun w'' hs'' hr' => h w' w'' hs hs'' ha hr hr' ?_⟩
  exact t.rely_trans _ _ _ _ hr (t.rely_trans _ _ _ _ (hall k) hr')

theorem Meets.andThen {p : Program β} {f : Outcome β → Program α}
    (h : p.Meets t k (fun r w' => (f r).Meets t k Q w') w) : (p.andThen f).Meets t k Q w := by
  induction p generalizing w with
  | done r => exact .of_after h
  | call c next ih =>
    intro w' hs hr ha
    obtain ⟨hs', hothers, hnext⟩ := h w' hs hr ha
    exact ⟨hs', hothers, ih _ hnext⟩
  | lock key next => exact h
  | unlock key next => exact h

theorem Meets.bind {p : Program β} {f : β → Program α} {P : α → World → Prop}
    {E : Failure → World → Prop}
    (h : p.Meets t k (ends (fun b w' => (f b).Meets t k (ends P E) w') E) w) :
    (p.bind f).Meets t k (ends P E) w := by
  refine Meets.andThen (h.lasting.weaken fun r w' _ hQ => ?_)
  cases r with
  | ok b => exact .of_after hQ
  | error e => exact hQ

/-- A program that cannot fail, and what follows it. -/
theorem Meets.surely {p : Program β} {f : β → Program α} {P : β → World → Prop}
    (h : p.Meets t k (ends P fun _ _ => False) w)
    (hf : ∀ b w', t.sound w' → P b w' → (f b).Meets t k Q w') : (p.bind f).Meets t k Q w := by
  refine Meets.andThen (h.weaken fun r w' hs hQ => ?_)
  cases r with
  | ok b => exact hf b w' hs hQ
  | error e => exact hQ.elim

/-- An attempt turns a refusal into a value. -/
theorem Meets.attempt {p : Program α} {P : Except Refusal α → World → Prop}
    {E : Failure → World → Prop}
    (h : p.Meets t k (ends (fun a => P (.ok a)) fun e => match e with
      | .refusal r => P (.error r)
      | .breakage b => E (.breakage b)) w) :
    p.attempt.Meets t k (ends P E) w := by
  refine Meets.andThen (h.lasting.weaken fun r w' _ hQ => ?_)
  rcases r with (r | b) | a
  · exact hQ
  · exact hQ
  · exact hQ

theorem Meets.attempt_surely {p : Program α} {P : α → World → Prop}
    (h : p.Meets t k (ends P fun _ _ => False) w) :
    p.attempt.Meets t k
      (ends (fun result w' => ∃ a, result = .ok a ∧ P a w') fun _ _ => False) w := by
  refine .attempt (h.weaken fun r w' _ hQ => ?_)
  cases r with
  | ok a => exact ⟨a, rfl, hQ⟩
  | error e => exact hQ.elim

/-- A loop keeps an invariant of the elements it is done with and of their results. -/
theorem Meets.forEach {f : β → Program α} {bs : List β} (I : List β → List α → World → Prop)
    {E : Failure → World → Prop}
    (hstep : ∀ before as, ∀ b ∈ bs, ∀ w, t.sound w → I before as w →
      (f b).Meets t k (ends (fun a => I (before ++ [b]) (as ++ [a])) E) w)
    (before : List β) (as : List α) (hI : ∀ w', t.sound w' → t.rely k w w' → I before as w') :
    (forEach f bs).Meets t k (ends (fun more => I (before ++ bs) (as ++ more)) E) w := by
  induction bs generalizing before as w with
  | nil => simpa [Program.forEach, ends, Meets] using hI
  | cons b bs ih =>
    refine .of_after fun w' hs hr => .bind ?_
    refine ((hstep before as b (by simp) w' hs (hI w' hs hr)).lasting).weaken fun r w₁ hs₁ hr₁ => ?_
    cases r with
    | error e => exact hr₁ w₁ hs₁ (t.rely_refl _ _)
    | ok a =>
      have hrest := ih (fun before as b hb => hstep before as b (by simp [hb])) _ _ hr₁
      refine .bind (hrest.lasting.weaken fun r w₂ hs₂ hr₂ => ?_)
      cases r with
      | error e => exact hr₂ w₂ hs₂ (t.rely_refl _ _)
      | ok more => simpa [ends, Meets] using hr₂

/-- What is to hold after a failure, if refusals are dealt with. -/
def unlessRefused (A : Refusal → World → Prop) (E : Failure → World → Prop) : Failure → World → Prop
  | .refusal f => A f
  | .breakage b => E (.breakage b)

section Sweep

variable {act : Handle → Program Unit} {hs : List Handle} {I : List Handle → World → Prop}
  {A : Refusal → Prop} {E : Failure → World → Prop}

/-- A sweep goes on after refusals, and keeps an invariant of the containers that are left. -/
theorem Meets.sweep_noting
    (hnote : ∀ severity text hs w, t.sound w → I hs w →
      (Program.warn severity text).Meets t k (ends (fun _ => I hs) E) w)
    (hI : ∀ hs w w', t.sound w' → t.rely k w w' → I hs w → I hs w')
    (hstep : ∀ h rest w, t.sound w → I (h :: rest) w →
      (act h).Meets t k (ends (fun _ => I rest) (unlessRefused (fun f w' => A f ∧ I rest w') E)) w)
    (hw : I hs w) :
    (Lifecycle.sweep act hs).Meets t k
      (ends (fun failure w' => (∀ f, failure = some f → A f) ∧ I [] w') E) w := by
  induction hs generalizing w with
  | nil => exact fun w' hs hr => ⟨fun f hf => (by cases hf), hI _ _ _ hs hr hw⟩
  | cons h rest ih =>
    unfold Lifecycle.sweep
    refine .of_after fun w₀ hs₀ hr₀ => .bind (.attempt ?_)
    refine (hstep h rest w₀ hs₀ (hI _ _ _ hs₀ hr₀ hw)).weaken fun r w₁ hs₁ hr₁ => ?_
    rcases r with (f | b) | u
    · -- A refusal is told of, and the rest is swept all the same.
      obtain ⟨hA, hrest⟩ := hr₁
      refine .bind ((hnote _ _ rest w₁ hs₁ hrest).lasting.weaken fun r w₂ hs₂ hr₂ => ?_)
      cases r with
      | error e => exact hr₂ w₂ hs₂ (t.rely_refl _ _)
      | ok u =>
        refine .bind ((ih (hr₂ w₂ hs₂ (t.rely_refl _ _))).lasting.weaken fun r w₃ hs₃ hr₃ => ?_)
        cases r with
        | error e => exact hr₃ w₃ hs₃ (t.rely_refl _ _)
        | ok failure =>
          refine fun w₄ hs₄ hr₄ => ⟨fun f' hf' => ?_, (hr₃ w₄ hs₄ hr₄).2⟩
          rwa [← Option.some.inj hf']
    · exact hr₁
    · exact ih hr₁

/-- A sweep whose warnings nobody minds. -/
theorem Meets.sweep (I : List Handle → World → Prop) (A : Refusal → Prop)
    (hnote : ∀ severity text, Minor t (.warn severity text))
    (hI : ∀ hs w w', t.sound w' → t.rely k w w' → I hs w → I hs w')
    (hstep : ∀ h rest w, t.sound w → I (h :: rest) w →
      (act h).Meets t k (ends (fun _ => I rest) (unlessRefused (fun f w' => A f ∧ I rest w') E)) w)
    (hw : I hs w) :
    (Lifecycle.sweep act hs).Meets t k
      (ends (fun failure w' => (∀ f, failure = some f → A f) ∧ I [] w') E) w :=
  .sweep_noting (fun severity text _ _ _ hI' => .minor (hnote severity text)
    fun _ _ _ hs _ _ _ hr => hI _ _ _ hs hr hI') hI hstep hw

end Sweep

end Program

end AppBroker
