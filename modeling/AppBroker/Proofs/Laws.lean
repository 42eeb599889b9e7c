import AppBroker.Program

/-!
# Laws of programs

How programs are put together does not depend on how the parts are grouped, and running a program
that is made of two runs one and then the other. Locks cost nothing to a program that runs by
itself.
-/

namespace AppBroker.Program

variable {α β γ : Type}

theorem andThen_assoc (p : Program α) (f : Outcome α → Program β) (g : Outcome β → Program γ) :
    (p.andThen f).andThen g = p.andThen fun r => (f r).andThen g := by
  induction p with
  | done r => rfl
  | call c next ih => simp only [andThen, ih]
  | lock key next ih => simp only [andThen, ih]
  | unlock key next ih => simp only [andThen, ih]

theorem andThen_done (p : Program α) : p.andThen done = p := by
  induction p with
  | done r => rfl
  | call c next ih => simp only [andThen, ih]
  | lock key next ih => simp only [andThen, ih]
  | unlock key next ih => simp only [andThen, ih]

theorem holding_andThen (key : AppKey) (p : Program α) (f : Outcome α → Program β) :
    (holding key p).andThen f = lock key (p.andThen fun r => unlock key (f r)) := by
  simp only [holding, andThen, andThen_assoc]

theorem bind_assoc (p : Program α) (f : α → Program β) (g : β → Program γ) :
    (p.bind f).bind g = p.bind fun a => (f a).bind g := by
  unfold Program.bind
  rw [andThen_assoc]
  congr 1
  funext r
  cases r <;> rfl

theorem bind_done (p : Program α) (f : α → β) :
    (p.bind fun a => done (.ok (f a))) = p.andThen fun r => done (r.map f) := by
  unfold Program.bind
  congr 1
  funext r
  cases r <;> rfl

/-- What is made of each result of a loop may as well be made of all of them at its end. -/
theorem forEach_map {δ : Type} (f : δ → Program α) (g : α → β) (ds : List δ) :
    forEach (fun d => (f d).andThen fun r => done (r.map g)) ds
      = (forEach f ds).andThen fun r => done (r.map (List.map g)) := by
  induction ds with
  | nil => rfl
  | cons d ds ih =>
    simp only [forEach, ih, bind_done, andThen_assoc, andThen]
    unfold Program.bind
    simp only [andThen_assoc]
    congr 1
    funext r
    cases r with
    | error e => rfl
    | ok a =>
      simp only [andThen, andThen_assoc, Except.map]
      congr 1
      funext r'
      cases r' <;> rfl

/-- What only looks at the result may as well be done inside the lock. -/
theorem holding_map (key : AppKey) (p : Program α) (f : Outcome α → Outcome β) :
    (holding key p).andThen (fun r => done (f r)) = holding key (p.andThen fun r => done (f r)) := by
  rw [holding_andThen, holding, andThen_assoc]
  rfl

theorem run_andThen (p : Program α) (f : Outcome α → Program β) (w : World) :
    (p.andThen f).run w = (f (p.run w).1).run (p.run w).2 := by
  induction p generalizing w with
  | done r => rfl
  | call c next ih => exact ih _ _
  | lock key next ih => exact ih w
  | unlock key next ih => exact ih w

theorem run_bind (p : Program α) (f : α → Program β) (w : World) :
    (p.bind f).run w = match p.run w with
      | (.ok a, w') => (f a).run w'
      | (.error e, w') => (.error e, w') := by
  unfold Program.bind
  rw [run_andThen]
  rcases p.run w with ⟨e | a, w'⟩ <;> rfl

/-- What ran well up to its end ran well before. -/
theorem run_bind_eq_ok {p : Program α} {f : α → Program β} {b : β} {w w' : World}
    (h : (p.bind f).run w = (.ok b, w')) :
    ∃ a w₁, p.run w = (.ok a, w₁) ∧ (f a).run w₁ = (.ok b, w') := by
  rw [run_bind] at h
  rcases hp : p.run w with ⟨e | a, w₁⟩ <;> rw [hp] at h
  · cases h
  · exact ⟨a, w₁, rfl, h⟩

theorem run_bind_of_ok {p : Program α} {a : α} {w w' : World} (h : p.run w = (.ok a, w'))
    (f : α → Program β) : (p.bind f).run w = (f a).run w' := by
  rw [run_bind, h]

theorem run_bind_of_error {p : Program α} {e : Failure} {w w' : World}
    (h : p.run w = (.error e, w')) (f : α → Program β) : (p.bind f).run w = (.error e, w') := by
  rw [run_bind, h]

theorem run_attempt_of_ok {p : Program α} {a : α} {w w' : World} (h : p.run w = (.ok a, w')) :
    p.attempt.run w = (.ok (.ok a), w') := by
  rw [attempt, run_andThen, h]
  rfl

theorem run_attempt_of_refusal {p : Program α} {r : Refusal} {w w' : World}
    (h : p.run w = (.error (.refusal r), w')) : p.attempt.run w = (.ok (.error r), w') := by
  rw [attempt, run_andThen, h]
  rfl

theorem run_holding (key : AppKey) (p : Program α) (w : World) :
    (holding key p).run w = p.run w :=
  run_andThen p _ w

/-- A loop ends with the first turn that fails. -/
theorem run_forEach_of_error {f : β → Program α} {b : β} {bs : List β} {w : World} {e : Failure}
    (h : ((f b).run w).1 = .error e) :
    (forEach f (b :: bs)).run w = (.error e, ((f b).run w).2) :=
  run_bind_of_error (Prod.ext h rfl) _

/-- What neither a program nor what follows it takes from a world, the two do not. -/
theorem run_bind_keeps {I : World → Prop} {p : Program α} {f : α → Program β} {w : World}
    (hp : I (p.run w).2)
    (hf : ∀ a, (p.run w).1 = .ok a → I (p.run w).2 → I ((f a).run (p.run w).2).2) :
    I ((p.bind f).run w).2 := by
  rw [run_bind]
  rcases h : p.run w with ⟨e | a, w₁⟩ <;> rw [h] at hp hf
  · exact hp
  · exact hf a rfl hp

/-- What no turn of a loop takes from a world, the loop does not. -/
theorem run_forEach_keeps {I : World → Prop} {f : β → Program α} {bs : List β} {w : World}
    (hf : ∀ b ∈ bs, ∀ w, I w → I ((f b).run w).2) (hw : I w) : I ((forEach f bs).run w).2 := by
  induction bs generalizing w with
  | nil => exact hw
  | cons b bs ih =>
    have hrest {w : World} (hw : I w) : I ((forEach f bs).run w).2 :=
      ih (fun b' hb' => hf b' (List.mem_cons_of_mem b hb')) hw
    exact run_bind_keeps (hf b List.mem_cons_self w hw) fun a _ hw₁ =>
      run_bind_keeps (hrest hw₁) fun _ _ hw₂ => hw₂

end AppBroker.Program
