import AppBroker.Proofs.Contract

/-!
# Programs that only drive containers

Starting, stopping and routing given containers makes calls of a few kinds only. If nobody minds
calls of these kinds, nobody minds the program.
-/

namespace AppBroker

namespace Program

variable {α β : Type} {S : Call → Prop}

/-- Whether a program makes only calls of some kind and takes no locks. -/
def Makes (S : Call → Prop) : Program α → Prop
  | .done _ => True
  | .call c next => S c ∧ ∀ r, (next r).Makes S
  | .lock _ _ | .unlock _ _ => False

theorem Makes.andThen {p : Program β} {f : Outcome β → Program α} (hp : p.Makes S)
    (hf : ∀ r, (f r).Makes S) : (p.andThen f).Makes S := by
  induction p with
  | done r => exact hf r
  | call c next ih => exact ⟨hp.1, fun r => ih r (hp.2 r)⟩
  | lock key next => exact hp.elim
  | unlock key next => exact hp.elim

theorem Makes.bind {p : Program β} {f : β → Program α} (hp : p.Makes S)
    (hf : ∀ b, (f b).Makes S) : (p.bind f).Makes S :=
  hp.andThen fun r => by
    cases r with
    | ok b => exact hf b
    | error e => trivial

theorem Makes.attempt {p : Program α} (hp : p.Makes S) : p.attempt.Makes S :=
  hp.andThen fun r => by rcases r with (r | b) | a <;> trivial

theorem Makes.mono {S' : Call → Prop} {p : Program α} (hp : p.Makes S) (hS : ∀ c, S c → S' c) :
    p.Makes S' := by
  induction p with
  | done r => trivial
  | call c next ih => exact ⟨hS c hp.1, fun r => ih r (hp.2 r)⟩
  | lock key next => exact hp
  | unlock key next => exact hp

theorem makes_perform {c : Call} (hc : S c) : (perform c).Makes S := ⟨hc, fun _ => trivial⟩

theorem makes_forEach {f : β → Program α} {bs : List β} (hf : ∀ b ∈ bs, (f b).Makes S) :
    (forEach f bs).Makes S := by
  induction bs with
  | nil => trivial
  | cons b bs ih =>
    exact (hf b List.mem_cons_self).bind fun a =>
      (ih fun b hb => hf b (List.mem_cons_of_mem _ hb)).bind fun as => trivial

/-- What nobody minds leaves everything as it may be left. -/
theorem Makes.meets {t : Terms} {k : AppKey} {p : Program α} {w : World} (hp : p.Makes S)
    (hS : ∀ c, S c → Minor t c) : p.Meets t k (fun _ w' => t.rely k w w') w := by
  induction p generalizing w with
  | done r => exact fun w' _ hr => hr
  | call c next ih =>
    intro w' hs hr ha
    obtain ⟨hs', hall⟩ := hS c hp.1 w' hs ha
    refine ⟨hs', fun k' _ => hall k', (ih _ (hp.2 _)).weaken fun r w'' _ hr' => ?_⟩
    exact t.rely_trans _ _ _ _ hr (t.rely_trans _ _ _ _ (hall k) hr')
  | lock key next => exact hp.elim
  | unlock key next => exact hp.elim

/-- What no call of a kind takes from a world, no program that makes such calls does. -/
theorem Makes.run {I : World → Prop} {p : Program α} {w : World} (hp : p.Makes S)
    (hI : ∀ c w, S c → I w → I (w.answer c).2) (hw : I w) : I (p.run w).2 := by
  induction p generalizing w with
  | done r => exact hw
  | call c next ih => exact ih _ (hp.2 _) (hI c w hp.1 hw)
  | lock key next => exact hp.elim
  | unlock key next => exact hp.elim

end Program

/-- Whether a call only looks at or routes a given container, looks its plugin up, or warns. -/
def Call.isShowing : Call → Bool
  | .plugin _ | .inspect _ | .route _ | .warn _ _ => true
  | _ => false

/-- Whether a call only starts, stops, looks at or routes a given container, looks its plugin up, or
warns. -/
def Call.isDriving : Call → Bool
  | .plugin _ | .inspect _ | .start _ | .stop _ | .restart _ | .route _ | .warn _ _ => true
  | _ => false

namespace Lifecycle

open Program

variable (platform : PlatformSettings)

/-- The kind of calls that show containers to the public. -/
abbrev Showing (c : Call) : Prop := c.isShowing = true

/-- The kind of calls that drive containers. -/
abbrev Driving (c : Call) : Prop := c.isDriving = true

theorem shows {c : Call} (hc : c.isShowing = true) : (perform c).Makes Showing := makes_perform hc

theorem drives {c : Call} (hc : c.isDriving = true) : (perform c).Makes Driving := makes_perform hc

theorem driving_of_showing {c : Call} (h : Showing c) : Driving c := by
  cases c <;> first | rfl | cases h

theorem shows_publish (h : Handle) : (publish platform h).Makes Showing := by
  refine .bind (.attempt (shows rfl)) fun found => ?_
  rcases found with r | p
  · show Makes _ (if r.isAbsence then _ else _)
    split
    · exact shows rfl
    · trivial
  · show Makes _ (if p.endpoints.isEmpty then _ else _)
    split
    · trivial
    · refine .bind (.attempt ((shows rfl).bind fun current => shows rfl)) ?_
      intro routed
      rcases routed with r | u
      · exact shows rfl
      · trivial

theorem shows_retract (h : Handle) : (retract h).Makes Showing := by
  refine .bind (.attempt (shows rfl)) fun retracted => ?_
  rcases retracted with r | u
  · show Makes _ (if r.isRouting then _ else _)
    split
    · exact shows rfl
    · trivial
  · trivial

theorem makes_publish (h : Handle) : (publish platform h).Makes Driving :=
  (shows_publish platform h).mono fun _ => driving_of_showing

theorem makes_retract (h : Handle) : (retract h).Makes Driving :=
  (shows_retract h).mono fun _ => driving_of_showing

theorem makes_startOne (h : Handle) : (startOne platform h).Makes Driving :=
  (drives rfl).bind fun _ => makes_publish platform h

theorem makes_restartOne (h : Handle) : (restartOne platform h).Makes Driving :=
  (drives rfl).bind fun _ => makes_publish platform h

theorem makes_startAll (hs : List Handle) : (startAll platform hs).Makes Driving :=
  (makes_forEach fun h _ => makes_startOne platform h).bind fun _ => trivial

theorem makes_restartAll (hs : List Handle) :
    (forEach (restartOne platform) hs).Makes Driving :=
  makes_forEach fun h _ => makes_restartOne platform h

section Sweep

variable {S : Call → Prop} {act : Handle → Program Unit}

theorem makes_sweep (hnote : ∀ severity text, S (.warn severity text))
    (hact : ∀ h, (act h).Makes S) (hs : List Handle) : (sweep act hs).Makes S := by
  induction hs with
  | nil => trivial
  | cons h hs ih =>
    refine .bind (.attempt (hact h)) fun r => ?_
    rcases r with r | u
    · exact (makes_perform (hnote _ _)).bind fun _ => ih.bind fun _ => trivial
    · exact ih

theorem makes_sweepStrictly (hnote : ∀ severity text, S (.warn severity text))
    (hact : ∀ h, (act h).Makes S) (hs : List Handle) : (sweepStrictly act hs).Makes S :=
  (makes_sweep hnote hact hs).bind fun failure => by cases failure <;> trivial

end Sweep

theorem makes_stopOne (h : Handle) : (stopOne h).Makes Driving :=
  (makes_retract h).bind fun _ => drives rfl

end Lifecycle

end AppBroker
