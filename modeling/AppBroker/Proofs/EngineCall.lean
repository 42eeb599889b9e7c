import AppBroker.Engine.Runtime

/-!
# Calls to the engine

Between the world before a call and the engine's own work there is at most a connection to make:
only the engine's history, the mark of the connection and the trace change. What the engine does
is told by cases for each thing that it can be asked.
-/

namespace AppBroker

namespace World

/-- The containers are these now, and else nothing has changed but the engine's history, the mark of
the connection and the trace. -/
def Became (w : World) (containers : List Container) (w' : World) : Prop :=
  ∃ history isConnected trace, w' =
    { w with
      engine := { w.engine with containers, history }
      broker := { w.broker with runtime := { w.broker.runtime with isConnected } }
      trace }

/-- Nothing has changed but the engine's history, the mark of the connection and the trace. -/
def Quiet (w w' : World) : Prop := w.Became w.engine.containers w'

theorem Quiet.refl (w : World) : w.Quiet w := ⟨_, _, _, rfl⟩

theorem Quiet.trans {w₁ w₂ w₃ : World} (h : w₁.Quiet w₂) (h' : w₂.Quiet w₃) : w₁.Quiet w₃ := by
  obtain ⟨_, _, _, rfl⟩ := h
  obtain ⟨_, _, _, rfl⟩ := h'
  exact ⟨_, _, _, rfl⟩

theorem Quiet.became {w₁ w₂ w₃ : World} {containers : List Container} (h : w₁.Quiet w₂)
    (h' : w₂.Became containers w₃) : w₁.Became containers w₃ := by
  obtain ⟨_, _, _, rfl⟩ := h
  obtain ⟨_, _, _, rfl⟩ := h'
  exact ⟨_, _, _, rfl⟩

end World

namespace Engine

/-- The engine with another history. -/
def withHistory (e : Engine) (history : List EngineRequest) : Engine := { e with history }

theorem accept_snd (e : Engine) (r : EngineRequest) :
    (e.accept r).2 = e.withHistory (r :: e.history) := by
  unfold accept
  split <;> rfl

/-- A call is refused by a fault, or it is let through. -/
theorem accept_cases (e : Engine) (r : EngineRequest) :
    (∃ f, e.faults e.history r = some f ∧
      e.accept r = (.error f, e.withHistory (r :: e.history))) ∨
    (e.faults e.history r = none ∧ e.accept r = (.ok (), e.withHistory (r :: e.history))) := by
  unfold accept
  cases h : e.faults e.history r with
  | none => exact .inr ⟨rfl, rfl⟩
  | some f => exact .inl ⟨f, rfl, rfl⟩

end Engine

namespace Connecting

theorem toTarget_engine (refusal : EngineTarget → Option String) (report : Option Value)
    (e : Engine) (target : EngineTarget) :
    ∃ history, (toTarget refusal report e target).engine = e.withHistory history := by
  unfold toTarget
  dsimp only
  split
  · exact ⟨_, rfl⟩
  · split
    · exact ⟨_, rfl⟩
    · rcases e.accept_cases ⟨.ping, "*", none⟩ with ⟨f, -, hp⟩ | ⟨-, hp⟩
      · simp only [Engine.ping, hp]
        exact ⟨_, rfl⟩
      · simp only [Engine.ping, Engine.version, hp, Engine.accept_snd]
        exact ⟨_, rfl⟩

theorem firstOf_engine (refusal : EngineTarget → Option String) (report : Option Value)
    (e : Engine) (targets : List EngineTarget) :
    ∃ history, (firstOf refusal report e targets).engine = e.withHistory history := by
  induction targets generalizing e with
  | nil => exact ⟨_, rfl⟩
  | cons target rest ih =>
    cases rest with
    | nil => exact toTarget_engine refusal report e target
    | cons next rest =>
      obtain ⟨history, h⟩ := toTarget_engine refusal report e target
      unfold firstOf
      dsimp only
      split
      · obtain ⟨history', h'⟩ := ih (toTarget refusal report e target).engine
        rw [h'] 
        exact ⟨history', by rw [h]; rfl⟩
      · exact ⟨history, h⟩

end Connecting

/-- Whether an outcome is no refusal: a value, or a breakage. -/
def Outright {α : Type} (o : Outcome α) : Prop := ∀ r, o ≠ .error (.refusal r)

theorem Outright.bind {α β : Type} {o : Outcome α} {f : α → Outcome β} (ho : Outright o)
    (hf : ∀ a, Outright (f a)) : Outright (o >>= f) := by
  cases o with
  | ok a => exact hf a
  | error e => exact fun r he => ho r (by cases he; rfl)

theorem Outright.map {α β : Type} {o : Outcome α} (ho : Outright o) (f : α → β) :
    Outright (o.map f) := by
  cases o with
  | ok a =>
    intro r h
    cases h
  | error e => exact fun r he => ho r (by cases he; rfl)

theorem outright_ok {α : Type} (a : α) : Outright (.ok a : Outcome α) := fun _ h => by
  cases h

theorem outright_fail {α : Type} (b : Breakage) : Outright (fail b : Outcome α) :=
  fun _ h => by cases h

namespace EngineKind

theorem outright_field (key : String) (default v : Value) : Outright (field key default v) := by
  unfold field
  split
  · exact outright_ok _
  · exact outright_fail _

theorem outright_isPodman (v : Value) : Outright (isPodman v) := by
  refine (outright_field _ _ v).bind fun name => ?_
  split
  · exact outright_ok _
  · exact outright_fail _

theorem outright_anyPodman (vs : List Value) : Outright (anyPodman vs) := by
  induction vs with
  | nil => exact outright_ok _
  | cons v vs ih =>
    refine (outright_isPodman v).bind fun b => ?_
    cases b
    · exact ih
    · exact outright_ok _

theorem outright_components (v : Value) : Outright (components v) := by
  unfold components
  split <;> first | exact outright_ok _ | exact outright_fail _

theorem outright_ofReport (report : Option Value) : Outright (ofReport report) := by
  unfold ofReport
  split
  · exact outright_ok _
  · refine (outright_field _ _ _).bind fun v => (outright_components v).bind fun vs =>
      (outright_anyPodman vs).bind fun found => ?_
    split
    · exact outright_ok _
    refine (outright_field _ _ _).bind fun v => (outright_isPodman v).bind fun found => ?_
    split <;> exact outright_ok _

end EngineKind

namespace Connecting

theorem outright_toTarget (refusal : EngineTarget → Option String) (report : Option Value)
    (e : Engine) (target : EngineTarget) : Outright (toTarget refusal report e target).result := by
  unfold toTarget
  dsimp only
  split
  · exact outright_fail _
  · split
    · exact outright_fail _
    · split
      · exact outright_fail _
      · exact (EngineKind.outright_ofReport _).map _

theorem outright_firstOf (refusal : EngineTarget → Option String) (report : Option Value)
    (e : Engine) (targets : List EngineTarget) :
    Outright (firstOf refusal report e targets).result := by
  induction targets generalizing e with
  | nil => exact outright_fail _
  | cons target rest ih =>
    cases rest with
    | nil => exact outright_toTarget refusal report e target
    | cons next rest =>
      unfold firstOf
      dsimp only
      split
      · exact ih _
      · exact outright_toTarget refusal report e target

end Connecting

/-- Whether a failure says that a container is gone. -/
def Failure.saysGone : Failure → Bool
  | .refusal (.engine f) => f.gone
  | _ => false

namespace Runtime

theorem connect_quiet (w : World) : w.Quiet (connect w).2 := by
  unfold connect
  split
  · exact .refl w
  · obtain ⟨history, h⟩ := Connecting.firstOf_engine (fun _ => none) w.report w.engine
      (EngineTarget.candidates w.broker.runtime.settings.engine.word {})
    dsimp only
    rw [h]
    split <;> exact ⟨_, _, _, rfl⟩

theorem blame_snd {α : Type} (operation : String) (app container : Option String)
    (m : Action World α) (w : World) : (blame operation app container m w).2 = (m w).2 := by
  unfold blame
  split
  · rename_i h; rw [h]
  · rfl

theorem blame_connect {operation : String} {app container : Option String} {w w₁ : World}
    {e : Failure} (h : blame operation app container connect w = (.error e, w₁)) :
    e.saysGone = false := by
  have hconnect : Outright (connect w).1 := by
    unfold connect
    split
    · exact outright_ok _
    · dsimp only
      have := Connecting.outright_firstOf (fun _ => none) w.report w.engine
        (EngineTarget.candidates w.broker.runtime.settings.engine.word {})
      split
      · exact outright_ok _
      · rename_i heq
        rw [heq] at this
        exact fun r he => this r (by cases he; rfl)
  unfold blame at h
  split at h
  · cases h
    rfl
  · rename_i other hne
    rw [h] at hconnect
    cases e with
    | refusal r => exact absurd rfl (hconnect r)
    | breakage b => rfl

/-- How a call may go: the connection fails, or the engine answers. -/
theorem call_cases {α : Type} (operation : String) (app container : Option String)
    (m : EngineCall α) (effect : Option EngineEffect) (w : World) :
    ∃ w₁, w.Quiet w₁ ∧
      ((∃ e, e.saysGone = false ∧ call operation app container m effect w = (.error e, w₁)) ∨
        ∃ trace, call operation app container m effect w =
          ((m w₁.engine).1.mapError (failureOf operation app container),
            { w₁ with engine := (m w₁.engine).2, trace })) := by
  refine ⟨(connect w).2, connect_quiet w, ?_⟩
  unfold call Action.bind
  dsimp only
  have hw := blame_snd operation app container connect w
  cases hb : blame operation app container connect w with
  | mk o w₁ =>
    rw [hb] at hw
    subst hw
    cases o with
    | error e => exact .inl ⟨e, blame_connect hb, rfl⟩
    | ok u =>
      refine .inr ?_
      dsimp only
      cases (m (connect w).2.engine).1 with
      | error f => exact ⟨_, rfl⟩
      | ok a => cases effect <;> exact ⟨_, rfl⟩

/-- No call changes how the runtime is set up. -/
theorem settings_call {α : Type} (operation : String) (app container : Option String)
    (m : EngineCall α) (effect : Option EngineEffect) (w : World) :
    (call operation app container m effect w).2.broker.runtime.settings =
      w.broker.runtime.settings := by
  obtain ⟨w₁, ⟨_, _, _, rfl⟩, ⟨e, -, hc⟩ | ⟨trace, hc⟩⟩ :=
    call_cases operation app container m effect w <;> rw [hc]

end Runtime

end AppBroker
