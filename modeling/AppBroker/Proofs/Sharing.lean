import AppBroker.Proofs.Contract
import AppBroker.Proofs.Identity

/-!
# Sharing containers and routes

Applications share one engine and one table of routes. What others do leaves the containers of an
application and their routes as they are, makes containers only under new numbers, and never
changes labels. Every routed container runs: this is kept by each call as long as a container is
retracted before it is stopped or removed and is published only while it runs.
-/

namespace AppBroker

namespace World

/-- The table of routes; a routing service keeps its own. -/
def routes (w : World) : Table String (List Endpoint) :=
  match w.broker.router with
  | .memory routes => routes
  | .service _ _ => []

/-- Whether a container has routes. -/
def Routed (w : World) (id : String) : Prop := id ∈ w.routes.keys

/-- Whether every container that has routes is there and runs. -/
def RoutedRun (w : World) : Prop :=
  ∀ id, w.Routed id → ∃ c ∈ w.engine.containers, c.id = id ∧ c.isRunning = true

/-- Whether all containers with an id are an application's. -/
def Owned (w : World) (k : AppKey) (id : String) : Prop :=
  ∀ c ∈ w.engine.containers, c.id = id → c.BelongsTo k

instance (w : World) (k : AppKey) (id : String) : Decidable (w.Owned k id) :=
  inferInstanceAs (Decidable (∀ c ∈ w.engine.containers, c.id = id → c.BelongsTo k))

/-- Whether an id was given out before, and stands for nothing but a container of an
application. -/
def Issued (w : World) (k : AppKey) (id : String) : Prop :=
  (∃ n ≤ w.engine.made, id = Engine.idOf n) ∧ w.Owned k id

/-- How the world gets older: numbers are given once, and what had a number keeps its labels. -/
structure Ages (w w' : World) : Prop where
  made_le : w.engine.made ≤ w'.engine.made
  labels : ∀ c' ∈ w'.engine.containers, c'.number ≤ w.engine.made →
    ∃ c ∈ w.engine.containers, c.id = c'.id ∧ c.number = c'.number ∧ c.labels = c'.labels

theorem Ages.refl (w : World) : w.Ages w :=
  ⟨Nat.le_refl _, fun c hc _ => ⟨c, hc, rfl, rfl, rfl⟩⟩

theorem Ages.trans {w₁ w₂ w₃ : World} (h : w₁.Ages w₂) (h' : w₂.Ages w₃) : w₁.Ages w₃ where
  made_le := Nat.le_trans h.made_le h'.made_le
  labels c hc hn := by
    have := h.made_le
    obtain ⟨c₂, hc₂, hid₂, hn₂, hl₂⟩ := h'.labels c hc (by omega)
    obtain ⟨c₁, hc₁, hid₁, hn₁, hl₁⟩ := h.labels c₂ hc₂ (by omega)
    exact ⟨c₁, hc₁, hid₁.trans hid₂, hn₁.trans hn₂, hl₁.trans hl₂⟩

/-- Containers and numbers are as they were. -/
theorem ages_of_eq {w w' : World} (hc : w'.engine.containers = w.engine.containers)
    (hm : w'.engine.made = w.engine.made) : w.Ages w' := by
  refine ⟨Nat.le_of_eq hm.symm, fun c h _ => ⟨c, ?_, rfl, rfl, rfl⟩⟩
  rwa [← hc]

/-- What has an id that was given out before was there before, with the same labels. -/
theorem Ages.exists_older {w w' : World} {n : Nat} {c : Container} (h : w.Ages w')
    (hw' : Engine.Numbered w'.engine.containers w'.engine.made) (hn : n ≤ w.engine.made)
    (hc : c ∈ w'.engine.containers) (he : c.id = Engine.idOf n) :
    ∃ d ∈ w.engine.containers, d.id = Engine.idOf n ∧ d.labels = c.labels := by
  rw [hw'.id_eq c hc] at he
  obtain ⟨d, hd, hid, -, hl⟩ := h.labels c hc (by rw [Engine.idOf_injective he]; exact hn)
  exact ⟨d, hd, by rw [hid, hw'.id_eq c hc, he], hl⟩

/-- An id that is issued stays what it is while the world gets older. -/
theorem Issued.aged {w w' : World} {k : AppKey} {id : String} (h : w.Issued k id) (hl : w.Ages w')
    (hw' : Engine.Numbered w'.engine.containers w'.engine.made) : w'.Issued k id := by
  obtain ⟨⟨n, hn, rfl⟩, hown⟩ := h
  refine ⟨⟨n, Nat.le_trans hn hl.made_le, rfl⟩, fun c hc he => ?_⟩
  obtain ⟨d, hd, hid, hlabels⟩ := hl.exists_older hw' hn hc he
  have := hown d hd hid
  unfold Container.BelongsTo at this ⊢
  rwa [← hlabels]

/-- What is there under an application's labels was issued to it. -/
theorem issued_of_mem {w : World} {k : AppKey}
    (hw : Engine.Numbered w.engine.containers w.engine.made) {c : Container}
    (hc : c ∈ w.engine.containers) (hk : c.BelongsTo k) : w.Issued k c.id := by
  refine ⟨⟨c.number, hw.le_made c hc, hw.id_eq c hc⟩, fun d hd he => ?_⟩
  rwa [hw.eq_of_id hd hc he]

/-- How others may change the world of an application. -/
structure Leaves (k : AppKey) (w w' : World) : Prop where
  made_le : w.engine.made ≤ w'.engine.made
  labels : ∀ c' ∈ w'.engine.containers, c'.number ≤ w.engine.made →
    ∃ c ∈ w.engine.containers, c.id = c'.id ∧ c.number = c'.number ∧ c.labels = c'.labels
  own : ∀ c : Container, c.BelongsTo k →
    (c ∈ w'.engine.containers ↔ c ∈ w.engine.containers)
  routed : ∀ c ∈ w.engine.containers, c.BelongsTo k → (w'.Routed c.id ↔ w.Routed c.id)

theorem Leaves.refl (k : AppKey) (w : World) : Leaves k w w :=
  ⟨(Ages.refl w).made_le, (Ages.refl w).labels, fun _ _ => Iff.rfl, fun _ _ _ => Iff.rfl⟩

theorem Leaves.ages {k : AppKey} {w w' : World} (h : Leaves k w w') : w.Ages w' :=
  ⟨h.made_le, h.labels⟩

theorem Leaves.trans {k : AppKey} {w₁ w₂ w₃ : World} (h : Leaves k w₁ w₂) (h' : Leaves k w₂ w₃) :
    Leaves k w₁ w₃ where
  made_le := (h.ages.trans h'.ages).made_le
  labels := (h.ages.trans h'.ages).labels
  own c hc := (h'.own c hc).trans (h.own c hc)
  routed c hc hk := (h'.routed c ((h.own c hk).2 hc) hk).trans (h.routed c hc hk)

/-- What is always true of a world with a table of routes and an engine that takes filters as
`lenient` says. -/
structure InOrder (lenient : Bool) (w : World) : Prop where
  numbered : Engine.Numbered w.engine.containers w.engine.made
  honest : w.engine.Honest
  lenient_eq : w.engine.lenient = lenient
  memory : ∃ routes, w.broker.router = .memory routes
  running : w.RoutedRun

/-- Nothing has changed about containers and routes. -/
structure Same (w w' : World) : Prop where
  containers : w'.engine.containers = w.engine.containers
  made : w'.engine.made = w.engine.made
  lenient : w'.engine.lenient = w.engine.lenient
  faults : w'.engine.faults = w.engine.faults
  router : w'.broker.router = w.broker.router

theorem Same.refl (w : World) : Same w w := ⟨rfl, rfl, rfl, rfl, rfl⟩

theorem Same.trans {w₁ w₂ w₃ : World} (h : Same w₁ w₂) (h' : Same w₂ w₃) : Same w₁ w₃ :=
  ⟨h'.1.trans h.1, h'.2.trans h.2, h'.3.trans h.3, h'.4.trans h.4, h'.5.trans h.5⟩

theorem Quiet.same {w w' : World} (h : w.Quiet w') : Same w w' := by
  obtain ⟨_, _, _, rfl⟩ := h
  exact ⟨rfl, rfl, rfl, rfl, rfl⟩

theorem Same.routed {w w' : World} (h : Same w w') (id : String) : w'.Routed id ↔ w.Routed id := by
  unfold Routed routes
  rw [h.router]

theorem Same.leaves {w w' : World} (h : Same w w') (k : AppKey) : Leaves k w w' := by
  refine ⟨Nat.le_of_eq h.made.symm, fun c hc _ => ?_, fun c _ => by rw [h.containers],
    fun c _ _ => h.routed c.id⟩
  rw [h.containers] at hc
  exact ⟨c, hc, rfl, rfl, rfl⟩

theorem Same.inOrder {w w' : World} {lenient : Bool} (h : Same w w') (hw : w.InOrder lenient) :
    w'.InOrder lenient where
  numbered := by rw [h.containers, h.made]; exact hw.numbered
  honest := by unfold Engine.Honest; rw [h.faults]; exact hw.honest
  lenient_eq := by rw [h.lenient]; exact hw.lenient_eq
  memory := by rw [h.router]; exact hw.memory
  running id hid := by
    rw [h.containers]
    exact hw.running id ((h.routed id).1 hid)

end World

/-- The terms on which applications share containers and routes; of given handles it is known in
every world that they tell the application of their container. -/
def sharing (lenient : Bool) (given : List Handle) : Terms where
  sound := World.InOrder lenient
  rely := World.Leaves
  allows _ w := ∀ h ∈ given, w.Owned h.key h.id
  rely_refl := World.Leaves.refl
  rely_trans _ _ _ _ := .trans

/-- Whether a call has nothing to do with containers and routes but to look at them. -/
def Call.isSparing : Call → Bool
  | .create .. | .start _ | .stop _ | .restart _ | .destroy _ | .route _ => false
  | _ => true

/-- Whether a call leaves the router alone. -/
def Call.isUnrouted : Call → Bool
  | .route _ => false
  | _ => true

namespace World

theorem same_bind {α β : Type} {m : Action World α} {f : α → Action World β}
    (hm : ∀ w, Same w (m w).2) (hf : ∀ a w, Same w (f a w).2) (w : World) :
    Same w (Action.bind m f w).2 := by
  have h := hm w
  unfold Action.bind
  split <;> rename_i hmw <;> rw [hmw] at h
  · exact h.trans (hf _ _)
  · exact h

theorem same_load (tenant : String) (w : World) : Same w (load tenant w).2 :=
  ⟨rfl, rfl, rfl, rfl, rfl⟩

theorem same_rewrite (tenant : String) (f : Table String Record → Outcome (Table String Record))
    (w : World) : Same w (rewrite tenant f w).2 := by
  refine same_bind (same_load tenant) (fun records w => ?_) w
  split <;> exact ⟨rfl, rfl, rfl, rfl, rfl⟩

theorem same_withSource {α : Type} {f : SourceControl → Action World α}
    (hf : ∀ source w, Same w (f source w).2) (w : World) : Same w (withSource f w).2 := by
  unfold withSource
  split
  · exact .refl w
  · exact hf _ w

theorem same_answer {c : Call} (hc : c.isSparing = true) (w : World) : Same w (w.answer c).2 := by
  cases c with
  | create | start | stop | restart | destroy | route => cases hc
  | record tenant name | records tenant =>
    exact same_bind (same_load tenant) (fun _ w => .refl w) w
  | addRecord tenant | replaceRecord tenant | removeRecord tenant => exact same_rewrite tenant _ w
  | find app tenant service => exact (w.answer_find app tenant service).1.same
  | inspect h => exact (w.answer_inspect h).1.same
  | exec h user command => exact (w.answer_exec h user command).same
  | deploy tenant name branch =>
    refine same_withSource (fun _ w => ?_) w
    dsimp only
    split <;> exact ⟨rfl, rfl, rfl, rfl, rfl⟩
  | branches tenant name => exact same_withSource (fun _ w => .refl w) w
  | disconnect =>
    show Same w (Runtime.close w).2
    unfold Runtime.close Action.modify
    dsimp only
    split <;> exact ⟨rfl, rfl, rfl, rfl, rfl⟩
  | tenants | compose | plugin | now | warn => exact ⟨rfl, rfl, rfl, rfl, rfl⟩

end World

namespace World

variable {w w' : World} {k k' : AppKey} {id : String}

theorem Became.routed {cs : List Container} (h : w.Became cs w') (id : String) :
    w'.Routed id ↔ w.Routed id := by
  obtain ⟨_, _, _, rfl⟩ := h
  exact Iff.rfl

section Changed

variable {f : Container → Container}

theorem Became.leaves_changed (h : w.Became (Engine.changed w.engine.containers id f) w')
    (hown : w.Owned k id) (hne : k' ≠ k) (hid : ∀ c, (f c).id = c.id)
    (hn : ∀ c, (f c).number = c.number) (hl : ∀ c, (f c).labels = c.labels) :
    Leaves k' w w' := by
  have hrouted := h.routed
  obtain ⟨_, _, _, rfl⟩ := h
  refine ⟨Nat.le_refl _, fun c hc _ => ?_, fun c hk => ?_, fun c _ _ => hrouted c.id⟩
  · obtain ⟨d, hd, rfl⟩ := List.mem_map.1 hc
    refine ⟨d, hd, ?_⟩
    split
    · exact ⟨(hid d).symm, (hn d).symm, (hl d).symm⟩
    · exact ⟨rfl, rfl, rfl⟩
  · -- The containers that are changed are another application's.
    have hother : ∀ d ∈ w.engine.containers, d.BelongsTo k' → d.id ≠ id := fun d hd hd' he =>
      hne (hd'.unique (hown d hd he))
    constructor
    · intro hc
      obtain ⟨d, hd, rfl⟩ := List.mem_map.1 hc
      split at hk
      · rename_i he
        have : d.BelongsTo k' := by
          unfold Container.BelongsTo at hk ⊢
          rwa [hl] at hk
        exact absurd he (hother d hd this)
      · rename_i he
        rwa [if_neg he]
    · intro hc
      exact List.mem_map.2 ⟨c, hc, if_neg (hother c hc hk)⟩

theorem Became.inOrder_changed {lenient : Bool}
    (h : w.Became (Engine.changed w.engine.containers id f) w') (hw : w.InOrder lenient)
    (hid : ∀ c, (f c).id = c.id) (hn : ∀ c, (f c).number = c.number)
    (hrun : w.Routed id → ∀ c, (f c).isRunning = true) : w'.InOrder lenient := by
  have hrouted := h.routed
  obtain ⟨_, _, _, rfl⟩ := h
  refine ⟨hw.numbered.changed hid hn, hw.honest, hw.lenient_eq, hw.memory, fun id' hr => ?_⟩
  obtain ⟨c, hc, rfl, hcr⟩ := hw.running id' ((hrouted id').1 hr)
  refine ⟨_, List.mem_map.2 ⟨c, hc, rfl⟩, ?_⟩
  split
  · rename_i he
    exact ⟨hid c, hrun (he ▸ (hrouted _).1 hr) c⟩
  · exact ⟨rfl, hcr⟩

end Changed

theorem Became.leaves_without (h : w.Became (Engine.without w.engine.containers id) w')
    (hown : w.Owned k id) (hne : k' ≠ k) : Leaves k' w w' := by
  have hrouted := h.routed
  obtain ⟨_, _, _, rfl⟩ := h
  refine ⟨Nat.le_refl _, fun c hc _ => ⟨c, (List.mem_filter.1 hc).1, rfl, rfl, rfl⟩,
    fun c hk => ⟨fun hc => (List.mem_filter.1 hc).1, fun hc => List.mem_filter.2 ⟨hc, ?_⟩⟩,
    fun c _ _ => hrouted c.id⟩
  have : c.id ≠ id := fun he => hne (hk.unique (hown c hc he))
  simpa using this

theorem Became.inOrder_without {lenient : Bool}
    (h : w.Became (Engine.without w.engine.containers id) w') (hw : w.InOrder lenient)
    (hnot : ¬ w.Routed id) : w'.InOrder lenient := by
  have hrouted := h.routed
  obtain ⟨_, _, _, rfl⟩ := h
  refine ⟨hw.numbered.without, hw.honest, hw.lenient_eq, hw.memory, fun id' hr => ?_⟩
  obtain ⟨c, hc, rfl, hcr⟩ := hw.running id' ((hrouted id').1 hr)
  refine ⟨c, List.mem_filter.2 ⟨hc, ?_⟩, rfl, hcr⟩
  have : c.id ≠ id := by rintro rfl; exact hnot ((hrouted _).1 hr)
  simpa using this

/-- Making a container, or failing to, is no matter of other applications. -/
theorem leaves_create (hw : Engine.Numbered w.engine.containers w.engine.made) (tag : Tag)
    (hne : k' ≠ k) : Leaves k' w (w.answer (.create k.name k.tenant tag)).2 := by
  rcases w.answer_create k.name k.tenant tag with ⟨-, hq⟩ | ⟨-, w₁, hb, hw'⟩
  · have : Same w w.counted := ⟨rfl, rfl, rfl, rfl, rfl⟩
    exact (this.trans hq.same).leaves k'
  · have hfresh : ∀ d ∈ w.engine.containers, d.id ≠ (w.newcomer k.name k.tenant tag).id :=
      fun d hd => hw.fresh_id hd (Nat.lt_succ_self _)
    rw [Engine.Numbered.replaceIn_fresh hfresh] at hb
    rw [hw']
    obtain ⟨_, _, _, rfl⟩ := hb
    refine ⟨Nat.le_succ _, fun c hc hn => ?_, fun c hk => ?_, fun c _ _ => Iff.rfl⟩
    · rcases List.mem_append.1 hc with hc | hc
      · exact ⟨c, hc, rfl, rfl, rfl⟩
      · rw [List.mem_singleton.1 hc] at hn
        exact absurd hn (Nat.not_succ_le_self _)
    · refine ⟨fun hc => ?_, fun hc => List.mem_append.2 (.inl hc)⟩
      rcases List.mem_append.1 hc with hc | hc
      · exact hc
      · rw [List.mem_singleton.1 hc] at hk
        exact absurd (hk.unique (w.newcomer_belongsTo k tag)) hne

theorem inOrder_create {lenient : Bool} (hw : w.InOrder lenient) (tag : Tag) :
    (w.answer (.create k.name k.tenant tag)).2.InOrder lenient := by
  rcases w.answer_create k.name k.tenant tag with ⟨-, hq⟩ | ⟨-, w₁, hb, hw'⟩
  · have : Same w w.counted := ⟨rfl, rfl, rfl, rfl, rfl⟩
    exact (this.trans hq.same).inOrder hw
  · have hfresh : ∀ d ∈ w.engine.containers, d.id ≠ (w.newcomer k.name k.tenant tag).id :=
      fun d hd => hw.numbered.fresh_id hd (Nat.lt_succ_self _)
    rw [Engine.Numbered.replaceIn_fresh hfresh] at hb
    rw [hw']
    obtain ⟨_, _, _, rfl⟩ := hb
    refine ⟨hw.numbered.append rfl rfl, hw.honest, hw.lenient_eq, hw.memory, fun id hr => ?_⟩
    obtain ⟨c, hc, rfl, hcr⟩ := hw.running id hr
    exact ⟨c, List.mem_append.2 (.inl hc), rfl, hcr⟩

/-- A table of routes takes every change. -/
theorem answer_route {routes : Table String (List Endpoint)}
    (h : w.broker.router = .memory routes) (change : RouteChange) :
    (w.answer (.route change)).1 = .ok () ∧
      (w.answer (.route change)).2.engine = w.engine ∧
      (w.answer (.route change)).2.broker.router = .memory (change.apply routes) := by
  show (World.route change w).1 = _ ∧ (World.route change w).2.engine = _
    ∧ (World.route change w).2.broker.router = _
  unfold World.route
  rw [h]
  exact ⟨rfl, rfl, rfl⟩

theorem routes_eq {routes : Table String (List Endpoint)} (h : w.broker.router = .memory routes) :
    w.routes = routes := by
  unfold World.routes
  rw [h]

/-- Routes of other containers stay as they are. -/
theorem leaves_route {routes : Table String (List Endpoint)} {change : RouteChange}
    (hm : w.broker.router = .memory routes) (hown : w.Owned k id) (hne : k' ≠ k)
    (hc : ∀ other, other ≠ id → (other ∈ (change.apply routes).keys ↔ other ∈ routes.keys)) :
    Leaves k' w (w.answer (.route change)).2 := by
  obtain ⟨-, he, hr⟩ := answer_route hm change
  refine ⟨Nat.le_of_eq (congrArg Engine.made he).symm, fun c hc' _ => ?_, fun c _ => by rw [he],
    fun c hc' hk => ?_⟩
  · rw [he] at hc'
    exact ⟨c, hc', rfl, rfl, rfl⟩
  · unfold Routed
    rw [routes_eq hr, routes_eq hm]
    exact hc c.id fun he => hne (hk.unique (hown c hc' he))

theorem inOrder_route {lenient : Bool} {routes : Table String (List Endpoint)}
    {change : RouteChange} (hw : w.InOrder lenient) (hm : w.broker.router = .memory routes)
    (hc : ∀ other ∈ (change.apply routes).keys, other ∈ routes.keys ∨
      ∃ c ∈ w.engine.containers, c.id = other ∧ c.isRunning = true) :
    (w.answer (.route change)).2.InOrder lenient := by
  obtain ⟨-, he, hr⟩ := answer_route hm change
  refine ⟨by rw [he]; exact hw.numbered, by rw [he]; exact hw.honest,
    by rw [he]; exact hw.lenient_eq, ⟨_, hr⟩, fun other ho => ?_⟩
  rw [he]
  unfold Routed at ho
  rw [routes_eq hr] at ho
  rcases hc other ho with ho | ho
  · exact hw.running other (by unfold Routed; rwa [routes_eq hm])
  · exact ho

/-- An id that is issued stays what it is, whatever others do. -/
theorem Issued.after {lenient : Bool} (h : w.Issued k id) (hl : Leaves k' w w')
    (hw' : w'.InOrder lenient) : w'.Issued k id :=
  h.aged hl.ages hw'.numbered

/-- A container without routes gets none from others. -/
theorem not_routed_after {lenient : Bool} (hi : w.Issued k id) (h : ¬ w.Routed id)
    (hl : Leaves k w w') (hw' : w'.InOrder lenient) : ¬ w'.Routed id := by
  intro hr
  obtain ⟨c, hc, rfl, -⟩ := hw'.running id hr
  have hk := (hi.after hl hw').2 c hc rfl
  exact h ((hl.routed c ((hl.own c hk).1 hc) hk).1 hr)

end World

section Calls

variable {lenient : Bool} {given : List Handle}

theorem minor_of_isSparing {c : Call} (hc : c.isSparing = true) :
    Program.Minor (sharing lenient given) c :=
  fun w hs _ => ⟨(w.same_answer hc).inOrder hs, (w.same_answer hc).leaves⟩

end Calls

end AppBroker
