import AppBroker.Proofs.CreateUndone
import AppBroker.Proofs.Orderly
import AppBroker.Proofs.Sequence

/-!
# Growing and shrinking step by step

What the calls of scaling do to an application that nobody else works on, whichever of them fail.
Growing adds containers last, one number after the other, all made for one tag, and starts and
routes them if the application is active (`World.Grown`). Shrinking takes containers away, each
after its routes (`World.Shrunk`). Neither writes to the disk (`World.Unwritten`), so plugins stay
what they are meanwhile.
-/

namespace AppBroker

open Program Lifecycle

/-- Whether a call writes a record. -/
def Call.isWriting : Call → Bool
  | .addRecord .. | .replaceRecord .. | .removeRecord .. => true
  | _ => false

namespace Container

theorem started_started (c : Container) : c.started.started = c.started := by
  simp [started, setAddresses]

/-- A container that was just made does not run. -/
theorem newcomer_isRunning (w : World) (app tenant : String) (tag : Tag) :
    (w.newcomer app tenant tag).isRunning = false :=
  show decide ("created" = runningStatus) = false by decide

theorem newcomer_not_isUp (w : World) (app tenant : String) (tag : Tag) :
    ¬ (w.newcomer app tenant tag).IsUp :=
  show ¬ ContainerState.ofStatus "created" = .running by decide

/-- Whether a container is one that is made for a tag under a number, started since or not. -/
def IsReplica (c : Container) (settings : RuntimeSettings) (k : AppKey) (tag : Tag) (n : Nat) :
    Prop :=
  ∃ v : World, v.broker.runtime.settings = settings ∧ v.engine.nextNumber = n ∧
    (c = v.newcomer k.name k.tenant tag ∨ c = (v.newcomer k.name k.tenant tag).started)

namespace IsReplica

variable {c : Container} {settings : RuntimeSettings} {k : AppKey} {tag : Tag} {n : Nat}

theorem started (h : c.IsReplica settings k tag n) : c.started.IsReplica settings k tag n := by
  obtain ⟨v, hv, hn, rfl | rfl⟩ := h
  · exact ⟨v, hv, hn, .inr rfl⟩
  · exact ⟨v, hv, hn, .inr (started_started _)⟩

theorem belongsTo (h : c.IsReplica settings k tag n) : c.BelongsTo k := by
  obtain ⟨v, -, -, rfl | rfl⟩ := h <;> exact v.newcomer_belongsTo k tag

theorem slot (h : c.IsReplica settings k tag n) : c.slot = tag.service := by
  obtain ⟨v, -, -, rfl | rfl⟩ := h <;> rfl

theorem tag_label (h : c.IsReplica settings k tag n) :
    c.labels.get? Runtime.tagLabel = some tag.format := by
  obtain ⟨v, -, -, rfl | rfl⟩ := h <;> rfl

theorem number_eq (h : c.IsReplica settings k tag n) : c.number = n := by
  obtain ⟨v, -, rfl, rfl | rfl⟩ := h <;> rfl

theorem isUp_iff (h : c.IsReplica settings k tag n) : c.IsUp ↔ c.isRunning = true := by
  obtain ⟨v, -, -, rfl | rfl⟩ := h
  · exact iff_of_false (newcomer_not_isUp _ _ _ _) (by rw [newcomer_isRunning]; decide)
  · exact iff_of_true (isUp_of_isRunning rfl) rfl

end IsReplica

end Container

namespace World

variable {platform : PlatformSettings} {k : AppKey} {tag : Tag} {w w' w₀ w₁ w₂ w₃ : World}
  {c : Call} {added : List Container} {id : String}

/-- Whether the router keeps its routes in a table. -/
def HasTable (w : World) : Prop := ∃ routes, w.broker.router = .memory routes

/-- The hub and the store are where they were, and the runtime and the router are of the same kind
as before. -/
structure SetUp (w w' : World) : Prop where
  hub : w'.broker.hub = w.broker.hub
  store : w'.broker.store = w.broker.store
  codec : w'.broker.codec = w.broker.codec
  settings : w'.broker.runtime.settings = w.broker.runtime.settings
  table : w'.HasTable ↔ w.HasTable

/-- Nothing was written to the disk either. -/
structure Unwritten (w w' : World) : Prop extends SetUp w w' where
  disk : w'.disk = w.disk

theorem Unwritten.refl (w : World) : w.Unwritten w := ⟨⟨rfl, rfl, rfl, rfl, .rfl⟩, rfl⟩

theorem Unwritten.trans (h : w₁.Unwritten w₂) (h' : w₂.Unwritten w₃) : w₁.Unwritten w₃ :=
  ⟨⟨h'.hub.trans h.hub, h'.store.trans h.store, h'.codec.trans h.codec,
    h'.settings.trans h.settings, h'.table.trans h.table⟩, h'.disk.trans h.disk⟩

theorem Unwritten.recordAt (h : w.Unwritten w') (k : AppKey) : w'.recordAt k = w.recordAt k := by
  unfold World.recordAt
  rw [h.disk, h.codec, h.store]

theorem Became.unwritten {cs : List Container} (h : w.Became cs w') : w.Unwritten w' := by
  obtain ⟨_, _, _, rfl⟩ := h
  exact ⟨⟨rfl, rfl, rfl, rfl, .rfl⟩, rfl⟩

theorem unwritten_bind {α β : Type} {m : Action World α} {f : α → Action World β}
    (hm : ∀ w, Unwritten w (m w).2) (hf : ∀ a w, Unwritten w (f a w).2) (w : World) :
    Unwritten w (Action.bind m f w).2 := by
  have h := hm w
  unfold Action.bind
  split <;> rename_i hmw <;> rw [hmw] at h
  · exact h.trans (hf _ _)
  · exact h

theorem unwritten_withSource {α : Type} {f : SourceControl → Action World α}
    (hf : ∀ source w, Unwritten w (f source w).2) (w : World) :
    Unwritten w (withSource f w).2 := by
  unfold withSource
  split
  · exact .refl w
  · exact hf _ w

/-- A change of routes leaves the router of the kind that it is. -/
theorem hasTable_route (w : World) (change : RouteChange) :
    (w.answer (.route change)).2.HasTable ↔ w.HasTable := by
  show (∃ routes, (w.broker.router.change w.replies change).router = .memory routes) ↔
    ∃ routes, w.broker.router = .memory routes
  cases w.broker.router with
  | memory routes => exact iff_of_true ⟨_, rfl⟩ ⟨_, rfl⟩
  | service base token => rw [Router.change_service]

/-- Telling the time writes nothing. -/
theorem unwritten_clock (w : World) (clock : Clock) : w.Unwritten { w with clock := clock } :=
  ⟨⟨rfl, rfl, rfl, rfl, .rfl⟩, rfl⟩

/-- Only the calls that write records write to the disk. -/
theorem unwritten_answer (hc : c.isWriting = false) (w : World) : w.Unwritten (w.answer c).2 := by
  have hload (tenant : String) (w : World) : w.Unwritten (load tenant w).2 :=
    w.unwritten_clock _
  cases c with
  | addRecord | replaceRecord | removeRecord => cases hc
  | record tenant name | records tenant =>
    exact unwritten_bind (hload tenant) (fun _ w => .refl w) w
  | tenants | compose | plugin => exact .refl w
  | now => exact w.unwritten_clock _
  | warn => exact ⟨⟨rfl, rfl, rfl, rfl, .rfl⟩, rfl⟩
  | create app tenant tag =>
    have hcounted : w.Unwritten w.counted := ⟨⟨rfl, rfl, rfl, rfl, .rfl⟩, rfl⟩
    rcases w.answer_create app tenant tag with ⟨-, hq⟩ | ⟨-, w₁, hb, hw⟩
    · exact hcounted.trans hq.unwritten
    · rw [hw]
      exact (hcounted.trans hb.unwritten).trans ⟨⟨rfl, rfl, rfl, rfl, .rfl⟩, rfl⟩
  | find app tenant service => exact (w.answer_find app tenant service).1.unwritten
  | inspect h => exact (w.answer_inspect h).1.unwritten
  | exec h user command => exact (w.answer_exec h user command).unwritten
  | start h => exact (w.handled_start h).elim (·.unwritten) (·.unwritten)
  | stop h => exact (w.handled_stop h).elim (·.unwritten) (·.unwritten)
  | restart h => exact (w.handled_restart h).elim (·.unwritten) (·.unwritten)
  | destroy h => exact (w.handled_destroy h).elim (·.unwritten) (·.unwritten)
  | route change => exact ⟨⟨rfl, rfl, rfl, rfl, w.hasTable_route change⟩, rfl⟩
  | deploy tenant name branch =>
    refine unwritten_withSource (fun _ w => ?_) w
    dsimp only
    split <;> exact ⟨⟨rfl, rfl, rfl, rfl, .rfl⟩, rfl⟩
  | branches tenant name => exact unwritten_withSource (fun _ w => .refl w) w
  | disconnect =>
    show w.Unwritten (Runtime.close w).2
    unfold Runtime.close Action.modify
    dsimp only
    split <;> exact ⟨⟨rfl, rfl, rfl, rfl, .rfl⟩, rfl⟩

/-! ## Routes -/

theorem routes_of_service (h : ¬ w.HasTable) : w.routes = [] := by
  unfold routes
  split
  · rename_i routes hr
    exact absurd ⟨routes, hr⟩ h
  · rfl

/-- What publishing changes is the routes of one container. -/
theorem get?_publish (w : World) (id : String) (endpoints : List Endpoint) :
    let w' := (w.answer (.route (.publish id endpoints))).2
    (∀ other, other ≠ id → w'.routes.get? other = w.routes.get? other) ∧
      (w'.routes.get? id = w.routes.get? id ∨ w'.routes.get? id = some endpoints) ∧
      (w.HasTable → w'.routes.get? id = some endpoints) := by
  intro w'
  by_cases htable : w.HasTable
  · obtain ⟨routes, hr⟩ := htable
    obtain ⟨-, -, hafter⟩ := answer_route hr (.publish id endpoints)
    have hget (other : String) : w'.routes.get? other =
        if id = other then some endpoints else w.routes.get? other := by
      rw [routes_eq hafter, routes_eq hr]
      exact Table.get?_insert _ _ _ _
    exact ⟨fun other hne => by rw [hget, if_neg (Ne.symm hne)], .inr (by rw [hget, if_pos rfl]),
      fun _ => by rw [hget, if_pos rfl]⟩
  · rw [routes_of_service htable,
      routes_of_service (mt (w.hasTable_route (.publish id endpoints)).1 htable)]
    exact ⟨fun _ _ => rfl, .inl rfl, fun h => absurd h htable⟩

/-- What dropping a container's routes changes is these. -/
theorem get?_retract (w : World) (id : String) :
    let w' := (w.answer (.route (.retract id))).2
    (∀ other, other ≠ id → w'.routes.get? other = w.routes.get? other) ∧
      w'.routes.get? id = none := by
  intro w'
  by_cases htable : w.HasTable
  · obtain ⟨routes, hr⟩ := htable
    obtain ⟨-, -, hafter⟩ := answer_route hr (.retract id)
    have hget (other : String) : w'.routes.get? other =
        if id = other then none else w.routes.get? other := by
      rw [routes_eq hafter, routes_eq hr]
      exact Table.get?_erase _ _ _
    exact ⟨fun other hne => by rw [hget, if_neg (Ne.symm hne)], by rw [hget, if_pos rfl]⟩
  · rw [routes_of_service htable, routes_of_service (mt (w.hasTable_route (.retract id)).1 htable)]
    exact ⟨fun _ _ => rfl, rfl⟩

/-- The endpoints that publishing a container routes to it, if it routes any. -/
def routeOf (w : World) (platform : PlatformSettings) (c : Container) : Option (List Endpoint) :=
  match Runtime.handleOf w.broker.runtime.settings.network c with
  | .error _ => none
  | .ok h =>
    match Hub.plugin w.disk w.broker.hub h.tag.withoutService with
    | .error _ => none
    | .ok p =>
      if p.endpoints.isEmpty then none
      else some (p.endpoints.map fun e => e.bind h.address (platform.frontend h))

theorem Unwritten.routeOf (h : w.Unwritten w') (c : Container) :
    w'.routeOf platform c = w.routeOf platform c := by
  unfold World.routeOf
  rw [h.settings, h.disk, h.hub]

/-- Nothing has changed but the routes of a container, which are at most those that publishing it
gives it. -/
structure Published (platform : PlatformSettings) (w : World) (c : Container) (w' : World) :
    Prop extends Unwritten w w' where
  containers : w'.engine.containers = w.engine.containers
  made : w'.engine.made = w.engine.made
  others : ∀ id, id ≠ c.id → w'.routes.get? id = w.routes.get? id
  own : w'.routes.get? c.id = w.routes.get? c.id ∨
    ∃ endpoints, w.routeOf platform c = some endpoints ∧ w'.routes.get? c.id = some endpoints

theorem Published.of_still {c : Container} (hu : w.Unwritten w')
    (hcontainers : w'.engine.containers = w.engine.containers)
    (hmade : w'.engine.made = w.engine.made) (hroutes : w'.routes = w.routes) :
    Published platform w c w' :=
  ⟨hu, hcontainers, hmade, fun _ _ => by rw [hroutes], .inl (by rw [hroutes])⟩

theorem Published.still {c : Container} (h : Published platform w₁ c w₂) (hu : w₂.Unwritten w₃)
    (hcontainers : w₃.engine.containers = w₂.engine.containers)
    (hmade : w₃.engine.made = w₂.engine.made) (hroutes : w₃.routes = w₂.routes) :
    Published platform w₁ c w₃ where
  toUnwritten := h.toUnwritten.trans hu
  containers := hcontainers.trans h.containers
  made := hmade.trans h.made
  others := by rw [hroutes]; exact h.others
  own := by rw [hroutes]; exact h.own

/-- Whether a table has the routes that publishing a container gives it. -/
def Serves (platform : PlatformSettings) (w₀ : World) (c : Container) (w : World) : Prop :=
  w₀.HasTable → ∀ endpoints, w₀.routeOf platform c = some endpoints →
    w.routes.get? c.id = some endpoints

theorem Serves.of_unwritten {c : Container} (hu : w₀.Unwritten w₁) (h : Serves platform w₁ c w) :
    Serves platform w₀ c w := fun htable endpoints hof =>
  h (hu.table.2 htable) endpoints (by rw [hu.routeOf]; exact hof)

/-! ## Growing -/

/-- What growing an application has come to: containers were added, which are made for a tag under
the numbers that were next, and those that run may have been routed. -/
structure Grown (platform : PlatformSettings) (k : AppKey) (tag : Tag) (w₀ : World)
    (added : List Container) (w : World) : Prop extends Unwritten w₀ w where
  containers : w.engine.containers = w₀.engine.containers ++ added
  made : w.engine.made = w₀.engine.made + added.length
  replicas : List.Forall₂ (·.IsReplica w₀.broker.runtime.settings k tag ·) added
    (List.range' (w₀.engine.made + 1) added.length)
  others : ∀ id, (∀ c ∈ added, c.id ≠ id) → w.routes.get? id = w₀.routes.get? id
  routed : ∀ c ∈ added, w.routes.get? c.id = w₀.routes.get? c.id ∨
    c.isRunning = true ∧ ∃ endpoints, w₀.routeOf platform c = some endpoints ∧
      w.routes.get? c.id = some endpoints

namespace Grown

theorem refl (w : World) : Grown platform k tag w [] w where
  toUnwritten := .refl w
  containers := (List.append_nil _).symm
  made := rfl
  replicas := .nil
  others _ _ := rfl
  routed _ hc := nomatch hc

theorem replica (h : Grown platform k tag w₀ added w) {c : Container} (hc : c ∈ added) :
    ∃ n, c.IsReplica w₀.broker.runtime.settings k tag n := by
  obtain ⟨n, -, hn⟩ := exists_of_mem_right h.replicas.flip hc
  exact ⟨n, hn⟩

theorem mem (h : Grown platform k tag w₀ added w) {c : Container} (hc : c ∈ added) :
    c ∈ w.engine.containers := by
  rw [h.containers]
  exact List.mem_append_right _ hc

/-- What changes neither containers nor routes leaves a growth as it is. -/
theorem still (h : Grown platform k tag w₀ added w) (hu : w.Unwritten w')
    (hcontainers : w'.engine.containers = w.engine.containers)
    (hmade : w'.engine.made = w.engine.made) (hroutes : w'.routes = w.routes) :
    Grown platform k tag w₀ added w' where
  toUnwritten := h.toUnwritten.trans hu
  containers := hcontainers.trans h.containers
  made := hmade.trans h.made
  replicas := h.replicas
  others := by rw [hroutes]; exact h.others
  routed := by rw [hroutes]; exact h.routed

theorem quiet (h : Grown platform k tag w₀ added w) (hq : w.Quiet w') :
    Grown platform k tag w₀ added w' := by
  refine h.still hq.unwritten hq.containers ?_ ?_ <;> obtain ⟨_, _, _, rfl⟩ := hq <;> rfl

/-- Making one more container fails and changes nothing, or adds it. -/
theorem create (h : Grown platform k tag w₀ added w)
    (hn : Engine.Numbered w.engine.containers w.engine.made) :
    let answer := w.answer (.create k.name k.tenant tag)
    ((∃ e, answer.1 = .error e) ∧ Grown platform k tag w₀ added answer.2) ∨
      ∃ c, c.isRunning = false ∧
        answer.1 = Runtime.handleOf w₀.broker.runtime.settings.network c ∧
        Grown platform k tag w₀ (added ++ [c]) answer.2 := by
  intro answer
  have hu : w₀.Unwritten answer.2 := h.toUnwritten.trans (w.unwritten_answer rfl)
  rcases w.lineup_create (k := k) hn tag with ⟨he, hq⟩ | ⟨hof, ⟨w₁, hb, hw₁⟩, -⟩
  · refine .inl ⟨he, h.still (w.unwritten_answer rfl) ?_ ?_ ?_⟩ <;>
      obtain ⟨_, _, _, hq⟩ := hq <;> rw [hq] <;> rfl
  · obtain ⟨hcontainers, hmade, hroutes⟩ : answer.2.engine.containers =
        w.engine.containers ++ [w.newcomer k.name k.tenant tag] ∧
        answer.2.engine.made = w.engine.made + 1 ∧ answer.2.routes = w.routes := by
      simp only [answer]
      rw [hw₁]
      obtain ⟨_, _, _, rfl⟩ := hb
      exact ⟨rfl, rfl, rfl⟩
    refine .inr ⟨w.newcomer k.name k.tenant tag, Container.newcomer_isRunning .., ?_, hu, ?_, ?_,
      ?_, ?_, ?_⟩
    · rw [← h.settings]
      exact hof
    · rw [hcontainers, h.containers, List.append_assoc]
    · rw [hmade, h.made, List.length_append, List.length_singleton]
      omega
    · rw [List.length_append, List.length_singleton, List.range'_concat]
      refine List.rel_append h.replicas (.cons ⟨w, h.settings, ?_, .inl rfl⟩ .nil)
      show w.engine.made + 1 = _
      rw [h.made]
      omega
    · rw [hroutes]
      exact fun id hid => h.others id fun c hc => hid c (List.mem_append_left _ hc)
    · rw [hroutes]
      intro c hc
      rcases List.mem_append.1 hc with hc | hc
      · exact h.routed c hc
      · refine .inl (h.others c.id fun d hd he => ?_)
        rw [List.mem_singleton.1 hc] at he
        exact hn.fresh_id (h.mem hd) (Nat.lt_succ_self _) he

/-- The containers that were there before are none of those that were added. -/
theorem ne_id (h : Grown platform k tag w₀ added w)
    (hn : Engine.Numbered w.engine.containers w.engine.made) {c d : Container}
    (hc : c ∈ w₀.engine.containers) (hd : d ∈ added) : c.id ≠ d.id := by
  have hincreasing := hn.increasing
  rw [h.containers] at hincreasing
  have hlt := (List.pairwise_append.1 hincreasing).2.2 c hc d hd
  intro he
  obtain rfl := hn.eq_of_id (by rw [h.containers]; exact List.mem_append_left _ hc) (h.mem hd) he
  exact absurd hlt (Nat.lt_irrefl _)

/-- An added container is started, if it was not before. -/
theorem changed (h : Grown platform k tag w₀ added w)
    (hn : Engine.Numbered w.engine.containers w.engine.made) {c : Container} (hc : c ∈ added)
    (hstopped : c.isRunning = false)
    (hb : w.Became (Engine.changed w.engine.containers c.id .started) w') :
    Grown platform k tag w₀ (Engine.changed added c.id .started) w' := by
  have hone {d : Container} (hd : d ∈ added) (he : d.id = c.id) : d = c :=
    hn.eq_of_id (h.mem hd) (h.mem hc) he
  have hid (d : Container) : (if d.id = c.id then d.started else d).id = d.id := by
    split <;> rfl
  refine ⟨h.toUnwritten.trans hb.unwritten, ?_, ?_, ?_, ?_, ?_⟩
  · obtain ⟨_, _, _, rfl⟩ := hb
    show Engine.changed w.engine.containers c.id .started = _
    rw [h.containers]
    unfold Engine.changed
    rw [List.map_append]
    congr 1
    refine List.map_congr_left (fun d hd => if_neg (h.ne_id hn hd hc)) |>.trans (List.map_id _)
  · obtain ⟨_, _, _, rfl⟩ := hb
    exact h.made.trans (by rw [Engine.changed, List.length_map])
  · unfold Engine.changed
    rw [List.forall₂_map_left_iff, List.length_map]
    refine h.replicas.imp fun d n hd => ?_
    split
    · exact hd.started
    · exact hd
  · intro id hall
    obtain ⟨_, _, _, rfl⟩ := hb
    refine h.others id fun d hd => ?_
    rw [← hid d]
    exact hall _ (List.mem_map_of_mem hd)
  · intro d' hd'
    obtain ⟨_, _, _, rfl⟩ := hb
    obtain ⟨d, hd, rfl⟩ := List.mem_map.1 hd'
    rw [hid d]
    split
    · rename_i he
      obtain rfl := hone hd he
      refine .inl ((h.routed d hd).resolve_right fun hrouted => ?_)
      rw [hstopped] at hrouted
      cases hrouted.1
    · exact h.routed d hd

/-- An added container that runs is published. -/
theorem published (h : Grown platform k tag w₀ added w)
    (hn : Engine.Numbered w.engine.containers w.engine.made) {c : Container} (hc : c ∈ added)
    (hrun : c.isRunning = true) (hp : Published platform w c w') :
    Grown platform k tag w₀ added w' where
  toUnwritten := h.toUnwritten.trans hp.toUnwritten
  containers := hp.containers.trans h.containers
  made := hp.made.trans h.made
  replicas := h.replicas
  others id hid := (hp.others id (Ne.symm (hid c hc))).trans (h.others id hid)
  routed d hd := by
    by_cases he : d.id = c.id
    · obtain rfl := hn.eq_of_id (h.mem hd) (h.mem hc) he
      rcases hp.own with hsame | ⟨endpoints, hof, hroute⟩
      · rw [hsame]
        exact h.routed d hd
      · exact .inr ⟨hrun, endpoints, by rw [← h.toUnwritten.routeOf]; exact hof, hroute⟩
    · rw [hp.others d.id he]
      exact h.routed d hd

end Grown

/-! ## Shrinking -/

/-- What shrinking an application has come to: some of the containers that are to be dropped are
gone with their routes, and nothing else has changed but routes of the others. -/
structure Shrunk (dropped : List String) (w₀ : World) (gone : List String) (w : World) : Prop
    extends Unwritten w₀ w where
  containers : w.engine.containers = w₀.engine.containers.filter (·.id ∉ gone)
  made : w.engine.made = w₀.engine.made
  subset : gone ⊆ dropped
  unrouted : ∀ id ∈ gone, w.routes.get? id = none
  others : ∀ id, id ∉ dropped → w.routes.get? id = w₀.routes.get? id

namespace Shrunk

variable {dropped gone : List String}

theorem refl (dropped : List String) (w : World) : Shrunk dropped w [] w where
  toUnwritten := .refl w
  containers := by simp
  made := rfl
  subset := List.nil_subset _
  unrouted _ hid := nomatch hid
  others _ _ := rfl

/-- What changes neither containers nor routes leaves a shrinking as it is. -/
theorem still (h : Shrunk dropped w₀ gone w) (hu : w.Unwritten w')
    (hcontainers : w'.engine.containers = w.engine.containers)
    (hmade : w'.engine.made = w.engine.made) (hroutes : w'.routes = w.routes) :
    Shrunk dropped w₀ gone w' where
  toUnwritten := h.toUnwritten.trans hu
  containers := hcontainers.trans h.containers
  made := hmade.trans h.made
  subset := h.subset
  unrouted := by rw [hroutes]; exact h.unrouted
  others := by rw [hroutes]; exact h.others

/-- A container that is to be dropped loses its routes. -/
theorem retract (h : Shrunk dropped w₀ gone w) (hid : id ∈ dropped) :
    let w' := (w.answer (.route (.retract id))).2
    Shrunk dropped w₀ gone w' ∧ w'.routes.get? id = none := by
  intro w'
  obtain ⟨hothers, hnone⟩ := w.get?_retract id
  refine ⟨⟨h.toUnwritten.trans (w.unwritten_answer rfl), h.containers, h.made, h.subset,
    fun other ho => ?_, fun other ho => ?_⟩, hnone⟩
  · by_cases he : other = id
    · rw [he]
      exact hnone
    · exact (hothers other he).trans (h.unrouted other ho)
  · have hne : other ≠ id := fun he => ho (he ▸ hid)
    exact (hothers other hne).trans (h.others other ho)

/-- A container that has lost its routes is removed, or was removed before, or nothing happens. -/
theorem destroy (h : Shrunk dropped w₀ gone w) (ht : w.engine.Truthful) {handle : Handle}
    (hid : handle.id ∈ dropped) (hnone : w.routes.get? handle.id = none) :
    let answer := w.answer (.destroy handle)
    Shrunk dropped w₀ gone answer.2 ∧ (∃ e, answer.1 = .error e) ∨
      answer.1 = .ok () ∧ Shrunk dropped w₀ (handle.id :: gone) answer.2 := by
  intro answer
  have hsub : handle.id :: gone ⊆ dropped := List.cons_subset.2 ⟨hid, h.subset⟩
  have hunrouted : ∀ id ∈ handle.id :: gone, w.routes.get? id = none :=
    List.forall_mem_cons.2 ⟨hnone, h.unrouted⟩
  have hfilter : w₀.engine.containers.filter (·.id ∉ handle.id :: gone) =
      Engine.without w.engine.containers handle.id := by
    rw [h.containers, Engine.without, List.filter_filter]
    refine List.filter_congr fun c _ => ?_
    simp
  rcases w.answer_destroy handle ht.1 with ⟨hq, hgone⟩ | ⟨hok, hb⟩
  · have hstill : ∀ gone', gone' ⊆ dropped → (∀ id ∈ gone', w.routes.get? id = none) →
        w.engine.containers = w₀.engine.containers.filter (·.id ∉ gone') →
        Shrunk dropped w₀ gone' answer.2 := by
      intro gone' hsub' hunrouted' hcontainers
      have hroutes : answer.2.routes = w.routes := by
        obtain ⟨_, _, _, hq⟩ := hq
        simp only [answer]
        rw [hq]
        rfl
      have hmade : answer.2.engine.made = w.engine.made := by
        obtain ⟨_, _, _, hq⟩ := hq
        simp only [answer]
        rw [hq]
      exact ⟨h.toUnwritten.trans hq.unwritten, hq.containers.trans hcontainers,
        hmade.trans h.made, hsub', by rw [hroutes]; exact hunrouted',
        by rw [hroutes]; exact h.others⟩
    cases hanswer : answer.1 with
    | error e => exact .inl ⟨hstill gone h.subset h.unrouted h.containers, e, rfl⟩
    | ok u =>
      refine .inr ⟨rfl, hstill _ hsub hunrouted ?_⟩
      have habsent := List.find?_eq_none.1 (hgone ht hanswer)
      rw [hfilter, Engine.without, List.filter_eq_self.2]
      simpa using habsent
  · refine .inr ⟨hok, ?_⟩
    have hu := h.toUnwritten.trans hb.unwritten
    obtain ⟨_, _, _, hb⟩ := hb
    simp only [answer]
    rw [hb] at hu ⊢
    exact ⟨hu, hfilter.symm, h.made, hsub, hunrouted, h.others⟩

end Shrunk

end World

end AppBroker
