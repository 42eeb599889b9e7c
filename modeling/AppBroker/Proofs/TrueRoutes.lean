import AppBroker.Proofs.ScaleSteps

/-!
# Routes that are true

A route is true if its container runs and publishing the container now gives just these endpoints. A
table that holds true routes only (`World.Charted`) keeps to that while operations go on, each by
itself: a container is published only when it runs, by what its labels tell, and its routes are dropped
before it is stopped or removed (`Charting.custody`). This takes no call to succeed. A container keeps its
address while it runs, and the hub is as it was.
-/

namespace AppBroker

open Program Lifecycle

namespace World

variable {platform : PlatformSettings} {w w' w₀ : World} {c : Call} {k : AppKey} {id : String}

/-! ## What becomes of containers and settings -/

/-- A container after a call was there before, is new, or was started or stopped by the call. -/
theorem container_cases (hn : Engine.Numbered w.engine.containers w.engine.made) (c : Call) :
    ∀ c' ∈ (w.answer c).2.engine.containers, c' ∈ w.engine.containers ∨
      (∃ app tenant tag, c = .create app tenant tag ∧ c' = w.newcomer app tenant tag) ∨
      ∃ d ∈ w.engine.containers, c' = d.started ∨ c' = d.stopped := by
  intro c' hc'
  have hsame {w' : World} (h : w'.engine.containers = w.engine.containers)
      (hc' : c' ∈ w'.engine.containers) : c' ∈ w.engine.containers := h ▸ hc'
  have hchanged {id : String} {f : Container → Container} {w' : World}
      (hf : ∀ d, f d = d.started ∨ f d = d.stopped)
      (h : w.Quiet w' ∨ w.Became (Engine.changed w.engine.containers id f) w')
      (hc' : c' ∈ w'.engine.containers) : c' ∈ w.engine.containers ∨
        ∃ d ∈ w.engine.containers, c' = d.started ∨ c' = d.stopped := by
    rcases h with hq | ⟨_, _, _, rfl⟩
    · exact .inl (hsame hq.containers hc')
    · obtain ⟨d, hd, rfl⟩ := List.mem_map.1 hc'
      split
      · exact .inr ⟨d, hd, hf d⟩
      · exact .inl hd
  cases c with
  | create app tenant tag =>
    obtain ⟨-, -, h | h⟩ := create_cases hn ⟨tenant, app⟩ tag
    · exact .inl (hsame h hc')
    · rw [h] at hc'
      refine (List.mem_append.1 hc').imp_right fun hnew => .inl ⟨app, tenant, tag, rfl, ?_⟩
      exact List.mem_singleton.1 hnew
  | start h => exact (hchanged (fun _ => .inl rfl) (w.handled_start h) hc').imp_right .inr
  | restart h => exact (hchanged (fun _ => .inl rfl) (w.handled_restart h) hc').imp_right .inr
  | stop h => exact (hchanged (fun _ => .inr rfl) (w.handled_stop h) hc').imp_right .inr
  | destroy h =>
    rcases w.handled_destroy h with hq | ⟨_, _, _, hw⟩
    · exact .inl (hsame hq.containers hc')
    · rw [hw] at hc'
      exact .inl (List.mem_filter.1 hc').1
  | route => exact .inl hc'
  | _ => exact .inl (hsame (w.same_answer rfl).containers hc')

/-- What is as it would be if it were started again stays as it is, unless it is taken down. -/
theorem mem_answer_of_started {lenient : Bool} (hw : w.Dependable lenient) {e : Container}
    (he : e ∈ w.engine.containers) (hstarted : e.started = e) (hc : c.takesDown e.id = false) :
    e ∈ (w.answer c).2.engine.containers := by
  have hsame {w' : World} (h : w'.engine.containers = w.engine.containers) :
      e ∈ w'.engine.containers := by rwa [h]
  have hchanged {id : String} {f : Container → Container} {w' : World} (hf : e.id = id → f e = e)
      (h : w.Quiet w' ∨ w.Became (Engine.changed w.engine.containers id f) w') :
      e ∈ w'.engine.containers := by
    rcases h with hq | ⟨_, _, _, rfl⟩
    · exact hsame hq.containers
    · refine List.mem_map.2 ⟨e, he, ?_⟩
      split
      · next heq => exact hf heq
      · rfl
  cases c with
  | create app tenant tag =>
    obtain ⟨-, -, h | h⟩ := create_cases hw.numbered ⟨tenant, app⟩ tag
    · exact hsame h
    · rw [h]
      exact List.mem_append_left _ he
  | start h => exact hchanged (fun _ => hstarted) (w.handled_start h)
  | restart h => exact hchanged (fun _ => hstarted) (w.handled_restart h)
  | stop h => exact hchanged (fun heq => absurd heq.symm (of_decide_eq_false hc)) (w.handled_stop h)
  | destroy h =>
    rcases w.handled_destroy h with hq | ⟨_, _, _, hw'⟩
    · exact hsame hq.containers
    · rw [hw']
      exact List.mem_filter.2 ⟨he, by simpa using Ne.symm (of_decide_eq_false hc)⟩
  | route => exact he
  | _ => exact hsame (w.same_answer rfl).containers

theorem settings_answer {lenient : Bool} (hw : w.Dependable lenient)
    (hc : c.Fits ∨ c.isLooking = true) :
    (w.answer c).2.broker.runtime.settings = w.broker.runtime.settings := by
  have hs := hw.storing
  cases c with
  | addRecord tenant r =>
    obtain ⟨ht, hr⟩ := hc.resolve_right nofun
    rcases answer_addRecord hs ht hr with ⟨e, ha⟩ | ⟨w', ha, ⟨_, rfl⟩, -⟩ <;> rw [ha]
  | replaceRecord tenant r =>
    obtain ⟨ht, hr⟩ := hc.resolve_right nofun
    rcases answer_replaceRecord hs ht hr with ⟨e, ha⟩ | ⟨w', ha, ⟨_, rfl⟩, -⟩ <;> rw [ha]
  | removeRecord tenant name =>
    rcases answer_removeRecord hs (hc.resolve_right nofun) name with
      ⟨e, ha⟩ | ⟨w', ha, ⟨_, rfl⟩, -⟩ <;> rw [ha]
  | _ => exact (unwritten_answer rfl w).settings

/-! ## Tables of true routes -/

/-- Whether a container with an id runs, and publishing it in some world gives it these endpoints. -/
def Offers (platform : PlatformSettings) (w₀ w : World) (id : String) (endpoints : List Endpoint) :
    Prop :=
  ∃ c ∈ w.engine.containers, c.id = id ∧ c.IsUp ∧ w₀.routeOf platform c = some endpoints

/-- All routes are true. Containers that run have the addresses that starting them gives, each is of
an application that has a name in the store, and records are of tenants that the store lists. -/
structure Charted (platform : PlatformSettings) (w₀ w : World) : Prop extends Sited w₀ w where
  settings : w.broker.runtime.settings = w₀.broker.runtime.settings
  routes : ∀ id endpoints, w.routes.get? id = some endpoints → Offers platform w₀ w id endpoints
  started : ∀ c ∈ w.engine.containers, c.IsUp → c.started = c
  filed : ∀ c ∈ w.engine.containers, ∃ k : AppKey, k.IsFiled ∧ c.BelongsTo k
  records : ∀ k : AppKey, k.IsFiled → (w.recordAt k).isSome → k.IsListed

/-- Whether a call leaves all routes true: a container that it stops or removes has none, and one
that it publishes gets the routes that are true of it. -/
def Charts (platform : PlatformSettings) (w₀ w : World) : Call → Prop
  | .create _ tenant _ => '/' ∉ tenant.toList
  | .addRecord tenant r | .replaceRecord tenant r => Store.Fit r ∧ AppKey.IsListed ⟨tenant, r.name⟩
  | .stop h | .destroy h => w.routes.get? h.id = none
  | .route (.publish id endpoints) => Offers platform w₀ w id endpoints
  | .records _ | .tenants => True
  | c => c.Fits

theorem Charts.fits (hc : Charts platform w₀ w c) : c.Fits ∨ c.isLooking = true := by
  cases c with
  | create | destroy => exact .inl trivial
  | stop | route => exact .inl rfl
  | addRecord | replaceRecord => exact .inl ⟨hc.2.1, hc.1⟩
  | records | tenants => exact .inr rfl
  | _ => exact .inl hc

/-- What is offered is offered after a call that leaves the container up. -/
theorem Offers.answer {endpoints : List Endpoint} (h : Offers platform w₀ w id endpoints)
    (hw : Charted platform w₀ w) (hc : c.takesDown id = false) :
    Offers platform w₀ (w.answer c).2 id endpoints := by
  obtain ⟨e, he, rfl, hup, hof⟩ := h
  exact ⟨e, mem_answer_of_started hw.dependable he (hw.started e he hup) hc, rfl, hup, hof⟩

theorem Charted.routes_answer (hw : Charted platform w₀ w) (hc : Charts platform w₀ w c) :
    ∀ id endpoints, (w.answer c).2.routes.get? id = some endpoints →
      Offers platform w₀ (w.answer c).2 id endpoints := by
  intro id endpoints hget
  have hunrouted (hun : c.isUnrouted = true) : w.routes.get? id = some endpoints := by
    unfold World.routes at hget ⊢
    rwa [World.router_answer w hun] at hget
  have hbefore (h : w.routes.get? id = some endpoints) (hdown : c.takesDown id = false) :
      Offers platform w₀ (w.answer c).2 id endpoints := (hw.routes id endpoints h).answer hw hdown
  have hspared {h : Handle} (hnone : w.routes.get? h.id = none)
      (hsome : w.routes.get? id = some endpoints) : decide (h.id = id) = false :=
    decide_eq_false fun heq => by
      rw [← heq, hnone] at hsome
      cases hsome
  cases c with
  | stop h => exact hbefore (hunrouted rfl) (hspared hc (hunrouted rfl))
  | destroy h => exact hbefore (hunrouted rfl) (hspared hc (hunrouted rfl))
  | route change =>
    cases change with
    | publish id' endpoints' =>
      obtain ⟨hothers, -, hown⟩ := w.get?_publish id' endpoints'
      by_cases heq : id = id'
      · subst heq
        obtain rfl := Option.some.inj ((hown hw.memory).symm.trans hget)
        exact Offers.answer hc hw rfl
      · exact hbefore ((hothers id heq).symm.trans hget) rfl
    | retract id' =>
      obtain ⟨hothers, hnone⟩ := w.get?_retract id'
      by_cases heq : id = id'
      · subst heq
        cases hnone.symm.trans hget
      · exact hbefore ((hothers id heq).symm.trans hget) rfl
    | clear =>
      obtain ⟨routes, hm⟩ := hw.memory
      rw [World.routes_eq (World.answer_route hm .clear).2.2] at hget
      cases hget
  | _ => exact hbefore (hunrouted rfl) rfl

theorem not_isUp_stopped (c : Container) : ¬ c.stopped.IsUp :=
  show ¬ ContainerState.ofStatus "exited" = .running by decide

/-- No call that leaves routes true leads out of such a world, whether calls fail or not. -/
theorem Charted.answer (hw : Charted platform w₀ w) (hc : Charts platform w₀ w c) :
    Charted platform w₀ (w.answer c).2 where
  toSited := hw.toSited.answer hc.fits
  settings := (settings_answer hw.dependable hc.fits).trans hw.settings
  routes := hw.routes_answer hc
  started c' hc' hup := by
    rcases container_cases hw.dependable.numbered c c' hc' with
      hold | ⟨app, tenant, tag, -, rfl⟩ | ⟨d, -, rfl | rfl⟩
    · exact hw.started c' hold hup
    · exact absurd hup (Container.newcomer_not_isUp w app tenant tag)
    · exact Container.started_started d
    · exact absurd hup (not_isUp_stopped d)
  filed c' hc' := by
    rcases exists_of_mem_answer hw.dependable.numbered c c' hc' with
      ⟨d, hd, hsame⟩ | ⟨app, tenant, tag, rfl, rfl⟩
    · obtain ⟨k, hk, hdk⟩ := hw.filed d hd
      exact ⟨k, hk, by rwa [Container.BelongsTo, ← hsame.labels]⟩
    · exact ⟨⟨tenant, app⟩, hc, w.newcomer_belongsTo ⟨tenant, app⟩ tag⟩
  records k hk hr := by
    rcases recordAt_answer hw.dependable.numbered hw.dependable.storing hc.fits hk with
      hat | ⟨r, hwrites, hat⟩ | ⟨-, hat⟩
    · exact hw.records k hk (hat ▸ hr)
    · have hname := ((hw.dependable.called hc.fits).storing.fit hk hat).2
      have hkey : (⟨k.tenant, r.name⟩ : AppKey) = k := congrArg (AppKey.mk k.tenant) hname
      rcases hwrites with rfl | rfl <;> exact hkey ▸ hc.2
    · rw [hat] at hr
      cases hr

/-- What is bound to a container by its handle is what publishing the container gives it. -/
theorem Charted.routeOf_eq {e : Container} {h current : Handle} {p : Plugin}
    (hw : Charted platform w₀ w) (htells : e.Says h.tag)
    (hp : Hub.plugin w₀.disk w₀.broker.hub h.tag.withoutService = .ok p)
    (hne : p.endpoints.isEmpty = false)
    (hread : Runtime.handleOf w.broker.runtime.settings.network e = .ok current) :
    w₀.routeOf platform e = some (p.endpoints.map fun endpoint =>
      endpoint.bind current.address (platform.frontend current)) := by
  rw [hw.settings] at hread
  have htag : current.tag = h.tag :=
    Container.Says.unique (Runtime.readFrom_of_handleOf hread).tag htells
  unfold World.routeOf
  simp only [hread, htag, hp, hne, Bool.false_eq_true, if_false]

end World

/-! ## What operations do to a table of true routes -/

/-- The terms of programs that keep all routes true: while one holds an application, nothing happens to
containers and routes but by its own calls, and ids are never used again. -/
def charting (platform : PlatformSettings) (w₀ : World) (k : AppKey) : Terms where
  sound := World.Charted platform w₀
  rely k' w w' := w.Ages w' ∧ (k' = k → w'.engine.containers = w.engine.containers ∧
    w'.broker.router = w.broker.router)
  allows _ _ := True
  rely_refl _ w := ⟨.refl w, fun _ => ⟨rfl, rfl⟩⟩
  rely_trans _ _ _ _ h h' := ⟨h.1.trans h'.1,
    fun hk => ⟨(h'.2 hk).1.trans (h.2 hk).1, (h'.2 hk).2.trans (h.2 hk).2⟩⟩

namespace Charting

variable {platform : PlatformSettings} {w₀ w : World} {k : AppKey} {c : Call}

theorem meets_call {Q : Outcome c.Value → World → Prop}
    (hc : ∀ w', World.Charted platform w₀ w' → (charting platform w₀ k).rely k w w' →
      World.Charts platform w₀ w' c)
    (h : ∀ w' w'', World.Charted platform w₀ w' → World.Charted platform w₀ w'' →
      (charting platform w₀ k).rely k w w' →
      (charting platform w₀ k).rely k (w'.answer c).2 w'' → Q (w'.answer c).1 w'') :
    (perform c).Meets (charting platform w₀ k) k Q w :=
  .perform fun w' hs hr _ => ⟨hs.answer (hc w' hs hr),
    fun _ hne => ⟨(World.aged_answer hs.dependable.numbered c).ages, fun heq => absurd heq hne⟩,
    fun w'' hs'' hr'' => h w' w'' hs hs'' hr hr''⟩

/-- A call that does nothing to containers and routes. -/
theorem minor_sparing (hc : c.isSparing = true)
    (hcharts : ∀ w', World.Charted platform w₀ w' → World.Charts platform w₀ w' c) :
    Minor (charting platform w₀ k) c := by
  intro w hs _
  have hsame := w.same_answer hc
  exact ⟨hs.answer (hcharts w hs), fun _ =>
    ⟨(World.aged_answer hs.dependable.numbered c).ages, fun _ => ⟨hsame.containers, hsame.router⟩⟩⟩

/-- A container that runs may be published by a handle that tells its tag. -/
theorem yields_publish {e : Container} {h : Handle} (he : e ∈ w.engine.containers)
    (hid : e.id = h.id) (hup : e.IsUp) (htells : e.Says h.tag) :
    (publish platform h).Yields (charting platform w₀ k) k (fun _ _ => True) w := by
  refine meets_publish_of (I := fun w => e ∈ w.engine.containers)
    (fun w w' _ hr he => by rwa [(hr.2 rfl).1]) (fun _ => minor_sparing rfl fun _ _ => rfl)
    (fun _ => minor_sparing rfl fun _ _ => rfl) (fun _ _ => minor_sparing rfl fun _ _ => rfl)
    (fun endpoints w he hbinds => meets_call (fun w' _ hr => ?_) fun _ _ _ _ _ _ => trivial) he
  obtain ⟨p, w₁, current, w₂, hs₁, -, hp, hne, hs₂, he₂, hcurrent, rfl⟩ := hbinds
  obtain ⟨c, hfind, hread⟩ := (w₂.answer_inspect h).2 current hcurrent
  obtain ⟨hc, hcid⟩ := Engine.find?_eq_some hfind
  obtain rfl := hs₂.dependable.numbered.eq_of_id he₂ hc (hid.trans hcid.symm)
  exact ⟨e, by rwa [(hr.2 rfl).1], hid, hup,
    hs₂.routeOf_eq htells ((hs₁.plugin_eq _).symm.trans hp) hne hread⟩

theorem upholds_knows : (charting platform w₀ k).Upholds fun h w => w.Knows h :=
  fun _ _ _ _ hs hr hknows => hknows.aged hr.1 hs.dependable.numbered

/-- A container that was started runs, so it may be published. -/
theorem yields_driven {h : Handle} (hc : c = .start h ∨ c = .restart h) (hknows : w.Knows h) :
    ((perform c).bind fun _ => publish platform h).Yields (charting platform w₀ k) k
      (fun _ _ => True) w := by
  refine Yields.bind (R := fun _ w' => ∃ e ∈ w'.engine.containers, e.id = h.id ∧ e.IsUp ∧
      e.Says h.tag) (meets_call (fun w' _ _ => ?_) fun w' w'' hs hs'' hr hr'' => ?_)
    fun _ w' _ hup => ?_
  · rcases hc with rfl | rfl <;> exact rfl
  · cases hok : (w'.answer c).1 with
    | error e => trivial
    | ok a =>
      obtain ⟨e, he, hid, hup⟩ :=
        World.up_of_started hc hs.dependable.truthful.1 ⟨a, hok⟩
      have hmem : e ∈ w''.engine.containers := by rwa [(hr''.2 rfl).1]
      have hages := (hr.1.trans (World.aged_answer hs.dependable.numbered c).ages).trans hr''.1
      have hknows'' := hknows.aged hages hs''.dependable.numbered
      exact ⟨e, hmem, hid, hup, hknows''.2 e hmem hid⟩
  · obtain ⟨e, he, hid, hup, htells⟩ := hup
    exact yields_publish he hid hup htells

/-- A container whose routes were dropped has none while its application is held. -/
theorem unrouted_after {id : String} {w w' : World} (hr : (charting platform w₀ k).rely k w w')
    (hnone : w.routes.get? id = none) : w'.routes.get? id = none := by
  unfold World.routes at hnone ⊢
  rwa [(hr.2 rfl).2]

theorem yields_retract (h : Handle) : (retract h).Yields (charting platform w₀ k) k
    (fun _ w' => w'.routes.get? h.id = none) w := by
  have hdropped : (perform (.route (.retract h.id))).Meets (charting platform w₀ k) k
      (ends (fun _ w' => w'.routes.get? h.id = none) fun _ _ => False) w :=
    meets_call (c := .route (.retract h.id)) (fun _ _ _ => rfl) fun w' w'' hs _ _ hr => by
      obtain ⟨routes, hm⟩ := hs.memory
      rw [(World.answer_route hm (.retract h.id)).1]
      exact unrouted_after hr (w'.get?_retract h.id).2
  refine .surely hdropped.attempt_surely fun dropped w' _ hnone => ?_
  obtain ⟨u, rfl, hnone⟩ := hnone
  exact .done fun _ _ hr => unrouted_after hr hnone

/-- A container is stopped or removed once it has no routes. -/
theorem yields_withdrawn {h : Handle} {c : Call}
    (hc : ∀ w, w.routes.get? h.id = none → World.Charts platform w₀ w c) :
    ((retract h).bind fun _ => perform c).Yields (charting platform w₀ k) k (fun _ _ => True) w :=
  (yields_retract h).bind fun _ _ _ hnone => meets_call
    (fun w' _ hr => hc w' (unrouted_after hr hnone)) fun _ _ _ _ _ _ => ends_true _ _

/-- A call, and what its answer tells of the world then and from then on. -/
theorem yields_call {P : c.Value → World → Prop}
    (hc : ∀ w', World.Charted platform w₀ w' → World.Charts platform w₀ w' c)
    (hP : ∀ a w w', World.Charted platform w₀ w' → (charting platform w₀ k).rely k w w' → P a w →
      P a w')
    (h : ∀ w' a, World.Charted platform w₀ w' → (w'.answer c).1 = .ok a → P a (w'.answer c).2) :
    (perform c).Yields (charting platform w₀ k) k P w :=
  meets_call (fun w' hs _ => hc w' hs) fun w' w'' hs hs'' _ hr => by
    cases ha : (w'.answer c).1 with
    | error e => trivial
    | ok a => exact hP a _ _ hs'' hr (h w' a hs ha)

/-- A call of which nothing more is known. -/
theorem meets_charts (hc : ∀ w', World.Charted platform w₀ w' → World.Charts platform w₀ w' c) :
    (perform c).Meets (charting platform w₀ k) k (fun _ _ => True) w :=
  meets_call (fun w' hs _ => hc w' hs) fun _ _ _ _ _ _ => trivial

/-- What it takes to keep all routes true. -/
theorem custody (hk : k.IsFiled) (hdot : k.tenant.toList.head? ≠ some '.') :
    Custody platform (charting platform w₀ k) false k (fun h w => w.Knows h)
      (fun h w => w.Knows h) (fun r => Store.Fit r ∧ AppKey.IsListed ⟨k.tenant, r.name⟩)
      fun _ => True where
  given := upholds_knows
  stays := upholds_knows
  held _ _ h := h
  start h w hknows := (yields_driven (.inl rfl) hknows).meets
  restart h w hknows := (yields_driven (.inr rfl) hknows).meets
  stop h w _ := (yields_withdrawn (c := .stop h) fun _ hnone => hnone).meets
  destroy h w _ := (yields_withdrawn (c := .destroy h) fun _ hnone => hnone).meets
  find _ service w := by
    refine yields_call (c := .find ..) (P := fun (hs : List Handle) w => ∀ h ∈ hs, w.Knows h)
      (fun _ _ => rfl) (fun hs w w' hs' hr hknows h hh =>
        upholds_knows h k w w' hs' hr (hknows h hh)) fun w' hs hw hfind h hh => ?_
    obtain ⟨c, hc, hread⟩ := World.exists_of_found hfind hh
    have hage := World.aged_answer hw.dependable.numbered (.find k.name k.tenant service)
    exact (World.knows_of_read hw.dependable.numbered hc hread).aged hage.ages
      (hage.numbered hw.dependable.numbered)
  create tag w _ := yields_call (c := .create ..) (fun _ _ => hk) (fun h => upholds_knows h k)
    fun w' h hw hcreate => World.knows_of_create hw.dependable.numbered hcreate
  record w := by
    refine yields_call (c := .record ..) (P := fun (r : Option Record) _ => ∀ r', r = some r' →
      Store.Fit r' ∧ AppKey.IsListed ⟨k.tenant, r'.name⟩) (fun _ _ => hk) (fun _ _ _ _ _ h => h)
      fun w' r hw ha r' hr => ?_
    have hat : w'.recordAt k = some r' := by
      rcases World.answer_record hw.dependable.storing hk k.name with hok | ⟨e, he⟩
      · exact (Except.ok.inj ((congrArg Prod.fst hok).symm.trans ha)).trans hr
      · cases (congrArg Prod.fst he).symm.trans ha
    obtain ⟨hfit, hname⟩ := hw.dependable.storing.fit hk hat
    exact ⟨hfit, hname.symm ▸ hw.records k hk (Option.isSome_of_eq_some hat)⟩
  compose framework services w :=
    (meets_charts (c := .compose ..) fun _ _ => rfl).yields.weaken fun _ _ _ _ _ _ => trivial
  now htold w := by
    have hnow : (perform .now).Yields (charting platform w₀ k) k
        (fun createdAt _ => createdAt.IsReal) w :=
      yields_call (c := .now) (fun _ _ => rfl) (fun _ _ _ _ _ h => h) fun w' _ hw ha =>
        Except.ok.inj ha ▸ hw.dependable.storing.real
    exact hnow.weaken fun createdAt _ _ hreal tags scaling _ hscaling =>
      ⟨⟨hscaling, hreal⟩, hk, (htold.resolve_left nofun).2, hdot⟩
  growth _ _ _ _ _ _ _ := trivial
  addRecord r w hr := meets_charts fun _ _ => hr
  rescale r scaling w hr hscaling :=
    meets_charts (c := .replaceRecord k.tenant { r with scaling }) fun _ _ =>
      ⟨⟨hscaling, hr.1.created⟩, hr.2⟩
  removeRecord w := meets_charts fun _ _ => hk
  warn severity text w := meets_charts fun _ _ => rfl

end Charting

namespace World

variable {platform : PlatformSettings} {w w₀ : World}

/-- A request that runs by itself keeps all routes true, whether its calls fail or not. -/
theorem Charted.operated (hw : Charted platform w₀ w) {r : Request}
    (hk : '/' ∉ r.caller.tenant.toList) (hdot : r.caller.tenant.toList.head? ≠ some '.')
    (hgiven : ∀ h ∈ r.handles, w.Knows h) : Charted platform w₀ ((r.program platform).run w).2 := by
  refine (Request.run_program_keeps
    (I := fun w => Charted platform w₀ w ∧ ∀ h ∈ r.handles, w.Knows h)
    (fun hcheck name hname w hw => ?_) ⟨hw, hgiven⟩).1
  have hcustody := @Charting.custody platform w₀ (r.caller.key name) hk hdot
  have hturn := hcustody.turn (.inl rfl) hcheck hname fun h hh _ => hw.2 h hh
  have hknown := hturn.framed (I := fun w => ∀ h ∈ r.handles, w.Knows h)
    (fun k' w w' hs hr hall h hh => Charting.upholds_knows h k' w w' hs hr (hall h hh)) hw.2
  obtain ⟨hs, -, -, hknows⟩ := Meets.run _ hknown hw.1 along_true
  exact ⟨hs, hknows⟩

end World

end AppBroker
