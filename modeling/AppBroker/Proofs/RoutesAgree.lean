import AppBroker.Proofs.Agreement
import AppBroker.Proofs.Furnishing
import AppBroker.Proofs.Resync
import AppBroker.Proofs.TrueRoutes

/-!
# Routes of one kind

Routes change step by step as operations start and stop containers, and all of them can be made anew
from records, labels and plugins. While operations go on one after the other and no call fails, both
lead to the same table: it has the routes of each container that runs, which are those that publishing
the container gives it now, and no others (`World.Consistent.get?_iff`).
-/

namespace AppBroker

open Program Lifecycle

namespace World

variable {platform : PlatformSettings} {w w' w₀ : World} {c : Container} {id : String}
  {endpoints : List Endpoint}

/-! ## Routes that publishing gives -/

theorem routeOf_eq_some : w.routeOf platform c = some endpoints ↔ ∃ h p,
    Runtime.handleOf w.broker.runtime.settings.network c = .ok h ∧
      Hub.plugin w.disk w.broker.hub h.tag.withoutService = .ok p ∧ p.endpoints ≠ [] ∧
      endpoints = p.endpoints.map fun e => e.bind h.address (platform.frontend h) := by
  constructor
  · intro hof
    unfold routeOf at hof
    split at hof
    · cases hof
    rename_i h hread
    split at hof
    · cases hof
    rename_i p hp
    split at hof
    · cases hof
    rename_i hne
    exact ⟨h, p, hread, hp, mt List.isEmpty_iff.2 hne, (Option.some.inj hof).symm⟩
  · rintro ⟨h, p, hread, hp, hne, rfl⟩
    simp [routeOf, hread, hp, hne]

/-- Publishing gives a container the same routes where its tag denotes the same plugin. -/
theorem routeOf_congr (hsettings : w'.broker.runtime.settings = w.broker.runtime.settings)
    (hplugins : ∀ tag, c.Says tag → ∀ p, Hub.plugin w'.disk w'.broker.hub tag.withoutService = .ok p ↔
      Hub.plugin w.disk w.broker.hub tag.withoutService = .ok p) :
    w'.routeOf platform c = w.routeOf platform c := by
  ext endpoints
  rw [routeOf_eq_some, routeOf_eq_some, hsettings]
  refine exists₂_congr fun h p => and_congr_right fun hread => and_congr_left fun _ => ?_
  exact hplugins h.tag (Runtime.readFrom_of_handleOf hread).tag p

/-- Where routes are true and every container that is to have some has them, the table tells just
what publishing would. -/
theorem get?_iff_offers (ho : w₀.Orderly w) (hc : Charted platform w₀ w) (hr : w.RoutesRunning) :
    w.routes.get? id = some endpoints ↔ Offers platform w₀ w id endpoints := by
  refine ⟨hc.routes id endpoints, fun ⟨c, hmem, hid, hup, hof⟩ => ?_⟩
  subst hid
  obtain ⟨h, p, hread, hp, hne, -⟩ := routeOf_eq_some.1 hof
  have hrun : c.isRunning = true := by
    rw [← hc.started c hmem hup]
    rfl
  obtain ⟨k, hk, hck⟩ := hc.filed c hmem
  have hrouted : w.Routed c.id := hr c hmem hrun k (hc.records k hk (ho.manned c hmem k hk hck)) hck
    h.tag p (Runtime.readFrom_of_handleOf hread).tag ((ho.plugin_eq _).trans hp) hne
  obtain ⟨endpoints', hget⟩ :=
    Option.isSome_iff_exists.1 ((Table.contains_iff_mem_keys _ _).2 hrouted)
  obtain ⟨c', hmem', hid', -, hof'⟩ := hc.routes c.id endpoints' hget
  obtain rfl := hc.dependable.numbered.eq_of_id hmem' hmem hid'
  rw [hget, ← hof', hof]

/-! ## Histories -/

/-- Whether a call succeeds if it goes to the engine, to the store or to the router, and is told of a
plugin or that there is none. -/
def Obliges (c : Call) (w : World) : Prop := w.serves c = true ∧ w.informs c = true

instance (c : Call) (w : World) : Decidable (Obliges c w) :=
  inferInstanceAs (Decidable (_ ∧ _))

/-- What may happen between operations: containers and routes stay as they are, and so do records. The
hub may change, but the tag of a container that runs denotes the plugin that it denoted, or none if it
denoted none. -/
structure Between (w w' : World) : Prop where
  containers : w'.engine.containers = w.engine.containers
  made : w'.engine.made = w.engine.made
  truthful : w'.engine.Truthful
  router : w'.broker.router = w.broker.router
  settings : w'.broker.runtime.settings = w.broker.runtime.settings
  storing : w'.Storing
  apart : w'.Apart
  records : ∀ k : AppKey, k.IsFiled → w'.recordAt k = w.recordAt k
  plugins : ∀ c ∈ w.engine.containers, c.IsUp → ∀ tag, c.Says tag → ∀ p,
    Hub.plugin w'.disk w'.broker.hub tag.withoutService = .ok p ↔
      Hub.plugin w.disk w.broker.hub tag.withoutService = .ok p

/-- The hub may change as long as it stays apart from the store. -/
theorem Between.reshelved {d : Disk} (hs : w.Storing) (ht : w.engine.Truthful) (hw : w.Apart)
    (hd : ({ w with disk := d } : World).Apart)
    (hout : ∀ q, ¬ w.broker.hub <+: q → d.entry? q = w.disk.entry? q)
    (hplugins : ∀ c ∈ w.engine.containers, c.IsUp → ∀ tag, c.Says tag → ∀ p,
      Hub.plugin d w.broker.hub tag.withoutService = .ok p ↔
        Hub.plugin w.disk w.broker.hub tag.withoutService = .ok p) :
    w.Between { w with disk := d } where
  containers := rfl
  made := rfl
  truthful := ht
  router := rfl
  settings := rfl
  storing := hs.reshelved hw.hub_outside hw.store_outside hout hd.plain.tree
  apart := hd
  records _ hk := hs.recordAt_reshelved hw.hub_outside hw.store_outside hout hd.plain.tree hk
  plugins := hplugins

theorem Between.removed {tag : Tag} (hs : w.Storing) (ht : w.engine.Truthful) (hw : w.Apart)
    (hafter : (Catalog.change (Hub.remove · tag) w).2.Apart)
    (hplugins : ∀ c ∈ w.engine.containers, c.IsUp → ∀ t, c.Says t → ∀ p,
      Hub.plugin (Catalog.change (Hub.remove · tag) w).2.disk w.broker.hub t.withoutService = .ok p ↔
        Hub.plugin w.disk w.broker.hub t.withoutService = .ok p) :
    w.Between (Catalog.change (Hub.remove · tag) w).2 :=
  .reshelved hs ht hw hafter (fun _ => hw.plain.entry?_remove tag) hplugins

/-- What operations lead to, one after the other and from an empty engine and an empty store, if no
call fails and every tenant is one that the store lists. -/
inductive Routine (platform : PlatformSettings) : World → Prop
  | new {w : World} : w.IsNew → w.Apart → w.broker.router = .memory [] → Routine platform w
  | operated {w : World} {r : Request} : Routine platform w → '/' ∉ r.caller.tenant.toList →
      r.caller.tenant.toList.head? ≠ some '.' → (∀ h ∈ r.handles, w.Knows h) →
      (r.program platform).Along Obliges w → Routine platform ((r.program platform).run w).2
  | between {w w' : World} : Routine platform w → w.Between w' → Routine platform w'

/-- What stays true in such a history, of a world since which the hub is as it was. -/
structure Consistent (platform : PlatformSettings) (w₀ w : World) : Prop where
  orderly : w₀.Orderly w
  charted : Charted platform w₀ w
  running : w.RoutesRunning

theorem Consistent.new (hw : w.IsNew) (hapart : w.Apart) (hrouter : w.broker.router = .memory []) :
    Consistent platform w w where
  orderly := hapart.orderly hw.dependable ⟨[], hrouter⟩ (by simp [hw.containers])
  charted := {
    toSited := (hapart.orderly hw.dependable ⟨[], hrouter⟩ (by simp [hw.containers])).sited
    settings := rfl
    routes := by simp [World.routes_eq hrouter]
    started := by simp [hw.containers]
    filed := by simp [hw.containers]
    records := fun k hk hr => by
      rw [hw.dependable.storing.recordAt_eq hk (.inl ⟨hw.bare _ hk, rfl⟩) Store.proper_nil] at hr
      cases hr }
  running := by simp [RoutesRunning, hw.containers]

theorem Consistent.operated (h : Consistent platform w₀ w) {r : Request}
    (hk : '/' ∉ r.caller.tenant.toList) (hdot : r.caller.tenant.toList.head? ≠ some '.')
    (hgiven : ∀ h ∈ r.handles, w.Knows h) (hl : (r.program platform).Along Obliges w) :
    Consistent platform w₀ ((r.program platform).run w).2 := by
  have hkept (id : String) :=
    (Request.attends_program (d := ⟨w₀, fun _ => False, id⟩) hk hgiven).run h.orderly
      (hl.imp fun _ _ h => ⟨h.1, h.2, fun _ => False.elim⟩)
      fun hastray => absurd hastray (h.running.not_astray h.orderly id)
  exact ⟨(hkept "").1, h.charted.operated hk hdot hgiven,
    (hkept "").1.routesRunning fun id => (hkept id).2⟩

theorem Consistent.between (h : Consistent platform w₀ w) (hw : w.Between w') :
    Consistent platform w' w' := by
  have hn : Engine.Numbered w'.engine.containers w'.engine.made := by
    rw [hw.containers, hw.made]
    exact h.orderly.dependable.numbered
  have horderly : w'.Orderly w' := by
    refine hw.apart.orderly ⟨hn, hw.truthful, rfl, hw.storing⟩ ?_ fun c hc k hk hck => ?_
    · rw [hw.router]
      exact h.orderly.memory
    · rw [hw.containers] at hc
      rw [hw.records k hk]
      exact h.orderly.manned c hc k hk hck
  have hroutes : w'.routes = w.routes := by
    unfold routes
    rw [hw.router]
  refine ⟨horderly, ⟨horderly.sited, rfl, fun id endpoints hget => ?_, ?_, ?_, fun k hk hr => ?_⟩,
    fun c hc hrun k hk hck tag p htag hp hne => ?_⟩
  · rw [hroutes] at hget
    obtain ⟨c, hc, hid, hup, hof⟩ := h.charted.routes id endpoints hget
    have hbefore : w.routeOf platform c = w₀.routeOf platform c :=
      routeOf_congr h.charted.settings fun tag _ p => by rw [h.orderly.plugin_eq]
    refine ⟨c, hw.containers ▸ hc, hid, hup, ?_⟩
    rw [routeOf_congr hw.settings (hw.plugins c hc hup), hbefore, hof]
  · rw [hw.containers]
    exact h.charted.started
  · rw [hw.containers]
    exact h.charted.filed
  · exact h.charted.records k hk (hw.records k hk ▸ hr)
  · rw [hw.containers] at hc
    have hbefore := (hw.plugins c hc (Container.isUp_of_isRunning hrun) tag htag p).1 hp
    unfold Routed
    rw [hroutes]
    exact h.running c hc hrun k hk hck tag p htag hbefore hne

theorem Routine.consistent (h : w.Routine platform) : ∃ w₀, Consistent platform w₀ w := by
  induction h with
  | new hw hapart hrouter => exact ⟨_, .new hw hapart hrouter⟩
  | operated _ hk hdot hgiven hl ih =>
    obtain ⟨w₀, hconsistent⟩ := ih
    exact ⟨w₀, hconsistent.operated hk hdot hgiven hl⟩
  | between _ hw ih =>
    obtain ⟨w₀, hconsistent⟩ := ih
    exact ⟨_, hconsistent.between hw⟩

/-! ## Routing everything anew -/

/-- All routes are true, of some containers. -/
def ChartedOf (platform : PlatformSettings) (w₀ : World) (cs : List Container) (w : World) : Prop :=
  Charted platform w₀ w ∧ w.engine.containers = cs

namespace ChartedOf

variable {cs : List Container}

/-- Looking things up changes no containers. -/
theorem look (h : ChartedOf platform w₀ cs w) {c : Call} (hc : c.isSparing = true)
    (hcharts : Charts platform w₀ w c) : ChartedOf platform w₀ cs (w.answer c).2 :=
  ⟨h.1.answer hcharts, (w.same_answer hc).containers.trans h.2⟩

/-- A container that runs is published. -/
theorem publish (h : ChartedOf platform w₀ cs w) {e : Container} {handle : Handle} (he : e ∈ cs)
    (hid : e.id = handle.id) (hup : e.IsUp) (htells : e.Says handle.tag) :
    ChartedOf platform w₀ cs ((Lifecycle.publish platform handle).run w).2 := by
  have hyields : (Lifecycle.publish platform handle).Yields (charting platform w₀ ⟨"", ""⟩) ⟨"", ""⟩
      (fun _ _ => True) w := Charting.yields_publish (h.2.symm ▸ he) hid hup htells
  refine ⟨(Meets.run _ hyields h.1 along_true).1, ?_⟩
  refine (shows_publish platform handle).run (I := fun w => w.engine.containers = cs)
    (fun c w hc hcs => ?_) h.2
  cases c with
  | route => exact hcs
  | plugin | inspect | warn => exact (w.same_answer rfl).containers.trans hcs
  | _ => cases hc

theorem resyncApp (h : ChartedOf platform w₀ cs w) (tenant : String) (r : Record) :
    ChartedOf platform w₀ cs ((Lifecycle.resyncApp platform tenant r).run w).2 := by
  have hfound : ChartedOf platform w₀ cs (w.answer (.find r.name tenant none)).2 := h.look rfl rfl
  refine run_bind_keeps hfound fun hs hfind _ => ?_
  refine run_bind_keeps (run_forEach_keeps (fun handle hh w hw => ?_) hfound) fun _ _ hw => hw
  obtain ⟨hmem, hstate⟩ := List.mem_filter.1 hh
  obtain ⟨c, hc, hread⟩ := exists_of_found hfind hmem
  have hfrom := Runtime.readFrom_of_handleOf hread
  exact hw.publish (h.2 ▸ hc) hfrom.id.symm (hfrom.state.symm.trans (of_decide_eq_true hstate))
    hfrom.tag

theorem resyncTenant (h : ChartedOf platform w₀ cs w) (tenant : String) :
    ChartedOf platform w₀ cs ((Lifecycle.resyncTenant platform tenant).run w).2 := by
  have hread : ChartedOf platform w₀ cs (w.answer (.records tenant)).2 := h.look rfl trivial
  exact run_bind_keeps hread fun rs _ _ => run_bind_keeps
    (run_forEach_keeps (fun r _ w hw => hw.resyncApp tenant r) hread) fun _ _ hw => hw

end ChartedOf

/-- The routes that there are do not matter to where the hub and the store are. -/
theorem Orderly.setRouter (h : w₀.Orderly w) (routes : Table String (List Endpoint)) :
    w₀.Orderly (w.setRouter (.memory routes)) :=
  ⟨h.apart, ⟨h.dependable.numbered, h.dependable.truthful, h.dependable.lenient_eq,
    ⟨h.dependable.storing.faithful, h.dependable.storing.has, h.dependable.storing.holds,
      h.dependable.storing.real⟩⟩, ⟨routes, rfl⟩, h.manned, h.hub, h.store, h.kept⟩

/-- When all routes are dropped, those that are left are true. -/
theorem Charted.cleared (h : Charted platform w₀ w) (ho : w₀.Orderly w)
    (routes : Table String (List Endpoint)) : ChartedOf platform w₀ w.engine.containers
      ((w.setRouter (.memory routes)).answer (.route .clear)).2 := by
  have hsited := ((ho.setRouter routes).sited.answer (c := .route .clear) (.inl rfl))
  refine ⟨⟨hsited, h.settings, fun id endpoints hget => ?_, h.started, h.filed, h.records⟩, rfl⟩
  have hempty := (World.answer_route (w := w.setRouter (.memory routes)) rfl .clear).2.2
  rw [World.routes_eq hempty] at hget
  cases hget

/-- Routing everything anew leaves true routes only, whatever routes there were. -/
theorem Charted.resync (h : Charted platform w₀ w) (ho : w₀.Orderly w)
    (routes : Table String (List Endpoint)) : ChartedOf platform w₀ w.engine.containers
      ((Lifecycle.resync platform).run (w.setRouter (.memory routes))).2 := by
  have hcleared := h.cleared ho routes
  refine run_bind_keeps hcleared fun _ _ _ => ?_
  have hlisted := hcleared.look (c := .tenants) rfl trivial
  exact run_bind_keeps hlisted fun ts _ _ => run_bind_keeps
    (run_forEach_keeps (fun tenant _ w hw => hw.resyncTenant tenant) hlisted) fun _ _ hw => hw

/-- After routing everything anew, by itself and without a failure, all is consistent again. -/
theorem Consistent.resync (h : Consistent platform w₀ w) (routes : Table String (List Endpoint))
    (hl : (Lifecycle.resync platform).Along Obliges (w.setRouter (.memory routes))) :
    let after := (Lifecycle.resync platform).run (w.setRouter (.memory routes))
    (∃ n, after.1 = .ok n) ∧ Consistent platform w₀ after.2 ∧
      after.2.engine.containers = w.engine.containers := by
  intro after
  have hkept (id : String) := (tends_resync (d := ⟨w₀, fun _ => False, id⟩)).run
    (h.orderly.setRouter routes) (hl.imp fun _ _ h => ⟨h.1, h.2, fun _ => False.elim⟩) fun _ => rfl
  obtain ⟨horderly, owed, -, hok, -⟩ := hkept ""
  obtain ⟨hcharted, hcontainers⟩ := h.charted.resync h.orderly routes
  refine ⟨hok, ⟨horderly, hcharted, horderly.routesRunning fun id hastray => ?_⟩, hcontainers⟩
  obtain ⟨-, owed, howed, -, hnot⟩ := hkept id
  rw [howed hastray] at hnot
  cases hnot

theorem Consistent.get?_iff (h : Consistent platform w₀ w) :
    w.routes.get? id = some endpoints ↔ Offers platform w₀ w id endpoints :=
  get?_iff_offers h.orderly h.charted h.running

end World

/-- In every state that operations lead to, one after the other and without a failure, routing
everything anew gives the routes that are there, whatever routes it begins with. -/
theorem resync_agrees (platform : PlatformSettings) (w : World) (hw : w.Routine platform) :
    ∃ table, w.broker.router = .memory table ∧ ∀ routes,
      let start := w.setRouter (.memory routes)
      (resync platform).Along World.Obliges start → ∃ n after,
        ((resync platform).run start).1 = .ok n ∧
        ((resync platform).run start).2.broker.router = .memory after ∧
        ∀ id, after.get? id = table.get? id := by
  obtain ⟨w₀, hconsistent⟩ := hw.consistent
  obtain ⟨table, hbefore⟩ := hconsistent.orderly.memory
  refine ⟨table, hbefore, ?_⟩
  intro routes start hl
  obtain ⟨⟨n, hok⟩, hafter, hcontainers⟩ := hconsistent.resync routes hl
  obtain ⟨after, hmemory⟩ := hafter.orderly.memory
  refine ⟨n, after, hok, hmemory, fun id => Option.ext fun endpoints => ?_⟩
  rw [← World.routes_eq hbefore, ← World.routes_eq hmemory, hconsistent.get?_iff, hafter.get?_iff]
  unfold World.Offers
  rw [hcontainers]

/-- What is left when all routes are dropped. -/
noncomputable def World.cleared (w : World) : World := (w.answer (.route .clear)).2

/-- Routing everything anew ends at the first tenant for whom it fails. -/
theorem run_resync_of_error {platform : PlatformSettings} {w : World} {tenant : String}
    {tenants : List String} {e : Failure} (hclear : (w.answer (.route .clear)).1 = .ok ())
    (htenants : Store.tenants w.cleared.disk w.cleared.broker.store = .ok (tenant :: tenants))
    (hfails : ((resyncTenant platform tenant).run w.cleared).1 = .error e) :
    ((resync platform).run w).1 = .error e ∧
      ((resync platform).run w).2 = ((resyncTenant platform tenant).run w.cleared).2 := by
  have hcleared : (perform (.route .clear)).run w = (.ok (), w.cleared) := Prod.ext hclear rfl
  have hlisted : (perform .tenants).run w.cleared = (.ok (tenant :: tenants), w.cleared) :=
    Prod.ext htenants rfl
  have heach : (forEach (resyncTenant platform) (tenant :: tenants)).run w.cleared = _ :=
    run_forEach_of_error hfails
  have hrun : (resync platform).run w =
      (.error e, ((resyncTenant platform tenant).run w.cleared).2) :=
    (run_bind_of_ok hcleared _).trans
      ((run_bind_of_ok hlisted _).trans (run_bind_of_error heach _))
  rw [hrun]
  exact ⟨rfl, rfl⟩

namespace Rerouting

/-! ## A history with a change of the hub -/

def alice : Caller := ⟨"alice", "alice"⟩

def creation : Request := ⟨alice, .create "web" "python" [] 1 true⟩

def restart : Request := ⟨alice, .restart "web"⟩

theorem name_redis : "redis" ≠ "" := by decide

theorem name_python : "python" ≠ "" := by decide

/-- A service that no container runs. -/
def unused : Tag := ⟨"redis", "", "7", "", name_redis⟩

/-- What its containers run. -/
def python : Tag := ⟨"python", "", "3.9", "", name_python⟩

/-- An application was created and started. -/
noncomputable def created : World := ((creation.program {}).run (Agreement.world false)).2

/-- The service was removed from the hub. -/
noncomputable def reduced : World := (Catalog.change (Hub.remove · unused) created).2

/-- The application was started again. -/
noncomputable def restarted : World := ((restart.program {}).run reduced).2

/-- Whether a disk is a tree without links, entry by entry. -/
def IsListed (d : Disk) : Prop :=
  d.entries.keys.Nodup ∧ ∀ e ∈ d.entries,
    (d.entry? e.1.dropLast = some .directory ∧ ∀ n ∈ e.1, Disk.IsName n) ∧
      (match e.2 with | .link _ => false | _ => true) = true

instance (d : Disk) : Decidable (IsListed d) := inferInstanceAs (Decidable (_ ∧ _))

theorem apart_of_isListed {w : World} (hlisted : IsListed w.disk)
    (hhome : w.disk.entry? w.broker.hub = some .directory)
    (hhub : ¬ w.broker.store <+: w.broker.hub) (hstore : ¬ w.broker.hub <+: w.broker.store) :
    w.Apart := by
  have hplain := Hub.Plain.of_linkless
    (.of_entries hlisted.1 fun e he => (hlisted.2 e he).1) hhome fun e he target hlink => by
      have := (hlisted.2 e he).2
      rw [hlink] at this
      cases this
  exact ⟨hplain.1, hplain.2, hhub, hstore⟩

theorem apart_world : (Agreement.world false).Apart :=
  apart_of_isListed (by decide) (by decide) (by decide) (by decide)

/-- Both operations go well. The disk is a tree without links before and after the removal, which
leaves the framework as it was. -/
theorem history_facts :
    (creation.program {}).Along World.Obliges (Agreement.world false) ∧
      (restart.program {}).Along World.Obliges reduced ∧
      (resync {}).Along World.Obliges (restarted.setRouter (.memory [("c0009", [])])) ∧
      (IsListed created.disk ∧ created.disk.entry? ["plugins"] = some .directory) ∧
      (IsListed reduced.disk ∧ reduced.disk.entry? ["plugins"] = some .directory) ∧
      (created.broker.hub = ["plugins"] ∧ created.broker.store = ["users"]) ∧
      (∀ c ∈ created.engine.containers, c.labels.get? Runtime.tagLabel = some "python:3.9") ∧
      (Hub.plugin reduced.disk ["plugins"] python = Hub.plugin created.disk ["plugins"] python) ∧
      restarted.routes.keys = ["c0001"] := by
  decide +kernel

theorem routine_restarted : restarted.Routine {} := by
  obtain ⟨hcreation, hrestart, -, hcreated, hreduced, ⟨hhub, hstore⟩, hlabels, hsame, -⟩ :=
    history_facts
  have hroutine : created.Routine {} := by
    rw [created]
    exact .operated (.new Agreement.isNew_world apart_world rfl) (by decide) (by decide) nofun hcreation
  obtain ⟨w₀, hconsistent⟩ := hroutine.consistent
  have hdependable := hconsistent.orderly.dependable
  have hapart {w : World} (hw : IsListed w.disk ∧ w.disk.entry? ["plugins"] = some .directory)
      (hplace : w.broker.hub = ["plugins"] ∧ w.broker.store = ["users"]) : w.Apart := by
    refine apart_of_isListed hw.1 ?_ ?_ ?_ <;> rw [hplace.1]
    · exact hw.2
    all_goals rw [hplace.2]; decide
  have hbetween : created.Between reduced := by
    rw [reduced]
    refine .removed hdependable.storing hdependable.truthful (hapart hcreated ⟨hhub, hstore⟩)
      (hapart hreduced ⟨hhub, hstore⟩) fun c hc _ tag htag p => ?_
    obtain rfl := htag.unique ⟨_, hlabels c hc, (rfl : _ = Except.ok python)⟩
    rw [← reduced, hhub, show python.withoutService = python from rfl, hsame]
  rw [restarted]
  exact .operated (hroutine.between hbetween) (by decide) (by decide) nofun hrestart

/-- The hub was changed in between, and there was a route that leads nowhere. -/
theorem resync_rebuilds_routes :
    let start := restarted.setRouter (.memory [("c0009", [])])
    restarted.routes.keys = ["c0001"] ∧ ∃ table, restarted.broker.router = .memory table ∧
      ∃ n after, ((resync {}).run start).1 = .ok n ∧
        ((resync {}).run start).2.broker.router = .memory after ∧
        ∀ id, after.get? id = table.get? id := by
  obtain ⟨-, -, hresync, -, -, -, -, -, hkeys⟩ := history_facts
  obtain ⟨table, hmemory, hagrees⟩ := resync_agrees {} restarted routine_restarted
  exact ⟨hkeys, table, hmemory, hagrees _ hresync⟩

/-! ## A tag that is read back as another -/

def bob : Caller := ⟨"bob", "bob"⟩

/-- A hub with a framework whose tag reads as that of a service, for another plugin. That plugin has a
version of a digit that writes no number. -/
def misread : Disk where
  entries := [(["users"], .directory), (["plugins"], .directory),
    (["plugins", ".system"], .directory), (["plugins", ".system", "python"], .directory),
    (["plugins", ".system", "python", "3.9"], .directory),
    (["plugins", ".system", "python", "3.9", "manifest.yml"], .file (Text.encode
      "name: python\nversion: \"3.9\"\ncategory: framework\nendpoints: [\x7b\"port\": 8080\x7d]\n")),
    (["plugins", ".system", "py"], .directory),
    (["plugins", ".system", "py", "u:"], .directory),
    (["plugins", ".system", "py", "u:", "manifest.yml"], .file (Text.encode
      "name: py\nversion: \"u:\"\ncategory: framework\n")),
    (["plugins", ".system", "u"], .directory),
    (["plugins", ".system", "u", "²"], .directory),
    (["plugins", ".system", "u", "²", "manifest.yml"], .file (Text.encode
      "name: u\nversion: \"²\"\ncategory: framework\n"))]

/-- An application of that framework was created. -/
noncomputable def prepared : World :=
  ((create {} alice "web" "py" [] 1 false).run { Agreement.world false with disk := misread }).2

/-- Another one was created and started. -/
noncomputable def routed : World := ((create {} bob "web" "python" [] 1 true).run prepared).2

/-- The first one was to be started, too. -/
noncomputable def stalled : World := ((start {} alice "web").run routed).2

theorem stalled_facts :
    ((create {} alice "web" "py" [] 1 false).Along (fun c w => w.serves c = true)
        { Agreement.world false with disk := misread } ∧
      (create {} bob "web" "python" [] 1 true).Along (fun c w => w.serves c = true) prepared ∧
      (start {} alice "web").Along (fun c w => w.serves c = true) routed ∧
      stalled.routes.keys = ["c0002"]) ∧
    ((stalled.answer (.route .clear)).1 = .ok () ∧ stalled.cleared.broker.store = ["users"] ∧
      stalled.cleared.disk.isDirectory ["users"] = .ok true ∧
      Disk.orBreak (stalled.cleared.disk.list ["users"]) = .ok ["alice.yaml", "bob.yaml"]) ∧
    ((resyncTenant {} "alice").run stalled.cleared).1 = .error (.breakage .badValue) ∧
      ((resyncTenant {} "alice").run stalled.cleared).2.routes = [] := by
  decide +kernel

theorem tenants_cleared :
    Store.tenants stalled.cleared.disk stalled.cleared.broker.store = .ok ["alice", "bob"] := by
  obtain ⟨-, ⟨-, hstore, hdir, hlist⟩, -⟩ := stalled_facts
  have hnames : ["alice.yaml", "bob.yaml"].filterMap Store.tenantOf? = ["alice", "bob"] := by
    decide +kernel
  have hsorted : ["alice", "bob"].mergeSort Text.le = ["alice", "bob"] :=
    List.mergeSort_of_pairwise (by decide)
  unfold Store.tenants
  rw [hstore, hdir, hlist, ok_bind, ok_bind, hnames, hsorted]
  rfl

/-- Starting the one application and routing everything anew both fail when the versions of the other
plugin are compared. That is after all routes were dropped, and those of the other application are not
made again. -/
theorem misread_tag_stops_resync :
    ((create {} alice "web" "py" [] 1 false).Along (fun c w => w.serves c = true)
        { Agreement.world false with disk := misread } ∧
      (create {} bob "web" "python" [] 1 true).Along (fun c w => w.serves c = true) prepared ∧
      (start {} alice "web").Along (fun c w => w.serves c = true) routed ∧
      stalled.routes.keys = ["c0002"]) ∧
    ((resync {}).run stalled).1 = .error (.breakage .badValue) ∧
      ((resync {}).run stalled).2.routes = [] := by
  obtain ⟨hhistory, ⟨hclear, -⟩, hfails, hgone⟩ := stalled_facts
  obtain ⟨hraises, hleft⟩ := run_resync_of_error hclear tenants_cleared hfails
  rw [hleft]
  exact ⟨hhistory, hraises, hgone⟩

end Rerouting

end AppBroker
