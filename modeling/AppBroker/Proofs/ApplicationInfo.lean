import AppBroker.Proofs.CarefulCodec
import AppBroker.Proofs.CreateManned
import AppBroker.Proofs.Furnishing
import AppBroker.Proofs.RoutingBlind

/-!
# What is told about applications

A record says by the place of a tag whether its plugin is the framework or a service. What is told
about the application goes by the category that the plugin has when it is asked for. The two agree
as long as every plugin that is installed under a recorded tag has the category of its place
(`World.Ongoing.info_follows_record`), which an installation of the same version from another source
can change (`Reinstalled.framework_is_told_as_service`).
-/

namespace AppBroker

open Program Lifecycle

namespace Lifecycle

/-- What is told about an application before its plugins and containers are looked at. -/
def Info.start (platform : PlatformSettings) (caller : Caller) (name : String) (r : Record) :
    Info where
  name := name
  tenant := caller.tenant
  createdAt := r.createdAt
  url := platform.scheme.word ++ "://" ++ platform.appHost name caller.tenant
  sshUrl := "ssh://" ++ name ++ "-" ++ caller.tenant ++ "@" ++ platform.domain ++ ":"
    ++ toString platform.sshPort

/-- One more plugin, by its category. -/
def Info.withPlugin (info : Info) (p : Plugin) : Info :=
  match p.category with
  | .framework => { info with framework := some p }
  | .service => { info with services := info.services ++ [p] }

/-- The last framework is told, and all services are. -/
theorem Info.foldl_withPlugin (info : Info) (plugins : List Plugin) :
    plugins.foldl Info.withPlugin info =
      { info with
        framework := ((plugins.filter (·.category = .framework)).getLast?).or info.framework
        services := info.services ++ plugins.filter (·.category = .service) } := by
  induction plugins generalizing info with
  | nil => simp
  | cons p plugins ih =>
    rw [List.foldl_cons, ih, withPlugin]
    cases hp : p.category with
    | framework => simp [hp, List.getLast?_cons, Option.or_some]
    | service => simp [hp]

/-- The plugin that a recorded tag denotes is looked up. -/
def lookUp (text : String) : Program Plugin :=
  (done (Tag.parse text)).bind fun tag => perform (.plugin tag.withoutService)

theorem addPlugins_cons (info : Info) (text : String) (texts : List String) :
    addPlugins info (text :: texts) = (attempt (lookUp text)).bind fun
      | .ok p => addPlugins (info.withPlugin p.public) texts
      | .error r =>
        if r.isAbsence then
          (warn .warning
            ("Application " ++ info.name ++ " references a missing plugin: " ++ r.message)).bind
              fun _ => addPlugins info texts
        else refuse r := rfl

end Lifecycle

namespace World

variable {w w' : World} {lenient : Bool} {k : AppKey} {platform : PlatformSettings} {r : Record}

/-- The plugin that is now installed under a recorded tag, as callers see it. -/
def installedAs (w : World) (text : String) : Option Plugin :=
  match Tag.parse text with
  | .ok tag => (Hub.plugin w.disk w.broker.hub tag.withoutService).toOption.map Plugin.public
  | .error _ => none

theorem installedAs_eq {text : String} {tag : Tag} (h : Tag.parse text = .ok tag) :
    w.installedAs text =
      (Hub.plugin w.disk w.broker.hub tag.withoutService).toOption.map Plugin.public := by
  rw [installedAs, h]

/-- Whether a recorded tag is read, and the hub has its plugin or says that it is absent. -/
def Accounts (w : World) (text : String) : Prop :=
  ∃ tag, Tag.parse text = .ok tag ∧
    ((∃ p, Hub.plugin w.disk w.broker.hub tag.withoutService = .ok p) ∨
      ∃ r : Refusal, Hub.plugin w.disk w.broker.hub tag.withoutService = .error (.refusal r) ∧
        r.isAbsence)

/-- What recorded tags denote is added, and only warnings are given. -/
theorem run_addPlugins {texts : List String} (h : ∀ text ∈ texts, w.Accounts text) (info : Info) :
    ((addPlugins info texts).run w).1 =
        .ok ((texts.filterMap w.installedAs).foldl Info.withPlugin info) ∧
      w.Alike ((addPlugins info texts).run w).2 := by
  induction texts generalizing w info with
  | nil => exact ⟨rfl, .refl w⟩
  | cons text texts ih =>
    have hrest (text' : String) (ht : text' ∈ texts) := h text' (List.mem_cons_of_mem _ ht)
    obtain ⟨tag, htag, hplugin⟩ := h text List.mem_cons_self
    have hrun : (lookUp text).run w =
        (Hub.plugin w.disk w.broker.hub tag.withoutService, w) := by
      rw [lookUp, htag]
      rfl
    rw [addPlugins_cons, run_bind, List.filterMap_cons, installedAs_eq htag]
    rcases hplugin with ⟨p, hp⟩ | ⟨r, hr, ha⟩
    · rw [hp] at hrun
      rw [run_attempt_of_ok hrun, hp]
      exact ih hrest _
    · rw [hr] at hrun
      rw [run_attempt_of_refusal hrun, hr]
      dsimp only
      rw [if_pos ha]
      obtain ⟨hrun', halike⟩ := ih (w := w.note (.notice .warning _)) hrest info
      exact ⟨hrun', (alike_note rfl w).trans halike⟩

/-- Recorded tags can be accounted for, whatever has become of the hub. A plugin is told unless it
is gone. -/
theorem Furnished.accounts (h : w.Furnished) (hr : r.IsConcrete) :
    ∀ text ∈ r.plugins, w.Accounts text ∧ ∃ tag, Tag.parse text = .ok tag ∧
      (w.installedAs text = none ↔
        Hub.stock w.broker.hub w.disk ⟨tag.tenant, tag.name, tag.version⟩ = none) := by
  obtain ⟨tags, hplugins, hconcrete⟩ := hr
  intro text htext
  rw [hplugins] at htext
  obtain ⟨tag, htag, rfl⟩ := List.mem_map.1 htext
  obtain ⟨hunmarked, hsought, hversion⟩ := hconcrete tag htag
  have hparse := Tag.parse_format hunmarked
  have hsought' : Hub.Tag.IsSought tag.withoutService :=
    ⟨hsought.scope, hsought.name, hsought.scope_short, hsought.name_short⟩
  have hcases := h.tidy.plugin_cases hsought' hversion
  refine ⟨⟨tag, hparse, hcases.imp And.right And.right⟩, tag, hparse, ?_⟩
  rw [installedAs_eq hparse]
  rcases hcases with ⟨hthere, p, hp⟩ | ⟨hnone, r, hr, -⟩
  · refine ⟨fun hgone => ?_, fun hnone => absurd hnone hthere⟩
    rw [hp] at hgone
    cases hgone
  · refine ⟨fun _ => hnone, fun _ => ?_⟩
    rw [hr]
    rfl

/-- The number of framework containers that are there, if the engine lists them. -/
theorem Furnished.count_eq (h : w.Furnished) {caller : Caller} {name : String}
    (hk : Told w.engine.lenient (caller.key name)) :
    ((count caller name).run w).1 = (w.listing (caller.key name) (some "")).map
      fun _ => (w.frameworks (caller.key name)).length := by
  refine Manning.count_of_readable hk fun m hm => ?_
  obtain ⟨c, hc, rfl⟩ := List.mem_map.1 hm
  obtain ⟨tag, htag, hmade⟩ := h.containers c (mem_lineup.1 hc).1
  exact ⟨tag, hmade, htag.unmarked.isReadable⟩

/-- A count is the same in worlds that differ in routing and in what was warned of. -/
theorem Alike.count_eq (h : w.Alike w') (caller : Caller) (name : String) :
    ((count caller name).run w).1 = ((count caller name).run w').1 := by
  have hfind := (Blind.answer (c := .find name caller.tenant (some "")) rfl w w' h).1
  have hcount (w : World) : ((count caller name).run w).1 =
      (w.answer (.find name caller.tenant (some ""))).1.map List.length := by
    show (((perform (.find name caller.tenant (some ""))).bind fun hs => done (.ok hs.length)).run
      w).1 = _
    rw [bind_done, run_andThen]
    rfl
  rw [hcount, hcount, hfind]

/-- Whether each plugin that is now installed under a recorded tag has the category of its place. -/
structure Places (w : World) (r : Record) : Prop where
  framework : ∀ text ∈ r.plugins.head?, ∀ p ∈ w.installedAs text, p.category = .framework
  services : ∀ text ∈ r.services, ∀ p ∈ w.installedAs text, p.category = .service

/-- Then the places tell the same as the categories. -/
theorem Places.filter_eq (h : w.Places r) :
    (((r.plugins.filterMap w.installedAs).filter (·.category = .framework)).getLast? =
        r.plugins.head?.bind w.installedAs) ∧
      (r.plugins.filterMap w.installedAs).filter (·.category = .service) =
        r.services.filterMap w.installedAs := by
  obtain ⟨hframework, hservices⟩ := h
  unfold Record.services at hservices ⊢
  cases hplugins : r.plugins with
  | nil => simp
  | cons first rest =>
    rw [hplugins] at hframework hservices
    simp only [List.head?_cons, Option.mem_def, Option.some.injEq, forall_eq', List.drop_succ_cons,
      List.drop_zero] at hframework hservices
    have hrest : ∀ p ∈ rest.filterMap w.installedAs, p.category = .service := by
      intro p hp
      obtain ⟨text, htext, hp⟩ := List.mem_filterMap.1 hp
      exact hservices text htext p hp
    have hnone : (rest.filterMap w.installedAs).filter (·.category = .framework) = [] :=
      List.filter_eq_nil_iff.2 fun p hp => by simp [hrest p hp]
    have hall : (rest.filterMap w.installedAs).filter (·.category = .service) =
        rest.filterMap w.installedAs :=
      List.filter_eq_self.2 fun p hp => by simp [hrest p hp]
    rw [List.filterMap_cons]
    cases hfirst : w.installedAs first with
    | none => simp [hnone, hall, hfirst]
    | some p => simp [hframework p hfirst, hnone, hall, hfirst]

/-- What is told about an application with a record. -/
theorem Provided.run_info (h : w.Provided lenient) {caller : Caller} {name : String}
    (hk : (caller.key name).IsFiled) (hr : w.recordAt (caller.key name) = some r) :
    ((info platform caller name).run w).1 =
      (w.listing (caller.key name) (some "")).map fun _ =>
        { Info.start platform caller name r with
          framework := ((r.plugins.filterMap w.installedAs).filter
            (·.category = .framework)).getLast?
          services := (r.plugins.filterMap w.installedAs).filter (·.category = .service)
          scaling := (w.frameworks (caller.key name)).length } := by
  obtain ⟨hconcrete, hnamed⟩ := h.furnished.records _ hk r hr
  have haccounts := h.furnished.accounts hconcrete
  have htenant : caller.tenant ≠ "" := (hnamed.resolve_left nofun).2
  have hrecord := run_recordOf h.dependable.storing hk htenant hr
  obtain ⟨hadded, halike⟩ :=
    run_addPlugins (fun text ht => (haccounts text ht).1) (Info.start platform caller name r)
  show (((recordOf caller name).bind fun r =>
    (addPlugins (Info.start platform caller name r) r.plugins).bind fun info =>
      (count caller name).bind fun scaling => done (.ok { info with scaling })).run w).1 = _
  rw [run_bind_of_ok hrecord, run_bind_of_ok (Prod.ext hadded rfl), Info.foldl_withPlugin]
  -- looking plugins up has only given warnings, so the count goes as it would have before
  have hcount := (halike.count_eq caller name).symm.trans
    (h.furnished.count_eq hnamed.of_true)
  rw [bind_done, run_andThen]
  show ((count caller name).run _).1.map _ = _
  rw [hcount]
  cases w.listing (caller.key name) (some "") with
  | error e => rfl
  | ok cs => simp [Info.start, Except.map]

/-- After every history of operations, installations and removals, what is told about an application
is its record, the plugins that are now installed under the recorded tags, without those that are
gone and without their paths, and the number of its framework containers. The last plugin that is a
framework is told as the framework, and all that are services as services. As long as each plugin
has the category of its tag's place, these are the ones that the record says. -/
theorem Ongoing.info_follows_record (h : w.Ongoing platform) {caller : Caller} {name : String}
    (hk : (caller.key name).IsFiled) (hr : w.recordAt (caller.key name) = some r) :
    let told (framework : Option Plugin) (services : List Plugin) :=
      (w.listing (caller.key name) (some "")).map fun _ =>
        { Info.start platform caller name r with
          framework, services, scaling := (w.frameworks (caller.key name)).length }
    (∀ text ∈ r.plugins, ∃ tag, Tag.parse text = .ok tag ∧ (w.installedAs text = none ↔
      Hub.stock w.broker.hub w.disk ⟨tag.tenant, tag.name, tag.version⟩ = none)) ∧
    (∀ text, ∀ p ∈ w.installedAs text, p.path = "") ∧
    ((info platform caller name).run w).1 =
      told ((r.plugins.filterMap w.installedAs).filter (·.category = .framework)).getLast?
        ((r.plugins.filterMap w.installedAs).filter (·.category = .service)) ∧
    (w.Places r → ((info platform caller name).run w).1 =
      told (r.plugins.head?.bind w.installedAs) (r.services.filterMap w.installedAs)) := by
  have hprovided := h.provided
  have hinfo : ((info platform caller name).run w).1 = _ := hprovided.run_info hk hr
  have haccounts := hprovided.furnished.accounts (hprovided.furnished.records _ hk r hr).1
  refine ⟨fun text htext => (haccounts text htext).2, fun text p hp => ?_, hinfo, fun hplaces => ?_⟩
  · unfold installedAs at hp
    split at hp
    · obtain ⟨q, -, rfl⟩ := Option.map_eq_some_iff.1 hp
      rfl
    · cases hp
  · obtain ⟨hframework, hservices⟩ := hplaces.filter_eq
    rw [hinfo, hframework, hservices]

end World

/-! ## A framework that is installed again as a service -/

namespace Reinstalled

def manifest (name version category : String) : List UInt8 :=
  Text.encode
    ("name: " ++ name ++ "\nversion: \"" ++ version ++ "\"\ncategory: " ++ category ++ "\n")

/-- An empty hub and an empty store beside a framework, a service, and a service with the name and
version of the framework. -/
def disk : Disk where
  entries := [(["plugins"], .directory), (["users"], .directory),
    (["python"], .directory),
    (["python", "manifest.yml"], .file (manifest "python" "3.9" "framework")),
    (["mysql"], .directory), (["mysql", "manifest.yml"], .file (manifest "mysql" "5.7" "service")),
    (["other"], .directory), (["other", "manifest.yml"], .file (manifest "python" "3.9" "service"))]

noncomputable def world : World where
  disk := disk
  broker := { hub := ["plugins"], store := ["users"], codec := .careful }

def caller : Caller := ⟨"alice", "alice"⟩

def requests : List Request := [⟨caller, .create "web" "python" ["mysql"] 2 false⟩]

theorem name_python : "python" ≠ "" := by decide

theorem name_mysql : "mysql" ≠ "" := by decide

def pythonTag : Tag := ⟨"python", "", "3.9", "", name_python⟩

def mysqlTag : Tag := ⟨"mysql", "", "5.7", "", name_mysql⟩

/-- A world after an installation for all tenants. -/
def withInstalled (source : Path) (w : World) : World :=
  (Catalog.change (Hub.install · "" source) w).2

/-- A world after an application is created, in so many steps. -/
def withApplication (steps : Nat) (w : World) : World :=
  (Pool.run { world := w, tasks := requests.map (·.program {}) } (List.replicate steps 0)).world

/-- A world after the service is removed. -/
def withoutService (w : World) : World := (Catalog.change (Hub.remove · mysqlTag) w).2

/-- An application runs from the framework and the service, and the service is removed. -/
noncomputable def bereft : World :=
  withoutService (withApplication 12 (withInstalled ["mysql"] (withInstalled ["python"] world)))

/-- The framework is installed again, as a service. -/
noncomputable def recast : World := withInstalled ["other"] bereft

noncomputable def record : Record where
  name := "web"
  plugins := ["python:3.9", "mysql:mysql:5.7"]
  scaling := 2
  createdAt := world.clock.moment

def plugin (name version : String) (category : Category) : Plugin where
  name := name
  displayName := name
  version := version
  category := category

def python (category : Category) : Plugin := plugin "python" "3.9" category

def mysql : Plugin := plugin "mysql" "5.7" .service

/-- Whether a directory can be installed from, and the installation gives a plugin. -/
def Supplies (w : World) (place : Path) (p : Plugin) : Prop :=
  w.disk.entry? place = some .directory ∧ (∀ e ∈ w.disk.entries, Disk.isLink e.2 = false) ∧
    (Catalog.change (Hub.install · "" place) w).1 = .ok p

/-- Whether two containers run from what is recorded as a framework, the recorded framework is a
plugin of a category, and the recorded service is gone. -/
def Runs (w : World) (category : Category) : Prop :=
  w.installedAs "python:3.9" = some (python category) ∧ w.installedAs "mysql:mysql:5.7" = none ∧
    (w.listing (caller.key "web") (some "")).map (fun _ => ()) = .ok () ∧
    (w.frameworks (caller.key "web")).length = 2

/-- Everything that happens, and what it leads to. -/
theorem course :
    (Supplies world ["python"]
        { python .framework with path := "<root>/plugins/.system/python/3.9" } ∧
      Supplies (withInstalled ["python"] world) ["mysql"]
        { mysql with path := "<root>/plugins/.system/mysql/5.7" } ∧
      Supplies bereft ["other"]
        { python .service with path := "<root>/plugins/.system/python/3.9" }) ∧
      (withApplication 12 (withInstalled ["mysql"] (withInstalled ["python"] world))).recordAt
        (caller.key "web") = some record ∧ Runs bereft .framework ∧ Runs recast .service := by
  unfold Supplies Runs
  decide +kernel

section Steps

variable {w : World} (h : w.Ongoing {})
include h

theorem ongoing_withInstalled {place : Path} {p : Plugin} (hsupplies : Supplies w place p)
    (tag : Tag) (hname : tag.name = p.name) (htenant : tag.tenant = "")
    (hversion : tag.version = p.version) (hparse : Tag.parse tag.format = .ok tag) :
    (withInstalled place w).Ongoing {} ∧
      ∀ k : AppKey, k.IsFiled → (withInstalled place w).recordAt k = w.recordAt k := by
  obtain ⟨hplace, hlinks, hrun⟩ := hsupplies
  have hsource : Hub.IsSupply w.disk place :=
    .inl ⟨place, h.provided.furnished.tidy.tree.leads_of_linkless hplace hlinks⟩
  refine ⟨h.installed hsource fun q hq => ?_, fun k => h.provided.recordAt_install hsource ""⟩
  obtain rfl := Except.ok.inj (hrun.symm.trans hq)
  exact ⟨tag, hname, htenant, hversion, hparse⟩

theorem ongoing_withApplication (steps : Nat) : (withApplication steps w).Ongoing {} :=
  .operated _ h (by decide)

theorem ongoing_withoutService : (withoutService w).Ongoing {} ∧
    ∀ k : AppKey, k.IsFiled → (withoutService w).recordAt k = w.recordAt k :=
  ⟨.removed _ h, fun _ => h.provided.recordAt_remove mysqlTag⟩

end Steps

theorem isTree_disk : disk.IsTree :=
  .of_entries (by decide) (by decide)

theorem ongoing_world : world.Ongoing {} := by
  refine .new ⟨rfl, ⟨fun _ _ _ h => (by cases h), fun _ _ _ h => by cases h⟩, ?_, ?_,
    Yaml.Codec.faithful_careful, ?_⟩ (by decide) (by decide) isTree_disk (by decide) ?_
  · exact isTree_disk.has (by decide)
  · intro tenant _
    simp [world, disk, Disk.entry?, Table.get?]
  · exact ⟨by decide, by decide, by decide, by decide, by decide, by decide⟩
  · intro q hq
    obtain ⟨n, q, rfl⟩ := List.exists_cons_of_ne_nil hq
    simp [world, disk, Disk.treeAt, Disk.entry?, Table.get?]

theorem filed : (caller.key "web").IsFiled := by
  show '/' ∉ "alice".toList
  decide

theorem ongoing_bereft : bereft.Ongoing {} ∧ bereft.recordAt (caller.key "web") = some record := by
  obtain ⟨⟨hpython, hmysql, -⟩, hrecord, -⟩ := course
  have hfirst := (ongoing_withInstalled ongoing_world hpython pythonTag rfl rfl rfl rfl).1
  have hsecond := (ongoing_withInstalled hfirst hmysql mysqlTag rfl rfl rfl rfl).1
  have hbereft := ongoing_withoutService (ongoing_withApplication hsecond 12)
  exact ⟨hbereft.1, (hbereft.2 _ filed).trans hrecord⟩

theorem ongoing_recast : recast.Ongoing {} ∧ recast.recordAt (caller.key "web") = some record := by
  obtain ⟨hongoing, hrecord⟩ := ongoing_bereft
  obtain ⟨⟨-, -, hother⟩, -⟩ := course
  have hrecast := ongoing_withInstalled hongoing hother pythonTag rfl rfl rfl rfl
  exact ⟨hrecast.1, (hrecast.2 _ filed).trans hrecord⟩

/-- The framework is told, and the service that was removed is left out. -/
theorem removed_service_is_left_out : bereft.Ongoing {} ∧
    bereft.recordAt (caller.key "web") = some record ∧
    ((info {} caller "web").run bereft).1 = .ok
      { Info.start {} caller "web" record with
        framework := some (python .framework), scaling := 2 } := by
  obtain ⟨hongoing, hrecord⟩ := ongoing_bereft
  refine ⟨hongoing, hrecord, ?_⟩
  obtain ⟨-, -, ⟨hpython, hmysql, hlisting, hlength⟩, -⟩ := course
  obtain ⟨cs, hcs, -⟩ := map_eq_ok hlisting
  have hplaces : bereft.Places record := by
    refine ⟨fun text htext p hp => ?_, fun text htext p hp => ?_⟩
    · obtain rfl : "python:3.9" = text := by simpa [record] using htext
      obtain rfl := Option.some.inj (hpython.symm.trans hp)
      rfl
    · obtain rfl : text = "mysql:mysql:5.7" := by simpa [record, Record.services] using htext
      cases hmysql.symm.trans hp
  have hservices : record.services.filterMap bereft.installedAs = [] := by
    simp [record, Record.services, hmysql]
  have hframework : record.plugins.head?.bind bereft.installedAs = some (python .framework) := by
    have hhead : record.plugins.head? = some "python:3.9" := rfl
    rw [hhead, Option.bind_some, hpython]
  have hinfo := (hongoing.info_follows_record filed hrecord).2.2.2
    hplaces
  rw [hinfo, hframework, hservices, hcs, hlength]
  rfl

/-- The plugin that is installed under the first recorded tag is told as a service, and no framework
is told, though two containers run from it as the framework. -/
theorem framework_is_told_as_service : recast.Ongoing {} ∧
    recast.recordAt (caller.key "web") = some record ∧
    recast.installedAs "python:3.9" = some (python .service) ∧
    ((info {} caller "web").run recast).1 = .ok
      { Info.start {} caller "web" record with
        framework := none, services := [python .service], scaling := 2 } := by
  obtain ⟨hongoing, hrecord⟩ := ongoing_recast
  obtain ⟨-, -, -, hpython, hmysql, hlisting, hlength⟩ := course
  refine ⟨hongoing, hrecord, hpython, ?_⟩
  obtain ⟨cs, hcs, -⟩ := map_eq_ok hlisting
  have hnow : record.plugins.filterMap recast.installedAs = [python .service] := by
    simp [record, hpython, hmysql]
  rw [hongoing.provided.run_info filed hrecord, hnow, hcs, hlength]
  rfl

end Reinstalled

end AppBroker
