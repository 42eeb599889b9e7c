import AppBroker.Proofs.Abiding
import AppBroker.Proofs.Lineup
import AppBroker.Proofs.RouteCalls

/-!
# Public hosts

The public host of a slot is the application's name, a dash, the tenant and the domain, with the
service in front. Neither dots nor dashes occur in names, but they may in tenants and services. As
long as no tenant's own name reads as the host of something else, different slots have different
hosts (`PlatformSettings.frontend_injective`); a tenant whose name does is in another one's way
(`PlatformSettings.exists_frontend_eq`). Every endpoint in the table of routes is public under the
host of the slot that its container fills, whoever published it and whatever was done since.
-/

namespace AppBroker

open Program Lifecycle

namespace Name

theorem isInner_of_isValid {name : String} (h : isValid name = true) {c : Char}
    (hc : c ∈ name.toList) : c = '\n' ∨ isInner c = true := by
  have hkept : ∀ c ∈ dropLineEnd name.toList, isInner c = true := by
    unfold isValid at h
    intro c hc
    split at h
    · cases h
    · rename_i first rest hcs
      rw [hcs] at hc
      rw [Bool.and_eq_true, List.all_eq_true] at h
      rcases List.mem_cons.1 hc with rfl | hc
      · simp [isInner, h.1]
      · exact h.2 c hc
  unfold dropLineEnd at hkept
  split at hkept
  · rename_i hlast
    obtain ⟨front, hfront⟩ := List.getLast?_eq_some_iff.1 hlast
    rw [hfront, List.dropLast_concat] at hkept
    rw [hfront] at hc
    rcases List.mem_append.1 hc with hc | hc
    · exact .inr (hkept c hc)
    · exact .inl (List.mem_singleton.1 hc)
  · exact .inr (hkept c hc)

/-- The separators of hosts do not occur in names. -/
theorem no_separator {name : String} (h : isValid name = true) :
    '.' ∉ name.toList ∧ '-' ∉ name.toList := by
  constructor <;> intro hc <;> rcases isInner_of_isValid h hc with he | he <;> revert he <;> decide

end Name

/-- Whether a tenant's own name reads, from some dot on, as an application's host. -/
def Encloses (tenant : String) : Prop :=
  ∃ before name rest, Name.isValid name = true ∧ Hub.isComponent rest = true ∧
    tenant = before ++ "." ++ name ++ "-" ++ rest

/-- A tenant without dots in its name encloses nothing. -/
theorem not_encloses_of_no_dot {tenant : String} (h : '.' ∉ tenant.toList) : ¬ Encloses tenant := by
  rintro ⟨before, name, rest, -, -, rfl⟩
  simp at h

/-- Whether an application is one that the platform takes, of a tenant whose hosts are its own. -/
structure AppKey.IsPublic (k : AppKey) : Prop where
  name : Name.isValid k.name = true
  tenant : Hub.isComponent k.tenant = true
  apart : ¬ Encloses k.tenant

namespace PlatformSettings

variable (p : PlatformSettings)

/-- What stands in front of an application's host. -/
def below (service : String) : List Char :=
  if service = "" then [] else service.toList ++ ['.']

theorem below_injective {s s' : String} (h : below s = below s') : s = s' := by
  unfold below at h
  split at h <;> split at h
  · rename_i hs hs'
    rw [hs, hs']
  · simp at h
  · simp at h
  · exact String.toList_inj.1 (List.append_cancel_right h)

theorem frontend_toList (h : Handle) : (p.frontend h).toList =
    below h.service ++ (h.app.toList ++ '-' :: h.tenant.toList) ++ '.' :: p.domain.toList := by
  unfold frontend appHost below Handle.isFramework
  by_cases hs : h.service = "" <;> simp [hs]

/-- Up to the first dash, what a name and a tenant make says which they are. -/
theorem split_eq {n n' : String} {t t' : List Char} (hn : Name.isValid n = true)
    (hn' : Name.isValid n' = true) (h : n.toList ++ '-' :: t = n'.toList ++ '-' :: t') :
    n = n' ∧ t = t' := by
  rcases List.append_eq_append_iff.1 h with ⟨m, hm, hrest⟩ | ⟨m, hm, hrest⟩
  · cases m with
    | nil =>
      rw [List.append_nil] at hm
      exact ⟨(String.toList_inj.1 hm).symm, (List.cons.inj hrest).2⟩
    | cons c m =>
      obtain rfl : c = '-' := (List.cons.inj hrest).1.symm
      exact absurd (by rw [hm]; simp) (Name.no_separator hn').2
  · cases m with
    | nil =>
      rw [List.append_nil] at hm
      exact ⟨String.toList_inj.1 hm, (List.cons.inj hrest).2.symm⟩
    | cons c m =>
      obtain rfl : c = '-' := (List.cons.inj hrest).1.symm
      exact absurd (by rw [hm]; simp) (Name.no_separator hn).2

/-- An application's host that goes on below another host shows that in its tenant. -/
theorem encloses_of_split {n n' t t' : String} {b : List Char} (hn : Name.isValid n = true)
    (hn' : Name.isValid n' = true) (ht' : Hub.isComponent t' = true)
    (h : n.toList ++ '-' :: t.toList = b ++ '.' :: (n'.toList ++ '-' :: t'.toList)) :
    Encloses t := by
  obtain ⟨hdot, -⟩ := Name.no_separator hn
  rcases List.append_eq_append_iff.1 h with ⟨m, -, hrest⟩ | ⟨m, hm, hrest⟩
  · cases m with
    | nil => exact absurd (List.cons.inj hrest).1 (by decide)
    | cons c m =>
      refine ⟨String.ofList m, n', t', hn', ht', String.toList_inj.1 ?_⟩
      simpa using (List.cons.inj hrest).2
  · cases m with
    | nil => exact absurd (List.cons.inj hrest).1 (by decide)
    | cons c m =>
      obtain rfl : c = '.' := (List.cons.inj hrest).1.symm
      exact absurd (by rw [hm]; simp) hdot

theorem slot_of_prefix {h h' : Handle} (hk : h.key.IsPublic) (hk' : h'.key.IsPublic)
    {m : List Char} (hm : below h'.service = below h.service ++ m)
    (hrest : h.app.toList ++ '-' :: h.tenant.toList =
      m ++ (h'.app.toList ++ '-' :: h'.tenant.toList)) :
    h.key = h'.key ∧ h.service = h'.service := by
  rcases List.eq_nil_or_concat m with rfl | ⟨b, c, rfl⟩
  · obtain ⟨happ, htenant⟩ : h.app = h'.app ∧ h.tenant.toList = h'.tenant.toList :=
      split_eq hk.name hk'.name hrest
    refine ⟨?_, (below_injective (by simpa using hm)).symm⟩
    rw [Handle.key, Handle.key, String.toList_inj.1 htenant, happ]
  · -- The longer host goes on below the other service, with the dot that ends this part.
    have hc : c = '.' := by
      unfold below at hm
      split at hm
      · simp at hm
      · have hlast := congrArg List.getLast? hm
        simp only [List.concat_eq_append, ← List.append_assoc, List.getLast?_append,
          List.getLast?_singleton, Option.some_or, Option.some.injEq] at hlast
        exact hlast.symm
    subst hc
    have hsplit : h.app.toList ++ '-' :: h.tenant.toList =
        b ++ '.' :: (h'.app.toList ++ '-' :: h'.tenant.toList) := by simpa using hrest
    exact absurd (encloses_of_split hk.name hk'.name hk'.tenant hsplit) hk.apart

/-- Different slots have different hosts. -/
theorem frontend_injective {h h' : Handle} (hk : h.key.IsPublic) (hk' : h'.key.IsPublic)
    (heq : p.frontend h = p.frontend h') : h.key = h'.key ∧ h.service = h'.service := by
  have hlist := congrArg String.toList heq
  rw [frontend_toList, frontend_toList] at hlist
  rcases List.append_eq_append_iff.1 (List.append_cancel_right hlist) with ⟨m, hm, hr⟩ | ⟨m, hm, hr⟩
  · exact slot_of_prefix hk hk' hm hr
  · obtain ⟨hkey, hservice⟩ := slot_of_prefix hk' hk hm hr
    exact ⟨hkey.symm, hservice.symm⟩

/-- A tenant whose name reads as another one's host has hosts that are not its own. -/
theorem exists_frontend_eq {h : Handle} (hf : h.service = "") (ht : Encloses h.tenant) :
    ∃ app tenant service, Name.isValid app = true ∧ Hub.isComponent tenant = true ∧
      service ≠ "" ∧ p.frontend { h with app, tenant, service } = p.frontend h := by
  obtain ⟨before, name, rest, hname, hrest, htenant⟩ := ht
  have hservice : h.app ++ "-" ++ before ≠ "" := by
    intro he
    have := congrArg String.toList he
    simp at this
  refine ⟨name, rest, h.app ++ "-" ++ before, hname, hrest, hservice, String.toList_inj.1 ?_⟩
  rw [frontend_toList, frontend_toList, htenant]
  simp [below, hf, hservice]

end PlatformSettings

/-- Whether a container's labels say that it fills the slot of a handle. -/
def Container.Fills (c : Container) (h : Handle) : Prop := c.BelongsTo h.key ∧ c.slot = h.service

instance (c : Container) (h : Handle) : Decidable (c.Fills h) :=
  inferInstanceAs (Decidable (_ ∧ _))

theorem Container.Fills.unique {c : Container} {h h' : Handle} (hc : c.Fills h) (hc' : c.Fills h') :
    h.key = h'.key ∧ h.service = h'.service :=
  ⟨hc.1.unique hc'.1, hc.2.symm.trans hc'.2⟩

theorem Runtime.ReadFrom.fills {network : String} {c : Container} {h : Handle}
    (hread : ReadFrom network c h) : c.Fills h :=
  ⟨⟨hread.app, hread.tenant⟩, hread.service.symm⟩

namespace World

variable {platform : PlatformSettings} {w w' : World} {h : Handle} {id : String}

/-- Whether an id was given out, and stands for nothing but a container that fills the slot of a
handle. -/
def Settled (w : World) (h : Handle) (id : String) : Prop :=
  (∃ n ≤ w.engine.made, id = Engine.idOf n) ∧ ∀ c ∈ w.engine.containers, c.id = id → c.Fills h

theorem Settled.after (hs : w.Settled h id) (hage : w.Ages w')
    (hn : Engine.Numbered w'.engine.containers w'.engine.made) : w'.Settled h id := by
  obtain ⟨⟨n, hle, rfl⟩, hfills⟩ := hs
  refine ⟨⟨n, Nat.le_trans hle hage.made_le, rfl⟩, fun c hc he => ?_⟩
  obtain ⟨d, hd, hid, hl⟩ := hage.exists_older hn hle hc he
  have hfill := hfills d hd hid
  unfold Container.Fills Container.BelongsTo Container.slot at hfill ⊢
  rwa [← hl]

theorem settled_of_mem (hn : Engine.Numbered w.engine.containers w.engine.made) {c : Container}
    (hc : c ∈ w.engine.containers) (hf : c.Fills h) : w.Settled h c.id :=
  ⟨⟨c.number, hn.le_made c hc, hn.id_eq c hc⟩, fun d hd he => by rwa [hn.eq_of_id hd hc he]⟩

/-- Whether every endpoint in the table of routes is public under the host of the slot that its
container fills. -/
structure Signed (platform : PlatformSettings) (w : World) : Prop where
  numbered : Engine.Numbered w.engine.containers w.engine.made
  hosts : ∀ entry ∈ w.routes, ∃ h, w.Settled h entry.1 ∧
    ∀ e ∈ entry.2, e.frontend = platform.frontend h

theorem Signed.after (hs : w.Signed platform) (hage : w.Ages w')
    (hn : Engine.Numbered w'.engine.containers w'.engine.made)
    (hroutes : ∀ entry ∈ w'.routes, entry ∈ w.routes) : w'.Signed platform := by
  refine ⟨hn, fun entry he => ?_⟩
  obtain ⟨h, hsettled, hhosts⟩ := hs.hosts entry (hroutes entry he)
  exact ⟨h, hsettled.after hage hn, hhosts⟩

/-- What a change of the routes leaves in the table was there or is published. -/
theorem mem_routes_route {change : RouteChange} {entry : String × List Endpoint}
    (h : entry ∈ (w.answer (.route change)).2.routes) :
    entry ∈ w.routes ∨ change = .publish entry.1 entry.2 := by
  cases hrouter : w.broker.router with
  | memory routes =>
    rw [routes_eq (answer_route hrouter change).2.2] at h
    rw [routes_eq hrouter]
    cases change with
    | publish id endpoints =>
      rcases Table.mem_of_mem_insert h with rfl | h
      · exact .inr rfl
      · exact .inl h
    | retract id => exact .inl (List.mem_filter.1 h).1
    | clear => cases h
  | service base token =>
    have hafter : (w.answer (.route change)).2.broker.router = .service base token := by
      show (w.broker.router.change w.replies change).router = _
      rw [hrouter, Router.change_service]
    unfold routes at h
    rw [hafter] at h
    cases h

theorem signed_answer (hs : w.Signed platform) {c : Call} (hc : c.isUnrouted = true) :
    (w.answer c).2.Signed platform ∧ w.Ages (w.answer c).2 := by
  have haged := aged_answer hs.numbered c
  refine ⟨hs.after haged.ages (haged.numbered hs.numbered) fun entry he => ?_, haged.ages⟩
  unfold routes at he ⊢
  rwa [router_answer w hc] at he

theorem signed_route (hs : w.Signed platform) (change : RouteChange)
    (hc : ∀ id endpoints, change = .publish id endpoints →
      ∃ h, w.Settled h id ∧ ∀ e ∈ endpoints, e.frontend = platform.frontend h) :
    (w.answer (.route change)).2.Signed platform ∧ w.Ages (w.answer (.route change)).2 := by
  have hage : w.Ages (w.answer (.route change)).2 := ages_of_eq rfl rfl
  refine ⟨⟨hs.numbered, fun entry he => ?_⟩, hage⟩
  rcases mem_routes_route he with he | rfl
  · exact hs.hosts entry he
  · exact hc _ _ rfl

end World

/-- Endpoints are published under the host of the container that is looked at. -/
theorem abides_routeEndpoints (platform : PlatformSettings) (h : Handle) (p : Plugin) (w : World) :
    (routeEndpoints platform h p).Abides (World.Signed platform) w := by
  refine .call (fun w hs => World.signed_answer hs rfl) fun w' hs hage => ?_
  cases hc : (w'.answer (.inspect h)).1 with
  | error e => trivial
  | ok current =>
    obtain ⟨c, hfind, hread⟩ := (w'.answer_inspect h).2 current hc
    obtain ⟨hmem, -⟩ := Engine.find?_eq_some hfind
    have hread := Runtime.readFrom_of_handleOf hread
    have hsettled : w'.Settled current current.id := by
      rw [hread.id]
      exact World.settled_of_mem hs.numbered hmem hread.fills
    have hinspected := World.signed_answer (c := .inspect h) hs rfl
    intro w'' hs'' hage''
    have hroute := World.signed_route hs'' (.publish current.id
      (p.endpoints.map fun e => e.bind current.address (platform.frontend current)))
      fun id endpoints he => by
        cases he
        refine ⟨current, hsettled.after (hinspected.2.trans hage'') hs''.numbered, fun e he => ?_⟩
        obtain ⟨d, -, rfl⟩ := List.mem_map.1 he
        rfl
    exact ⟨hroute.1, hroute.2, trivial⟩

namespace Signing

variable {platform : PlatformSettings}

theorem abides_unrouted {c : Call} (hc : c.isUnrouted = true) (w : World) :
    (perform c).Abides (World.Signed platform) w :=
  fun _ hs _ => ⟨(World.signed_answer hs hc).1, (World.signed_answer hs hc).2, trivial⟩

theorem abides_withdrawal (change : RouteChange)
    (hc : ∀ id endpoints, change ≠ .publish id endpoints) (w : World) :
    (perform (.route change)).Abides (World.Signed platform) w := by
  intro w' hs _
  have h := World.signed_route hs change fun id endpoints he => absurd he (hc id endpoints)
  exact ⟨h.1, h.2, trivial⟩

theorem abides_publish (h : Handle) (w : World) :
    (publish platform h).Abides (World.Signed platform) w := by
  have hS := Abides.structural (I := World.Signed platform)
  refine hS.bind (hS.attempt (abides_unrouted (c := .plugin h.tag.withoutService) rfl))
    (fun found w => ?_) w
  rcases found with r | p
  · dsimp only
    split
    · exact abides_unrouted rfl w
    · trivial
  · dsimp only
    split
    · trivial
    · refine hS.bind (hS.attempt (abides_routeEndpoints platform h p)) (fun routed w => ?_) w
      rcases routed with r | u
      · exact abides_unrouted rfl w
      · trivial

theorem abides_retract (h : Handle) (w : World) :
    (retract h).Abides (World.Signed platform) w := by
  have hS := Abides.structural (I := World.Signed platform)
  refine hS.bind (hS.attempt (abides_withdrawal (.retract h.id) fun _ _ he => by cases he))
    (fun retracted w => ?_) w
  rcases retracted with r | u
  · dsimp only
    split
    · exact abides_unrouted rfl w
    · trivial
  · trivial

theorem composable (platform : PlatformSettings) : Composable platform
    fun (α : Type) (p : Program α) => ∀ w, p.Abides (World.Signed platform) w where
  toStructural := Abides.structural
  call _ := abides_unrouted
  publish := abides_publish
  retract := abides_retract

end Signing

/-- The programs of requests, and next to them so many that route everything anew. -/
def Request.withResyncs (platform : PlatformSettings) (requests : List Request) (resyncs : Nat) :
    List (Program (List Handle)) :=
  requests.map (·.program platform) ++ List.replicate resyncs
    ((resync platform).andThen fun o => done (o.map fun _ => []))

namespace World

/-- What the broker leads to from a world without routes: operations that run together in any
order, and next to them any number of programs that route everything anew. What else happens
neither touches routes nor makes containers what they are not. -/
inductive Served (platform : PlatformSettings) : World → Prop
  | new {w : World} : Engine.Numbered w.engine.containers w.engine.made → w.routes = [] →
      Served platform w
  | operated {w : World} (requests : List Request) (resyncs : Nat) (order : List Nat) :
      Served platform w → Served platform (Pool.run
        { world := w, tasks := Request.withResyncs platform requests resyncs } order).world
  | beside {w w' : World} : Served platform w → w.Ages w' →
      Engine.Numbered w'.engine.containers w'.engine.made → w'.routes = w.routes →
      Served platform w'

theorem Served.signed {platform : PlatformSettings} {w : World} (h : w.Served platform) :
    w.Signed platform := by
  induction h with
  | new hn hroutes => exact ⟨hn, fun entry he => by rw [hroutes] at he; cases he⟩
  | @operated w requests resyncs order _ ih =>
    have hS := Signing.composable platform
    refine (Pool.Abiding.run ⟨ih, fun task ht => ?_⟩ order).now
    rcases List.mem_append.1 ht with ht | ht
    · obtain ⟨r, -, rfl⟩ := List.mem_map.1 ht
      exact hS.program (fun k p hp w => (hp w).holding) r w
    · rw [(List.mem_replicate.1 ht).2]
      refine hS.andThen (hS.resync ?_) (fun o => hS.done _) w
      exact Signing.abides_withdrawal .clear fun _ _ he => by cases he
  | beside _ hage hn hroutes ih =>
    exact ih.after hage hn fun entry he => by rwa [hroutes] at he

/-- Whether a container has a route to an endpoint. -/
def RoutesTo (w : World) (c : Container) (e : Endpoint) : Prop :=
  ∃ entry ∈ w.routes, entry.1 = c.id ∧ e ∈ entry.2

instance (w : World) (c : Container) (e : Endpoint) : Decidable (w.RoutesTo c e) :=
  inferInstanceAs (Decidable (∃ entry ∈ w.routes, entry.1 = c.id ∧ e ∈ entry.2))

theorem frontend_of_backends {w : World} {host : String} {endpoints : List Endpoint}
    (h : w.broker.router.backends host = .ok endpoints) {e : Endpoint} (he : e ∈ endpoints) :
    e.frontend = host := by
  unfold Router.backends at h
  split at h
  · cases h
    simpa using (List.mem_filter.1 he).2
  · cases h

/-- An endpoint of a container is public under the host of its slot. -/
theorem Signed.frontend_eq {platform : PlatformSettings} {w : World} (hs : w.Signed platform)
    {c : Container} (hc : c ∈ w.engine.containers) {h : Handle} (hf : c.Fills h) {e : Endpoint}
    (he : w.RoutesTo c e) : e.frontend = platform.frontend h := by
  obtain ⟨entry, hentry, hid, hmem⟩ := he
  obtain ⟨h', hsettled, hhosts⟩ := hs.hosts entry hentry
  obtain ⟨hkey, hservice⟩ := hf.unique (hsettled.2 c hc hid.symm)
  rw [hhosts e hmem]
  unfold PlatformSettings.frontend Handle.isFramework
  rw [show h.app = h'.app from congrArg AppKey.name hkey,
    show h.tenant = h'.tenant from congrArg AppKey.tenant hkey, hservice]

end World

/-- Different slots of applications never share a public host, and no host is served by containers
of both. -/
theorem slots_have_own_hosts (platform : PlatformSettings) {h h' : Handle} (hk : h.key.IsPublic)
    (hk' : h'.key.IsPublic) (hne : (h.key, h.service) ≠ (h'.key, h'.service)) :
    platform.frontend h ≠ platform.frontend h' ∧
      ∀ w : World, w.Served platform → ∀ host endpoints,
        w.broker.router.backends host = .ok endpoints →
        ∀ c ∈ w.engine.containers, ∀ c' ∈ w.engine.containers, c.Fills h → c'.Fills h' →
        ∀ e ∈ endpoints, ∀ e' ∈ endpoints, ¬ (w.RoutesTo c e ∧ w.RoutesTo c' e') := by
  have hapart : platform.frontend h ≠ platform.frontend h' := by
    intro heq
    obtain ⟨hkey, hservice⟩ := platform.frontend_injective hk hk' heq
    exact hne (by rw [hkey, hservice])
  refine ⟨hapart, ?_⟩
  rintro w hw host endpoints hends c hc c' hc' hf hf' e he e' he' ⟨hr, hr'⟩
  rw [← hw.signed.frontend_eq hc hf hr, ← hw.signed.frontend_eq hc' hf' hr',
    World.frontend_of_backends hends he, World.frontend_of_backends hends he'] at hapart
  exact hapart rfl

/-! ## Two tenants -/

namespace PublicHosts

/-- A hub with a framework and a service whose name has a dash. -/
def disk : Disk where
  entries := [(["plugins"], .directory), (["users"], .directory),
    (["plugins", ".system"], .directory), (["plugins", ".system", "python"], .directory),
    (["plugins", ".system", "python", "3.9"], .directory),
    (["plugins", ".system", "python", "3.9", "manifest.yml"], .file (Text.encode
      "name: python\nversion: \"3.9\"\ncategory: framework\nendpoints: [\x7b\"port\": 8080\x7d]\n")),
    (["plugins", ".system", "web-a"], .directory),
    (["plugins", ".system", "web-a", "1"], .directory),
    (["plugins", ".system", "web-a", "1", "manifest.yml"], .file (Text.encode
      "name: web-a\nversion: \"1\"\ncategory: service\nendpoints: [\x7b\"port\": 3306\x7d]\n"))]

/-- A world in which nothing was done yet. -/
def world : World where
  disk := disk
  broker := { hub := ["plugins"], store := ["users"] }

/-- Two tenants each create an application and start it. -/
def requests (tenant tenant' : String) : List Request :=
  [⟨⟨"u", tenant⟩, .create "web" "python" [] 1 true⟩,
    ⟨⟨"u", tenant'⟩, .create "b" "python" ["web-a"] 1 true⟩]

/-- What the two requests lead to, one after the other. -/
def served (tenant tenant' : String) : World :=
  (Pool.run { world := world, tasks := Request.withResyncs {} (requests tenant tenant') 0 }
    (List.replicate 14 0 ++ List.replicate 20 1)).world

theorem served_served (tenant tenant' : String) : (served tenant tenant').Served {} := by
  unfold served
  refine .operated _ 0 _ (.new ?_ rfl)
  exact ⟨by simp [world], by simp [world], .nil⟩

theorem python_ne_empty : "python" ≠ "" := by decide

/-- A slot of an application. -/
def slot (tenant app service : String) : Handle where
  id := ""
  name := ""
  app := app
  tenant := tenant
  service := service
  tag := ⟨"python", "", "3.9", "", python_ne_empty⟩
  sequence := 0

theorem isPublic_of_no_dot {k : AppKey} (h : Name.isValid k.name = true ∧
    Hub.isComponent k.tenant = true ∧ '.' ∉ k.tenant.toList) : k.IsPublic :=
  ⟨h.1, h.2.1, not_encloses_of_no_dot h.2.2⟩

/-- The hosts of Alice's framework and of Bob's service, and who serves the latter. -/
theorem two_tenants_have_own_hosts :
    let w := served "alice" "bob"
    ({} : PlatformSettings).frontend (slot "alice" "web" "") ≠
        ({} : PlatformSettings).frontend (slot "bob" "b" "web-a") ∧
      w.broker.router.backends "web-a.b-bob.cumulus.local" =
        .ok [⟨3306, "http", "/", "10.0.0.3", "web-a.b-bob.cumulus.local"⟩] ∧
      ∀ host endpoints, w.broker.router.backends host = .ok endpoints →
        ∀ c ∈ w.engine.containers, ∀ c' ∈ w.engine.containers,
        c.Fills (slot "alice" "web" "") → c'.Fills (slot "bob" "b" "web-a") →
        ∀ e ∈ endpoints, ∀ e' ∈ endpoints, ¬ (w.RoutesTo c e ∧ w.RoutesTo c' e') := by
  intro w
  have halice : (slot "alice" "web" "").key.IsPublic := isPublic_of_no_dot (by decide)
  have hbob : (slot "bob" "b" "web-a").key.IsPublic := isPublic_of_no_dot (by decide)
  obtain ⟨hapart, hnever⟩ := slots_have_own_hosts {} halice hbob (by decide)
  exact ⟨hapart, by decide +kernel, hnever w (served_served "alice" "bob")⟩

/-- A tenant's application and another tenant's service share a host, and whoever asks for it gets
containers of both. -/
theorem two_tenants_share_host :
    let w := served "a.b-c" "c"
    ({} : PlatformSettings).frontend (slot "a.b-c" "web" "") =
        ({} : PlatformSettings).frontend (slot "c" "b" "web-a") ∧
      w.broker.router = .memory [
        ("c0001", [⟨8080, "http", "/", "10.0.0.1", "web-a.b-c.cumulus.local"⟩]),
        ("c0002", [⟨8080, "http", "/", "10.0.0.2", "b-c.cumulus.local"⟩]),
        ("c0003", [⟨3306, "http", "/", "10.0.0.3", "web-a.b-c.cumulus.local"⟩])] ∧
      ∃ c ∈ w.engine.containers, ∃ c' ∈ w.engine.containers, c.id = "c0001" ∧ c'.id = "c0003" ∧
        c.Fills (slot "a.b-c" "web" "") ∧ c'.Fills (slot "c" "b" "web-a") := by
  decide +kernel

end PublicHosts

end AppBroker
