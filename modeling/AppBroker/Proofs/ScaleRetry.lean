import AppBroker.Proofs.Scaling

/-!
# Scaling again after a failure

A scaling that failed may be asked for again: what it has made of the containers so far is a part of
what it would have made, so the second one makes the rest, and in the end all is as if the first had
not failed (`scaling_can_be_retried`). Containers that were made but not started are the exception,
since the second scaling counts them and leaves them as they are.
-/

namespace AppBroker

open Program Lifecycle

namespace Container

/-- Whether two containers are the same but for their sequence numbers, and the names that engines
know them by. -/
structure Twin (c d : Container) : Prop where
  number : d.number = c.number
  id : d.id = c.id
  image : d.image = c.image
  status : d.status = c.status
  networks : d.networks = c.networks
  address : d.address = c.address
  labels : ∀ key, key ≠ Runtime.sequenceLabel → d.labels.get? key = c.labels.get? key

theorem Twin.refl (c : Container) : c.Twin c := ⟨rfl, rfl, rfl, rfl, rfl, rfl, fun _ _ => rfl⟩

theorem Twin.isRunning {c d : Container} (h : c.Twin d) : d.isRunning = c.isRunning := by
  unfold Container.isRunning
  rw [h.status]

theorem Twin.started {c d : Container} (h : c.Twin d) : c.started.Twin d.started where
  number := h.number
  id := h.id
  image := h.image
  status := rfl
  networks := by
    unfold Container.started setAddresses
    rw [h.networks, h.number]
  address := h.address
  labels := h.labels

/-- Containers that are made under one number for one tag are the same if both run or neither. -/
theorem IsReplica.twin {c d : Container} {settings : RuntimeSettings} {k : AppKey} {tag : Tag}
    {n : Nat} (hc : c.IsReplica settings k tag n) (hd : d.IsReplica settings k tag n)
    (hrun : d.isRunning = c.isRunning) : c.Twin d := by
  obtain ⟨v, hv, hnv, hc⟩ := hc
  obtain ⟨u, hu, hnu, hd⟩ := hd
  have hnumber : u.engine.nextNumber = v.engine.nextNumber := hnu.trans hnv.symm
  have hsettings : u.broker.runtime.settings = v.broker.runtime.settings := hu.trans hv.symm
  have hnew : (v.newcomer k.name k.tenant tag).Twin (u.newcomer k.name k.tenant tag) := by
    refine ⟨hnumber, congrArg Engine.idOf hnumber, ?_, rfl, ?_, rfl, fun key hkey => ?_⟩
    · exact congrArg (fun s : RuntimeSettings => Runtime.imageOf s.imageRegistry tag) hsettings
    · exact congrArg (fun s : RuntimeSettings => [(s.network, "")]) hsettings
    · simp only [World.newcomer, Engine.fresh, Runtime.specOf, Table.get?, if_neg (Ne.symm hkey)]
  have hidle (w : World) : (w.newcomer k.name k.tenant tag).isRunning = false :=
    newcomer_isRunning ..
  rcases hc with rfl | rfl <;> rcases hd with rfl | rfl
  · exact hnew
  · rw [hidle] at hrun
    cases hrun
  · rw [hidle] at hrun
    cases hrun
  · exact hnew.started

end Container

namespace World

variable {platform : PlatformSettings} {k : AppKey} {r r' : Record} {tag tag' : Tag} {target : Int}
  {full done : Prop} {u v v' w w' : World} {added added' : List Container}
  {dropped gone gone' : List String} {count : Nat}

/-! ## Twins -/

/-- Twins are routed alike. -/
theorem routeOf_twin {c d : Container} (h : c.Twin d) {hc hd : Handle}
    (hreadc : Runtime.handleOf w.broker.runtime.settings.network c = .ok hc)
    (hreadd : Runtime.handleOf w.broker.runtime.settings.network d = .ok hd) :
    w.routeOf platform d = w.routeOf platform c := by
  have hfromc := Runtime.readFrom_of_handleOf hreadc
  have hfromd := Runtime.readFrom_of_handleOf hreadd
  have happ : hd.app = hc.app := Option.some.inj <|
    hfromd.app.symm.trans ((h.labels _ (by decide)).trans hfromc.app)
  have htenant : hd.tenant = hc.tenant := Option.some.inj <|
    hfromd.tenant.symm.trans ((h.labels _ (by decide)).trans hfromc.tenant)
  have hservice : hd.service = hc.service := by
    rw [hfromd.service, hfromc.service, h.labels _ (by decide)]
  have htag : hd.tag = hc.tag := by
    obtain ⟨text, hlabel, hparse⟩ := hfromd.tag
    rw [h.labels _ (by decide)] at hlabel
    exact Container.Says.unique ⟨text, hlabel, hparse⟩ hfromc.tag
  have haddress : hd.address = hc.address := by
    rw [hfromd.address, hfromc.address, Runtime.addressOn, Runtime.addressOn, h.networks, h.address]
  have hfrontend : platform.frontend hd = platform.frontend hc := by
    unfold PlatformSettings.frontend Handle.isFramework
    rw [happ, htenant, hservice]
  unfold routeOf
  simp only [hreadc, hreadd, htag, haddress, hfrontend]

/-- The routes of a container that was added, once it is published if it runs. -/
def routeAfter (w : World) (platform : PlatformSettings) (c : Container) : Option (List Endpoint) :=
  if c.isRunning then (w.routeOf platform c).or (w.routes.get? c.id) else w.routes.get? c.id

theorem Grown.get?_added (h : Grown platform k tag u added v) (htable : u.HasTable) {c : Container}
    (hc : c ∈ added) (hserves : c.isRunning = true → Serves platform u c v) :
    v.routes.get? c.id = u.routeAfter platform c := by
  unfold routeAfter
  split
  · rename_i hrun
    cases hof : u.routeOf platform c with
    | some endpoints => exact hserves hrun htable endpoints hof
    | none =>
      rcases h.routed c hc with hsame | ⟨-, endpoints, hof', -⟩
      · exact hsame
      · rw [hof] at hof'
        cases hof'
  · rename_i hidle
    exact (h.routed c hc).resolve_right fun hrouted => hidle hrouted.1

/-- Where all was done, exactly the containers of an active application run. -/
theorem Raised.isRunning_eq (h : Raised platform k r count full True u tag added v) {c : Container}
    (hc : c ∈ added) : c.isRunning = decide (u.Active k) := by
  by_cases hactive : u.Active k
  · rw [(h.active trivial hactive c hc).1, decide_eq_true hactive]
  · rw [h.idle hactive c hc, decide_eq_false hactive]

theorem Raised.get?_added (h : Raised platform k r count full True u tag added v)
    (htable : u.HasTable) {c : Container} (hc : c ∈ added) :
    v.routes.get? c.id = u.routeAfter platform c :=
  h.toGrown.get?_added htable hc fun hrun => by
    rw [h.isRunning_eq hc, decide_eq_true_eq] at hrun
    exact (h.active trivial hrun c hc).2

/-- The containers that an application has grown by are the same each time. -/
theorem Raised.forall₂_twin (h : Raised platform k r count True True u tag added v)
    (h' : Raised platform k r count True True u tag' added' v') :
    List.Forall₂ Container.Twin added added' := by
  have hlength : added'.length = added.length :=
    (h'.length_eq trivial).trans (h.length_eq trivial).symm
  cases added with
  | nil =>
    rw [List.length_nil, List.length_eq_zero_iff] at hlength
    rw [hlength]
    exact .nil
  | cons c cs =>
    have hne' : added' ≠ [] := List.ne_nil_of_length_pos (by rw [hlength]; exact Nat.succ_pos _)
    obtain rfl := (h.breeds (List.cons_ne_nil c cs)).unique (h'.breeds hne')
    have hleft := (List.forall₂_and_left _ _).2 ⟨fun _ => h.isRunning_eq, h.replicas⟩
    have hright := (List.forall₂_and_left _ _).2 ⟨fun _ => h'.isRunning_eq, h'.replicas⟩
    rw [hlength] at hright
    refine (Agreeing.forall₂_trans hleft.flip hright.flip).imp fun c d ⟨n, hc, hd⟩ => ?_
    exact hc.2.twin hd.2 (hd.1.trans hc.1.symm)

/-- What an application has grown to is the same each time. -/
theorem Raised.twins (h : Raised platform k r count True True u tag added v)
    (h' : Raised platform k r count True True u tag' added' v')
    (hread : ∀ c ∈ added, ∃ handle,
      Runtime.handleOf u.broker.runtime.settings.network c = .ok handle)
    (hread' : ∀ c ∈ added', ∃ handle,
      Runtime.handleOf u.broker.runtime.settings.network c = .ok handle) :
    List.Forall₂ Container.Twin v.engine.containers v'.engine.containers ∧
      ∀ id, v'.routes.get? id = v.routes.get? id := by
  have hpairs := h.forall₂_twin h'
  constructor
  · rw [h.containers, h'.containers]
    exact List.rel_append (List.forall₂_same.2 fun c _ => .refl c) hpairs
  intro id
  by_cases htable : u.HasTable
  · by_cases hid : ∃ c ∈ added, c.id = id
    · obtain ⟨c, hc, rfl⟩ := hid
      obtain ⟨d, hd, htwin⟩ := exists_of_mem_right hpairs.flip hc
      obtain ⟨hc', hreadc⟩ := hread c hc
      obtain ⟨hd', hreadd⟩ := hread' d hd
      have hafter := h'.get?_added htable hd
      rw [htwin.id] at hafter
      rw [hafter, h.get?_added htable hc]
      unfold routeAfter
      rw [htwin.isRunning, routeOf_twin htwin hreadc hreadd, htwin.id]
    · have hid' : ∀ d ∈ added', d.id ≠ id := fun d hd he => by
        obtain ⟨c, hc, htwin⟩ := exists_of_mem_right hpairs hd
        exact hid ⟨c, hc, htwin.id.symm.trans he⟩
      rw [h.others id fun c hc he => hid ⟨c, hc, he⟩, h'.others id hid']
  · rw [routes_of_service (mt h.table.1 htable), routes_of_service (mt h'.table.1 htable)]

/-- An application that has grown in part and is then brought to the rest has grown at once, if the
containers of the part run when they should. -/
theorem Raised.trans {rest : Nat} (h : Raised platform k r count full False u tag added v)
    (h' : Raised platform k r' rest True True v tag' added' w)
    (hn : Engine.Numbered w.engine.containers w.engine.made) (hrest : added.length + rest = count)
    (hleft : u.Active k → ∀ c ∈ added, c.isRunning = true ∧ Serves platform u c v)
    {breed : Tag} (hbreed : u.Breeds k r breed) (hbreed' : v.Breeds k r' breed) :
    Raised platform k r count True True u breed (added ++ added') w := by
  have hreplicas : List.Forall₂ (·.IsReplica u.broker.runtime.settings k breed ·) added
      (List.range' (u.engine.made + 1) added.length) := by
    cases added with
    | nil => exact .nil
    | cons c cs => exact (h.breeds (List.cons_ne_nil c cs)).unique hbreed ▸ h.replicas
  have hreplicas' : List.Forall₂ (·.IsReplica u.broker.runtime.settings k breed ·) added'
      (List.range' (u.engine.made + 1 + added.length) added'.length) := by
    cases added' with
    | nil => exact .nil
    | cons c cs =>
      have hmade : u.engine.made + 1 + added.length = v.engine.made + 1 := by
        rw [h.made]
        omega
      rw [hmade, ← h.settings]
      exact (h'.breeds (List.cons_ne_nil c cs)).unique hbreed' ▸ h'.replicas
  -- What is made afterwards leaves the routes of what was made before.
  have hkept {c : Container} (hc : c ∈ added) : w.routes.get? c.id = v.routes.get? c.id :=
    h'.others c.id fun d hd he => h'.ne_id hn (h.mem hc) hd he.symm
  have hfresh {d : Container} (hd : d ∈ added') : v.routes.get? d.id = u.routes.get? d.id :=
    h.others d.id fun c hc => h'.ne_id hn (h.mem hc) hd
  have hlength := h'.length_eq trivial
  exact {
    toUnwritten := h.toUnwritten.trans h'.toUnwritten
    containers := by rw [h'.containers, h.containers, List.append_assoc]
    made := by rw [h'.made, h.made, List.length_append, Nat.add_assoc]
    replicas := by
      rw [List.length_append, ← List.range'_append_1]
      exact List.rel_append hreplicas hreplicas'
    others := fun id hid => by
      rw [h'.others id fun c hc => hid c (List.mem_append_right _ hc),
        h.others id fun c hc => hid c (List.mem_append_left _ hc)]
    routed := fun c hc => by
      rcases List.mem_append.1 hc with hc | hc
      · rw [hkept hc]
        exact h.routed c hc
      · rw [← hfresh hc, ← h.toUnwritten.routeOf]
        exact h'.routed c hc
    breeds := fun _ => hbreed
    length_le := by
      rw [List.length_append]
      omega
    length_eq := fun _ => by
      rw [List.length_append]
      omega
    idle := fun hidle c hc => by
      rcases List.mem_append.1 hc with hc | hc
      · exact h.idle hidle c hc
      · exact h'.idle (mt h.active_iff.1 hidle) c hc
    active := fun _ hactive c hc => by
      rcases List.mem_append.1 hc with hc | hc
      · obtain ⟨hrun, hserves⟩ := hleft hactive c hc
        refine ⟨hrun, fun htable endpoints hof => ?_⟩
        rw [hkept hc]
        exact hserves htable endpoints hof
      · obtain ⟨hrun, hserves⟩ := h'.active trivial (h.active_iff.2 hactive) c hc
        exact ⟨hrun, .of_unwritten h.toUnwritten hserves⟩ }

theorem Grown.made_lt (h : Grown platform k tag u added v) {c : Container} (hc : c ∈ added) :
    u.engine.made < c.number := by
  obtain ⟨n, hn, hreplica⟩ := exists_of_mem_right h.replicas.flip hc
  rw [Container.IsReplica.number_eq hreplica]
  have := (List.mem_range'_1.1 hn).1
  omega

/-! ## Shrinking again -/

/-- What is left when an application has shrunk: the containers that are old enough to stay, and
those of the others that are not gone. -/
theorem Shrunk.frameworks_append (h : Shrunk ((u.surplus k target).map (·.id)) u gone v)
    (hn : Engine.Numbered u.engine.containers u.engine.made) :
    v.frameworks k = (u.frameworks k).take target.toNat ++
      (u.surplus k target).filter (·.id ∉ gone) := by
  have hold : ((u.frameworks k).take target.toNat).filter (·.id ∉ gone) =
      (u.frameworks k).take target.toNat :=
    List.filter_eq_self.2 fun c hc =>
      decide_eq_true fun hgone => not_mem_surplus hn hc (h.subset hgone)
  rw [h.frameworks, ← hold, World.surplus, ← List.filter_append, List.take_append_drop]

/-- Of the framework containers that are one too many, those that are not gone are left. -/
theorem Shrunk.surplus (h : Shrunk ((u.surplus k target).map (·.id)) u gone v)
    (hn : Engine.Numbered u.engine.containers u.engine.made)
    (hle : target ≤ (u.frameworks k).length) :
    v.surplus k target = (u.surplus k target).filter (·.id ∉ gone) := by
  unfold World.surplus
  rw [h.frameworks_append hn]
  refine List.drop_left' ?_
  rw [List.length_take]
  omega

/-- An application that has shrunk in part and is then brought to the rest has shrunk as at once. -/
theorem Shrunk.twice {gone₂ : List String} (h : Shrunk ((u.surplus k target).map (·.id)) u gone v)
    (hall : Shrunk ((u.surplus k target).map (·.id)) u gone' v')
    (hgone' : (u.surplus k target).map (·.id) ⊆ gone')
    (h₂ : Shrunk ((w.surplus k target).map (·.id)) w gone₂ w')
    (hgone₂ : (w.surplus k target).map (·.id) ⊆ gone₂)
    (hcontainers : w.engine.containers = v.engine.containers)
    (hroutes : ∀ id, w.routes.get? id = v.routes.get? id)
    (hsurplus : w.surplus k target = (u.surplus k target).filter (·.id ∉ gone)) :
    w'.engine.containers = v'.engine.containers ∧ ∀ id, w'.routes.get? id = v'.routes.get? id := by
  have hmem (id : String) : id ∈ (w.surplus k target).map (·.id) ↔
      id ∈ (u.surplus k target).map (·.id) ∧ id ∉ gone := by
    rw [hsurplus]
    simp only [List.mem_map, List.mem_filter, decide_eq_true_eq]
    grind
  constructor
  · rw [h₂.containers, hcontainers, h.containers, hall.containers, List.filter_filter]
    refine List.filter_congr fun c _ => ?_
    rw [Bool.eq_iff_iff, Bool.and_eq_true, decide_eq_true_eq, decide_eq_true_eq, decide_eq_true_eq]
    have h1 := hmem c.id
    have h2 := @h.subset c.id
    have h3 := @hall.subset c.id
    have h4 := @hgone' c.id
    have h5 := @h₂.subset c.id
    have h6 := @hgone₂ c.id
    tauto
  · intro id
    by_cases hid : id ∈ (u.surplus k target).map (·.id)
    · rw [hall.unrouted id (hgone' hid)]
      by_cases hgone : id ∈ gone
      · rw [h₂.others id fun h => ((hmem id).1 h).2 hgone, hroutes]
        exact h.unrouted id hgone
      · exact h₂.unrouted id (hgone₂ ((hmem id).2 ⟨hid, hgone⟩))
    · rw [h₂.others id fun h => hid ((hmem id).1 h).1, hroutes, h.others id hid, hall.others id hid]

/-! ## The world that a failed scaling leaves -/

/-- The world in which no call to the engine fails any more. -/
def relieved (w : World) : World :=
  { w with engine := { w.engine with faults := fun _ _ => none, limit := none } }

theorem Dependable.relieved {lenient : Bool} (h : w.Dependable lenient) :
    w.relieved.Dependable lenient where
  numbered := h.numbered
  truthful := ⟨nofun, nofun⟩
  lenient_eq := h.lenient_eq
  storing := ⟨h.storing.faithful, h.storing.has, h.storing.holds, h.storing.real⟩

theorem runInOrder_relieved {α : Type} {lenient : Bool} (p : Program α) (h : w.Dependable lenient)
    (hseq : w.Sequenced) (hexact : lenient = false) :
    p.runInOrder w.relieved = p.run w.relieved :=
  runInOrder_eq p (h.lenient_eq.trans hexact) hseq h.numbered

theorem Unwritten.relieved (h : w.Unwritten w') : w.relieved.Unwritten w'.relieved :=
  ⟨⟨h.hub, h.store, h.codec, h.settings, h.table⟩, h.disk⟩

theorem Raised.relieved (h : Raised platform k r count full done u tag added v) :
    Raised platform k r count full done u.relieved tag added v.relieved :=
  ⟨⟨h.toUnwritten.relieved, h.containers, h.made, h.replicas, h.others, h.routed⟩, h.breeds,
    h.length_le, h.length_eq, h.idle, h.active⟩

theorem Shrunk.relieved (h : Shrunk dropped u gone v) : Shrunk dropped u.relieved gone v.relieved :=
  ⟨h.toUnwritten.relieved, h.containers, h.made, h.subset, h.unrouted, h.others⟩

theorem Raised.unmoved (h : Raised platform k r count full done u tag added v)
    (hunmoved : v.Unmoved v') (hdisk : v'.disk = v.disk) :
    Raised platform k r count full done u tag added v' := by
  have hgrown := h.toGrown.still ⟨hunmoved.toSetUp, hdisk⟩ hunmoved.containers hunmoved.made
    hunmoved.routes_eq
  refine ⟨hgrown, h.breeds, h.length_le, h.length_eq, h.idle, fun hdone hactive c hc => ?_⟩
  obtain ⟨hrun, hserves⟩ := h.active hdone hactive c hc
  refine ⟨hrun, fun htable endpoints hof => ?_⟩
  rw [hunmoved.routes_eq]
  exact hserves htable endpoints hof

theorem HalfScaled.exists_adjusted (h : HalfScaled platform k target w w')
    (hr : w.recordAt k = some r) : ∃ full wₐ, Adjusted platform k r target full False w wₐ ∧
      wₐ.Unmoved w' ∧ (w'.disk = w.disk ∨ full ∧ Rescaled k r target w w') := by
  rcases h with ⟨hunmoved, hdisk⟩ | ⟨r', full, wₐ, hr', hrest⟩
  · exact ⟨False, w, (Quiet.refl w).adjusted, hunmoved, .inl hdisk⟩
  · obtain rfl := Option.some.inj (hr'.symm.trans hr)
    exact ⟨full, wₐ, hrest⟩

/-- A failed scaling leaves the records as they were, but for the number that one of them tells. -/
theorem HalfScaled.exists_record (h : HalfScaled platform k target w w') (hk : k.IsFiled)
    (hr : w.recordAt k = some r) : ∃ r', w'.recordAt k = some r' ∧
      { r' with scaling := target } = { r with scaling := target } ∧
      ∀ k' : AppKey, k'.IsFiled → k' ≠ k → w'.recordAt k' = w.recordAt k' := by
  obtain ⟨full, wₐ, hadjusted, hunmoved, hdisk | ⟨-, hrecords⟩⟩ := h.exists_adjusted hr
  · have hu : w.Unwritten w' := hadjusted.unwritten.trans
      ⟨hunmoved.toSetUp, hdisk.trans hadjusted.unwritten.disk.symm⟩
    exact ⟨r, (hu.recordAt k).trans hr, rfl, fun k' _ _ => hu.recordAt k'⟩
  · exact ⟨_, (hrecords k hk).trans (if_pos rfl), rfl, fun k' hk' hne =>
      (hrecords k' hk').trans (if_neg hne)⟩

/-- What new containers are made for stays the same, however far an adjustment has come. -/
theorem Adjusted.breeds (h : Adjusted platform k r target full done u v)
    (hn : Engine.Numbered u.engine.containers u.engine.made) (htarget : 1 ≤ target)
    (htag : u.Breeds k r tag) (hslot : tag.service = "") (hr : r'.framework = r.framework) :
    v.Breeds k r' tag := by
  rcases Int.le_total (u.frameworks k).length target with hle | hle
  · obtain ⟨tag', added, hraised⟩ := h.raised hle
    have htag' (hne : added ≠ []) : tag' = tag := (hraised.breeds hne).unique htag
    have hframeworks := hraised.frameworks_of_slot fun hne => htag' hne ▸ hslot
    have hreads := htag.reads
    unfold Breeds at htag ⊢
    rw [hframeworks]
    cases hcs : u.frameworks k with
    | cons c cs =>
      rw [hcs] at htag
      exact htag
    | nil =>
      rw [hcs] at htag
      cases added with
      | nil => rwa [hr]
      | cons d ds =>
        obtain ⟨n, hreplica⟩ := hraised.replica List.mem_cons_self
        obtain rfl := htag' (List.cons_ne_nil d ds)
        exact ⟨_, hreplica.tag_label, hreads⟩
  · obtain ⟨gone, hshrunk, -⟩ := h.shrunk hle
    unfold Breeds at htag ⊢
    rw [hshrunk.frameworks]
    cases hcs : u.frameworks k with
    | nil =>
      rw [hcs, List.length_nil] at hle
      omega
    | cons c cs =>
      have hold : c ∈ (u.frameworks k).take target.toNat := by
        rw [hcs, show target.toNat = (target.toNat - 1) + 1 by omega]
        exact List.mem_cons_self
      have hstays : c.id ∉ gone := fun hgone => not_mem_surplus hn hold (hshrunk.subset hgone)
      rw [List.filter_cons, if_pos (decide_eq_true hstays)]
      rw [hcs] at htag
      exact htag

/-- Whether two worlds are the same in what operations on applications leave: containers up to their
sequence numbers, routes and records. -/
structure Matches (w w' : World) : Prop where
  containers : List.Forall₂ Container.Twin w.engine.containers w'.engine.containers
  routes : ∀ id, w'.routes.get? id = w.routes.get? id
  records : ∀ k : AppKey, k.IsFiled → w'.recordAt k = w.recordAt k

/-- An application that was to grow and has in part is brought to the rest as it would have grown at
once. The record is written only when all containers are there, so until then plugins are looked up
on the same disk. -/
theorem Raised.resumed {rest : Nat} {breed tag₂ : Tag} {added₂ : List Container}
    {wₐ w₁ wo wg : World}
    (h : Raised platform k r count full False w tag added wₐ) (hunmoved : wₐ.Unmoved w₁)
    (hdisk : w₁.disk = w.disk ∨ full)
    (hleft : w.Active k → ∀ c ∈ w₁.engine.containers, w.engine.made < c.number →
      c.isRunning = true ∧ Serves platform w c w₁)
    (honce : Raised platform k r count True True w.relieved tag' added' wo)
    (hagain : Raised platform k r' rest True True w₁.relieved tag₂ added₂ wg)
    (hrest : added.length + rest = count)
    (hn : Engine.Numbered wg.engine.containers wg.engine.made) (hbreed : w.Breeds k r breed)
    (hbreed' : w₁.Breeds k r' breed)
    (hread : ∀ c ∈ added', ∃ handle,
      Runtime.handleOf w.broker.runtime.settings.network c = .ok handle)
    (hread' : ∀ c ∈ added ++ added₂, ∃ handle,
      Runtime.handleOf w.broker.runtime.settings.network c = .ok handle) :
    List.Forall₂ Container.Twin wo.engine.containers wg.engine.containers ∧
      ∀ id, wg.routes.get? id = wo.routes.get? id := by
  have hadded (hactive : w.Active k) (c : Container) (hc : c ∈ added) :
      c.isRunning = true ∧ Serves platform w c w₁ :=
    hleft hactive c (hunmoved.containers ▸ h.mem hc) (h.made_lt hc)
  rcases hdisk with hdisk | hfull
  · have hsofar := (h.unmoved hunmoved (hdisk.trans h.disk.symm)).relieved
    exact honce.twins (hsofar.trans hagain hn hrest hadded hbreed hbreed') hread hread'
  · -- Nothing is left to be made, so the world is as the first scaling left it.
    have hall : Raised platform k r count True True w.relieved tag added wₐ.relieved :=
      { h.relieved with
        length_eq := fun _ => h.length_eq hfull
        active := fun _ hactive c hc => by
          obtain ⟨hrun, hserves⟩ := hadded hactive c hc
          refine ⟨hrun, fun htable endpoints hof => ?_⟩
          have := hserves htable endpoints hof
          rwa [hunmoved.routes_eq] at this }
    have hnone : added₂ = [] := by
      have := hagain.length_le
      have := h.length_eq hfull
      exact List.length_eq_zero_iff.1 (by omega)
    subst hnone
    rw [List.append_nil] at hread'
    obtain ⟨hcontainers, hroutes⟩ := honce.twins hall hread hread'
    refine ⟨?_, fun id => ?_⟩
    · rw [hagain.containers, List.append_nil]
      show List.Forall₂ _ _ w₁.engine.containers
      rw [hunmoved.containers]
      exact hcontainers
    · rw [hagain.others id nofun, ← hroutes id]
      show w₁.routes.get? id = wₐ.routes.get? id
      rw [hunmoved.routes_eq]

theorem readable_of_forall₂ {network : String} {cs : List Container} {hs : List Handle}
    (h : List.Forall₂ (fun c h => Runtime.handleOf network c = .ok h) cs hs) {c : Container}
    (hc : c ∈ cs) : ∃ handle, Runtime.handleOf network c = .ok handle := by
  obtain ⟨handle, -, hof⟩ := exists_of_mem_right h.flip hc
  exact ⟨handle, hof⟩

/-- An application that was to grow, and has in part, has grown after the next adjustment as it would
have grown at once. -/
theorem Raised.retried {breed : Tag} {w₁ wₐ wo wg : World} {hs hs' : List Handle}
    (h : Raised platform k r (target - (w.frameworks k).length).toNat full False w tag added wₐ)
    (hle : ((w.frameworks k).length : Int) ≤ target) (hunmoved : wₐ.Unmoved w₁)
    (hdisk : w₁.disk = w.disk ∨ full)
    (hleft : w.Active k → ∀ c ∈ w₁.engine.containers, w.engine.made < c.number →
      c.isRunning = true ∧ Serves platform w c w₁)
    (honce : Adjusted platform k r target True True w.relieved wo)
    (hagain : Adjusted platform k r' target True True w₁.relieved wg)
    (hn : Engine.Numbered wg.engine.containers wg.engine.made)
    (hbreed : w.Breeds k r breed) (hbreed' : w₁.Breeds k r' breed) (hslot : breed.service = "")
    (hread : List.Forall₂ (fun c h =>
      Runtime.handleOf w.broker.runtime.settings.network c = .ok h) (wo.frameworks k) hs)
    (hread' : List.Forall₂ (fun c h =>
      Runtime.handleOf w₁.broker.runtime.settings.network c = .ok h) (wg.frameworks k) hs') :
    List.Forall₂ Container.Twin wo.engine.containers wg.engine.containers ∧
      ∀ id, wg.routes.get? id = wo.routes.get? id := by
  obtain ⟨tag', added', honce⟩ := honce.raised hle
  have hsofar : w₁.frameworks k = w.frameworks k ++ added := (hunmoved.frameworks_eq k).trans <|
    h.frameworks_of_slot fun hne => (h.breeds hne).unique hbreed ▸ hslot
  have hcount := h.length_le
  have hle' : ((w₁.frameworks k).length : Int) ≤ target := by
    rw [hsofar, List.length_append]
    omega
  obtain ⟨tag₂, added₂, hagain⟩ := hagain.raised hle'
  have hlast : wo.frameworks k = w.frameworks k ++ added' :=
    honce.frameworks_of_slot fun hne => (honce.breeds hne).unique hbreed ▸ hslot
  have hlast' : wg.frameworks k = w₁.frameworks k ++ added₂ :=
    hagain.frameworks_of_slot fun hne => (hagain.breeds hne).unique hbreed' ▸ hslot
  have hrest : added.length + (target - (w₁.frameworks k).length).toNat =
      (target - (w.frameworks k).length).toNat := by
    rw [hsofar, List.length_append]
    omega
  refine h.resumed hunmoved hdisk hleft honce hagain hrest hn hbreed hbreed' (fun c hc => ?_)
    fun c hc => ?_
  · refine readable_of_forall₂ hread ?_
    rw [hlast]
    exact List.mem_append_right _ hc
  · have hsettings : w₁.broker.runtime.settings = w.broker.runtime.settings :=
      hunmoved.settings.trans h.settings
    rw [← hsettings]
    refine readable_of_forall₂ hread' ?_
    rw [hlast', hsofar, List.append_assoc]
    exact List.mem_append_right _ hc

/-- An application that was to shrink, and has in part, has shrunk after the next adjustment as it
would have shrunk at once. -/
theorem Shrunk.retried {w₁ wₐ wo wg : World}
    (h : Shrunk ((w.surplus k target).map (·.id)) w gone wₐ)
    (hn : Engine.Numbered w.engine.containers w.engine.made)
    (hle : target ≤ (w.frameworks k).length) (hunmoved : wₐ.Unmoved w₁)
    (honce : Adjusted platform k r target True True w.relieved wo)
    (hagain : Adjusted platform k r' target True True w₁.relieved wg) :
    List.Forall₂ Container.Twin wo.engine.containers wg.engine.containers ∧
      ∀ id, wg.routes.get? id = wo.routes.get? id := by
  obtain ⟨gone', honce, hgone'⟩ := honce.shrunk hle
  have hframeworks : w₁.frameworks k = wₐ.frameworks k := hunmoved.frameworks_eq k
  have hsurplus : w₁.surplus k target = (w.surplus k target).filter (·.id ∉ gone) := by
    unfold World.surplus
    rw [hframeworks]
    exact h.surplus hn hle
  have hle' : target ≤ (w₁.frameworks k).length := by
    rw [hframeworks, h.frameworks_append hn, List.length_append, List.length_take]
    omega
  obtain ⟨gone₂, hagain, hgone₂⟩ := hagain.shrunk hle'
  have hsofar : Shrunk ((w.relieved.surplus k target).map (·.id)) w.relieved gone wₐ.relieved :=
    h.relieved
  have hroutes₁ (id : String) : w₁.relieved.routes.get? id = wₐ.relieved.routes.get? id :=
    congrArg (·.get? id) hunmoved.routes_eq
  obtain ⟨hcontainers, hroutes⟩ := hsofar.twice honce (hgone' trivial) hagain (hgone₂ trivial)
    hunmoved.containers hroutes₁ hsurplus
  refine ⟨?_, hroutes⟩
  rw [hcontainers]
  exact List.forall₂_same.2 fun c _ => .refl c

/-- After a failed scaling new containers are made for what they were made for before. -/
theorem HalfScaled.exists_breeds (h : HalfScaled platform k target w w') (hk : k.IsFiled)
    (hn : Engine.Numbered w.engine.containers w.engine.made) (htarget : 1 ≤ target)
    (hr : w.recordAt k = some r) (htag : w.Breeds k r tag) (hslot : tag.service = "") :
    ∃ r', w'.recordAt k = some r' ∧ w'.Breeds k r' tag := by
  obtain ⟨r', hr', hsame, -⟩ := h.exists_record hk hr
  obtain ⟨full, wₐ, hadjusted, hunmoved, -⟩ := h.exists_adjusted hr
  have hframework : r'.framework = r.framework := by
    have hplugins : r'.plugins = r.plugins := (Record.mk.inj hsame).2.1
    unfold Record.framework
    rw [hplugins]
  refine ⟨r', hr', ?_⟩
  have hbreeds := hadjusted.breeds hn htarget htag hslot hframework
  unfold Breeds at hbreeds ⊢
  rwa [hunmoved.frameworks_eq]

/-- A failed scaling and one without failures after it leave what the latter would have left by
itself. -/
theorem HalfScaled.retried {w₁ wo wg : World} {hs hs' : List Handle}
    (h : HalfScaled platform k target w w₁) (hk : k.IsFiled)
    (hn : Engine.Numbered w.engine.containers w.engine.made) (htarget : 1 ≤ target)
    (hr : w.recordAt k = some r) (htag : w.Breeds k r tag) (hslot : tag.service = "")
    (hleft : w.Active k → ∀ c ∈ w₁.engine.containers, w.engine.made < c.number →
      c.isRunning = true ∧ Serves platform w c w₁)
    (honce : Scaled platform k target True w.relieved hs wo)
    (hagain : Scaled platform k target True w₁.relieved hs' wg)
    (hn' : Engine.Numbered wg.engine.containers wg.engine.made) : wo.Matches wg := by
  obtain ⟨r₁, hr₁, hsame, hothers⟩ := h.exists_record hk hr
  obtain ⟨r₁', hr₁', hbreed₁⟩ := h.exists_breeds hk hn htarget hr htag hslot
  obtain rfl := Option.some.inj (hr₁'.symm.trans hr₁)
  obtain ⟨full, wₐ, hadjusted, hunmoved, hdisk⟩ := h.exists_adjusted hr
  obtain ⟨ro, wo', hro, hadjustedo, hunmovedo, hrecordso, hreado⟩ := honce
  obtain rfl : r = ro := Option.some.inj (hr.symm.trans hro)
  obtain ⟨rg, wg', hrg, hadjustedg, hunmovedg, hrecordsg, hreadg⟩ := hagain
  obtain rfl : r₁' = rg := Option.some.inj (hr₁.symm.trans hrg)
  rw [hunmovedo.frameworks_eq] at hreado
  rw [hunmovedg.frameworks_eq] at hreadg
  rw [hunmovedg.containers, hunmovedg.made] at hn'
  obtain ⟨hcontainers, hroutes⟩ : List.Forall₂ Container.Twin wo'.engine.containers
      wg'.engine.containers ∧ ∀ id, wg'.routes.get? id = wo'.routes.get? id := by
    rcases Int.le_total (w.frameworks k).length target with hle | hle
    · obtain ⟨tag₁, added, hraised⟩ := hadjusted.raised hle
      exact hraised.retried hle hunmoved (hdisk.imp_right And.left) hleft hadjustedo hadjustedg hn'
        htag hbreed₁ hslot hreado hreadg
    · obtain ⟨gone, hshrunk, -⟩ := hadjusted.shrunk hle
      exact hshrunk.retried hn hle hunmoved hadjustedo hadjustedg
  refine ⟨?_, fun id => ?_, fun k' hk' => ?_⟩
  · rw [hunmovedo.containers, hunmovedg.containers]
    exact hcontainers
  · rw [hunmovedo.routes_eq, hunmovedg.routes_eq]
    exact hroutes id
  · rw [hrecordsg k' hk', hrecordso k' hk', hsame]
    split
    · rfl
    · exact hothers k' hk' (by assumption)

end World

/-- A scaling that failed, in whatever way the engine let it fail, and is then asked for again
without failures leaves all as if it had not failed at first, as long as it did not leave containers
that should run and were not started and published. -/
theorem scaling_can_be_retried (platform : PlatformSettings) (caller : Caller) (name : String)
    (target : Int) (r : Record) (w w₁ : World) (e : Failure) (hreached : w.Timely platform)
    (ht : '/' ∉ caller.tenant.toList) (htenant : caller.tenant ≠ "")
    (hname : w.engine.lenient = false ∨ name ≠ "") (htarget : 1 ≤ target)
    (hrecord : w.recordAt (caller.key name) = some r)
    (htags : ∀ c ∈ w.frameworks (caller.key name),
      ∃ tag, Made c.labels tag ∧ Tag.parse tag.format = .ok tag)
    (hframework : w.frameworks (caller.key name) = [] →
      ∃ text tag, r.framework = .ok text ∧ Tag.parse text = .ok tag ∧ tag.service = "")
    (hfailed : (scale platform caller name target).run w = (.error e, w₁))
    (hleft : w.Active (caller.key name) → ∀ c ∈ w₁.engine.containers, w.engine.made < c.number →
      c.isRunning = true ∧ World.Serves platform w c w₁)
    (honce : (scale platform caller name target).Along
      (fun c w => w.serves c = true ∧ w.informs c = true) w.relieved)
    (hagain : (scale platform caller name target).Along
      (fun c w => w.serves c = true ∧ w.informs c = true) w₁.relieved) :
    let once := (scale platform caller name target).run w.relieved
    let again := (scale platform caller name target).run w₁.relieved
    (∃ handles, once.1 = .ok handles) ∧ (∃ handles, again.1 = .ok handles) ∧
      once.2.Matches again.2 := by
  intro once again
  have hw := hreached.dependable
  have hseq := hreached.sequenced
  obtain ⟨breed, hbreed, hslot⟩ := World.exists_breeds htags hframework
  have hfirst := Scaling.run_scale platform False hw hseq ht hname htarget False.elim False.elim
  rw [hfailed] at hfirst
  obtain ⟨⟨hw₁, hseq₁⟩, -, hhalf⟩ := hfirst
  obtain ⟨r₁, hr₁, hbreed₁⟩ := hhalf.exists_breeds ht hw.numbered htarget hrecord hbreed hslot
  obtain ⟨hs, hok, hscaled⟩ := Scaling.run_scale_cleanly platform hw.relieved hseq ht htenant hname
    htarget hrecord hbreed honce
  obtain ⟨hs', hok', hscaled'⟩ := Scaling.run_scale_cleanly platform hw₁.relieved hseq₁ ht htenant
    hname htarget hr₁ hbreed₁ hagain
  have hlast := (Scaling.run_scale platform False hw₁.relieved hseq₁ ht hname htarget False.elim
    False.elim).1.1
  exact ⟨⟨hs, hok⟩, ⟨hs', hok'⟩, hhalf.retried ht hw.numbered htarget hrecord hbreed hslot hleft
    hscaled hscaled' hlast.numbered⟩

namespace Rescaling

/-- An application of one container, which was started and takes up all room. -/
noncomputable def filled : World := after [.create "web" "python" [] 1 true] (cramped 1)

/-- The second container is made when there is room for it, as it would have been at first. -/
theorem refused_container_is_made_later :
    ∃ e, ((scale {} caller "web" 2).run filled).1 = .error e ∧
      (∃ handles, ((scale {} caller "web" 2).run
        ((scale {} caller "web" 2).run filled).2.relieved).1 = .ok handles) ∧
      ((scale {} caller "web" 2).run filled.relieved).2.Matches
        ((scale {} caller "web" 2).run ((scale {} caller "web" 2).run filled).2.relieved).2 := by
  obtain ⟨hrecord, hlabels, hmanned, hfailed, hleft, honce, hagain⟩ :
      (filled.recordAt web).isSome = true ∧
      (∀ c ∈ filled.frameworks web, c.labels.get? Runtime.serviceLabel = some "" ∧
        c.labels.get? Runtime.tagLabel = some "python:3.9" ∧
        (Text.integer? ((c.labels.get? Runtime.sequenceLabel).getD "0")).isSome = true) ∧
      filled.frameworks web ≠ [] ∧
      ((scale {} caller "web" 2).run filled).1.isOk = false ∧
      (∀ c ∈ ((scale {} caller "web" 2).run filled).2.engine.containers,
        ¬ filled.engine.made < c.number) ∧
      (scale {} caller "web" 2).Along (fun c w => w.serves c = true ∧ w.informs c = true)
        filled.relieved ∧
      (scale {} caller "web" 2).Along (fun c w => w.serves c = true ∧ w.informs c = true)
        ((scale {} caller "web" 2).run filled).2.relieved := by
    decide +kernel
  obtain ⟨r, hr⟩ := Option.isSome_iff_exists.1 hrecord
  cases hresult : (scale {} caller "web" 2).run filled with
  | mk result w₁ =>
  rw [hresult] at hfailed hleft hagain
  cases result with
  | ok handles => cases hfailed
  | error e =>
    have hall := scaling_can_be_retried {} caller "web" 2 r filled w₁ e
      (timely_after _ (isNew_cramped 1)) (by decide) (by decide) (.inr (by decide)) (by decide) hr
      (fun c hc => ⟨⟨"python", "", "3.9", "", by decide⟩,
        ⟨(hlabels c hc).1, (hlabels c hc).2.1, (hlabels c hc).2.2⟩, by decide⟩)
      (fun hnone => absurd hnone hmanned) hresult
      (fun _ c hc hmade => absurd hmade (hleft c hc)) honce hagain
    exact ⟨e, rfl, hall.2.1, hall.2.2⟩

/-- What a failed scaling leaves of the application, and what another one then comes to, next to what
it would have come to at first. -/
theorem started_scaled : started.engine.lenient = false ∧
    (∀ c ∈ started.engine.containers, c.isRunning = true ∧
      (started.routes.get? c.id).isSome = true) ∧
    ((scale {} caller "web" 3).run started).1.isOk = false ∧
    ((scale {} caller "web" 3).runInOrder started.relieved).1.isOk = true ∧
    ((scale {} caller "web" 3).runInOrder
      ((scale {} caller "web" 3).run started).2.relieved).1.isOk = true ∧
    ((scale {} caller "web" 3).runInOrder started.relieved).2.engine.containers.map (·.status) ≠
      ((scale {} caller "web" 3).runInOrder
        ((scale {} caller "web" 3).run started).2.relieved).2.engine.containers.map (·.status) := by
  decide +kernel

/-- A container that was made but not started is counted the second time, and left as it is. -/
theorem unstarted_container_is_forgotten :
    started.Timely {} ∧
      (∀ c ∈ started.engine.containers, c.isRunning = true ∧
        (started.routes.get? c.id).isSome = true) ∧
      ((scale {} caller "web" 3).run started).1.isOk = false ∧
      ((scale {} caller "web" 3).run started.relieved).1.isOk = true ∧
      ((scale {} caller "web" 3).run
        ((scale {} caller "web" 3).run started).2.relieved).1.isOk = true ∧
      ¬ ((scale {} caller "web" 3).run started.relieved).2.Matches
        ((scale {} caller "web" 3).run ((scale {} caller "web" 3).run started).2.relieved).2 := by
  have htimely : started.Timely {} := timely_after _ (isNew_cramped 2)
  have hfiled : web.IsFiled := show '/' ∉ caller.tenant.toList by decide
  have hw := htimely.dependable
  have hseq := htimely.sequenced
  obtain ⟨hexact, hrunning, hfailed, honce, hagain, hstatus⟩ := started_scaled
  obtain ⟨hw₁, hseq₁⟩ := (Scaling.run_scale {} False hw hseq hfiled (.inr (by decide))
    (by decide : (1 : Int) ≤ 3) False.elim False.elim).1
  rw [World.runInOrder_relieved _ hw hseq hexact] at honce hstatus
  rw [World.runInOrder_relieved _ hw₁ hseq₁ hexact] at hagain hstatus
  refine ⟨htimely, hrunning, hfailed, honce, hagain, fun hmatches => hstatus ?_⟩
  rw [← List.forall₂_eq_eq_eq, List.forall₂_map_left_iff, List.forall₂_map_right_iff]
  exact hmatches.containers.imp fun _ _ htwin => htwin.status.symm

end Rescaling

end AppBroker
