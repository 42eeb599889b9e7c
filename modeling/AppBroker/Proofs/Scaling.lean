import AppBroker.Proofs.ScaleRuns
import AppBroker.Proofs.TagGrammar

/-!
# What scaling does

A scaling in which no call fails leaves exactly as many framework containers as it was asked for:
the oldest ones stay as they are, the rest go with their routes, or new ones come after them
(`World.ScaledTo`). New containers are made for the tag that the oldest one tells, and run if the
application was active. This needs a tag that reads back as one without a service: a tag that reads
otherwise makes containers that fill no slot of the framework.

However a scaling ends, it leaves the application as active as it was, unless all containers that
run are among those that are one too many (`scaling_keeps_run_state`).
-/

namespace AppBroker

open Program Lifecycle

namespace World

variable {platform : PlatformSettings} {k : AppKey} {r : Record} {tag : Tag} {target : Int}
  {full done : Prop} {w w' w₀ : World} {added : List Container} {dropped gone : List String}

/-! ## The framework containers afterwards -/

theorem Grown.frameworks (h : Grown platform k tag w₀ added w) :
    w.frameworks k = w₀.frameworks k ++ added.filter (·.slot = "") := by
  have hown : added.filter (·.BelongsTo k) = added := List.filter_eq_self.2 fun c hc => by
    obtain ⟨n, hn⟩ := h.replica hc
    exact decide_eq_true hn.belongsTo
  unfold World.frameworks lineup
  rw [h.containers, List.filter_append, List.filter_append, hown]

theorem Grown.frameworks_of_slot (h : Grown platform k tag w₀ added w)
    (hslot : added ≠ [] → tag.service = "") :
    w.frameworks k = w₀.frameworks k ++ added := by
  have hall : added.filter (·.slot = "") = added := List.filter_eq_self.2 fun c hc => by
    obtain ⟨n, hn⟩ := h.replica hc
    exact decide_eq_true (hn.slot.trans (hslot (List.ne_nil_of_mem hc)))
  rw [h.frameworks, hall]

theorem Shrunk.frameworks (h : Shrunk dropped w₀ gone w) (k : AppKey) :
    w.frameworks k = (w₀.frameworks k).filter (·.id ∉ gone) := by
  unfold World.frameworks lineup
  rw [h.containers, List.filter_comm (fun c : Container => decide (c.id ∉ gone)),
    List.filter_comm (fun c : Container => decide (c.id ∉ gone))]

theorem frameworks_sublist (w : World) (k : AppKey) :
    (w.frameworks k).Sublist w.engine.containers :=
  List.filter_sublist.trans List.filter_sublist

theorem mem_frameworks {c : Container} :
    c ∈ w.frameworks k ↔ c ∈ w.engine.containers ∧ c.BelongsTo k ∧ c.slot = "" := by
  simp [World.frameworks, mem_lineup, and_assoc]

/-- A container that is old enough to stay is none of those that are one too many. -/
theorem not_mem_surplus (hn : Engine.Numbered w.engine.containers w.engine.made) {c : Container}
    (hc : c ∈ (w.frameworks k).take target.toNat) : c.id ∉ (w.surplus k target).map (·.id) := by
  intro hmem
  obtain ⟨d, hd, hid⟩ := List.mem_map.1 hmem
  have hsub := w.frameworks_sublist k
  have hincreasing := hn.increasing.sublist hsub
  rw [← List.take_append_drop target.toNat (w.frameworks k)] at hincreasing
  have hlt := (List.pairwise_append.1 hincreasing).2.2 c hc d hd
  obtain rfl := hn.eq_of_id (hsub.subset (List.mem_of_mem_drop hd))
    (hsub.subset (List.mem_of_mem_take hc)) hid
  exact absurd hlt (Nat.lt_irrefl _)

theorem filter_frameworks (hn : Engine.Numbered w.engine.containers w.engine.made) :
    (w.frameworks k).filter (·.id ∉ (w.surplus k target).map (·.id)) =
      (w.frameworks k).take target.toNat := by
  conv_lhs => rw [← List.take_append_drop target.toNat (w.frameworks k)]
  rw [List.filter_append, List.filter_eq_self.2 fun c hc => decide_eq_true (not_mem_surplus hn hc),
    List.filter_eq_nil_iff.2, List.append_nil]
  intro c hc
  simpa using ⟨c, hc, rfl⟩

/-! ## The run state -/

/-- Growing leaves an application as active as it was: new containers run only if another did. -/
theorem Raised.active_iff {count : Nat} (h : Raised platform k r count full done w₀ tag added w) :
    w.Active k ↔ w₀.Active k := by
  unfold Active
  rw [h.frameworks]
  constructor
  · rintro ⟨c, hc, hup⟩
    rcases List.mem_append.1 hc with hc | hc
    · exact ⟨c, hc, hup⟩
    · have hadded := (List.mem_filter.1 hc).1
      obtain ⟨n, hreplica⟩ := h.replica hadded
      by_contra hidle
      have := h.idle hidle c hadded
      rw [hreplica.isUp_iff.1 hup] at this
      cases this
  · rintro ⟨c, hc, hup⟩
    exact ⟨c, List.mem_append_left _ hc, hup⟩

/-- However far an adjustment has come, the application is as active as before if one of those
framework containers runs that are old enough to stay. -/
theorem Adjusted.active_iff (h : Adjusted platform k r target full done w₀ w)
    (hn : Engine.Numbered w₀.engine.containers w₀.engine.made)
    (hkept : w₀.Active k → ∃ c ∈ (w₀.frameworks k).take target.toNat, c.IsUp) :
    w.Active k ↔ w₀.Active k := by
  rcases Int.le_total (w₀.frameworks k).length target with hle | hle
  · obtain ⟨tag, added, hraised⟩ := h.raised hle
    exact hraised.active_iff
  · obtain ⟨gone, hshrunk, -⟩ := h.shrunk hle
    have hmem {c : Container} : c ∈ w.frameworks k ↔ c ∈ w₀.frameworks k ∧ c.id ∉ gone := by
      rw [hshrunk.frameworks, List.mem_filter, decide_eq_true_eq]
    constructor
    · rintro ⟨c, hc, hup⟩
      exact ⟨c, (hmem.1 hc).1, hup⟩
    · intro hactive
      obtain ⟨c, hc, hup⟩ := hkept hactive
      exact ⟨c, hmem.2 ⟨List.mem_of_mem_take hc, fun hgone =>
        not_mem_surplus hn hc (hshrunk.subset hgone)⟩, hup⟩

theorem HalfScaled.active_iff (h : HalfScaled platform k target w w')
    (hn : Engine.Numbered w.engine.containers w.engine.made)
    (hkept : w.Active k → ∃ c ∈ (w.frameworks k).take target.toNat, c.IsUp) :
    w'.Active k ↔ w.Active k := by
  unfold Active at *
  rcases h with ⟨hunmoved, -⟩ | ⟨r, full, wₐ, -, hadjusted, hunmoved, -⟩
  · rw [hunmoved.frameworks_eq]
  · rw [hunmoved.frameworks_eq]
    exact hadjusted.active_iff hn hkept

theorem Scaled.active_iff {hs : List Handle} (h : Scaled platform k target done w hs w')
    (hn : Engine.Numbered w.engine.containers w.engine.made)
    (hkept : w.Active k → ∃ c ∈ (w.frameworks k).take target.toNat, c.IsUp) :
    w'.Active k ↔ w.Active k := by
  obtain ⟨r, wₐ, -, hadjusted, hunmoved, -, -⟩ := h
  unfold Active at *
  rw [hunmoved.frameworks_eq]
  exact hadjusted.active_iff hn hkept

/-! ## The tag of new containers -/

theorem Breeds.unique {tag' : Tag} (h : w.Breeds k r tag) (h' : w.Breeds k r tag') :
    tag = tag' := by
  unfold Breeds at h h'
  generalize w.frameworks k = cs at h h'
  cases cs with
  | cons c cs => exact Container.Says.unique h h'
  | nil =>
    obtain ⟨text, htext, hparse⟩ := h
    obtain ⟨text', htext', hparse'⟩ := h'
    obtain rfl := Except.ok.inj (htext.symm.trans htext')
    exact Except.ok.inj (hparse.symm.trans hparse')

/-- What new containers are made for reads back from their labels. -/
theorem Breeds.reads (h : w.Breeds k r tag) : Tag.parse tag.format = .ok tag := by
  unfold Breeds at h
  split at h
  · obtain ⟨text, -, hparse⟩ := h
    rwa [Tag.format_of_parse hparse]
  · obtain ⟨text, -, hparse⟩ := h
    rwa [Tag.format_of_parse hparse]

/-- If containers were made for tags that read back, and the record's tag is one without a service
where there are none, new containers are the framework's. -/
theorem exists_breeds
    (htags : ∀ c ∈ w.frameworks k, ∃ tag, Made c.labels tag ∧ Tag.parse tag.format = .ok tag)
    (hframework : w.frameworks k = [] →
      ∃ text tag, r.framework = .ok text ∧ Tag.parse text = .ok tag ∧ tag.service = "") :
    ∃ tag, w.Breeds k r tag ∧ tag.service = "" := by
  unfold Breeds
  cases hcs : w.frameworks k with
  | nil =>
    obtain ⟨text, tag, htext, hparse, hservice⟩ := hframework hcs
    exact ⟨tag, ⟨text, htext, hparse⟩, hservice⟩
  | cons c cs =>
    have hc : c ∈ w.frameworks k := hcs ▸ List.mem_cons_self
    obtain ⟨tag, hmade, hreads⟩ := htags c hc
    have hslot : slotIn c.labels = "" := (mem_frameworks.1 hc).2.2
    exact ⟨tag, ⟨_, hmade.tag, hreads⟩, hmade.slotIn_eq.symm.trans hslot⟩

/-! ## Scaling without failures -/

/-- What scaling an application to a number has done if no call failed. -/
structure ScaledTo (platform : PlatformSettings) (k : AppKey) (r : Record) (target : Int)
    (w : World) (added : List Container) (hs : List Handle) (w' : World) : Prop where
  /-- The oldest framework containers are left, and new ones come after them. -/
  frameworks : w'.frameworks k = (w.frameworks k).take target.toNat ++ added
  count : (hs.length : Int) = target
  handles : List.Forall₂ (fun c h =>
    Runtime.handleOf w.broker.runtime.settings.network c = .ok h) (w'.frameworks k) hs
  /-- The newest are gone if they are too many, and all other containers are as they were. -/
  containers : w'.engine.containers =
    w.engine.containers.filter (· ∉ w.surplus k target) ++ added
  replicas : ∀ tag, w.Breeds k r tag → List.Forall₂
    (·.IsReplica w.broker.runtime.settings k tag ·) added
    (List.range' (w.engine.made + 1) added.length)
  running : ∀ c ∈ added, c.isRunning = true ↔ w.Active k
  served : w.Active k → ∀ c ∈ added, Serves platform w c w'
  unrouted : ∀ c ∈ w.surplus k target, w'.routes.get? c.id = none
  routes : ∀ id, (∀ c ∈ w.surplus k target, c.id ≠ id) → (∀ c ∈ added, c.id ≠ id) →
    w'.routes.get? id = w.routes.get? id
  records : Rescaled k r target w w'

theorem filter_surplus (hn : Engine.Numbered w.engine.containers w.engine.made)
    (hsub : gone ⊆ (w.surplus k target).map (·.id))
    (hsup : (w.surplus k target).map (·.id) ⊆ gone) :
    w.engine.containers.filter (·.id ∉ gone) =
      w.engine.containers.filter (· ∉ w.surplus k target) := by
  refine List.filter_congr fun c hc => decide_eq_decide.2 (not_congr ⟨fun hgone => ?_, fun hmem =>
    hsup (List.mem_map_of_mem hmem)⟩)
  obtain ⟨d, hd, hid⟩ := List.mem_map.1 (hsub hgone)
  have hd' := (w.frameworks_sublist k).subset (List.mem_of_mem_drop hd)
  rwa [← hn.eq_of_id hd' hc hid]

/-- An application that has grown has as many framework containers as it was to have. -/
theorem Raised.scaledTo {tag' : Tag} {wₐ : World} {hs : List Handle}
    (h : Raised platform k r (target - (w.frameworks k).length).toNat True True w tag' added wₐ)
    (hle : ((w.frameworks k).length : Int) ≤ target) (hunmoved : wₐ.Unmoved w')
    (hread : List.Forall₂ (fun c h =>
      Runtime.handleOf w.broker.runtime.settings.network c = .ok h) (w'.frameworks k) hs)
    (hrecords : Rescaled k r target w w') (htag : w.Breeds k r tag) (hslot : tag.service = "") :
    ScaledTo platform k r target w added hs w' := by
  have htag' (hne : added ≠ []) : tag' = tag := (h.breeds hne).unique htag
  have hnone : w.surplus k target = [] := List.drop_eq_nil_of_le (by omega)
  have hall : (w.frameworks k).take target.toNat = w.frameworks k :=
    List.take_of_length_le (by omega)
  have hframeworks : w'.frameworks k = w.frameworks k ++ added :=
    (hunmoved.frameworks_eq k).trans (h.frameworks_of_slot fun hne => htag' hne ▸ hslot)
  refine ⟨?_, ?_, hread, ?_, ?_, ?_, ?_, ?_, ?_, hrecords⟩
  · rw [hframeworks, hall]
  · have hcount := hread.length_eq
    have hlength := h.length_eq trivial
    rw [hframeworks, List.length_append] at hcount
    omega
  · rw [hunmoved.containers, h.containers, hnone]
    simp
  · intro tag'' htag''
    obtain rfl := htag''.unique htag
    cases added with
    | nil => exact .nil
    | cons c cs =>
      obtain rfl := htag' (List.cons_ne_nil c cs)
      exact h.replicas
  · intro c hc
    refine ⟨fun hrun => ?_, fun hactive => (h.active trivial hactive c hc).1⟩
    by_contra hidle
    rw [h.idle hidle c hc] at hrun
    cases hrun
  · intro hactive c hc htable endpoints hof
    rw [hunmoved.routes_eq]
    exact (h.active trivial hactive c hc).2 htable endpoints hof
  · rw [hnone]
    exact fun c hc => nomatch hc
  · intro id _ hid
    rw [hunmoved.routes_eq]
    exact h.others id hid

/-- An application that has shrunk has as many framework containers as it was to have. -/
theorem Shrunk.scaledTo {wₐ : World} {hs : List Handle}
    (h : Shrunk ((w.surplus k target).map (·.id)) w gone wₐ)
    (hgone : (w.surplus k target).map (·.id) ⊆ gone)
    (hn : Engine.Numbered w.engine.containers w.engine.made) (htarget : 1 ≤ target)
    (hle : target ≤ (w.frameworks k).length) (hunmoved : wₐ.Unmoved w')
    (hread : List.Forall₂ (fun c h =>
      Runtime.handleOf w.broker.runtime.settings.network c = .ok h) (w'.frameworks k) hs)
    (hrecords : Rescaled k r target w w') : ScaledTo platform k r target w [] hs w' := by
  have hfilter : (w.frameworks k).filter (·.id ∉ gone) = (w.frameworks k).take target.toNat := by
    rw [← filter_frameworks hn]
    refine List.filter_congr fun c _ => decide_eq_decide.2 (not_congr ?_)
    exact ⟨fun hid => h.subset hid, fun hid => hgone hid⟩
  have hframeworks : w'.frameworks k = (w.frameworks k).take target.toNat :=
    ((hunmoved.frameworks_eq k).trans (h.frameworks k)).trans hfilter
  refine ⟨?_, ?_, hread, ?_, fun _ _ => .nil, nofun, nofun, ?_, ?_, hrecords⟩
  · rw [hframeworks, List.append_nil]
  · have hcount := hread.length_eq
    rw [hframeworks, List.length_take] at hcount
    omega
  · rw [hunmoved.containers, h.containers, filter_surplus hn h.subset hgone, List.append_nil]
  · intro c hc
    rw [hunmoved.routes_eq]
    exact h.unrouted c.id (hgone (List.mem_map_of_mem hc))
  · intro id hid _
    rw [hunmoved.routes_eq]
    refine h.others id fun hmem => ?_
    obtain ⟨c, hc, he⟩ := List.mem_map.1 hmem
    exact hid c hc he

/-- A scaling in which all was done has scaled to the number, if new containers are the
framework's. -/
theorem Scaled.scaledTo {hs : List Handle} (h : Scaled platform k target True w hs w')
    (hn : Engine.Numbered w.engine.containers w.engine.made) (htarget : 1 ≤ target)
    (hrecord : w.recordAt k = some r) (htag : w.Breeds k r tag) (hslot : tag.service = "") :
    ∃ added, ScaledTo platform k r target w added hs w' := by
  obtain ⟨r', wₐ, hr', hadjusted, hunmoved, hrecords, hread⟩ := h
  obtain rfl := Option.some.inj (hr'.symm.trans hrecord)
  rcases Int.le_total (w.frameworks k).length target with hle | hle
  · obtain ⟨tag', added, hraised⟩ := hadjusted.raised hle
    exact ⟨added, hraised.scaledTo hle hunmoved hread hrecords htag hslot⟩
  · obtain ⟨gone, hshrunk, hgone⟩ := hadjusted.shrunk hle
    exact ⟨[], hshrunk.scaledTo (hgone trivial) hn htarget hle hunmoved hread hrecords⟩

end World

namespace Rescaling

def caller : Caller := ⟨"alice", "alice"⟩

/-- The application that is scaled. -/
def web : AppKey := caller.key "web"

/-- An engine with room for so many containers, next to an empty store. -/
noncomputable def cramped (room : Int) : World :=
  { Agreement.world false with engine.limit := some room }

theorem isNew_cramped (room : Int) : (cramped room).IsNew := { Agreement.isNew_world with }

/-- Operations of one caller. -/
def requests (ops : List Operation) : List Request := ops.map (Request.mk caller)

/-- What operations come to, one after the other. -/
noncomputable def after (ops : List Operation) (w : World) : World :=
  (Pool.run { world := w, tasks := (requests ops).map (·.program {}) }
    ((List.range ops.length).flatMap (List.replicate 30))).world

theorem timely_after (ops : List Operation) {w : World} (hw : w.IsNew) :
    (after ops w).Timely {} := by
  have hrequests : ∀ r ∈ requests ops, '/' ∉ r.caller.tenant.toList := fun r hr => by
    obtain ⟨op, -, rfl⟩ := List.mem_map.1 hr
    show '/' ∉ caller.tenant.toList
    decide
  exact .operated _ (.new hw) hrequests

/-- An application of one container, which was started. -/
noncomputable def started : World := after [.create "web" "python" [] 1 true] (cramped 2)

/-- The application has a record and a container, and there is room for another one but not for two
more. -/
theorem started_seen : (started.recordAt web).isSome = true ∧
    (∀ c ∈ started.frameworks web, c.labels.get? Runtime.serviceLabel = some "" ∧
      c.labels.get? Runtime.tagLabel = some "python:3.9" ∧
      (Text.integer? ((c.labels.get? Runtime.sequenceLabel).getD "0")).isSome = true) ∧
    started.frameworks web ≠ [] ∧
    (scale {} caller "web" 2).Along (fun c w => w.serves c = true ∧ w.informs c = true) started ∧
    started.Active web ∧ (∃ c ∈ (started.frameworks web).take (3 : Int).toNat, c.IsUp) ∧
    ((scale {} caller "web" 3).run started).1.isOk = false := by
  decide +kernel

end Rescaling

/-- A scaling in which no call fails gives exactly as many framework containers as it was asked for,
oldest first: those that were there before, less the newest if there were too many, and then new
ones if there were too few. The new ones are made for what the oldest one tells, or else the record,
and run exactly if one ran before. All else stays as it was, and the record tells the new number. -/
theorem scaled_as_asked (platform : PlatformSettings) (caller : Caller) (name : String)
    (target : Int) (r : Record) (w : World) (hreached : w.Timely platform)
    (ht : '/' ∉ caller.tenant.toList) (htenant : caller.tenant ≠ "")
    (hname : w.engine.lenient = false ∨ name ≠ "") (htarget : 1 ≤ target)
    (hrecord : w.recordAt (caller.key name) = some r)
    (htags : ∀ c ∈ w.frameworks (caller.key name),
      ∃ tag, Made c.labels tag ∧ Tag.parse tag.format = .ok tag)
    (hframework : w.frameworks (caller.key name) = [] →
      ∃ text tag, r.framework = .ok text ∧ Tag.parse text = .ok tag ∧ tag.service = "")
    (hcalls : (scale platform caller name target).Along
      (fun c w => w.serves c = true ∧ w.informs c = true) w) :
    let result := (scale platform caller name target).run w
    ∃ handles added, result.1 = .ok handles ∧
      World.ScaledTo platform (caller.key name) r target w added handles result.2 := by
  intro result
  have hw := hreached.dependable
  obtain ⟨tag, htag, hslot⟩ := World.exists_breeds htags hframework
  obtain ⟨hs, hok, hscaled⟩ := Scaling.run_scale_cleanly platform hw hreached.sequenced ht htenant
    hname htarget hrecord htag hcalls
  obtain ⟨added, hscaled⟩ := hscaled.scaledTo hw.numbered htarget hrecord htag hslot
  exact ⟨hs, added, hok, hscaled⟩

namespace Rescaling

theorem started_application_grows :
    ∃ r handles added, started.recordAt web = some r ∧
      ((scale {} caller "web" 2).run started).1 = .ok handles ∧
      World.ScaledTo {} web r 2 started added handles
        ((scale {} caller "web" 2).run started).2 := by
  obtain ⟨hrecord, hlabels, hmanned, hcalls, -⟩ := started_seen
  obtain ⟨r, hr⟩ := Option.isSome_iff_exists.1 hrecord
  obtain ⟨handles, added, hok, hscaled⟩ := scaled_as_asked {} caller "web" 2 r started
    (timely_after _ (isNew_cramped 2)) (by decide) (by decide) (.inr (by decide)) (by decide) hr
    (fun c hc => ⟨⟨"python", "", "3.9", "", by decide⟩,
      ⟨(hlabels c hc).1, (hlabels c hc).2.1, (hlabels c hc).2.2⟩, by decide⟩)
    (fun hnone => absurd hnone hmanned) hcalls
  exact ⟨r, handles, added, hr, hok, hscaled⟩

/-- A hub whose framework has a version with a colon at its end. -/
def misread : Disk where
  entries := [(["users"], .directory), (["plugins"], .directory),
    (["plugins", ".system"], .directory), (["plugins", ".system", "py"], .directory),
    (["plugins", ".system", "py", "u:"], .directory),
    (["plugins", ".system", "py", "u:", "manifest.yml"], .file (Text.encode
      "name: py\nversion: \"u:\"\ncategory: framework\n"))]

theorem isNew_misread : { Agreement.world false with disk := misread }.IsNew :=
  { Agreement.isNew_world with
    has := ⟨Agreement.has_disk.names, fun p hp => by
      rcases List.prefix_cons_iff.1 hp with rfl | ⟨q, rfl, hq⟩
      · rfl
      · rw [List.prefix_nil.1 hq]
        rfl⟩
    bare := fun tenant _ => by simp [Agreement.world, Disk.entry?, misread, Table.get?] }

/-- An application of that framework was created, and its container was lost. -/
noncomputable def bereft : World :=
  let w := after [.create "web" "py" [] 1 false] { Agreement.world false with disk := misread }
  { w with engine := { w.engine with containers := w.engine.containers.filter fun _ => false } }

/-- The tag of the framework reads as that of a service. The container that is made for it is no
framework container, so that there is none after the application was scaled to one. -/
theorem misread_framework_is_not_found :
    bereft.Timely {} ∧ (bereft.recordAt web).map (·.plugins) = some ["py:u:"] ∧
      Tag.parse "py:u:" = .ok ⟨"u", "", "", "py", by decide⟩ ∧ bereft.frameworks web = [] ∧
      (scale {} caller "web" 1).Along (fun c w => w.serves c = true ∧ w.informs c = true) bereft ∧
      ((scale {} caller "web" 1).run bereft).1 = .ok [] ∧
      ((scale {} caller "web" 1).run bereft).2.engine.containers.map Container.slot = ["py"] := by
  refine ⟨.lost _ (timely_after _ isNew_misread), ?_⟩
  decide +kernel

end Rescaling

/-- However a scaling ends, some framework container of the application runs afterwards exactly if
one ran before, as long as one runs, if any, of those that are old enough to stay. -/
theorem scaling_keeps_run_state (platform : PlatformSettings) (caller : Caller) (name : String)
    (target : Int) (w : World) (hreached : w.Timely platform) (ht : '/' ∉ caller.tenant.toList)
    (hname : w.engine.lenient = false ∨ name ≠ "")
    (hkept : w.Active (caller.key name) →
      ∃ c ∈ (w.frameworks (caller.key name)).take target.toNat, c.IsUp) :
    ((scale platform caller name target).run w).2.Active (caller.key name) ↔
      w.Active (caller.key name) := by
  by_cases htarget : 1 ≤ target
  · have hw := hreached.dependable
    have hrun := (Scaling.run_scale platform False hw hreached.sequenced ht hname htarget
      False.elim False.elim).2
    cases hresult : ((scale platform caller name target).run w).1 with
    | ok hs =>
      rw [hresult] at hrun
      exact hrun.active_iff hw.numbered hkept
    | error e =>
      rw [hresult] at hrun
      exact hrun.2.active_iff hw.numbered hkept
  · unfold scale
    rw [if_pos (by omega)]
    exact .rfl

namespace Rescaling

theorem refused_growth_keeps_application_active :
    started.Active web ∧ ((scale {} caller "web" 3).run started).1.isOk = false ∧
      ((scale {} caller "web" 3).run started).2.Active web := by
  obtain ⟨-, -, -, -, hactive, hkept, hfailed⟩ := started_seen
  exact ⟨hactive, hfailed, (scaling_keeps_run_state {} caller "web" 3 started
    (timely_after _ (isNew_cramped 2)) (by decide) (.inr (by decide)) fun _ => hkept).2 hactive⟩

theorem python_named : "python" ≠ "" := by decide

/-- The newest of two containers. -/
def newest : Handle where
  id := "c0002"
  name := "web-alice-app-00000002"
  app := "web"
  tenant := "alice"
  service := ""
  tag := ⟨"python", "", "3.9", "", python_named⟩
  sequence := 1007

/-- Of two containers only the newest was started. -/
noncomputable def newestStarted : World :=
  after [.create "web" "python" [] 2 false, .startContainers [newest]] (cramped 2)

/-- The only container that runs is the newest, and it goes first. -/
theorem shrinking_stops_application :
    newestStarted.Timely {} ∧ newestStarted.Active web ∧
      ((scale {} caller "web" 1).run newestStarted).1.isOk = true ∧
      ¬ ((scale {} caller "web" 1).run newestStarted).2.Active web := by
  have htimely : newestStarted.Timely {} := timely_after _ (isNew_cramped 2)
  obtain ⟨hexact, hruns⟩ : newestStarted.engine.lenient = false ∧ newestStarted.Active web ∧
      ((scale {} caller "web" 1).runInOrder newestStarted).1.isOk = true ∧
      ¬ ((scale {} caller "web" 1).runInOrder newestStarted).2.Active web := by decide +kernel
  rw [runInOrder_eq _ hexact htimely.sequenced htimely.dependable.numbered] at hruns
  exact ⟨htimely, hruns⟩

end Rescaling

end AppBroker
