import AppBroker.Proofs.HubTags
import AppBroker.Proofs.Orderly
import AppBroker.Proofs.Sequence

/-!
# Records of what the hub once had

Where no installation brings a plugin whose tag cannot be read back, every record and every container
has tags that are read back and can be looked up, whatever becomes of the hub (`World.Furnished`). No
call of an operation ever does harm to that (`World.Furnished.answer`), so it is so after every history of
lifecycle operations and of installations and removals (`World.Ongoing.furnished`).
-/

namespace AppBroker

open Program Lifecycle

/-- Whether the tags of a record are written concrete tags. -/
def Record.IsConcrete (r : Record) : Prop :=
  ∃ tags : List Tag, r.plugins = tags.map Tag.format ∧ ∀ tag ∈ tags, tag.IsConcrete

/-- Whether a call does a furnished world no harm. -/
def Call.Furnishes : Call → Prop
  | .create _ _ tag => tag.IsConcrete
  | .addRecord tenant r | .replaceRecord tenant r =>
    ('/' ∉ tenant.toList ∧ Store.Fit r) ∧ r.IsConcrete ∧ Told true ⟨tenant, r.name⟩
  | c => c.Fits

theorem Call.Furnishes.fits {c : Call} (h : c.Furnishes) : c.Fits := by
  cases c with
  | create => trivial
  | addRecord | replaceRecord => exact h.1
  | _ => exact h

namespace World

variable {w w' : World} {lenient : Bool} {c : Call} {k : AppKey} {platform : PlatformSettings}

/-- A hub in order, apart from the store, and tags in records and on containers that are read back
and can be looked up. Records are of named applications of named tenants. -/
structure Furnished (w : World) : Prop where
  hub_outside : ¬ w.broker.store <+: w.broker.hub
  store_outside : ¬ w.broker.hub <+: w.broker.store
  tidy : Hub.Tidy w.broker.hub w.disk
  colonless : Hub.Colonless (w.disk.treeAt w.broker.hub)
  containers : ∀ c ∈ w.engine.containers, ∃ tag : Tag, tag.IsConcrete ∧ Made c.labels tag
  records : ∀ k : AppKey, k.IsFiled → ∀ r, w.recordAt k = some r → r.IsConcrete ∧ Told true k

/-! ## What a call does to a furnished world -/

/-- What is written into the store is not in the hub. -/
theorem not_in_hub (hhub : ¬ w.broker.store <+: w.broker.hub)
    (hstore : ¬ w.broker.hub <+: w.broker.store) (name : String) :
    ¬ w.broker.hub <+: w.broker.store ++ [name] := fun hin =>
  (List.prefix_concat_iff.1 hin).elim (fun heq => hhub (heq ▸ List.prefix_append _ _)) hstore

/-- A call leaves the hub as it is. -/
theorem Housed.view (h : w.Housed w') (hw : w.Furnished) (hs : w.Storing) :
    w'.disk.IsTree ∧ w'.disk.treeAt w.broker.hub = w.disk.treeAt w.broker.hub := by
  rcases h.disk with hdisk | ⟨name, data, hname, hold, hdisk⟩ <;> rw [hdisk]
  · exact ⟨hw.tidy.tree, rfl⟩
  · refine ⟨hw.tidy.tree.put_at hs.has.at hname hold _, funext fun q => ?_⟩
    rw [Disk.treeAt, Disk.entry?_put _ _ _ _ (by simp), if_neg fun heq => not_in_hub hw.hub_outside hw.store_outside name ?_]
    · rfl
    · exact heq ▸ List.prefix_append _ _

/-- A container that was made for a concrete tag tells it. -/
theorem made_of_numeral (h : (Text.numeral? w.nextSequence).isSome = true) (app tenant : String)
    (tag : Tag) : Made (w.newcomer app tenant tag).labels tag where
  service := rfl
  tag := rfl
  sequence := by
    show (Text.integer? (toString w.nextSequence)).isSome = true
    rw [Text.integer?_toString_eq]
    simpa using h

/-- A furnished world stays so, whether calls fail or not. -/
theorem Furnished.answer (h : w.Furnished) (hw : w.Dependable lenient) (hc : c.Furnishes) :
    (w.answer c).2.Furnished := by
  have hhoused := housed_answer hw (.inl hc.fits)
  obtain ⟨htree, hview⟩ := hhoused.view h hw.storing
  refine ⟨?_, ?_, ⟨?_, ?_, ?_⟩, ?_, fun c' hc' => ?_, fun k hk r hr => ?_⟩
  · rw [hhoused.store, hhoused.hub]
    exact h.hub_outside
  · rw [hhoused.store, hhoused.hub]
    exact h.store_outside
  · exact htree
  · rw [hhoused.hub, hview]
    exact h.tidy.neat
  · rw [hhoused.hub, hview]
    exact h.tidy.named
  · rw [hhoused.hub, hview]
    exact h.colonless
  · rcases exists_of_mem_answer hw.numbered c c' hc' with
      ⟨d, hd, -, -, hlabels⟩ | ⟨app, tenant, tag, rfl, rfl⟩
    · rw [← hlabels]
      exact h.containers d hd
    · cases hwritten : Text.numeral? w.nextSequence with
      | none =>
        rw [answer_create_of_unwritable hwritten] at hc'
        exact h.containers _ hc'
      | some text =>
        exact ⟨tag, hc, made_of_numeral (Option.isSome_of_eq_some hwritten) app tenant tag⟩
  · have hname := ((hw.answer hc.fits).storing.fit hk hr).2
    rcases recordAt_answer hw.numbered hw.storing (.inl hc.fits) hk with
      hat | ⟨r', hwrites, hat⟩ | ⟨-, hat⟩ <;> rw [hat] at hr
    · exact h.records k hk r hr
    · obtain rfl := Option.some.inj hr
      have hkey : (⟨k.tenant, r'.name⟩ : AppKey) = k :=
        congrArg (AppKey.mk k.tenant) hname
      rcases hwrites with rfl | rfl <;> exact hkey ▸ hc.2
    · cases hr

/-- A dependable world that is furnished. -/
structure Provided (lenient : Bool) (w : World) : Prop where
  dependable : w.Dependable lenient
  furnished : w.Furnished

theorem Provided.answer (h : w.Provided lenient) (hc : c.Furnishes) :
    (w.answer c).2.Provided lenient :=
  ⟨h.dependable.answer hc.fits, h.furnished.answer h.dependable hc⟩

end World

/-! ## What operations do to a furnished world -/

namespace Furnishing

variable {platform : PlatformSettings} {lenient : Bool} {k : AppKey} {w : World}

theorem meets_makes {α : Type} {p : Program α} (hp : p.Makes Call.Furnishes) :
    p.Meets (lasting (World.Provided lenient)) k (fun _ _ => True) w :=
  Lasting.meets_makes (fun _ _ hc hw => hw.answer hc) hp

theorem meets_driving {α : Type} {p : Program α} (hp : p.Makes Driving) :
    p.Meets (lasting (World.Provided lenient)) k (fun _ _ => True) w :=
  meets_makes (hp.mono fun c hc => by cases c <;> first | exact hc | cases hc)

theorem meets_call {c : Call} (hc : c.Furnishes) :
    (perform c).Meets (lasting (World.Provided lenient)) k (fun _ _ => True) w :=
  meets_makes (makes_perform hc)

/-- A call that gives something, of which the world says what it is. -/
theorem yields_call {c : Call} {P : c.Value → Prop} (hc : c.Furnishes)
    (h : ∀ (w : World) a, w.Provided lenient → (w.answer c).1 = .ok a → P a) :
    (perform c).Yields (lasting (World.Provided lenient)) k (fun a _ => P a) w := by
  refine Lasting.meets_call (fun _ hw => hw.answer hc) fun w' _ hs _ => ?_
  cases ha : (w'.answer c).1 with
  | error e => trivial
  | ok a => exact h w' a hs ha

/-- What it takes to leave a world furnished: handles and records have concrete tags. -/
theorem custody (hk : k.IsFiled) : Custody platform (lasting (World.Provided lenient)) false k
    (fun _ _ => True) (fun h _ => h.tag.IsConcrete)
    (fun r => Store.Fit r ∧ r.IsConcrete ∧ Told true ⟨k.tenant, r.name⟩) Tag.IsConcrete where
  given _ _ _ _ _ _ _ := trivial
  stays _ _ _ _ _ _ h := h
  held _ _ _ := trivial
  start h w _ := meets_driving (makes_startOne platform h)
  restart h w _ := meets_driving (makes_restartOne platform h)
  stop h w _ := meets_driving (makes_stopOne h)
  destroy h w _ := ((meets_driving (makes_retract h)).yields.bind fun _ _ _ _ =>
    (meets_call (c := .destroy h) trivial).yields : Yields _ _ _ (fun _ _ => True) _).meets
  find _ service w := by
    refine yields_call (c := .find ..) (P := fun hs : List Handle => ∀ h ∈ hs, h.tag.IsConcrete) rfl
      fun w' hs hw hfind h hh => ?_
    obtain ⟨c, hc, hread⟩ := World.exists_of_found hfind hh
    obtain ⟨tag, htag, hmade⟩ := hw.furnished.containers c hc
    rwa [hmade.of_handleOf htag.unmarked hread]
  create tag w htag := by
    refine yields_call (c := .create ..) (P := fun h : Handle => h.tag.IsConcrete) htag
      fun w' h hw hcreate => ?_
    rcases w'.answer_create k.name k.tenant tag with ⟨⟨e, he⟩, -⟩ | ⟨hread, -⟩
    · cases he.symm.trans hcreate
    · have hh := hread.symm.trans hcreate
      rwa [(World.made_newcomer hh).of_handleOf htag.unmarked hh]
  record w := by
    refine yields_call (c := .record ..)
      (P := fun r : Option Record => ∀ r', r = some r' →
        Store.Fit r' ∧ r'.IsConcrete ∧ Told true ⟨k.tenant, r'.name⟩) hk
      fun w' r hw ha r' hr => ?_
    have hat : w'.recordAt k = r := by
      rcases World.answer_record hw.dependable.storing hk k.name with hok | ⟨e, he⟩
      · exact Except.ok.inj ((congrArg Prod.fst hok).symm.trans ha)
      · cases (congrArg Prod.fst he).symm.trans ha
    rw [hr] at hat
    obtain ⟨hfit, hname⟩ := hw.dependable.storing.fit hk hat
    exact ⟨hfit, hname.symm ▸ hw.furnished.records k hk r' hat⟩
  compose framework services w := by
    refine yields_call (c := .compose ..) (P := fun composition : List (Tag × Plugin) =>
      ∀ tag ∈ composition.map (·.1), tag.IsConcrete) rfl fun w' composition hw hresolve => ?_
    exact Composition.isConcrete_of_mem hw.furnished.tidy hw.furnished.colonless hresolve
  now hnamed w := Lasting.meets_call (fun _ hw => hw.answer rfl)
    fun _ _ hs _ tags _ htags hscaling =>
      ⟨⟨hscaling, hs.dependable.storing.real⟩, ⟨tags, rfl, htags⟩, hnamed⟩
  growth r hs w tag hown hheld htag := by
    cases hs with
    | cons h hs =>
      obtain rfl := Except.ok.inj htag
      exact hheld h List.mem_cons_self
    | nil =>
      obtain ⟨-, ⟨tags, hplugins, hconcrete⟩, -⟩ := hown
      obtain ⟨text, htext, hparse⟩ := bind_eq_ok htag
      cases tags with
      | nil =>
        rw [Record.framework, hplugins] at htext
        cases htext
      | cons first tags =>
        rw [Record.framework, hplugins] at htext
        obtain rfl := Except.ok.inj htext
        have hfirst := hconcrete first List.mem_cons_self
        rwa [← Except.ok.inj ((Tag.parse_format hfirst.unmarked).symm.trans hparse)]
  addRecord r w hr := meets_call ⟨⟨hk, hr.1⟩, hr.2⟩
  rescale r scaling w hr hscaling :=
    meets_call (c := .replaceRecord k.tenant { r with scaling }) ⟨⟨hk, hscaling, hr.1.created⟩, hr.2⟩
  removeRecord w := meets_call hk
  warn severity text w := meets_call rfl

end Furnishing

namespace World

variable {w w' : World} {lenient : Bool} {k : AppKey} {platform : PlatformSettings}

/-- Requests that are worked on together leave a world furnished. -/
theorem Provided.operated (h : w.Provided lenient) (platform : PlatformSettings)
    {requests : List Request} (order : List Nat)
    (hrequests : ∀ r ∈ requests, '/' ∉ r.caller.tenant.toList) :
    (Pool.run { world := w, tasks := requests.map (·.program platform) } order).world.Provided
      lenient := by
  refine Lasting.run (fun r hr hcheck name hname w' => ?_) order h
  have hfiled : (r.caller.key name).IsFiled := hrequests r hr
  exact (Furnishing.custody hfiled).turn (.inl rfl) hcheck hname fun _ _ _ => trivial

/-! ## Histories -/

section Reshelved

variable {d : Disk} (hhub : ¬ w.broker.store <+: w.broker.hub)
  (hstore : ¬ w.broker.hub <+: w.broker.store)
  (hout : ∀ q, ¬ w.broker.hub <+: q → d.entry? q = w.disk.entry? q)
include hhub hstore hout

theorem holds_reshelved {tenant : String} {records : Table String Record}
    (hh : Store.Holds w.broker.codec w.disk w.broker.store tenant records) :
    Store.Holds w.broker.codec d w.broker.store tenant records := by
  unfold Store.Holds
  rw [hout _ (not_in_hub hhub hstore _)]
  exact hh

/-- Where only the hub is changed, records can be kept and found again. -/
theorem Storing.reshelved (hs : w.Storing) (htree : d.IsTree) : { w with disk := d }.Storing := by
  refine ⟨hs.faithful, htree.has ?_, fun tenant ht => ?_, hs.real⟩
  · exact (hout _ hstore).trans hs.has.at
  · obtain ⟨records, hh, hp⟩ := hs.holds tenant ht
    exact ⟨records, holds_reshelved hhub hstore hout hh, hp⟩

/-- They are the same as before. -/
theorem Storing.recordAt_reshelved (hs : w.Storing) (htree : d.IsTree) (hk : k.IsFiled) :
    { w with disk := d }.recordAt k = w.recordAt k := by
  obtain ⟨records, hh, hp⟩ := hs.holds k.tenant hk
  have hafter := (hs.reshelved hhub hstore hout htree).recordAt_eq hk
    (holds_reshelved hhub hstore hout hh) hp
  exact (hafter k.name).trans (hs.recordAt_eq hk hh hp k.name).symm

end Reshelved

section Reshelved

variable {d : Disk} (h : w.Provided lenient)
  (hout : ∀ q, ¬ w.broker.hub <+: q → d.entry? q = w.disk.entry? q)
include h hout

theorem Provided.recordAt_reshelved (htree : d.IsTree) (hk : k.IsFiled) :
    { w with disk := d }.recordAt k = w.recordAt k :=
  h.dependable.storing.recordAt_reshelved h.furnished.hub_outside h.furnished.store_outside hout
    htree hk

theorem Provided.reshelved (htidy : Hub.Tidy w.broker.hub d)
    (hc : Hub.Colonless (d.treeAt w.broker.hub)) : { w with disk := d }.Provided lenient where
  dependable := ⟨h.dependable.numbered, h.dependable.truthful, h.dependable.lenient_eq,
    h.dependable.storing.reshelved h.furnished.hub_outside h.furnished.store_outside hout
      htidy.tree⟩
  furnished := ⟨h.furnished.hub_outside, h.furnished.store_outside, htidy, hc,
    h.furnished.containers, fun k hk r hr =>
      h.furnished.records k hk r (h.recordAt_reshelved hout htidy.tree hk ▸ hr)⟩

end Reshelved

/-- An installation changes no record. -/
theorem Provided.recordAt_install (h : w.Provided lenient) {source : Path}
    (hsource : Hub.IsSupply w.disk source) (tenant : String) (hk : k.IsFiled) :
    (Catalog.change (Hub.install · tenant source) w).2.recordAt k = w.recordAt k :=
  h.recordAt_reshelved (fun _ => h.furnished.tidy.entry?_install hsource tenant)
    (h.furnished.tidy.supplied hsource tenant).tidy.tree hk

/-- A removal changes no record. -/
theorem Provided.recordAt_remove (h : w.Provided lenient) (tag : Tag) (hk : k.IsFiled) :
    (Catalog.change (Hub.remove · tag) w).2.recordAt k = w.recordAt k :=
  h.recordAt_reshelved (fun _ => h.furnished.tidy.entry?_remove tag)
    (h.furnished.tidy.removed tag).tree hk

/-- What may happen between operations, beside installations and removals: containers come to be in
other states or are lost, and the hub and all records stay as they are. -/
structure Meanwhile (w w' : World) : Prop where
  made : w'.engine.made = w.engine.made
  containers : (w'.engine.containers.map fun c => (c.id, c.number, c.labels)).Sublist
    (w.engine.containers.map fun c => (c.id, c.number, c.labels))
  truthful : w'.engine.Truthful
  storing : w'.Storing
  hub : w'.broker.hub = w.broker.hub
  store : w'.broker.store = w.broker.store
  tree : w'.disk.IsTree
  view : w'.disk.treeAt w.broker.hub = w.disk.treeAt w.broker.hub
  records : ∀ k : AppKey, k.IsFiled → w'.recordAt k = w.recordAt k

theorem Provided.meanwhile (h : w.Provided lenient) (hw : w.Meanwhile w') :
    w'.Provided w'.engine.lenient := by
  obtain ⟨hdependable, hfurnished⟩ := h
  have hnumbers : (w'.engine.containers.map fun c => (c.id, c.number)).Sublist
      (w.engine.containers.map fun c => (c.id, c.number)) := by
    simpa [Function.comp_def] using hw.containers.map fun m => (m.1, m.2.1)
  refine ⟨⟨?_, hw.truthful, rfl, hw.storing⟩, ?_, ?_, ⟨hw.tree, ?_, ?_⟩, ?_, fun c hc => ?_,
    fun k hk r hr => ?_⟩
  · obtain ⟨hids, hincreasing⟩ := numbered_iff.1 hdependable.numbered
    rw [numbered_iff, hw.made]
    exact ⟨fun p hp => hids p (hnumbers.mem hp), hincreasing.sublist hnumbers⟩
  · rw [hw.store, hw.hub]
    exact hfurnished.hub_outside
  · rw [hw.store, hw.hub]
    exact hfurnished.store_outside
  · rw [hw.hub, hw.view]
    exact hfurnished.tidy.neat
  · rw [hw.hub, hw.view]
    exact hfurnished.tidy.named
  · rw [hw.hub, hw.view]
    exact hfurnished.colonless
  · obtain ⟨d, hd, hsame⟩ := List.mem_map.1 (hw.containers.mem (List.mem_map_of_mem hc))
    obtain ⟨-, -, hlabels⟩ : d.id = c.id ∧ d.number = c.number ∧ d.labels = c.labels := by
      simpa using hsame
    exact hlabels ▸ hfurnished.containers d hd
  · exact hfurnished.records k hk r (hw.records k hk ▸ hr)

/-- What lifecycle operations, installations and removals lead to, from an empty engine, an empty
store and an empty hub. Nothing is installed whose tag is not read back. -/
inductive Ongoing (platform : PlatformSettings) : World → Prop
  | new {w : World} : w.IsNew → ¬ w.broker.store <+: w.broker.hub →
      ¬ w.broker.hub <+: w.broker.store → w.disk.IsTree →
      w.disk.entry? w.broker.hub = some .directory →
      (∀ q, q ≠ [] → w.disk.treeAt w.broker.hub q = none) → Ongoing platform w
  | operated {w : World} {requests : List Request} (order : List Nat) : Ongoing platform w →
      (∀ r ∈ requests, '/' ∉ r.caller.tenant.toList) →
      Ongoing platform
        (Pool.run { world := w, tasks := requests.map (·.program platform) } order).world
  | installed {w : World} {tenant : String} {source : Path} : Ongoing platform w →
      Hub.IsSupply w.disk source →
      (∀ p, (Catalog.change (Hub.install · tenant source) w).1 = .ok p →
        (Hub.editionOf tenant p).HasTag) →
      Ongoing platform (Catalog.change (Hub.install · tenant source) w).2
  | removed {w : World} (tag : Tag) : Ongoing platform w →
      Ongoing platform (Catalog.change (Hub.remove · tag) w).2
  | meanwhile {w w' : World} : Ongoing platform w → w.Meanwhile w' → Ongoing platform w'

theorem Ongoing.provided (h : w.Ongoing platform) : w.Provided w.engine.lenient := by
  induction h with
  | @new w hnew hhub hstore htree hroot hempty =>
    refine ⟨hnew.dependable, hhub, hstore, (Hub.Managed.new htree hroot hempty).tidy,
      fun s n v hv => absurd (hempty _ (by simp)) hv, ?_, fun k hk r hr => ?_⟩
    · simp [hnew.containers]
    · have hnone : w.recordAt k = none := hnew.dependable.storing.recordAt_eq hk
        (.inl ⟨hnew.bare k.tenant hk, rfl⟩) Store.proper_nil k.name
      cases hnone.symm.trans hr
  | operated order _ hrequests ih =>
    have hprovided := ih.operated platform order hrequests
    exact hprovided.dependable.lenient_eq ▸ hprovided
  | @installed w tenant source _ hsource htag ih =>
    have htidy := ih.furnished.tidy
    exact ih.reshelved (fun _ => htidy.entry?_install hsource tenant)
      (htidy.supplied hsource tenant).tidy (ih.furnished.colonless.installed htidy hsource htag)
  | @removed w tag _ ih =>
    have htidy := ih.furnished.tidy
    exact ih.reshelved (fun _ => htidy.entry?_remove tag) (htidy.removed tag)
      (ih.furnished.colonless.removed tag)
  | meanwhile _ hw ih => exact ih.meanwhile hw

end World

end AppBroker
