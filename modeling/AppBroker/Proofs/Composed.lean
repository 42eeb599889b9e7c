import AppBroker.Composition
import AppBroker.Proofs.Lineup
import AppBroker.Proofs.ReadBack
import Mathlib.Data.List.Nodup

/-!
# What an application is composed of

A composition is written into the record as tags, the framework's first, and onto the labels of the
containers, one tag each. Both are read back as they were composed, as long as no part of a plugin's
name has one of the marks that tags are written with. The containers of an application consist of
so many of its framework and of one for each of its services.
-/

namespace AppBroker

/-- Whether no mark of written tags stands in what a plugin is called. -/
def Plugin.isUnmarked (p : Plugin) : Bool :=
  [p.name, p.tenant, p.version].all fun part => ':' ∉ part.toList ∧ '/' ∉ part.toList

/-- What tags a record may have: those of a framework and of services in slots of their own. -/
structure Composed (plugins : List String) (framework : Tag) (services : List Tag) : Prop where
  written : plugins = (framework :: services).map Tag.format
  framework_slot : framework.service = ""
  slots : ∀ t ∈ services, t.service ≠ ""
  unmarked : ∀ t ∈ framework :: services, t.IsUnmarked
  nodup : (services.map Tag.service).Nodup

/-- The tags of an application: the framework's, and those of services in slots of their own. -/
structure Slotted (framework : Tag) (services : List Tag) : Prop where
  framework_slot : framework.service = ""
  slots : ∀ t ∈ services, t.service ≠ ""
  nodup : (services.map Tag.service).Nodup

theorem exists_of_mem_right {α β : Type} {R : α → β → Prop} {as : List α} {bs : List β}
    (h : List.Forall₂ R as bs) {b : β} (hb : b ∈ bs) : ∃ a ∈ as, R a b := by
  induction h with
  | nil => cases hb
  | @cons a b' as bs hab _ ih =>
    rcases List.mem_cons.1 hb with rfl | hb
    · exact ⟨a, List.mem_cons_self, hab⟩
    · obtain ⟨a', ha', hr⟩ := ih hb
      exact ⟨a', List.mem_cons_of_mem _ ha', hr⟩

theorem bind_eq_ok {α β : Type} {o : Outcome α} {f : α → Outcome β} {b : β}
    (h : (o >>= f) = .ok b) : ∃ a, o = .ok a ∧ f a = .ok b := by
  cases o with
  | error e => cases h
  | ok a => exact ⟨a, rfl, h⟩

/-- A concrete tag names its plugin. -/
structure Names (t : Tag) (p : Plugin) : Prop where
  name : t.name = p.name
  tenant : t.tenant = p.tenant
  version : t.version = p.version

namespace Resolver

theorem concreteTag_eq_ok {p : Plugin} {service : String} {t : Tag}
    (h : concreteTag p service = .ok t) : Names t p ∧ t.service = service := by
  unfold concreteTag Tag.ofParts at h
  split at h
  · cases h
  · cases h
    exact ⟨⟨rfl, rfl, rfl⟩, rfl⟩

theorem forall₂_resolveAll {d : Disk} {root : Path} {caller : String} {tags : List Tag}
    {pairs : List (Tag × Plugin)} (h : resolveAll d root caller tags = .ok pairs) :
    List.Forall₂ (fun tag pair => Names pair.1 pair.2 ∧ pair.1.service = tag.service) tags
      pairs := by
  induction tags generalizing pairs with
  | nil =>
    cases h
    exact .nil
  | cons tag tags ih =>
    obtain ⟨p, -, h⟩ := bind_eq_ok h
    obtain ⟨t, ht, h⟩ := bind_eq_ok h
    obtain ⟨rest, hrest, h⟩ := bind_eq_ok h
    cases h
    exact .cons (concreteTag_eq_ok ht) (ih hrest)

end Resolver

theorem Names.isUnmarked {t : Tag} {p : Plugin} (h : Names t p) (hp : p.isUnmarked = true)
    (hs : Tag.Unmarked t.service.toList) : t.IsUnmarked := by
  simp only [Plugin.isUnmarked, List.all_cons, List.all_nil, Bool.and_true, Bool.and_eq_true,
    decide_eq_true_eq] at hp
  refine ⟨?_, ?_, ?_, hs⟩
  · rw [h.name]
    exact hp.1
  · rw [h.tenant]
    exact hp.2.1
  · rw [h.version]
    exact hp.2.2

theorem Plugin.isUnmarked_name {p : Plugin} (hp : p.isUnmarked = true) :
    Tag.Unmarked p.name.toList := by
  simp only [Plugin.isUnmarked, List.all_cons, Bool.and_eq_true, decide_eq_true_eq] at hp
  exact hp.1

namespace Composition

theorem isUnmarked_of_mem {texts : List String} {tags : List Tag}
    (h : texts.mapM Tag.parse = .ok tags) : ∀ t ∈ tags, t.IsUnmarked := by
  induction texts generalizing tags with
  | nil =>
    cases h
    simp
  | cons text texts ih =>
    rw [List.mapM_cons] at h
    obtain ⟨tag, htag, h⟩ := bind_eq_ok h
    obtain ⟨rest, hrest, h⟩ := bind_eq_ok h
    cases h
    intro t ht
    rcases List.mem_cons.1 ht with rfl | ht
    · exact Tag.isUnmarked_of_parse htag
    · exact ih hrest t ht

theorem slot_ne_empty {t : Tag} {p : Plugin} (h : Names t p) : slot t p ≠ "" := by
  unfold slot
  split
  · assumption
  · rw [← h.name]
    exact t.name_ne_empty

/-- Each service comes into a slot of its own, which was not taken. -/
theorem fill_slots {pairs out : List (Tag × Plugin)} {taken : List String}
    (h : fill taken pairs = .ok out) (hpairs : ∀ pair ∈ pairs, Names pair.1 pair.2) :
    (∀ pair ∈ out, pair.1.service ≠ "" ∧ pair.1.service ∉ taken) ∧
      (out.map (·.1.service)).Nodup := by
  induction pairs generalizing out taken with
  | nil =>
    cases h
    simp
  | cons pair pairs ih =>
    obtain ⟨tag, p⟩ := pair
    unfold fill at h
    dsimp only at h
    split at h
    · cases h
    split at h
    · cases h
    rename_i hfree
    obtain ⟨rest, hrest, h⟩ := bind_eq_ok h
    cases h
    obtain ⟨hall, hnodup⟩ := ih hrest fun pair h => hpairs pair (List.mem_cons_of_mem _ h)
    refine ⟨fun pair h => ?_, ?_⟩
    · rcases List.mem_cons.1 h with rfl | h
      · exact ⟨slot_ne_empty (hpairs _ List.mem_cons_self), hfree⟩
      · exact ⟨(hall pair h).1, fun hm => (hall pair h).2 (List.mem_cons_of_mem _ hm)⟩
    · rw [List.map_cons, List.nodup_cons]
      refine ⟨fun hm => ?_, hnodup⟩
      obtain ⟨pair, hpair, heq⟩ := List.mem_map.1 hm
      exact (hall pair hpair).2 (by rw [heq]; exact List.mem_cons_self)

/-- A service is put into its slot and is otherwise left as it was resolved. -/
theorem slotted_of_mem {pairs out : List (Tag × Plugin)} {taken : List String}
    (h : fill taken pairs = .ok out) :
    ∀ pair ∈ out, ∃ resolved ∈ pairs, pair.2 = resolved.2 ∧
      pair.1 = resolved.1.withService (slot resolved.1 resolved.2) := by
  induction pairs generalizing out taken with
  | nil =>
    cases h
    simp
  | cons first pairs ih =>
    obtain ⟨tag, p⟩ := first
    unfold fill at h
    dsimp only at h
    split at h
    · cases h
    split at h
    · cases h
    obtain ⟨rest, hrest, h⟩ := bind_eq_ok h
    cases h
    refine List.forall_mem_cons.2 ⟨⟨_, List.mem_cons_self, rfl, rfl⟩, fun pair hpair => ?_⟩
    obtain ⟨resolved, hresolved, hsame⟩ := ih hrest pair hpair
    exact ⟨resolved, List.mem_cons_of_mem _ hresolved, hsame⟩

section Resolved

variable {d : Disk} {root : Path} {caller framework : String} {services : List String}
  {composition : List (Tag × Plugin)}

/-- A composition is a framework, and services that were put into their slots after all references
were resolved. -/
theorem parts_of_resolve (h : resolve d root caller framework services = .ok composition) :
    ∃ first pairs rest, composition = first :: rest ∧ fill [] pairs = .ok rest ∧
      (Names first.1 first.2 ∧ first.1.service = "") ∧
      (∀ pair ∈ pairs, Names pair.1 pair.2 ∧ Tag.Unmarked pair.1.service.toList) ∧
      ∃ tags, Resolver.resolveAll d root caller tags = .ok (first :: pairs) := by
  unfold resolve at h
  obtain ⟨frameworkTag, -, h⟩ := bind_eq_ok h
  obtain ⟨serviceTags, hservices, h⟩ := bind_eq_ok h
  obtain ⟨pairs, hpairs, h⟩ := bind_eq_ok h
  have hread := Resolver.forall₂_resolveAll hpairs
  cases hread with
  | @cons _ first _ pairs hfirst hrest =>
  obtain ⟨tag, p⟩ := first
  dsimp only at h
  split at h
  · cases h
  obtain ⟨rest, hfill, h⟩ := bind_eq_ok h
  cases h
  refine ⟨(tag, p), pairs, rest, rfl, hfill, hfirst, fun pair hpair => ?_, _, hpairs⟩
  obtain ⟨t, ht, hn, hs⟩ := exists_of_mem_right hrest hpair
  rw [hs]
  exact ⟨hn, (isUnmarked_of_mem hservices t ht).2.2.2⟩

theorem slotted_of_resolve (h : resolve d root caller framework services = .ok composition) :
    ∃ first rest, composition.map (·.1) = first :: rest ∧ Slotted first rest := by
  obtain ⟨first, pairs, rest, rfl, hfill, ⟨-, hslot⟩, hpairs, -⟩ := parts_of_resolve h
  obtain ⟨hall, hnodup⟩ := fill_slots hfill fun pair hpair => (hpairs pair hpair).1
  refine ⟨first.1, rest.map (·.1), rfl, hslot, fun t ht => ?_, ?_⟩
  · obtain ⟨pair, hpair, rfl⟩ := List.mem_map.1 ht
    exact (hall pair hpair).1
  · rw [List.map_map]
    exact hnodup

/-- The tags of a composition can be recorded. -/
theorem composed_of_resolve (h : resolve d root caller framework services = .ok composition)
    (hplugins : composition.all (·.2.isUnmarked) = true) :
    ∃ first rest, composition.map (·.1) = first :: rest ∧
      Composed ((first :: rest).map Tag.format) first rest := by
  obtain ⟨first, rest, htags, hslotted⟩ := slotted_of_resolve h
  refine ⟨first, rest, htags, rfl, hslotted.framework_slot, hslotted.slots, ?_, hslotted.nodup⟩
  rw [← htags, List.forall_mem_map]
  rw [List.all_eq_true] at hplugins
  obtain ⟨⟨tag, p⟩, pairs, out, rfl, hfill, ⟨hnames, hslot⟩, hpairs, -⟩ := parts_of_resolve h
  refine List.forall_mem_cons.2 ⟨?_, fun pair hpair => ?_⟩
  · refine hnames.isUnmarked (hplugins _ List.mem_cons_self) ?_
    rw [show tag.service = "" from hslot]
    exact ⟨by simp, by simp⟩
  · have hp := hplugins pair (List.mem_cons_of_mem _ hpair)
    obtain ⟨⟨tag', p'⟩, hresolved, hsame, hput⟩ := slotted_of_mem hfill pair hpair
    obtain ⟨hn, hs⟩ := hpairs _ hresolved
    rw [hsame] at hp
    rw [hput]
    refine Names.isUnmarked (t := tag'.withService (slot tag' p')) (p := p')
      ⟨hn.name, hn.tenant, hn.version⟩ hp ?_
    show Tag.Unmarked (slot tag' p').toList
    unfold slot
    split
    · exact hs
    · exact Plugin.isUnmarked_name hp

end Resolved

end Composition

/-! ## The containers that go with tags -/

/-- Whether labels say that a container fills a tag's slot and runs from the tag. -/
structure Made (labels : Table String String) (tag : Tag) : Prop where
  service : labels.get? Runtime.serviceLabel = some tag.service
  tag : labels.get? Runtime.tagLabel = some tag.format
  sequence : (Text.integer? ((labels.get? Runtime.sequenceLabel).getD "0")).isSome = true

/-- The slot that labels tell of. -/
def slotIn (labels : Table String String) : String :=
  (labels.get? Runtime.serviceLabel).getD ""

theorem Made.slotIn_eq {labels : Table String String} {tag : Tag} (h : Made labels tag) :
    slotIn labels = tag.service := by
  simp [slotIn, h.service]

/-- Whether the containers with some ids and labels are so many of a framework and one for each of
some services, which came in their order. -/
structure Consists (marks : List (String × Table String String)) (framework : Tag) (count : Int)
    (services : List Tag) : Prop where
  frameworks : ∀ m ∈ marks, slotIn m.2 = "" → Made m.2 framework
  count : ((marks.filter fun m => slotIn m.2 = "").length : Int) = count
  services : List.Forall₂ (fun m t => Made m.2 t) (marks.filter fun m => slotIn m.2 ≠ "") services

section Consists

variable {marks : List (String × Table String String)} {framework : Tag} {count : Int}
  {services : List Tag} {m : String × Table String String}

theorem consists_nil (framework : Tag) : Consists [] framework 0 [] :=
  ⟨by simp, rfl, .nil⟩

theorem Consists.add_framework (h : Consists marks framework count services)
    (hm : Made m.2 framework) (hs : framework.service = "") :
    Consists (marks ++ [m]) framework (count + 1) services := by
  have hslot : slotIn m.2 = "" := by rw [hm.slotIn_eq, hs]
  refine ⟨fun m' hm' he => ?_, ?_, ?_⟩
  · rcases List.mem_append.1 hm' with hm' | hm'
    · exact h.frameworks m' hm' he
    · rwa [List.mem_singleton.1 hm']
  · simp [List.filter_append, hslot, h.count]
  · simpa [List.filter_append, hslot] using h.services

theorem Consists.add_service (h : Consists marks framework count services) {t : Tag}
    (hm : Made m.2 t) (hs : t.service ≠ "") :
    Consists (marks ++ [m]) framework count (services ++ [t]) := by
  have hslot : slotIn m.2 ≠ "" := by rwa [hm.slotIn_eq]
  refine ⟨fun m' hm' he => ?_, ?_, ?_⟩
  · rcases List.mem_append.1 hm' with hm' | hm'
    · exact h.frameworks m' hm' he
    · exact absurd (List.mem_singleton.1 hm' ▸ he) hslot
  · simp [List.filter_append, hslot, h.count]
  · simpa [List.filter_append, hslot] using List.rel_append h.services (.cons hm .nil)

/-- Framework containers are taken away. -/
theorem Consists.filter (h : Consists marks framework count services) {p : String → Bool}
    (hp : ∀ m ∈ marks, slotIn m.2 ≠ "" → p m.1 = true) :
    Consists (marks.filter fun m => p m.1) framework
      ((marks.filter fun m => slotIn m.2 = "").filter fun m => p m.1).length services := by
  refine ⟨fun m hm => h.frameworks m (List.mem_filter.1 hm).1, ?_, ?_⟩
  · rw [List.filter_comm]
  · rw [List.filter_comm, List.filter_eq_self.2]
    · exact h.services
    · intro m hm
      obtain ⟨hm, hs⟩ := List.mem_filter.1 hm
      exact hp m hm (of_decide_eq_true hs)

theorem Consists.made (h : Consists marks framework count services) (hm : m ∈ marks) :
    ∃ t ∈ framework :: services, Made m.2 t := by
  by_cases hs : slotIn m.2 = ""
  · exact ⟨framework, List.mem_cons_self, h.frameworks m hm hs⟩
  · obtain ⟨t, ht, hr⟩ := exists_of_mem_right h.services.flip
      (List.mem_filter.2 ⟨hm, decide_eq_true hs⟩)
    exact ⟨t, List.mem_cons_of_mem _ ht, hr⟩

end Consists

/-- Whether what a tag is written as can be read. -/
def Tag.IsReadable (t : Tag) : Prop := ∃ u, Tag.parse t.format = .ok u

theorem Tag.IsUnmarked.isReadable {t : Tag} (h : t.IsUnmarked) : t.IsReadable :=
  ⟨t, Tag.parse_format h⟩

theorem Made.exists_handleOf {c : Container} {k : AppKey} {tag : Tag} (h : Made c.labels tag)
    (hk : c.BelongsTo k) (ht : tag.IsReadable) (network : String) :
    ∃ handle, Runtime.handleOf network c = .ok handle := by
  obtain ⟨u, hu⟩ := ht
  obtain ⟨sequence, hs⟩ := Option.isSome_iff_exists.1 h.sequence
  unfold Runtime.handleOf Runtime.labelOf
  simp only [hk.1, hk.2, h.tag, hs, hu, ok_bind]
  exact ⟨_, rfl⟩

theorem Made.of_handleOf {network : String} {c : Container} {h : Handle} {tag : Tag}
    (hm : Made c.labels tag) (ht : tag.IsUnmarked) (hh : Runtime.handleOf network c = .ok h) :
    h.tag = tag := by
  obtain ⟨text, htext, hparse⟩ := (Runtime.readFrom_of_handleOf hh).tag
  rw [hm.tag] at htext
  rw [← Option.some.inj htext, Tag.parse_format ht] at hparse
  exact (Except.ok.inj hparse).symm

/-- A container that was made for a tag and can be read carries it. -/
theorem World.made_newcomer {w : World} {k : AppKey} {tag : Tag} {h : Handle}
    (hh : Runtime.handleOf w.broker.runtime.settings.network (w.newcomer k.name k.tenant tag) =
      .ok h) : Made (w.newcomer k.name k.tenant tag).labels tag := by
  refine ⟨rfl, rfl, ?_⟩
  rw [(Runtime.readFrom_of_handleOf hh).sequence]
  rfl

/-- Whether handles are those of the containers in a slot, or of all, each once. -/
structure Found (marks : List (String × Table String String)) (service : Option String)
    (hs : List Handle) : Prop where
  ids : (hs.map Handle.id).Perm
    ((marks.filter fun m => service.all (slotIn m.2 = ·)).map (·.1))
  tags : ∀ h ∈ hs, ∃ m ∈ marks, service.all (slotIn m.2 = ·) = true ∧
    ∀ tag, Made m.2 tag → tag.IsUnmarked → h.tag = tag

/-- A search finds the containers of the application. -/
theorem World.found_of_find {w : World} {k : AppKey} {service : Option String} {hs : List Handle}
    (hk : Told w.engine.lenient k) (hmade : ∀ m ∈ w.marks k, ∃ t, Made m.2 t)
    (h : (w.answer (.find k.name k.tenant service)).1 = .ok hs) :
    Found (w.marks k) service hs := by
  have hslots : ∀ c ∈ w.lineup k, (c.labels.get? Runtime.serviceLabel).isSome := by
    intro c hc
    obtain ⟨t, ht⟩ := hmade _ (List.mem_map_of_mem hc)
    rw [ht.service]
    rfl
  obtain ⟨handles, hread, hperm⟩ := find_handles hk hslots h
  have hids : handles.map Handle.id =
      ((w.lineup k).filter fun c => service.all (c.slot = ·)).map (·.id) :=
    Runtime.map_id_of_read hread
  constructor
  · refine (hperm.map _).trans ?_
    rw [hids]
    unfold marks
    rw [List.filter_map, List.map_map]
    exact .refl _
  · intro h hh
    obtain ⟨c, hc, hof⟩ := exists_of_mem_right hread (hperm.mem_iff.1 hh)
    obtain ⟨hc, hslot⟩ := List.mem_filter.1 hc
    exact ⟨_, List.mem_map_of_mem hc, hslot, fun tag hm ht => hm.of_handleOf ht hof⟩

namespace Found

variable {marks : List (String × Table String String)} {service : Option String} {hs : List Handle}
  {framework : Tag} {count : Int} {services : List Tag}

theorem mem_ids (h : Found marks service hs) {handle : Handle} (hh : handle ∈ hs) :
    ∃ m ∈ marks, service.all (slotIn m.2 = ·) = true ∧ m.1 = handle.id := by
  obtain ⟨m, hm, he⟩ := List.mem_map.1 (h.ids.mem_iff.1 (List.mem_map_of_mem hh))
  obtain ⟨hm, hs⟩ := List.mem_filter.1 hm
  exact ⟨m, hm, hs, he⟩

theorem nodup (h : Found marks service hs) (hm : (marks.map (·.1)).Nodup) :
    (hs.map Handle.id).Nodup :=
  h.ids.nodup_iff.2 ((List.filter_sublist.map _).nodup hm)

theorem length_eq (h : Found marks (some "") hs)
    (hc : Consists marks framework count services) : (hs.length : Int) = count := by
  have hlen := h.ids.length_eq
  simp only [List.length_map, Option.all_some] at hlen
  rw [hlen]
  exact hc.count

theorem tag_eq (h : Found marks (some "") hs) (hc : Consists marks framework count services)
    (hf : framework.IsUnmarked) {handle : Handle} (hh : handle ∈ hs) :
    handle.tag = framework := by
  obtain ⟨m, hm, hs, htag⟩ := h.tags handle hh
  exact htag framework (hc.frameworks m hm (of_decide_eq_true hs)) hf

theorem filter_drop {α : Type} [DecidableEq α] {l : List α} (h : l.Nodup) (n : Nat) :
    l.filter (· ∉ l.drop n) = l.take n := by
  have hdisjoint : ∀ a ∈ l.take n, a ∉ l.drop n := by
    intro a ht hd
    rw [← List.take_append_drop n l, List.nodup_append] at h
    exact h.2.2 a ht a hd rfl
  calc l.filter (· ∉ l.drop n)
      = (l.take n ++ l.drop n).filter (· ∉ l.drop n) := by rw [List.take_append_drop]
    _ = l.take n := by
      rw [List.filter_append, List.filter_eq_self.2 fun a ha => by simpa using hdisjoint a ha,
        List.filter_eq_nil_iff.2 fun a ha => by simpa using ha, List.append_nil]

/-- All but the first framework containers are taken away. -/
theorem consists_drop (h : Found marks (some "") hs) (hm : (marks.map (·.1)).Nodup)
    (hc : Consists marks framework count services) {n : Nat} (hn : n ≤ hs.length) :
    Consists (marks.filter fun m => m.1 ∉ (hs.drop n).map Handle.id) framework n services := by
  have hkept : ∀ m ∈ marks, slotIn m.2 ≠ "" →
      decide (m.1 ∉ (hs.drop n).map Handle.id) = true := by
    intro m hmem hslot
    refine decide_eq_true fun hdrop => hslot ?_
    obtain ⟨handle, hh, he⟩ := List.mem_map.1 hdrop
    obtain ⟨m', hm', hs', he'⟩ := h.mem_ids (List.mem_of_mem_drop hh)
    obtain rfl : m' = m := List.inj_on_of_nodup_map hm hm' hmem (he'.trans he)
    exact of_decide_eq_true hs'
  have hfilter := hc.filter (p := fun id => id ∉ (hs.drop n).map Handle.id) hkept
  have hlen : ((marks.filter fun m => slotIn m.2 = "").filter fun m =>
      decide (m.1 ∉ (hs.drop n).map Handle.id)).length = n := by
    have hids := (h.ids.filter fun id => id ∉ (hs.drop n).map Handle.id).length_eq
    rw [List.map_drop, filter_drop (h.nodup hm), List.length_take, List.length_map,
      Nat.min_eq_left hn, List.filter_map, List.length_map] at hids
    rw [List.map_drop]
    exact hids.symm
  rwa [hlen] at hfilter

end Found

end AppBroker
