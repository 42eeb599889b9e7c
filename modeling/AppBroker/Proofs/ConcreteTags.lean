import AppBroker.Proofs.HubLookups
import AppBroker.Proofs.SharingGate

/-!
# Concrete tags resolve to themselves

A reference is resolved to a plugin and its concrete tag: the plugin's own name, scope and version. For
the same caller that tag comes to the same plugin again (`Resolver.concrete_tags_are_fixed`). Where it
names a scope it is looked up there as before. The tag of a system plugin names none, so that the
caller's own plugins are tried first: what they did not have when the reference was resolved they do
not have in the concrete version either, because an absence without a version is that of the plugin
(`Hub.absent_in_version`).
-/

namespace AppBroker

variable {d : Disk} {root : Path} {caller : String}

/-- An absence that no first step tells comes from the second. -/
theorem Tells.of_bind {α β : Type} {o : Outcome α} {f : α → Outcome β} {r : Refusal}
    (ho : Tells (fun _ => False) o) (ha : r.isAbsence) (h : (o >>= f) = .error (.refusal r)) :
    ∃ a, o = .ok a ∧ f a = .error (.refusal r) := by
  cases o with
  | ok a => exact ⟨a, rfl, h⟩
  | error e =>
    cases h
    exact (ho r rfl ha).elim

namespace Hub

variable {tag tag' : Tag} {r : Refusal}

/-- Where to look is said by a tag's name, scope and version alone. -/
theorem find_congr (hname : tag.name = tag'.name) (htenant : tag.tenant = tag'.tenant)
    (hversion : tag.version = tag'.version) : find d root tag = find d root tag' := by
  cases tag
  cases tag'
  cases hname
  cases htenant
  cases hversion
  rfl

theorem plugin_of_find_error {e : Failure} (h : find d root tag = .error e) :
    plugin d root tag = .error e := by
  rw [plugin, h]
  rfl

/-- An absence shows before any manifest is read. -/
theorem find_of_absence (h : plugin d root tag = .error (.refusal r)) (ha : r.isAbsence) :
    find d root tag = .error (.refusal r) := by
  cases hfind : find d root tag with
  | error e =>
    cases (plugin_of_find_error hfind).symm.trans h
    rfl
  | ok path =>
    rw [plugin, hfind] at h
    obtain ⟨p, -, hp⟩ := (Manifest.tells_read d path).of_bind ha h
    cases hp

/-- A plugin that is absent without a version is absent in any. -/
theorem find_absent_in_version (h : find d root tag = .error (.refusal r)) (ha : r.isAbsence)
    (hname : tag'.name = tag.name) (htenant : tag'.tenant = tag.tenant)
    (hversion : tag.version = "") :
    find d root tag' = .error (.refusal (.pluginAbsent tag'.qualifiedName)) := by
  unfold find at h ⊢
  rw [hname, htenant]
  obtain ⟨base, hbase, h⟩ := (tells_pluginPath root _ _).of_bind ha h
  have hlooked : Outright (d.isDirectory base) := d.outright_test _ _
  obtain ⟨there, hdir, h⟩ := hlooked.tells.of_bind ha h
  rw [hbase, ok_bind, hdir, ok_bind]
  cases there with
  | false => rfl
  | true =>
  obtain ⟨versions, hversions, h⟩ := (outright_versionsIn d base).tells.of_bind ha h
  rw [hversions]
  by_cases hempty : versions = []
  · rw [hempty]
    rfl
  -- Of the versions that are there one is the latest, or the lookup breaks off.
  rw [if_neg (by simpa using hempty), hversion] at h
  obtain ⟨chosen, hchosen, h⟩ := (Version.outright_select versions "").tells.of_bind ha h
  cases chosen with
  | none => exact absurd hchosen (Version.select_latest hempty)
  | some v => cases h

/-- What is absent without a version, or in a version, is absent in that version. -/
theorem absent_in_version (h : plugin d root tag = .error (.refusal r)) (ha : r.isAbsence)
    (hname : tag'.name = tag.name) (htenant : tag'.tenant = tag.tenant)
    (hversion : tag.version = "" ∨ tag'.version = tag.version) :
    ∃ r', plugin d root tag' = .error (.refusal r') ∧ r'.isAbsence := by
  have hfind := find_of_absence h ha
  rcases hversion with hversion | hversion
  · exact ⟨_, plugin_of_find_error (find_absent_in_version hfind ha hname htenant hversion), rfl⟩
  · exact ⟨r, plugin_of_find_error ((find_congr hname htenant hversion).trans hfind), ha⟩

/-- A plugin has the name that it is looked up under, and the version, if one was asked for. It lies
in the directory of these. -/
theorem Tidy.shelved_of_plugin {p : Plugin} (h : Tidy root d) (hp : plugin d root tag = .ok p) :
    p.name = tag.name ∧ (tag.version = "" ∨ p.version = tag.version) ∧
      d.treeAt root [scopeName p.tenant, p.name, p.version] ≠ none := by
  obtain ⟨path, hfind, -⟩ := bind_eq_ok hp
  rcases h.neat.find_cases h.tree (sought_of_find hfind) with ⟨hnot, -⟩ | ⟨hnot, -⟩ |
    ⟨⟨e, hnot⟩, -⟩ | ⟨v, hfound, hv, hwhich⟩
  · cases hfind.symm.trans hnot
  · cases hfind.symm.trans hnot
  · cases hfind.symm.trans hnot
  · obtain ⟨p', hp', hname, hversion, htenant, -⟩ := h.neat.plugin_eq h.tree hfound hv
    obtain rfl := Except.ok.inj (hp'.symm.trans hp)
    refine ⟨hname, hwhich.imp And.left fun h => hversion.trans h.2, ?_⟩
    rwa [htenant, hname, hversion]

end Hub

namespace Resolver

variable {reference t : Tag} {p : Plugin}

/-- For the caller that a plugin was resolved for, its concrete tag comes to the plugin again. -/
theorem resolve_again (h : Hub.Tidy root d) (hp : resolve d root caller reference = .ok p)
    (ht : Names t p) : resolve d root caller t = .ok p := by
  have hagain {tag : Tag} (htag : Hub.plugin d root tag = .ok p) : Hub.plugin d root t = .ok p :=
    (h.neat.plugin_again h.tree htag).2.2.2 t ht.name ht.tenant ht.version
  have hwhere {tag : Tag} (htag : Hub.plugin d root tag = .ok p) : t.tenant = tag.tenant :=
    ht.tenant.trans (Hub.tenant_of_plugin htag)
  by_cases hnamed : reference.tenant = ""
  swap
  · by_cases hown : reference.tenant = caller
    · rw [resolve_own hnamed hown] at hp
      rw [← hwhere hp] at hnamed hown
      rw [resolve_own hnamed hown]
      exact hagain hp
    · rw [resolve_foreign hnamed hown] at hp
      split at hp
      · next q hplugin =>
        split at hp
        · next hshared =>
          obtain rfl := Except.ok.inj hp
          rw [← hwhere hplugin] at hnamed hown
          rw [resolve_foreign hnamed hown, hagain hplugin]
          exact if_pos hshared
        · cases hp
      · cases hp
      · cases hp
  rw [resolve_unnamed hnamed] at hp
  by_cases hcaller : caller = ""
  · rw [if_pos hcaller] at hp
    rw [resolve_unnamed ((hwhere hp).trans hnamed), if_pos hcaller]
    exact hagain hp
  rw [if_neg hcaller] at hp
  split at hp
  · next r hr =>
    split at hp
    swap
    · cases hp
    next ha =>
    have hversion : reference.version = "" ∨ t.version = reference.version :=
      (h.shelved_of_plugin hp).2.1.imp_right ht.version.trans
    have hname : (t.withTenant caller).name = (reference.withTenant caller).name :=
      ht.name.trans (h.shelved_of_plugin hp).1
    obtain ⟨r', hr', ha'⟩ := Hub.absent_in_version hr ha hname rfl hversion
    rw [resolve_unnamed ((hwhere hp).trans hnamed), if_neg hcaller, hr']
    exact (if_pos ha').trans (hagain hp)
  · have hown : t.tenant = caller := hwhere hp
    rw [resolve_own (hown ▸ hcaller) hown]
    exact hagain hp

theorem resolveAll_one (hp : resolve d root caller t = .ok p) (ht : Names t p) :
    resolveAll d root caller [t] = .ok [(t, p)] := by
  have hconcrete : concreteTag p t.service = .ok t := by
    rw [concreteTag, ← ht.name, ← ht.tenant, ← ht.version]
    exact dif_neg t.name_ne_empty
  rw [resolveAll, hp, ok_bind, hconcrete]
  rfl

theorem resolveEach_one (hp : resolve d root caller t = .ok p) (ht : Names t p) :
    resolveEach d root caller [.ok t] = .ok [(t, p)] := by
  rw [resolveEach, ok_bind, resolveAll_one hp ht]
  rfl

/-- Each reference that is resolved was read, and its result is that of the plugin it denotes. -/
theorem forall₂_resolveEach {references : List (Outcome Tag)} {pairs : List (Tag × Plugin)}
    (h : resolveEach d root caller references = .ok pairs) :
    List.Forall₂ (fun reference pair => ∃ tag, reference = .ok tag ∧
      resolve d root caller tag = .ok pair.2 ∧ Names pair.1 pair.2 ∧
      pair.1.service = tag.service) references pairs := by
  induction references generalizing pairs with
  | nil =>
    cases h
    exact .nil
  | cons reference references ih =>
    obtain ⟨tag, htag, h⟩ := bind_eq_ok h
    obtain ⟨first, hfirst, h⟩ := bind_eq_ok h
    obtain ⟨rest, hrest, h⟩ := bind_eq_ok h
    cases h
    obtain ⟨p, hp, hfirst⟩ := bind_eq_ok hfirst
    obtain ⟨concrete, hconcrete, hfirst⟩ := bind_eq_ok hfirst
    cases hfirst
    obtain ⟨hnames, hservice⟩ := concreteTag_eq_ok hconcrete
    exact .cons ⟨tag, htag, hp, hnames, hservice⟩ (ih hrest)

/-- What references are resolved to has a version and the slot of the reference, is resolved to
itself for the same caller, and is what the hub has under the tag. -/
theorem concrete_tags_are_fixed (h : Hub.Supplied root d) {references : List (Outcome Tag)}
    {pairs : List (Tag × Plugin)} (hpairs : resolveEach d root caller references = .ok pairs) :
    List.Forall₂ (fun reference pair => ∃ tag, reference = .ok tag ∧
      pair.1.version ≠ "" ∧ pair.1.service = tag.service ∧
      resolveEach d root caller [.ok pair.1] = .ok [pair] ∧
      Hub.plugin d root pair.1.withoutService = .ok pair.2) references pairs := by
  refine (forall₂_resolveEach hpairs).imp ?_
  rintro reference ⟨t, p⟩ ⟨tag, hread, hresolve, hnames, hservice⟩
  obtain ⟨sought, hlooked⟩ := looked_up_of_resolve hresolve
  obtain ⟨-, -, hversion, hagain⟩ := h.tidy.neat.plugin_again h.tidy.tree hlooked
  refine ⟨tag, hread, ?_, hservice, resolveEach_one (resolve_again h.tidy hresolve hnames) hnames,
    hagain _ hnames.name hnames.tenant hnames.version⟩
  rw [hnames.version]
  exact (Hub.isComponent_iff.1 hversion).1

section Overridden

open Disk Hub Storeroom

/-- A hub with one version of a plugin that a tenant has installed, and another one for all. -/
def overridden : Disk :=
  (install ["plugins"] "" ["py.tar"] (install ["plugins"] "alice" ["source"] offers).2).2

/-- A reference to the version that the tenant has not, in a slot. -/
def slotted : Tag := ⟨"python", "", "3.9", "db", name_python "3.9"⟩

/-- The tenant's version comes first, but not where a reference asks for that of all. (The archive is
still there when it is installed.) -/
theorem resolved_in_overridden :
    (Disk.isDirectory (install ["plugins"] "alice" ["source"] offers).2 ["py.tar"] ≠ .ok true ∧
      Disk.read (install ["plugins"] "alice" ["source"] offers).2 ["py.tar"] =
        .ok (archive "notes")) ∧
      resolve overridden ["plugins"] "alice" Hub.Storeroom.anyPython =
        .ok { python "3.10" with
          tenant := "alice", path := "<root>/plugins/alice/python/3.10" } ∧
      resolveEach overridden ["plugins"] "alice" [.ok slotted] =
        .ok [(slotted, (Composition.storedPython "3.9").2)] := by decide +kernel

theorem supplied_overridden : Supplied ["plugins"] overridden := by
  have hfirst : Supplied ["plugins"] (install ["plugins"] "alice" ["source"] offers).2 :=
    supplied_offers.installed "alice" (.inl ⟨_, isTree_offers.leads
      (by simp [offers, bare, entry?, Table.get?]) (by simp [offers, bare])⟩)
  obtain ⟨⟨hfile, hread⟩, -⟩ := resolved_in_overridden
  rw [overridden]
  exact hfirst.installed "" (isSupply_notes hfile hread)

/-- The tenant's version comes before that of all, but not where the reference asks for the latter.
Its concrete tag does the same. -/
theorem concrete_tag_passes_over_own :
    Supplied ["plugins"] overridden ∧
      resolve overridden ["plugins"] "alice" Hub.Storeroom.anyPython =
        .ok { python "3.10" with
          tenant := "alice", path := "<root>/plugins/alice/python/3.10" } ∧
      resolveEach overridden ["plugins"] "alice" [.ok slotted] =
        .ok [(slotted, (Composition.storedPython "3.9").2)] ∧
      Hub.plugin overridden ["plugins"] slotted.withoutService =
        .ok (Composition.storedPython "3.9").2 := by
  obtain ⟨-, hany, hresolve⟩ := resolved_in_overridden
  obtain - | ⟨⟨tag, -, -, -, hagain, hplugin⟩, -⟩ :=
    concrete_tags_are_fixed supplied_overridden hresolve
  exact ⟨supplied_overridden, hany, hagain, hplugin⟩

end Overridden

end Resolver

end AppBroker
