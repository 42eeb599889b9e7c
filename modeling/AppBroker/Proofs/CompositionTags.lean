import AppBroker.Proofs.Composed
import AppBroker.Proofs.HubRefinement

/-!
# What a composition is written as

Every tag of a composition is that of an edition in the hub: looked up again it gives the very
plugin that was resolved (`Hub.Neat.plugin_again`). Written down it reads back as it was just if
no colon stands in the plugin's name, scope or version: slashes do not come into a hub, and the slot
of a service comes from a tag that was read or is the plugin's name. A hub takes colons, though, and
then a framework is recorded under a tag that reads as a service's.
-/

namespace AppBroker

variable {admits : String → Prop} {d : Disk} {root : Path} {caller : String}

namespace Hub

open Disk

variable {tag : Tag} {p : Plugin}

/-- What is found has a tag whose parts can name directories, and are not too long. -/
theorem sought_of_find {path : Path} (h : find d root tag = .ok path) : Tag.IsSought tag := by
  have hvalid : IsScope tag.tenant ∧ isComponent tag.name := by
    by_contra hvalid
    obtain ⟨e, -, -, hfind⟩ := verdict_invalid (fun _ => none) root d hvalid
    rw [h] at hfind
    cases hfind
  unfold find at h
  rw [pluginPath_eq root hvalid.1 hvalid.2, ok_bind] at h
  obtain ⟨isDirectory, hdir, h⟩ := bind_eq_ok h
  cases isDirectory with
  | false => cases h
  | true =>
    have hall := short_of_isDirectory hdir
    exact ⟨hvalid.1, hvalid.2, short_of_scopeName (hall _ (by simp)), hall tag.name (by simp)⟩

/-- A plugin that was looked up is looked up again under its own name, scope and version. -/
theorem Neat.plugin_again (hneat : Neat admits (d.treeAt root)) (htree : d.IsTree)
    (hp : plugin d root tag = .ok p) :
    IsScope p.tenant ∧ isComponent p.name ∧ isComponent p.version ∧
      ∀ t : Tag, t.name = p.name → t.tenant = p.tenant → t.version = p.version →
        plugin d root t = .ok p := by
  have hplugin := hp
  obtain ⟨path, hfind, -⟩ := bind_eq_ok hp
  have hsought := sought_of_find hfind
  obtain ⟨v, hplace, hv⟩ : ∃ v, path = root ++ [scopeName tag.tenant, tag.name, v] ∧
      d.treeAt root [scopeName tag.tenant, tag.name, v] ≠ none := by
    rcases hneat.find_cases htree hsought with ⟨hnot, -⟩ | ⟨hnot, -⟩ | ⟨⟨e, hnot⟩, -⟩ |
      ⟨v, hfound, hv, -⟩
    · rw [hfind] at hnot; cases hnot
    · rw [hfind] at hnot; cases hnot
    · rw [hfind] at hnot; cases hnot
    · rw [hfind] at hfound
      cases hfound
      exact ⟨v, rfl, hv⟩
  subst hplace
  obtain ⟨p', hp', hname, hversion, htenant, -⟩ := hneat.plugin_eq htree hfind hv
  rw [hplugin] at hp'
  cases hp'
  have hcomponent : isComponent v := (hneat.versions _ _ v hv).2.1
  refine ⟨htenant ▸ hsought.scope, hname ▸ hsought.name, hversion ▸ hcomponent, ?_⟩
  intro t htn htt htv
  rw [hname] at htn
  rw [htenant] at htt
  rw [hversion] at htv
  have hsought' : Tag.IsSought t :=
    ⟨htt ▸ hsought.scope, htn ▸ hsought.name, htt ▸ hsought.scope_short, htn ▸ hsought.name_short⟩
  have hfind' : find d root t = .ok (root ++ [scopeName tag.tenant, tag.name, v]) := by
    have hcases := hneat.find_cases htree hsought'
    rw [htn, htt, htv] at hcases
    rcases hcases with ⟨-, hnot⟩ | ⟨-, -, hnot, -⟩ | ⟨-, hempty, -⟩ | ⟨w, hfound, -, hwhich⟩
    · exact absurd hv (hnot v)
    · exact absurd hv hnot
    · exact absurd hempty (isComponent_iff.1 hcomponent).1
    · rcases hwhich with ⟨hempty, -⟩ | ⟨-, rfl⟩
      · exact absurd hempty (isComponent_iff.1 hcomponent).1
      · exact hfound
  rw [plugin, hfind] at hplugin
  rw [plugin, hfind', htt]
  exact hplugin

end Hub

namespace Resolver

/-- What a reference resolves to was looked up in the hub. -/
theorem looked_up_of_resolve {reference : Tag} {p : Plugin}
    (h : resolve d root caller reference = .ok p) : ∃ tag, Hub.plugin d root tag = .ok p := by
  unfold resolve at h
  dsimp only at h
  split at h
  · split at h
    · split at h <;> cases h
    · cases h
    · rename_i q hq
      split at h
      · cases h
      · cases h
        exact ⟨_, hq⟩
  · split at h
    · split at h
      · split at h
        · exact ⟨_, h⟩
        · cases h
      · rename_i other hother
        exact ⟨_, h⟩
    · exact ⟨_, h⟩

theorem resolved_of_mem {tags : List Tag} {pairs : List (Tag × Plugin)}
    (h : resolveAll d root caller tags = .ok pairs) :
    ∀ pair ∈ pairs, ∃ reference, resolve d root caller reference = .ok pair.2 := by
  induction tags generalizing pairs with
  | nil =>
    cases h
    simp
  | cons tag tags ih =>
    obtain ⟨p, hp, h⟩ := bind_eq_ok h
    obtain ⟨t, -, h⟩ := bind_eq_ok h
    obtain ⟨rest, hrest, h⟩ := bind_eq_ok h
    cases h
    exact List.forall_mem_cons.2 ⟨⟨tag, hp⟩, ih hrest⟩

theorem looked_up_of_mem {tags : List Tag} {pairs : List (Tag × Plugin)}
    (h : resolveAll d root caller tags = .ok pairs) :
    ∀ pair ∈ pairs, ∃ tag, Hub.plugin d root tag = .ok pair.2 := by
  intro pair hpair
  obtain ⟨reference, hresolve⟩ := resolved_of_mem h pair hpair
  exact looked_up_of_resolve hresolve

end Resolver

namespace Composition

section Resolved

variable {framework : String} {services : List String} {composition : List (Tag × Plugin)}

/-- Every tag of a composition names its plugin, which was looked up, and has a slot without marks
but for the plugin's name. The first one is in the framework's slot. -/
theorem resolve_eq_ok (h : resolve d root caller framework services = .ok composition) :
    (∃ t p rest, composition = (t, p) :: rest ∧ t.service = "") ∧
      ∀ pair ∈ composition, Names pair.1 pair.2 ∧
        (∃ tag, Hub.plugin d root tag = .ok pair.2) ∧
        (Tag.Unmarked pair.1.service.toList ∨ pair.1.service = pair.2.name) := by
  obtain ⟨⟨tag, p⟩, pairs, rest, rfl, hfill, ⟨hnames, hslot⟩, hpairs, tags, hall⟩ :=
    parts_of_resolve h
  have hlooked := Resolver.looked_up_of_mem hall
  refine ⟨⟨tag, p, rest, rfl, hslot⟩, List.forall_mem_cons.2 ⟨⟨hnames, ?_, .inl ?_⟩, ?_⟩⟩
  · exact hlooked _ List.mem_cons_self
  · rw [show tag.service = "" from hslot]
    exact ⟨by simp, by simp⟩
  · intro pair hpair
    obtain ⟨⟨tag', p'⟩, hresolved, hsame, hslotted⟩ := slotted_of_mem hfill pair hpair
    obtain ⟨hn, hs⟩ := hpairs _ hresolved
    rw [hslotted, hsame]
    refine ⟨⟨hn.name, hn.tenant, hn.version⟩, hlooked _ (List.mem_cons_of_mem _ hresolved), ?_⟩
    show Tag.Unmarked (slot tag' p').toList ∨ slot tag' p' = p'.name
    unfold slot
    split
    · exact .inl hs
    · exact .inr rfl

/-- Only colons can keep the tag of a plugin in a hub from being read back. -/
theorem isUnmarked_of_colonless {p : Plugin} (hscope : Hub.IsScope p.tenant)
    (hname : Hub.isComponent p.name) (hversion : Hub.isComponent p.version)
    (hcolons : ∀ part ∈ [p.name, p.tenant, p.version], ':' ∉ part.toList) : p.isUnmarked = true := by
  have htenant : '/' ∉ p.tenant.toList := by
    rcases hscope with hsystem | hscope
    · simp [hsystem]
    · exact (Hub.isComponent_iff.1 hscope).2.1
  have hslashes : ∀ part ∈ [p.name, p.tenant, p.version], '/' ∉ part.toList := by
    simpa using ⟨(Hub.isComponent_iff.1 hname).2.1, htenant, (Hub.isComponent_iff.1 hversion).2.1⟩
  exact List.all_eq_true.2 fun part hpart =>
    decide_eq_true ⟨hcolons part hpart, hslashes part hpart⟩

/-- A tag of a composition is unmarked if its plugin is. -/
theorem isUnmarked_of_names {t : Tag} {p : Plugin} (hnames : Names t p) (hp : p.isUnmarked = true)
    (hslot : Tag.Unmarked t.service.toList ∨ t.service = p.name) : t.IsUnmarked := by
  refine hnames.isUnmarked hp ?_
  rcases hslot with hslot | hslot
  · exact hslot
  · rw [hslot]
    exact p.isUnmarked_name hp

/-- A composition starts with the framework's tag, all its tags denote the plugins that were
resolved, and a tag reads back as itself just if no colon stands in what its plugin is called. -/
theorem composed_tags_read_back (hreached : Hub.Reached root admits d)
    (h : resolve d root caller framework services = .ok composition) :
    (∃ t p rest, composition = (t, p) :: rest ∧ t.service = "") ∧
      ∀ pair ∈ composition, Hub.plugin d root pair.1 = .ok pair.2 ∧
        (Tag.parse pair.1.format = .ok pair.1 ↔
          ∀ part ∈ [pair.2.name, pair.2.tenant, pair.2.version], ':' ∉ part.toList) := by
  obtain ⟨hfirst, hall⟩ := resolve_eq_ok h
  refine ⟨hfirst, fun pair hpair => ?_⟩
  obtain ⟨hnames, ⟨sought, hlooked⟩, hslot⟩ := hall _ hpair
  obtain ⟨htree, hneat, -⟩ := hreached.neat
  obtain ⟨hscope, hname, hversion, hagain⟩ := hneat.plugin_again htree hlooked
  refine ⟨hagain pair.1 hnames.name hnames.tenant hnames.version, ?_⟩
  constructor
  · intro hread
    obtain ⟨hn, ht, hv, -⟩ := Tag.isUnmarked_of_parse hread
    rw [hnames.name] at hn
    rw [hnames.tenant] at ht
    rw [hnames.version] at hv
    simpa using ⟨hn.1, ht.1, hv.1⟩
  · intro hcolons
    have hp := isUnmarked_of_colonless hscope hname hversion hcolons
    exact Tag.parse_format (isUnmarked_of_names hnames hp hslot)

end Resolved

/-! ## A composition of one framework -/

section Installed

open Hub Storeroom

/-- The framework that a version of the storeroom's source is resolved to. -/
def storedPython (version : String) : Tag × Plugin :=
  (⟨"python", "", version, "", name_python version⟩,
    { python version with path := "<root>/plugins/.system/python/" ++ version })

theorem installed_framework_reads_back :
    let d := (install ["plugins"] "" ["source"] (bare "3.9")).2
    resolve d ["plugins"] "alice" "python" [] = .ok [storedPython "3.9"] ∧
      Tag.parse (storedPython "3.9").1.format = .ok (storedPython "3.9").1 := by
  intro d
  have hresolve : resolve d ["plugins"] "alice" "python" [] = .ok [storedPython "3.9"] := by
    decide +kernel
  exact ⟨hresolve, ((composed_tags_read_back reached_stocked hresolve).2 _ List.mem_cons_self).2.2
    (by decide)⟩

/-- A hub takes a version with a colon at its end. The framework's tag is then read as that of
another plugin, which is a service. -/
theorem framework_reads_as_service :
    let d := (install ["plugins"] "" ["source"] (bare "u:")).2
    Reached ["plugins"] Version.HasKey d ∧
      resolve d ["plugins"] "alice" "python" [] = .ok [storedPython "u:"] ∧
      Tag.parse (storedPython "u:").1.format = .ok ⟨"u", "", "", "python", by decide⟩ := by
  intro d
  have hread : Manifest.read (bare "u:") ["source"] = .ok (python "u:") := by decide +kernel
  refine ⟨.installed "" (reached_bare "u:") (isSource_bare "u:") fun p hp => ?_,
    by decide +kernel, by decide +kernel⟩
  rw [hread] at hp
  cases hp
  exact ⟨⟨[.word "u:"], "u:"⟩, by decide +kernel⟩

end Installed

end Composition

end AppBroker
