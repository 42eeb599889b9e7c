import AppBroker.Proofs.ConcreteTags

/-!
# Hubs whose plugins have tags

A hub takes a colon in what a plugin is called, and then the tag of the plugin is not read back. If no
installation brings one (`Hub.Edition.HasTag`), every tag that references are resolved to can be
written down, read back and looked up in any later hub, where it denotes a plugin or is absent
(`Tag.IsConcrete`). What is installed or removed changes nothing outside of the hub's directory
(`Hub.Tidy.entry?_install`, `Hub.Tidy.entry?_remove`).
-/

namespace AppBroker

/-- Whether a tag is read back as it is written, says a version and can be looked up in a hub. -/
structure Tag.IsConcrete (tag : Tag) : Prop where
  unmarked : tag.IsUnmarked
  sought : Hub.Tag.IsSought tag
  version : tag.version ≠ ""

namespace Hub

open Disk

variable {d d' : Disk} {root source q : Path} {tenant : String} {tag : Tag} {p : Plugin}

/-! ## Around a hub -/

/-- No link lies in the upper levels of a hub that is in order. -/
theorem Tidy.plain (h : Tidy root d) : Plain root d where
  tree := h.tree
  home := by simpa [treeAt] using h.neat.home
  shallow p hp target hlink := by
    have hdir : d.treeAt root p = some .directory := by
      rcases p with - | ⟨s, - | ⟨n, - | ⟨v, p⟩⟩⟩
      · exact h.neat.home
      · exact h.neat.scopes s (by simp [hlink])
      · exact h.neat.plugins s n (by simp [hlink])
      · exact absurd hp (by simp)
    cases hlink.symm.trans hdir

theorem not_isOwn_outside (hq : ¬ root <+: q) (tenant : String) : isOwn root tenant q = false := by
  rw [Bool.eq_false_iff, ne_eq, isOwn_iff]
  rintro (h | h) <;> exact hq ((List.prefix_append _ _).trans h)

theorem IsLead.inside (h : IsLead root tenant q) : root <+: q := by
  rcases h with rfl | rfl | ⟨name, rfl⟩ <;> exact List.prefix_append _ _

/-- An installation changes nothing outside of the hub. -/
theorem Ending.entry?_outside {r : Outcome Plugin × Disk} (h : Ending root tenant d r)
    (hq : ¬ root <+: q) : entry? r.2 q = d.entry? q := by
  have hmade {d₁ : Disk} (hmade : Disk.Made (IsLead root tenant) d d₁) : d₁.entry? q = d.entry? q :=
    (hmade.entry?_cases q).resolve_right fun hnew => hq hnew.2.2.inside
  have hstaged : ¬ stagingPath root <+: q := fun h => hq ((List.prefix_append _ _).trans h)
  cases h with
  | undone e hlead hkept _ => rw [hkept.entry?_eq (not_isStaged hstaged), hmade hlead]
  | done p hlead hkept _ =>
    have hshelf : ¬ root ++ (editionOf tenant p).shelf <+: q :=
      fun h => hq ((List.prefix_append _ _).trans h)
    rw [hkept.entry?_eq (Bool.or_eq_false_iff.2 ⟨not_isStaged hstaged,
      Bool.eq_false_iff.2 (mt isWithin_iff.1 hshelf)⟩), hmade hlead]

theorem Tidy.entry?_install (h : Tidy root d) (hsource : IsSupply d source) (tenant : String)
    (hq : ¬ root <+: q) : entry? (install root tenant source d).2 q = d.entry? q := by
  rcases hsource with ⟨place, hleads⟩ | ⟨hfile, hharmless⟩
  · have hkept := brings_install d tenant d ⟨h.plain.confined tenant, hleads.test_self _⟩
    exact hkept.entry?_eq (not_isOwn_outside hq tenant)
  · have hfree : d.entry? (stagingPath root) = none := by
      simpa [treeAt, stagingPath, workName] using h.neat.staged workName
    exact (h.plain.archive_ends hfree hfile hharmless tenant).entry?_outside hq

/-- A removal changes nothing outside of the hub. -/
theorem Plain.entry?_remove (h : Plain root d) (tag : Tag) (hq : ¬ root <+: q) :
    entry? (remove root tag d).2 q = d.entry? q :=
  (brings_remove h.tree (h.confined tag.tenant) d rfl).entry?_eq (not_isOwn_outside hq tag.tenant)

theorem Tidy.entry?_remove (h : Tidy root d) (tag : Tag) (hq : ¬ root <+: q) :
    entry? (remove root tag d).2 q = d.entry? q := h.plain.entry?_remove tag hq

/-! ## Tags of what is installed -/

/-- Whether an edition has a tag that is read back as it is written. -/
def Edition.HasTag (e : Edition) : Prop :=
  ∃ tag : Tag, tag.name = e.name ∧ tag.tenant = e.tenant ∧ tag.version = e.version ∧
    Tag.parse tag.format = .ok tag

/-- Whether no colon stands in what has versions, or in a version. -/
def Colonless (view : Path → Option Entry) : Prop :=
  ∀ s n v, view [s, n, v] ≠ none → ∀ part ∈ [s, n, v], ':' ∉ part.toList

theorem Edition.HasTag.colonless {e : Edition} (h : e.HasTag) :
    ∀ part ∈ e.shelf, ':' ∉ part.toList := by
  obtain ⟨tag, hname, htenant, hversion, hparse⟩ := h
  obtain ⟨hn, ht, hv, -⟩ := Tag.isUnmarked_of_parse hparse
  have hscope : ':' ∉ (scopeName e.tenant).toList := by
    unfold scopeName
    split
    · decide
    · exact htenant ▸ ht.1
  simpa [Edition.shelf] using ⟨hscope, hname ▸ hn.1, hversion ▸ hv.1⟩

/-- An installation brings no colon if the edition that it gives has a tag. -/
theorem Colonless.installed (hc : Colonless (d.treeAt root)) (h : Tidy root d)
    (hsource : IsSupply d source)
    (htag : ∀ p, (install root tenant source d).1 = .ok p → (editionOf tenant p).HasTag) :
    Colonless ((install root tenant source d).2.treeAt root) := by
  intro s n v hv
  rcases (h.supplied hsource tenant).adds s n v hv with hbefore | ⟨p, hp, hshelf⟩
  · exact hc s n v hbefore
  · rw [hshelf]
    exact (htag p hp).colonless

theorem Colonless.removed (hc : Colonless (d.treeAt root)) (tag : Tag) :
    Colonless ((remove root tag d).2.treeAt root) := by
  intro s n v hv
  obtain ⟨e, he⟩ := Option.ne_none_iff_exists'.1 hv
  have hbefore : d.treeAt root [s, n, v] = some e :=
    brings_within d root tag d (fun _ _ h => h) _ _ he
  exact hc s n v (by rw [hbefore]; exact Option.some_ne_none _)

/-- A plugin that is found in a hub without colons can be written as a tag. -/
theorem Tidy.isUnmarked_of_plugin (h : Tidy root d) (hc : Colonless (d.treeAt root))
    (hp : plugin d root tag = .ok p) : p.isUnmarked = true := by
  obtain ⟨hscope, hname, hversion, -⟩ := h.neat.plugin_again h.tree hp
  have hcolons := hc _ _ _ (h.shelved_of_plugin hp).2.2
  have htenant : ':' ∉ p.tenant.toList := by
    have hscope := hcolons (scopeName p.tenant) (by simp)
    unfold scopeName at hscope
    split at hscope
    · next hempty => simp [hempty]
    · exact hscope
  refine Composition.isUnmarked_of_colonless hscope hname hversion ?_
  simpa using ⟨hcolons p.name (by simp), htenant, hcolons p.version (by simp)⟩

/-- A version that is looked up is there, or it is absent. -/
theorem Tidy.plugin_cases (h : Tidy root d) (hsought : Tag.IsSought tag) (hversion : tag.version ≠ "") :
    (stock root d ⟨tag.tenant, tag.name, tag.version⟩ ≠ none ∧ ∃ p, plugin d root tag = .ok p) ∨
    (stock root d ⟨tag.tenant, tag.name, tag.version⟩ = none ∧
      ∃ r : Refusal, plugin d root tag = .error (.refusal r) ∧ r.isAbsence) := by
  have hthere := h.neat.stock_ne_none (v := tag.version) hsought.scope hsought.name
  rcases h.neat.find_cases h.tree hsought with ⟨hfind, hnone⟩ | ⟨hfind, -, hnone, -⟩ |
    ⟨-, hempty, -⟩ | ⟨v, hfind, hv, ⟨hempty, -⟩ | ⟨-, rfl⟩⟩
  · exact .inr ⟨not_not.1 (mt hthere.1 (hnone _)), _, plugin_of_find_error hfind, rfl⟩
  · exact .inr ⟨not_not.1 (mt hthere.1 hnone), _, plugin_of_find_error hfind, rfl⟩
  · exact absurd hempty hversion
  · exact absurd hempty hversion
  · obtain ⟨p, hp, -⟩ := h.neat.plugin_eq h.tree hfind hv
    exact .inl ⟨hthere.2 hv, p, hp⟩

end Hub

/-- All tags of a composition are concrete. -/
theorem Composition.isConcrete_of_mem {d : Disk} {root : Path} {caller framework : String}
    {services : List String} {composition : List (Tag × Plugin)} (h : Hub.Tidy root d)
    (hc : Hub.Colonless (d.treeAt root))
    (hresolve : resolve d root caller framework services = .ok composition) :
    ∀ tag ∈ composition.map (·.1), tag.IsConcrete := by
  intro tag htag
  obtain ⟨pair, hpair, rfl⟩ := List.mem_map.1 htag
  obtain ⟨hnames, ⟨sought, hlooked⟩, hslot⟩ := (resolve_eq_ok hresolve).2 pair hpair
  obtain ⟨-, -, hversion, hagain⟩ := h.neat.plugin_again h.tree hlooked
  obtain ⟨path, hfind, -⟩ := bind_eq_ok (hagain pair.1 hnames.name hnames.tenant hnames.version)
  refine ⟨isUnmarked_of_names hnames (h.isUnmarked_of_plugin hc hlooked) hslot,
    Hub.sought_of_find hfind, ?_⟩
  rw [hnames.version]
  exact (Hub.isComponent_iff.1 hversion).1

end AppBroker
