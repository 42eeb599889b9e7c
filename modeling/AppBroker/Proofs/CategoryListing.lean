import AppBroker.Proofs.HubListing

/-!
# Listing one category

A listing of one category leaves the others out in each scope, before the plugins of the tenant go
over those of the system. It shows what the whole listing shows of that category and, besides,
every plugin of the system that goes under a plugin of the tenant with another category
(`Resolver.installed_category`). Where the tenant has no such plugin, both are the same and what is
shown under a name is what the name is resolved to (`Resolver.category_listing_agrees`).
-/

namespace AppBroker

namespace Hub

open Disk

variable {d : Disk} {root : Path} {tenant n : String} {p : Plugin}

/-- A listing with the plugins of one category left in it. -/
def Warned.only (c : Category) (listed : Warned (List Plugin)) : Warned (List Plugin) :=
  ⟨listed.warnings, listed.result.map fun plugins => plugins.filter (·.category = c)⟩

theorem pluginsIn_category (scope : Path) (c : Category) (names : List String) :
    pluginsIn d scope tenant (some c) names = (pluginsIn d scope tenant none names).only c := by
  induction names with
  | nil => rfl
  | cons n names ih =>
    unfold pluginsIn
    cases d.isDirectory (scope ++ [n]) with
    | error e => rfl
    | ok there =>
      dsimp only
      split
      · exact ih
      cases (latestIn d (scope ++ [n])).result with
      | error e => rfl
      | ok found =>
        dsimp only
        rw [ih, Warned.only, Warned.only]
        cases (pluginsIn d scope tenant none names).result with
        | error e => rfl
        | ok rest =>
          cases found with
          | none => rfl
          | some p => by_cases hp : p.category = c <;> simp [Except.map, Option.filter, hp]

/-- What a scope lists of a category is what is left of all that it lists. -/
theorem list_category (d : Disk) (root : Path) (tenant : String) (c : Category) :
    list d root tenant (some c) = (list d root tenant none).only c := by
  unfold list
  dsimp only
  split
  · exact pluginsIn_category _ c _
  · rfl

/-! ## A tenant that no directory can be named for -/

theorem list_of_null (ht : IsScope tenant) (hnull : '\x00' ∈ tenant.toList) (hne : tenant ≠ "")
    (category : Option Category) : list d root tenant category = ⟨[], .ok []⟩ := by
  have hdir : d.isDirectory (root ++ [scopeName tenant]) = .ok false :=
    test_missing (locate_of_null hnull (by simp [scopeName, hne]) true) _
  unfold list
  rw [scopePath_eq ht, ok_bind, hdir]
  rfl

theorem plugin_of_null (ht : IsScope tenant) (hnull : '\x00' ∈ tenant.toList) (hne : tenant ≠ "")
    (hcomponent : isComponent n) (hn : n ≠ "") :
    plugin d root (.ofName tenant n hn) =
      refuse (.pluginAbsent (Tag.ofName tenant n hn).qualifiedName) := by
  have hdir : d.isDirectory (root ++ [scopeName tenant, n]) = .ok false :=
    test_missing (locate_of_null hnull (by simp [scopeName, hne]) true) _
  unfold plugin find
  rw [show (Tag.ofName tenant n hn).name = n from rfl,
    show (Tag.ofName tenant n hn).tenant = tenant from rfl, pluginPath_eq root ht hcomponent, ok_bind,
    hdir]
  rfl

end Hub

namespace Resolver

open Hub

variable {d : Disk} {root : Path} {caller n : String} {c : Category} {p : Plugin}

/-- A plugin of the system whose name is resolved to a plugin of the caller of another category. -/
def Uncovered (d : Disk) (root : Path) (caller : String) (c : Category) (p : Plugin) : Prop :=
  caller ≠ "" ∧ p.category = c ∧ ∃ hn q, plugin d root (.ofName "" p.name hn) = .ok p ∧
    plugin d root (.ofName caller p.name hn) = .ok q ∧ q.category ≠ c

section Caller

variable (h : Tidy root d) (hkeys : ∀ e, stock root d e ≠ none → Version.HasKey e.version)
  (ht : IsScope caller) (hshort : caller.utf8ByteSize ≤ Disk.maxName)

include h hkeys ht hshort

/-- The listing of a category shows what the whole listing has of it, and what is uncovered. -/
theorem installed_category (c : Category) : ∃ all shown,
    installed d root caller none = ⟨[], .ok all⟩ ∧
    installed d root caller (some c) = ⟨[], .ok shown⟩ ∧
    (all.map (·.name)).Nodup ∧ (shown.map (·.name)).Nodup ∧
    (∀ p ∈ all, ∃ hn, resolve d root caller (.ofName "" p.name hn) = .ok p) ∧
    ∀ p, p ∈ shown ↔ (p ∈ all ∧ p.category = c) ∨ Uncovered d root caller c p := by
  obtain ⟨all, hall, -, hallOnce, hmemAll⟩ := installed_cases h hkeys ht hshort
  obtain ⟨base, hbase, hbaseOnce, hmemBase⟩ := h.list_eq hkeys (.inl (rfl : "" = "")) (by decide)
  obtain ⟨others, hothers, hothersOnce, hmemOthers⟩ : ∃ others,
      (if caller = "" then ⟨[], .ok []⟩ else list d root caller (some c) : Warned (List Plugin)) =
        ⟨[], .ok others⟩ ∧ (others.map (·.name)).Nodup ∧
      ∀ p, p ∈ others ↔ (caller ≠ "" ∧ ∃ hn, plugin d root (.ofName caller p.name hn) = .ok p) ∧
        p.category = c := by
    by_cases hc : caller = ""
    · exact ⟨[], if_pos hc, List.nodup_nil, by simp [hc]⟩
    · obtain ⟨own, hown, honce, hmem⟩ := h.list_eq hkeys ht hshort
      refine ⟨own.filter (·.category = c), by rw [if_neg hc, list_category, hown]; rfl,
        honce.sublist (List.filter_sublist.map _), by simp [hc, hmem]⟩
  refine ⟨all, byDisplayName (merge (base.filter (·.category = c)) others).values, hall, ?_, hallOnce,
    ((perm_byDisplayName _).map _).nodup_iff.2 nodup_merge, fun p hp => (hmemAll p).1 hp, fun p => ?_⟩
  · unfold installed
    rw [list_category, hbase]
    dsimp only [Warned.only, Except.map]
    rw [hothers]
    rfl
  rw [(perm_byDisplayName _).mem_iff,
    mem_merge (hbaseOnce.sublist (List.filter_sublist.map _)) hothersOnce, hmemOthers,
    List.mem_filter, hmemBase, hmemAll, decide_eq_true_iff]
  -- what is left of the tenant's has no plugin of a name if its plugin there is of another category
  have hleft (hn : p.name ≠ "") : (∀ q ∈ others, q.name ≠ p.name) ↔
      caller = "" ∨ ∀ q, plugin d root (.ofName caller p.name hn) = .ok q → q.category ≠ c := by
    constructor
    · intro hall
      refine or_iff_not_imp_left.2 fun hc q hq hcategory => ?_
      obtain ⟨hname, -⟩ := h.neat.stocked_of_plugin h.tree hkeys ht hshort hq
      simp only [← hname] at hq
      exact hall q ((hmemOthers q).2 ⟨⟨hc, _, hq⟩, hcategory⟩) hname
    · rintro hnone q hq hname
      obtain ⟨⟨hc, hn', hq⟩, hcategory⟩ := (hmemOthers q).1 hq
      simp only [hname] at hq
      exact hnone.resolve_left hc q hq hcategory
  have hiff (hn : p.name ≠ "") := resolve_ofName (p := p) h hkeys ht hshort hn
  constructor
  · rintro (⟨⟨hc, hn, hp⟩, hcategory⟩ | ⟨⟨⟨hn, hp⟩, hcategory⟩, hall⟩)
    · exact .inl ⟨⟨hn, (hiff hn).2 (.inl ⟨hc, hp⟩)⟩, hcategory⟩
    by_cases hown : caller ≠ "" ∧ ∃ q, plugin d root (.ofName caller p.name hn) = .ok q
    · obtain ⟨hc, q, hq⟩ := hown
      exact .inr ⟨hc, hcategory, hn, q, hp, hq, ((hleft hn).1 hall).resolve_left hc q hq⟩
    · refine .inl ⟨⟨hn, (hiff hn).2 (.inr ⟨hp, or_iff_not_imp_left.2 fun hc q hq => ?_⟩)⟩, hcategory⟩
      exact hown ⟨hc, q, hq⟩
  · rintro (⟨⟨hn, hp⟩, hcategory⟩ | ⟨hc, hcategory, hn, q, hp, hq, hother⟩)
    · rcases (hiff hn).1 hp with ⟨hc, hp⟩ | ⟨hp, hnone⟩
      · exact .inl ⟨⟨hc, hn, hp⟩, hcategory⟩
      · refine .inr ⟨⟨⟨hn, hp⟩, hcategory⟩, (hleft hn).2 (hnone.imp_right fun hnone q hq => ?_)⟩
        exact absurd hq (hnone q)
    · refine .inr ⟨⟨⟨hn, hp⟩, hcategory⟩, (hleft hn).2 (.inr fun q' hq' => ?_)⟩
      rwa [← Except.ok.inj (hq.symm.trans hq')]

theorem installed_covered (hcovered : ∀ p, ¬ Uncovered d root caller c p) : ∃ all shown,
    installed d root caller none = ⟨[], .ok all⟩ ∧
      installed d root caller (some c) = ⟨[], .ok shown⟩ ∧
      shown.Perm (all.filter (·.category = c)) ∧
      ∀ p ∈ shown, ∃ hn, resolve d root caller (.ofName "" p.name hn) = .ok p := by
  obtain ⟨all, shown, hall, hshown, hallOnce, hshownOnce, hresolved, hmem⟩ :=
    installed_category h hkeys ht hshort c
  have hsame (p : Plugin) : p ∈ shown ↔ p ∈ all ∧ p.category = c := by simp [hmem, hcovered]
  refine ⟨all, shown, hall, hshown, ?_, fun p hp => hresolved p ((hsame p).1 hp).1⟩
  refine (List.perm_ext_iff_of_nodup hshownOnce.of_map (hallOnce.of_map.filter _)).2 fun p => ?_
  rw [hsame, List.mem_filter, decide_eq_true_iff]

end Caller

/-- A caller that no directory can be named for is shown what everybody is. -/
theorem installed_of_null (ht : IsScope caller) (hnull : '\x00' ∈ caller.toList) (hne : caller ≠ "")
    (category : Option Category) :
    installed d root caller category = installed d root "" category := by
  unfold installed
  rw [list_of_null ht hnull hne, if_neg hne, if_pos rfl]

theorem resolve_of_null (ht : IsScope caller) (hnull : '\x00' ∈ caller.toList) (hne : caller ≠ "")
    (hn : n ≠ "") :
    resolve d root caller (.ofName "" n hn) = resolve d root "" (.ofName "" n hn) := by
  rw [resolve_unnamed rfl, resolve_unnamed rfl, if_neg hne, if_pos rfl,
    show (Tag.ofName "" n hn).withTenant caller = .ofName caller n hn from rfl]
  by_cases hcomponent : isComponent n
  · rw [plugin_of_null ht hnull hne hcomponent]
    rfl
  · unfold plugin find
    rw [show (Tag.ofName caller n hn).name = n from rfl, show (Tag.ofName "" n hn).name = n from rfl,
      show (Tag.ofName caller n hn).tenant = caller from rfl,
      show (Tag.ofName "" n hn).tenant = "" from rfl, pluginPath_refused_name ht hcomponent,
      pluginPath_refused_name (.inl rfl) hcomponent]
    rfl

/-- Where no plugin of the system is uncovered, the listing of a category shows the plugins of it
that the whole listing shows, each as its name is resolved. -/
theorem category_listing_agrees (h : Managed root d)
    (hkeys : ∀ e, stock root d e ≠ none → Version.HasKey e.version) (ht : IsScope caller)
    (c : Category) (hcovered : ∀ p, ¬ Uncovered d root caller c p) :
    (caller.utf8ByteSize ≤ Disk.maxName → ∃ all, installed d root caller none = ⟨[], .ok all⟩) ∧
    match (installed d root caller none).result with
    | .error e => (installed d root caller (some c)).result = .error e
    | .ok all => ∃ shown, (installed d root caller (some c)).result = .ok shown ∧
        shown.Perm (all.filter (·.category = c)) ∧
        ∀ p ∈ shown, ∃ hn, resolve d root caller (.ofName "" p.name hn) = .ok p := by
  by_cases hshort : caller.utf8ByteSize ≤ Disk.maxName
  · obtain ⟨all, shown, hall, hshown, hagree⟩ := installed_covered h.tidy hkeys ht hshort hcovered
    refine ⟨fun _ => ⟨all, hall⟩, ?_⟩
    rw [hall, hshown]
    exact ⟨shown, rfl, hagree⟩
  refine ⟨fun hfit => absurd hfit hshort, ?_⟩
  have hne : caller ≠ "" := by
    rintro rfl
    exact hshort (by decide)
  by_cases hnull : '\x00' ∈ caller.toList
  · obtain ⟨all, shown, hall, hshown, hsame, hresolved⟩ :=
      installed_covered (c := c) h.tidy hkeys (.inl (rfl : "" = "")) (by decide) fun p hp => hp.1 rfl
    rw [installed_of_null ht hnull hne, installed_of_null ht hnull hne, hall, hshown]
    refine ⟨shown, rfl, hsame, fun p hp => ?_⟩
    obtain ⟨hn, hp⟩ := hresolved p hp
    exact ⟨hn, by rw [resolve_of_null ht hnull hne, hp]⟩
  · obtain ⟨base, hbase, -⟩ := h.tidy.list_eq hkeys (.inl (rfl : "" = "")) (by decide)
    have hlong : list d root caller none = ⟨[], .error (.breakage .fileSystem)⟩ :=
      list_overlong (h.tidy.tree.has (by simpa [Disk.treeAt] using h.tidy.neat.home))
        (ht.resolve_left hne) (Nat.lt_of_not_le hshort) hnull
    unfold installed
    rw [list_category, list_category, hbase, hlong]
    simp only [Warned.only, Except.map, if_neg hne]

section Examples

open Storeroom

theorem own_copy_is_listed_by_category :
    (∀ p, ¬ Uncovered copied ["plugins"] "alice" .framework p) ∧
      ∃ p, p.tenant = "alice" ∧
        (installed copied ["plugins"] "alice" (some .framework)).result = .ok [p] ∧
        ∃ hn, resolve copied ["plugins"] "alice" (.ofName "" p.name hn) = .ok p := by
  obtain ⟨-, hplaces, hpython, hall⟩ := shown_in_copied
  have hkeys := hasKey_of_stock fun q hq hlength => (hplaces q hq hlength).2
  have hcovered : ∀ p, ¬ Uncovered copied ["plugins"] "alice" .framework p := by
    rintro p ⟨-, -, hn, q, -, hq, hother⟩
    obtain ⟨-, -, -, v, hv⟩ := managed_copied.tidy.neat.stocked_of_plugin managed_copied.tidy.tree hkeys
      (.inr (by decide)) (by decide) hq
    have hname : p.name = "python" :=
      (hplaces ["plugins", "alice", p.name, v]
        (by rwa [Disk.mem_keys_iff, ← Disk.entry?_eq_get? (by simp)]) rfl).1
    simp only [hname] at hq
    rw [← Except.ok.inj (hpython.symm.trans hq)] at hother
    exact hother rfl
  refine ⟨hcovered, ownCopy, rfl, ?_⟩
  obtain ⟨-, hagree⟩ := category_listing_agrees managed_copied hkeys
    (.inr (by decide) : IsScope "alice") .framework hcovered
  rw [hall] at hagree
  obtain ⟨shown, hshown, hsame, hresolved⟩ := hagree
  obtain rfl := List.perm_singleton.1 hsame
  exact ⟨hshown, hresolved _ List.mem_cons_self⟩

/-- An empty hub, and next to it a framework and a service of the same name. -/
def paired : Disk where
  entries := [(["plugins"], .directory), (["framework"], .directory),
    (["framework", "manifest.yml"], .file (Text.encode
      "name: python\nversion: \"3.9\"\ncategory: framework\n")), (["service"], .directory),
    (["service", "manifest.yml"], .file (Text.encode
      "name: python\nversion: \"3.9\"\ncategory: service\n"))]

/-- A hub that has the framework in the system scope, and the service with a tenant. -/
def shadowed : Disk :=
  (install ["plugins"] "alice" ["service"] (install ["plugins"] "" ["framework"] paired).2).2

theorem isTree_paired : paired.IsTree :=
  .of_entries (by decide) (by decide)

def ownPython : Plugin :=
  { python "3.9" with
    category := .service, tenant := "alice", path := "<root>/plugins/alice/python/3.9" }

def systemPython : Plugin := { python "3.9" with path := "<root>/plugins/.system/python/3.9" }

/-- The source of the tenant's service is still there when it is installed, and then the name is that
of the service for the tenant. -/
theorem found_in_shadowed :
    Disk.entry? (install ["plugins"] "" ["framework"] paired).2 ["service"] = some .directory ∧
      (∀ e ∈ (install ["plugins"] "" ["framework"] paired).2.entries, Disk.isLink e.2 = false) ∧
      (∀ q ∈ shadowed.entries.keys, q.length = 4 → q.getLast? = some "3.9") ∧
      plugin shadowed ["plugins"] (.ofName "" "python" (by decide)) = .ok systemPython ∧
      plugin shadowed ["plugins"] (.ofName "alice" "python" (by decide)) = .ok ownPython ∧
      resolve shadowed ["plugins"] "alice" (.ofName "" "python" (by decide)) = .ok ownPython := by
  decide +kernel

theorem managed_shadowed : Managed ["plugins"] shadowed := by
  have hempty : ∀ q, q ≠ [] → paired.treeAt ["plugins"] q = none := by
    intro q hq
    obtain ⟨n, q, rfl⟩ := List.exists_cons_of_ne_nil hq
    simp [paired, Disk.treeAt, Disk.entry?, Table.get?]
  have hsystem : Managed ["plugins"] (install ["plugins"] "" ["framework"] paired).2 :=
    .installed "" (.new isTree_paired (by decide) hempty)
      (isTree_paired.leads_of_linkless (by decide) (by decide))
  obtain ⟨hplace, hlinks, -⟩ := found_in_shadowed
  exact .installed "alice" hsystem (hsystem.tidy.tree.leads_of_linkless hplace hlinks)

theorem uncovered_shadowed : Uncovered shadowed ["plugins"] "alice" .framework systemPython := by
  obtain ⟨-, -, -, hsystem, hown, -⟩ := found_in_shadowed
  exact ⟨by decide, rfl, by decide, ownPython, hsystem, hown, by decide⟩

/-- The listing of the frameworks shows the one of the system, whose name is resolved to a service
and shown as one in the whole listing. -/
theorem shadowed_framework_is_listed :
    Managed ["plugins"] shadowed ∧
      (∀ e, stock ["plugins"] shadowed e ≠ none → Version.HasKey e.version) ∧ isComponent "alice" ∧
      ∃ all shown, installed shadowed ["plugins"] "alice" none = ⟨[], .ok all⟩ ∧
        installed shadowed ["plugins"] "alice" (some .framework) = ⟨[], .ok shown⟩ ∧
        systemPython ∈ shown ∧ systemPython ∉ all ∧
        ∃ hn, resolve shadowed ["plugins"] "alice" (.ofName "" systemPython.name hn) = .ok ownPython := by
  obtain ⟨-, -, hplaces, -, -, hresolved⟩ := found_in_shadowed
  have hkeys := hasKey_of_stock hplaces
  obtain ⟨all, shown, hall, hshown, -, -, hagrees, hmem⟩ := installed_category managed_shadowed.tidy hkeys
    (.inr (by decide) : IsScope "alice") (by decide) .framework
  refine ⟨managed_shadowed, hkeys, by decide, all, shown, hall, hshown,
    (hmem _).2 (.inr uncovered_shadowed), fun hin => ?_, by decide, hresolved⟩
  obtain ⟨hn, hsystem⟩ := hagrees _ hin
  exact absurd (Except.ok.inj (hresolved.symm.trans hsystem)) (by decide)

end Examples

end Resolver

end AppBroker
