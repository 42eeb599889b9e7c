import AppBroker.Proofs.HubManaged
import AppBroker.Proofs.SharingGate

/-!
# What is listed is what is resolved

The listing sorts all versions of a plugin and takes the first one whose manifest can be read, and
the plugins of a tenant go over those of the system with the same names. A reference is resolved to
the highest version in one scope, and then in the other. In a hub in order both come to the same
plugin (`Resolver.listing_agrees`): manifests can be read and give the name of the directory they lie
in, and of two versions one ranks above the other.
-/

namespace AppBroker

/-- A plugin of a scope by its name, in its latest version. -/
def Tag.ofName (tenant name : String) (h : name ≠ "") : Tag := ⟨name, tenant, "", "", h⟩

namespace Hub

open Disk

variable {admits : String → Prop} {d : Disk} {root : Path} {tenant n : String} {p : Plugin}

/-- What a hub has of a plugin in its latest version. -/
theorem Neat.latest_cases (h : Neat admits (d.treeAt root)) (htree : d.IsTree)
    (hkeys : ∀ e, stock root d e ≠ none → Version.HasKey e.version) (ht : IsScope tenant)
    (hshort : tenant.utf8ByteSize ≤ maxName) (hn : n ≠ "") :
    ((∃ v, stock root d ⟨tenant, n, v⟩ ≠ none) ∧
      ∃ p, plugin d root (.ofName tenant n hn) = .ok p ∧ p.name = n) ∨
    (∀ v, stock root d ⟨tenant, n, v⟩ = none) ∧ ∀ p, plugin d root (.ofName tenant n hn) ≠ .ok p := by
  by_cases hfit : isComponent n ∧ n.utf8ByteSize ≤ maxName
  swap
  · refine .inr ⟨fun v => ?_, fun p hp => hfit ?_⟩
    · by_contra hne
      obtain ⟨hvalid, hnamed⟩ := fit_of_stock htree hne
      exact hfit ⟨hvalid.2.1, (hnamed n (by simp [Edition.shelf])).short⟩
    · have hfind : ∃ path, find d root (.ofName tenant n hn) = .ok path := by
        cases hf : find d root (.ofName tenant n hn) with
        | error e => rw [plugin, hf] at hp; cases hp
        | ok path => exact ⟨path, rfl⟩
      obtain ⟨path, hfind⟩ := hfind
      have hname : isComponent n := by
        by_contra hno
        rw [find, show (Tag.ofName tenant n hn).name = n from rfl,
          show (Tag.ofName tenant n hn).tenant = tenant from rfl, pluginPath_refused_name ht hno] at hfind
        cases hfind
      refine ⟨hname, ?_⟩
      rw [find, show (Tag.ofName tenant n hn).name = n from rfl,
        show (Tag.ofName tenant n hn).tenant = tenant from rfl, pluginPath_eq root ht hname, ok_bind]
        at hfind
      cases hdir : d.isDirectory (root ++ [scopeName tenant, n]) with
      | error e => rw [hdir] at hfind; cases hfind
      | ok there =>
        cases there with
        | true => exact short_of_isDirectory hdir n (by simp)
        | false => rw [hdir] at hfind; cases hfind
  have hsought : Tag.IsSought (.ofName tenant n hn) := ⟨ht, hfit.1, hshort, hfit.2⟩
  have hthere (v : String) := h.stock_ne_none (v := v) ht hfit.1
  rcases h.find_cases htree hsought with ⟨hfind, hnone⟩ | ⟨-, hversion, -⟩ | ⟨-, -, v, hv, hkey⟩ |
    ⟨v, hfind, hv, -⟩
  · refine .inr ⟨fun v => ?_, fun p hp => ?_⟩
    · by_contra hne
      exact hnone v ((hthere v).1 hne)
    · rw [plugin, hfind] at hp
      cases hp
  · exact absurd rfl hversion
  · exact absurd (hkeys _ ((hthere v).2 hv)) hkey
  · obtain ⟨p, hp, hname, -⟩ := h.plugin_eq htree hfind hv
    exact .inl ⟨⟨v, (hthere v).2 hv⟩, p, hp, hname⟩

theorem Neat.stocked_of_plugin (h : Neat admits (d.treeAt root)) (htree : d.IsTree)
    (hkeys : ∀ e, stock root d e ≠ none → Version.HasKey e.version) (ht : IsScope tenant)
    (hshort : tenant.utf8ByteSize ≤ maxName) {hn : n ≠ ""}
    (hp : plugin d root (.ofName tenant n hn) = .ok p) :
    p.name = n ∧ isComponent n ∧ n.utf8ByteSize ≤ maxName ∧
      ∃ v, d.treeAt root [scopeName tenant, n, v] ≠ none := by
  rcases h.latest_cases htree hkeys ht hshort hn with ⟨⟨v, hv⟩, q, hq, hname⟩ | ⟨-, hnone⟩
  · obtain rfl := Except.ok.inj (hq.symm.trans hp)
    obtain ⟨⟨-, hcomponent, -⟩, hnamed⟩ := fit_of_stock htree hv
    exact ⟨hname, hcomponent, (hnamed n (by simp [Edition.shelf])).short, v,
      (h.stock_ne_none ht hcomponent).1 hv⟩
  · exact absurd hp (hnone p)

/-- The latest readable version of a plugin is its latest version. -/
theorem Neat.latestIn_eq (h : Neat admits (d.treeAt root)) (htree : d.IsTree)
    (hkeys : ∀ e, stock root d e ≠ none → Version.HasKey e.version) (ht : IsScope tenant)
    (hshort : tenant.utf8ByteSize ≤ maxName) (hn : isComponent n)
    (hbase : d.treeAt root [scopeName tenant, n] ≠ none) (hne : n ≠ "") :
    ∃ found, latestIn d (root ++ [scopeName tenant, n]) = ⟨[], .ok found⟩ ∧
      ∀ p, (found.map fun q => { q with tenant }) = some p ↔
        plugin d root (.ofName tenant n hne) = .ok p := by
  have hlisted := h.versionsIn_eq htree hbase
  have hdir := h.isDirectory_plugin htree
    ⟨short_scopeName hshort, proper_scopeName ht⟩
    ⟨((htree.closed.treeAt root) [scopeName tenant] n hbase).2.short, proper_of_isComponent hn⟩
  rw [h.plugins _ _ hbase] at hdir
  unfold latestIn plugin find
  rw [show (Tag.ofName tenant n hne).name = n from rfl,
    show (Tag.ofName tenant n hne).tenant = tenant from rfl,
    show (Tag.ofName tenant n hne).version = "" from rfl, pluginPath_eq root ht hn, ok_bind, hdir,
    hlisted]
  generalize hversions : d.names (root ++ [scopeName tenant, n]) = versions
  simp only [decide_true, Bool.not_true, Bool.false_eq_true, if_false, ok_bind]
  by_cases hempty : versions = []
  · subst hempty
    exact ⟨none, by rw [Version.sortDescending_nil]; rfl, fun p => ⟨nofun, nofun⟩⟩
  have hthere (v : String) (hv : v ∈ versions) : d.treeAt root [scopeName tenant, n, v] ≠ none :=
    (mem_names_plugin d root _ _ v).1 (hversions ▸ hv)
  obtain ⟨v, rest, hlatest, hsorted⟩ := Version.sortDescending_latest hempty fun v hv =>
    hkeys ⟨tenant, n, v⟩ ((h.stock_ne_none ht hn).2 (hthere v hv))
  have hv : v ∈ versions :=
    (Version.perm_sortDescending hsorted).mem_iff.1 List.mem_cons_self
  obtain ⟨q, hread, -⟩ := h.read_eq htree (hthere v hv)
  have hread' : Manifest.read d (root ++ [scopeName tenant, n] ++ [v]) = .ok q := by simpa using hread
  refine ⟨some q, by rw [hsorted]; simp only [firstReadable, hread'], fun p => ?_⟩
  rw [if_neg (by simpa using hempty), Version.select, if_pos rfl, hlatest, ok_bind]
  show _ ↔ (Manifest.read d (root ++ [scopeName tenant, n] ++ [v]) >>= _) = _
  rw [hread']
  exact ⟨fun heq => congrArg Except.ok (Option.some.inj heq), fun heq => congrArg some (Except.ok.inj heq)⟩

section Scope

variable (h : Tidy root d) (hkeys : ∀ e, stock root d e ≠ none → Version.HasKey e.version)
  (ht : IsScope tenant) (hshort : tenant.utf8ByteSize ≤ maxName)

include h hkeys ht hshort

/-- One directory of a scope is listed as the plugin that its name is resolved to. -/
theorem Tidy.pluginsIn_cons (hthere : d.treeAt root [scopeName tenant, n] ≠ none)
    {names : List String} {rest : List Plugin}
    (hrest : pluginsIn d (root ++ [scopeName tenant]) tenant none names = ⟨[], .ok rest⟩) :
    ∃ kept : Option Plugin,
      pluginsIn d (root ++ [scopeName tenant]) tenant none (n :: names) =
        ⟨[], .ok (kept.toList ++ rest)⟩ ∧
      ∀ p, kept = some p ↔ p.name = n ∧ ∃ hn, plugin d root (.ofName tenant p.name hn) = .ok p := by
  obtain ⟨hdir, hname⟩ := h.tree.closed (root ++ [scopeName tenant]) n (by simpa [treeAt] using hthere)
  have hplain : d.entry? (root ++ [scopeName tenant] ++ [n]) = some .directory := by
    simpa [treeAt] using h.neat.plugins _ _ hthere
  have hisdir : d.isDirectory (root ++ [scopeName tenant] ++ [n]) = .ok true := by
    rw [isDirectory, test_on (locate_self (h.tree.has hdir) true) hdir hname
      (by rw [hplain]; rintro target ⟨⟩), hplain]
    rfl
  rw [pluginsIn, hisdir]
  simp only [Bool.not_true, Bool.false_or]
  have hnot (hno : ¬ isComponent n) (p : Plugin) :
      ¬ (p.name = n ∧ ∃ hn, plugin d root (.ofName tenant p.name hn) = .ok p) := by
    rintro ⟨rfl, hn, hp⟩
    exact hno (h.neat.stocked_of_plugin h.tree hkeys ht hshort hp).2.1
  by_cases hhidden : Manifest.isHidden n
  · rw [if_pos hhidden, hrest]
    refine ⟨none, rfl, fun p => ⟨fun heq => (by cases heq), fun hp => absurd hp (hnot (fun hn => ?_) p)⟩⟩
    rw [isHidden_eq_false hn] at hhidden
    cases hhidden
  rw [if_neg hhidden, hrest]
  dsimp only
  obtain ⟨found, hfound, hiff⟩ : ∃ found,
      latestIn d (root ++ [scopeName tenant] ++ [n]) = ⟨[], .ok found⟩ ∧
      ∀ p, (found.map fun q => { q with tenant }) = some p ↔
        p.name = n ∧ ∃ hn, plugin d root (.ofName tenant p.name hn) = .ok p := by
    by_cases hcomponent : isComponent n
    · obtain ⟨found, hfound, hiff⟩ := h.neat.latestIn_eq h.tree hkeys ht hshort hcomponent hthere
        hname.ne_empty
      refine ⟨found, by simpa using hfound, fun p => (hiff p).trans ⟨fun hp => ?_, ?_⟩⟩
      · obtain ⟨rfl, -⟩ := h.neat.stocked_of_plugin h.tree hkeys ht hshort hp
        exact ⟨rfl, hname.ne_empty, hp⟩
      · rintro ⟨rfl, hn, hp⟩
        exact hp
    · -- a directory with another name has no versions in it
      have hversions : versionsIn d (root ++ [scopeName tenant] ++ [n]) = .ok [] := by
        have hlisted := h.neat.versionsIn_eq h.tree hthere
        have hempty : d.names (root ++ [scopeName tenant, n]) = [] := by
          refine List.eq_nil_iff_forall_not_mem.2 fun v hv => hcomponent ?_
          exact h.named _ _ v ((mem_names_plugin d root _ _ v).1 hv)
        rw [hempty] at hlisted
        simpa using hlisted
      refine ⟨none, by rw [latestIn, hversions, ok_bind, Version.sortDescending_nil]; rfl,
        fun p => ⟨fun heq => (by cases heq), fun hp => absurd hp ?_⟩⟩
      exact hnot hcomponent p
  rw [hfound]
  exact ⟨found.map fun q => { q with tenant }, by cases found <;> rfl, hiff⟩

/-- Directories of a scope are listed as the plugins that their names are resolved to. -/
theorem Tidy.pluginsIn_eq (names : List String)
    (hthere : ∀ n ∈ names, d.treeAt root [scopeName tenant, n] ≠ none) :
    ∃ plugins, pluginsIn d (root ++ [scopeName tenant]) tenant none names = ⟨[], .ok plugins⟩ ∧
      (plugins.map (·.name)).Sublist names ∧ ∀ p, p ∈ plugins ↔
        p.name ∈ names ∧ ∃ hn, plugin d root (.ofName tenant p.name hn) = .ok p := by
  induction names with
  | nil => exact ⟨[], rfl, List.Sublist.refl _, by simp⟩
  | cons n names ih =>
    obtain ⟨rest, hrest, hsub, hmem⟩ := ih fun m hm => hthere m (List.mem_cons_of_mem n hm)
    obtain ⟨kept, hlisted, hkept⟩ := h.pluginsIn_cons hkeys ht hshort (hthere n List.mem_cons_self) hrest
    refine ⟨_, hlisted, ?_, fun p => ?_⟩
    · cases kept with
      | none => exact hsub.cons n
      | some p =>
        rw [Option.toList_some, List.map_append, List.map_singleton, ((hkept p).1 rfl).1]
        exact hsub.cons_cons n
    · rw [List.mem_append, Option.mem_toList, hkept, hmem, List.mem_cons, or_and_right]

theorem Tidy.list_eq : ∃ plugins, list d root tenant none = ⟨[], .ok plugins⟩ ∧
    (plugins.map (·.name)).Nodup ∧
    ∀ p, p ∈ plugins ↔ ∃ hn, plugin d root (.ofName tenant p.name hn) = .ok p := by
  have hroot : d.entry? root = some .directory := by simpa [treeAt] using h.neat.home
  have hlies (p : Plugin) (hn : p.name ≠ "")
      (hp : plugin d root (.ofName tenant p.name hn) = .ok p) :
      d.treeAt root [scopeName tenant] ≠ none ∧ d.treeAt root [scopeName tenant, p.name] ≠ none := by
    obtain ⟨-, -, -, v, hv⟩ := h.neat.stocked_of_plugin h.tree hkeys ht hshort hp
    exact ⟨fun hnone => hv (h.neat.closed.none_below hnone [p.name, v]),
      fun hnone => hv (h.neat.closed.none_below hnone [v])⟩
  unfold list
  rw [scopePath_eq ht]
  by_cases hnone : d.treeAt root [scopeName tenant] = none
  · have hdir : d.isDirectory (root ++ [scopeName tenant]) = .ok false := by
      by_cases hname : IsName (scopeName tenant)
      · have hentry : d.entry? (root ++ [scopeName tenant]) = none := hnone
        rw [isDirectory, test_on (locate_self (h.tree.has hroot) true) hroot hname (by simp [hentry]),
          hentry]
        rfl
      · have hnull : '\x00' ∈ (scopeName tenant).toList := by
          by_contra hnull
          obtain ⟨hne, hhere, habove⟩ := proper_scopeName ht
          exact hname ⟨hne, hhere, habove, short_scopeName hshort, hnull⟩
        exact test_missing (locate_of_null hnull (by simp) true) _
    refine ⟨[], ?_, List.nodup_nil, fun p => ⟨fun hp => absurd hp List.not_mem_nil, ?_⟩⟩
    · simp only [ok_bind, hdir, Bool.not_false, if_true, pure, Except.pure, pluginsIn]
    · rintro ⟨hn, hp⟩
      exact absurd hnone (hlies p hn hp).1
  · have hplace : d.entry? (root ++ [scopeName tenant]) = some .directory := h.neat.scopes _ hnone
    have hhas := h.tree.has hplace
    have hdir : d.isDirectory (root ++ [scopeName tenant]) = .ok true := by
      rw [isDirectory, test, stat, locate_self hhas true, ok_bind, hplace]
      rfl
    have hthere (n : String) : n ∈ d.names (root ++ [scopeName tenant]) ↔
        d.treeAt root [scopeName tenant, n] ≠ none := by
      rw [mem_names]
      simp [treeAt]
    obtain ⟨plugins, hlisted, hsub, hmem⟩ := h.pluginsIn_eq hkeys ht hshort
      (d.names (root ++ [scopeName tenant])) fun n hn => (hthere n).1 hn
    refine ⟨plugins, ?_, hsub.nodup (h.tree.nodup_names _), fun p => (hmem p).trans
      (and_iff_right_of_imp ?_)⟩
    · simp only [ok_bind, hdir, Bool.not_true, Bool.false_eq_true, if_false, pure, Except.pure,
        list_self hhas, orBreak, hlisted]
    · rintro ⟨hn, hp⟩
      exact (hthere _).2 (hlies p hn hp).2

end Scope

end Hub

namespace Resolver

open Hub

variable {t : Table String Plugin} {d : Disk} {root : Path} {caller n : String} {p : Plugin}
  {base others : List Plugin}

/-! ## Merging by name -/

/-- Whether a table has plugins under their names. -/
structure ByName (t : Table String Plugin) : Prop where
  once : t.keys.Nodup
  named : ∀ e ∈ t, e.1 = e.2.name

theorem ByName.fold (h : ByName t) (plugins : List Plugin) :
    ByName (plugins.foldl (fun t p => Table.insert t p.name p) t) := by
  induction plugins generalizing t with
  | nil => exact h
  | cons p plugins ih =>
    refine ih ⟨Table.nodup_keys_insert h.once _ _, fun e he => ?_⟩
    rcases Table.mem_of_mem_insert he with rfl | he
    · rfl
    · exact h.named e he

theorem ByName.names_eq (h : ByName t) : t.values.map (·.name) = t.keys := by
  rw [Table.values, Table.keys, List.map_map]
  exact List.map_congr_left fun e he => (h.named e he).symm

theorem ByName.mem_values (h : ByName t) : p ∈ t.values ↔ t.get? p.name = some p := by
  rw [Table.get?_eq_some_iff h.once, Table.values, List.mem_map]
  constructor
  · rintro ⟨⟨k, q⟩, he, rfl⟩
    obtain rfl : k = q.name := h.named _ he
    exact he
  · exact fun he => ⟨_, he, rfl⟩

/-- Of plugins that are put into a table one after the other, each goes over what had its name. -/
theorem get?_fold (plugins : List Plugin) (honce : (plugins.map (·.name)).Nodup)
    (t : Table String Plugin) :
    (plugins.foldl (fun t p => Table.insert t p.name p) t).get? n = some p ↔
      (p ∈ plugins ∧ p.name = n) ∨ ((∀ q ∈ plugins, q.name ≠ n) ∧ t.get? n = some p) := by
  induction plugins generalizing t with
  | nil => simp
  | cons first plugins ih =>
    obtain ⟨hfirst, honce⟩ := List.nodup_cons.1 honce
    rw [List.foldl_cons, ih honce, Table.get?_insert]
    by_cases hn : first.name = n
    · have hothers : ∀ q ∈ plugins, q.name ≠ n := fun q hq heq =>
        hfirst (List.mem_map.2 ⟨q, hq, heq.trans hn.symm⟩)
      rw [if_pos hn, Option.some.injEq, List.forall_mem_cons, List.mem_cons]
      constructor
      · rintro (⟨hp, hname⟩ | ⟨-, rfl⟩)
        · exact absurd hname (hothers p hp)
        · exact .inl ⟨.inl rfl, hn⟩
      · rintro (⟨rfl | hp, hname⟩ | ⟨⟨hno, -⟩, -⟩)
        · exact .inr ⟨hothers, rfl⟩
        · exact absurd hname (hothers p hp)
        · exact absurd hn hno
    · have hp (h : p.name = n) : p ≠ first := by
        rintro rfl
        exact hn h
      simp only [hn, if_false, List.mem_cons, forall_eq_or_imp, ne_eq, not_false_iff, true_and]
      refine or_congr (and_congr_left fun h => ?_) Iff.rfl
      simp [hp h]

theorem byName_merge (base others : List Plugin) : ByName (merge base others) :=
  ByName.fold ⟨by simp [Table.keys], by simp⟩ _

theorem nodup_merge : ((merge base others).values.map (·.name)).Nodup := by
  rw [(byName_merge base others).names_eq]
  exact (byName_merge base others).once

/-- Two lists are merged into all of the second and what has other names of the first. -/
theorem mem_merge (hbase : (base.map (·.name)).Nodup) (hothers : (others.map (·.name)).Nodup) :
    p ∈ (merge base others).values ↔
      p ∈ others ∨ (p ∈ base ∧ ∀ q ∈ others, q.name ≠ p.name) := by
  rw [(byName_merge base others).mem_values, merge, List.foldl_append, get?_fold others hothers, get?_fold base hbase]
  simp [and_comm]

/-! ## The listing -/

theorem perm_byDisplayName (plugins : List Plugin) : (byDisplayName plugins).Perm plugins :=
  List.mergeSort_perm _ _

theorem sorted_byDisplayName (plugins : List Plugin) :
    (byDisplayName plugins).Pairwise fun p q => Text.le p.displayName q.displayName := by
  have htrans (p q r : Plugin) (hpq : Text.le p.displayName q.displayName)
      (hqr : Text.le q.displayName r.displayName) : Text.le p.displayName r.displayName :=
    Std.TransCmp.isLE_trans hpq hqr
  have htotal (p q : Plugin) :
      Text.le p.displayName q.displayName || Text.le q.displayName p.displayName := by
    rw [Text.le, Text.le, Std.OrientedOrd.eq_swap (a := q.displayName)]
    cases Ord.compare p.displayName q.displayName <;> rfl
  exact List.pairwise_mergeSort htrans htotal plugins

section Caller

variable (h : Tidy root d) (hkeys : ∀ e, stock root d e ≠ none → Version.HasKey e.version)
  (ht : IsScope caller) (hshort : caller.utf8ByteSize ≤ Disk.maxName)

include h hkeys ht hshort

theorem resolve_ofName (hn : n ≠ "") : resolve d root caller (.ofName "" n hn) = .ok p ↔
    (caller ≠ "" ∧ plugin d root (.ofName caller n hn) = .ok p) ∨
    (plugin d root (.ofName "" n hn) = .ok p ∧
      (caller = "" ∨ ∀ q, plugin d root (.ofName caller n hn) ≠ .ok q)) := by
  by_cases hfit : isComponent n ∧ n.utf8ByteSize ≤ Disk.maxName
  · exact resolve_unnamed_iff (h.neat.legible h.tree hkeys) ⟨ht, hfit.1, hshort, hfit.2⟩ rfl
  have hnone {tenant : String} (ht : IsScope tenant) (hshort : tenant.utf8ByteSize ≤ Disk.maxName)
      (q : Plugin) : plugin d root (.ofName tenant n hn) ≠ .ok q := by
    intro hq
    obtain ⟨-, hname, hfits, -⟩ := h.neat.stocked_of_plugin h.tree hkeys ht hshort hq
    exact hfit ⟨hname, hfits⟩
  have hsystem := hnone (.inl rfl) (by decide)
  have hown := hnone ht hshort
  refine iff_of_false (fun hp => ?_) (by simp [hsystem, hown])
  rw [resolve_unnamed rfl] at hp
  split at hp
  · exact hsystem p hp
  split at hp
  · split at hp
    · exact hsystem p hp
    · cases hp
  · exact hown p hp

/-- What is listed is what the names of plugins are resolved to. -/
theorem installed_cases :
    ∃ plugins, installed d root caller none = ⟨[], .ok plugins⟩ ∧
      (plugins.Pairwise fun p q => Text.le p.displayName q.displayName) ∧
      (plugins.map (·.name)).Nodup ∧
      ∀ p, p ∈ plugins ↔ ∃ hn, resolve d root caller (.ofName "" p.name hn) = .ok p := by
  obtain ⟨base, hbase, hbaseOnce, hmemBase⟩ := h.list_eq hkeys (.inl (rfl : "" = "")) (by decide)
  obtain ⟨others, hlisted, hothersOnce, hmemOthers⟩ : ∃ others,
      (if caller = "" then ⟨[], .ok []⟩ else list d root caller none : Warned (List Plugin)) =
        ⟨[], .ok others⟩ ∧ (others.map (·.name)).Nodup ∧
      ∀ p, p ∈ others ↔ caller ≠ "" ∧ ∃ hn, plugin d root (.ofName caller p.name hn) = .ok p := by
    by_cases hc : caller = ""
    · exact ⟨[], if_pos hc, List.nodup_nil, by simp [hc]⟩
    · obtain ⟨others, hothers, honce, hmem⟩ := h.list_eq hkeys ht hshort
      exact ⟨others, by rw [if_neg hc, hothers], honce, by simpa [hc] using hmem⟩
  refine ⟨byDisplayName (merge base others).values, ?_, sorted_byDisplayName _,
    ((perm_byDisplayName _).map _).nodup_iff.2 nodup_merge, fun p => ?_⟩
  · unfold installed
    rw [hbase]
    dsimp only
    rw [hlisted]
    rfl
  rw [(perm_byDisplayName _).mem_iff, mem_merge hbaseOnce hothersOnce, hmemBase, hmemOthers]
  -- the tenant lists no plugin of a name if and only if it has none of that name
  have hoverridden (hn : p.name ≠ "") : (∀ q ∈ others, q.name ≠ p.name) ↔
      caller = "" ∨ ∀ q, plugin d root (.ofName caller p.name hn) ≠ .ok q := by
    constructor
    · intro hall
      refine or_iff_not_imp_left.2 fun hc q hq => ?_
      obtain ⟨hname, -⟩ := h.neat.stocked_of_plugin h.tree hkeys ht hshort hq
      simp only [← hname] at hq
      exact hall q ((hmemOthers q).2 ⟨hc, _, hq⟩) hname
    · rintro hnone q hq hname
      obtain ⟨hc, hn', hq⟩ := (hmemOthers q).1 hq
      simp only [hname] at hq
      exact hnone.resolve_left hc q hq
  constructor
  · rintro (⟨hc, hn, hp⟩ | ⟨⟨hn, hp⟩, hall⟩)
    · exact ⟨hn, (resolve_ofName h hkeys ht hshort hn).2 (.inl ⟨hc, hp⟩)⟩
    · exact ⟨hn, (resolve_ofName h hkeys ht hshort hn).2 (.inr ⟨hp, (hoverridden hn).1 hall⟩)⟩
  · rintro ⟨hn, hp⟩
    rcases (resolve_ofName h hkeys ht hshort hn).1 hp with ⟨hc, hp⟩ | ⟨hp, hnone⟩
    · exact .inl ⟨hc, hn, hp⟩
    · exact .inr ⟨⟨hn, hp⟩, (hoverridden hn).2 hnone⟩

end Caller

/-- The listing shows every plugin of the system and of the caller once, by display name, and each
as its name is resolved. -/
theorem listing_agrees (h : Managed root d)
    (hkeys : ∀ e, stock root d e ≠ none → Version.HasKey e.version) (ht : IsScope caller)
    (hshort : caller.utf8ByteSize ≤ Disk.maxName) :
    ∃ plugins, installed d root caller none = ⟨[], .ok plugins⟩ ∧
      (plugins.Pairwise fun p q => Text.le p.displayName q.displayName) ∧
      (plugins.map (·.name)).Nodup ∧
      (∀ n, n ∈ plugins.map (·.name) ↔
        ∃ tenant v, (tenant = "" ∨ tenant = caller) ∧ stock root d ⟨tenant, n, v⟩ ≠ none) ∧
      ∀ p ∈ plugins, ∃ hn, resolve d root caller (.ofName "" p.name hn) = .ok p := by
  obtain ⟨plugins, hlisted, hsorted, honce, hmem⟩ := installed_cases h.tidy hkeys ht hshort
  refine ⟨plugins, hlisted, hsorted, honce, fun n => ?_, fun p hp => (hmem p).1 hp⟩
  obtain ⟨htree, hneat, -⟩ := h.tidy
  have hthere {tenant : String} (ht : IsScope tenant) (hshort : tenant.utf8ByteSize ≤ Disk.maxName)
      (hn : n ≠ "") : (∃ p, plugin d root (.ofName tenant n hn) = .ok p ∧ p.name = n) ↔
        ∃ v, stock root d ⟨tenant, n, v⟩ ≠ none := by
    rcases hneat.latest_cases htree hkeys ht hshort hn with ⟨hv, hp⟩ | ⟨hv, hp⟩
    · exact iff_of_true hp hv
    · exact iff_of_false (fun ⟨p, hfound, _⟩ => hp p hfound) fun ⟨v, hthere⟩ => hthere (hv v)
  constructor
  · intro hn
    obtain ⟨p, hp, rfl⟩ := List.mem_map.1 hn
    obtain ⟨hn, hp⟩ := (hmem p).1 hp
    rcases (resolve_ofName h.tidy hkeys ht hshort hn).1 hp with ⟨-, hp⟩ | ⟨hp, -⟩
    · obtain ⟨v, hv⟩ := (hthere ht hshort hn).1 ⟨p, hp, rfl⟩
      exact ⟨_, v, .inr rfl, hv⟩
    · obtain ⟨v, hv⟩ := (hthere (.inl rfl) (by decide) hn).1 ⟨p, hp, rfl⟩
      exact ⟨_, v, .inl rfl, hv⟩
  · rintro ⟨tenant, v, hwhose, hv⟩
    have hn : n ≠ "" := (isComponent_iff.1 (fit_of_stock htree hv).1.2.1).1
    have hresolved {p : Plugin} (hp : resolve d root caller (.ofName "" n hn) = .ok p)
        (hname : p.name = n) : n ∈ plugins.map (·.name) := by
      subst hname
      exact List.mem_map_of_mem ((hmem p).2 ⟨hn, hp⟩)
    have hiff {p : Plugin} := resolve_ofName (p := p) h.tidy hkeys ht hshort hn
    by_cases hown : caller ≠ "" ∧ ∃ p, plugin d root (.ofName caller n hn) = .ok p ∧ p.name = n
    · obtain ⟨hc, p, hp, hname⟩ := hown
      exact hresolved (hiff.2 (.inl ⟨hc, hp⟩)) hname
    have hnone : caller = "" ∨ ∀ q, plugin d root (.ofName caller n hn) ≠ .ok q := by
      refine or_iff_not_imp_left.2 fun hc q hq => hown ⟨hc, q, hq, ?_⟩
      exact (hneat.stocked_of_plugin htree hkeys ht hshort hq).1
    have hsystem : tenant = "" := by
      rcases hwhose with rfl | rfl
      · rfl
      · by_contra hc
        exact hown ⟨hc, (hthere ht hshort hn).2 ⟨v, hv⟩⟩
    subst hsystem
    obtain ⟨p, hp, hname⟩ := (hthere (.inl rfl) (by decide) hn).2 ⟨v, hv⟩
    exact hresolved (hiff.2 (.inr ⟨hp, hnone⟩)) hname

section Examples

open Storeroom

theorem managed_offered : Managed ["plugins"] offered :=
  .installed "" (.new (isTree_bare "3.9") (by decide) (empty_bare "3.9"))
    (isSource_bare "3.9").toLeads

/-- A hub in which a tenant has installed its own copy of what the system has, from there. -/
def copied : Disk := (install ["plugins"] "alice" ["plugins", ".system", "python", "3.9"] offered).2

/-- The copy, as callers see it. -/
def ownCopy : Plugin :=
  { python "3.9" with tenant := "alice", path := "<root>/plugins/alice/python/3.9" }

theorem held_in_offered :
    offered.entry? ["plugins", ".system", "python", "3.9"] = some .directory ∧
      (∀ e ∈ offered.entries, Disk.isLink e.2 = false) ∧
      ∀ q ∈ offered.entries.keys, q.length = 4 → q.getLast? = some "3.9" := by
  decide +kernel

/-- What is held, found and listed there. -/
theorem shown_in_copied :
    copied.entry? ["plugins", ".system", "python", "3.9"] = some .directory ∧
      (∀ q ∈ copied.entries.keys, q.length = 4 →
        q.getD 2 "" = "python" ∧ q.getLast? = some "3.9") ∧
      plugin copied ["plugins"] (.ofName "alice" "python" (by decide)) = .ok ownCopy ∧
      (installed copied ["plugins"] "alice" none).result = .ok [ownCopy] := by
  decide +kernel

theorem managed_copied : Managed ["plugins"] copied := by
  obtain ⟨hplace, hlinks, -⟩ := held_in_offered
  exact .installed "alice" managed_offered
    (managed_offered.tidy.tree.leads_of_linkless hplace hlinks)

theorem hasKey_of_stock (hall : ∀ q ∈ d.entries.keys, q.length = 4 → q.getLast? = some "3.9")
    (e : Edition) (he : stock ["plugins"] d e ≠ none) : Version.HasKey e.version := by
  obtain ⟨payload, hpayload⟩ := Option.ne_none_iff_exists'.1 he
  obtain ⟨-, hdir, -⟩ := stock_eq_some hpayload
  have hlisted : ["plugins"] ++ e.shelf ∈ d.entries.keys := by
    rw [Disk.mem_keys_iff, ← Disk.entry?_eq_get? (by simp)]
    exact fun hnone => absurd (hdir.symm.trans hnone) (by simp)
  have hversion : e.version = "3.9" := by simpa [Edition.shelf] using hall _ hlisted rfl
  exact hasKey_of_isThreeNine _ hversion

theorem own_copy_is_listed :
    (∀ e, stock ["plugins"] copied e ≠ none → Version.HasKey e.version) ∧
      (stock ["plugins"] copied ⟨"", "python", "3.9"⟩).isSome ∧
      ∃ p, p.tenant = "alice" ∧ installed copied ["plugins"] "alice" none = ⟨[], .ok [p]⟩ ∧
        ∃ hn, resolve copied ["plugins"] "alice" (.ofName "" p.name hn) = .ok p := by
  obtain ⟨hplace, hplaces, -, hone⟩ := shown_in_copied
  have hkeys := hasKey_of_stock fun q hq hlength => (hplaces q hq hlength).2
  obtain ⟨plugins, hlisted, -, -, -, hresolved⟩ :=
    listing_agrees managed_copied hkeys (by decide : IsScope "alice") (by decide)
  rw [hlisted] at hone
  obtain rfl := Except.ok.inj hone
  have hsystem : copied.treeAt ["plugins"] [systemScope, "python", "3.9"] ≠ none :=
    Option.ne_none_iff_exists'.2 ⟨_, hplace⟩
  refine ⟨hkeys, ?_, _, rfl, hlisted, hresolved _ List.mem_cons_self⟩
  rw [Option.isSome_iff_ne_none]
  exact (managed_copied.tidy.neat.stock_ne_none (.inl rfl) (by decide)).2 hsystem

/-- The scope of a tenant whose name is too long for a directory is not listed as empty. -/
theorem list_overlong {tenant : String} (h : d.Has root) (hscope : isComponent tenant)
    (hlong : Disk.maxName < tenant.utf8ByteSize) (hnull : '\x00' ∉ tenant.toList) :
    list d root tenant none = ⟨[], .error (.breakage .fileSystem)⟩ := by
  have htenant : tenant ≠ "" := (isComponent_iff.1 hscope).1
  rw [list, scopePath_eq (.inr hscope), ok_bind, scopeName, if_neg htenant, Disk.isDirectory, Disk.test,
    Disk.stat, Disk.locate_overlong d h hlong (by simpa using hnull)]
  rfl

theorem null_notMem_drawn (n : Nat) : '\x00' ∉ (drawn n).toList := by simp [drawn]

/-- With such a name a caller is not even shown the plugins of the system. -/
theorem overlong_caller_is_shown_nothing :
    Managed ["plugins"] offered ∧
      (∀ e, stock ["plugins"] offered e ≠ none → Version.HasKey e.version) ∧
      (stock ["plugins"] offered ⟨"", "python", "3.9"⟩).isSome ∧ isComponent (drawn 256) ∧
      (installed offered ["plugins"] (drawn 256) none).result = .error (.breakage .fileSystem) := by
  obtain ⟨hplace, -, hplaces⟩ := held_in_offered
  have hkeys := hasKey_of_stock hplaces
  have hsystem : offered.treeAt ["plugins"] [systemScope, "python", "3.9"] ≠ none :=
    Option.ne_none_iff_exists'.2 ⟨_, hplace⟩
  refine ⟨managed_offered, hkeys, ?_, isComponent_drawn 255, ?_⟩
  · rw [Option.isSome_iff_ne_none]
    exact (managed_offered.tidy.neat.stock_ne_none (.inl rfl) (by decide)).2 hsystem
  have hlong : list offered ["plugins"] (drawn 256) none = ⟨[], .error (.breakage .fileSystem)⟩ :=
    list_overlong (managed_offered.tidy.tree.has (by simpa [Disk.treeAt] using managed_offered.tidy.neat.home))
      (isComponent_drawn 255)
      (by rw [utf8ByteSize_drawn]; decide) (null_notMem_drawn 256)
  obtain ⟨base, hbase, -⟩ := managed_offered.tidy.list_eq hkeys (.inl (rfl : "" = "")) (by decide)
  have hne : drawn 256 ≠ "" := (isComponent_iff.1 (isComponent_drawn 255)).1
  rw [installed, hbase]
  dsimp only
  rw [if_neg hne, hlong]
  rfl

end Examples

end Resolver

end AppBroker
