import AppBroker.Hub
import AppBroker.Proofs.ManifestReading

/-!
# What a hub has in stock

Seen from outside, a hub is a map: from a scope, a name and a version to what lies in the directory
of that plugin (`stock`). The directories keep the map in a form that all operations rely on, and
`Neat` is that form: scopes, plugins and versions are directories, versions are named by the
manifests in them, and nothing is left of earlier installations. In a neat hub
the versions of a plugin are the names in its directory (`Neat.versionsIn_eq`), and whether the
plugin has a directory is found out for every tag whose parts are not too long
(`Neat.isDirectory_plugin`).
-/

namespace AppBroker.Hub

open Disk

/-- A plugin of a scope in one version. -/
structure Edition where
  tenant : String
  name : String
  version : String
  deriving DecidableEq, Repr

/-- The editions in stock, each with what lies in its directory. -/
abbrev Stock := Edition → Option (Path → Option Entry)

/-- The name of a scope's directory. -/
def scopeName (tenant : String) : String := if tenant = "" then systemScope else tenant

/-- Whether a text names a scope. -/
def IsScope (tenant : String) : Prop := tenant = "" ∨ isComponent tenant

instance (tenant : String) : Decidable (IsScope tenant) := inferInstanceAs (Decidable (_ ∨ _))

namespace Edition

/-- Whether the parts of an edition can name directories. -/
def IsValid (e : Edition) : Prop := IsScope e.tenant ∧ isComponent e.name ∧ isComponent e.version

instance (e : Edition) : Decidable e.IsValid := inferInstanceAs (Decidable (_ ∧ _ ∧ _))

/-- Where an edition lies in a hub. -/
def shelf (e : Edition) : Path := [scopeName e.tenant, e.name, e.version]

end Edition

/-- The stock of a hub by what lies in the hub's directory. -/
def stockOf (view : Path → Option Entry) : Stock := fun e =>
  if e.IsValid ∧ view e.shelf = some .directory then some fun p => view (e.shelf ++ p) else none

/-- The stock of a hub. -/
def stock (root : Path) (d : Disk) : Stock := stockOf (d.treeAt root)

/-- Whether a tree has the manifest of a plugin at its top, up to the plugin's place. -/
def Presents (tree : Path → Option Entry) (p : Plugin) : Prop :=
  ∃ data, tree [Manifest.fileName] = some (.file data) ∧ Manifest.ofData [] data = .ok p

/-- The order of a hub's directory between operations. -/
structure Neat (admits : String → Prop) (view : Path → Option Entry) : Prop where
  closed : Closed view
  home : view [] = some .directory
  staged : ∀ n, view [stagingName, n] = none
  scopes : ∀ s, view [s] ≠ none → view [s] = some .directory
  plugins : ∀ s n, view [s, n] ≠ none → view [s, n] = some .directory
  versions : ∀ s n v, view [s, n, v] ≠ none → view [s, n, v] = some .directory ∧ isComponent v ∧
    admits v ∧
    ∃ p, Presents (fun q => view ([s, n, v] ++ q)) p ∧ p.name = n ∧ p.version = v

/-- Whether every plugin's directory has a version in it. -/
def Filled (view : Path → Option Entry) : Prop :=
  ∀ s n, view [s, n] ≠ none → ∃ v, view [s, n, v] ≠ none

variable {admits : String → Prop} {view : Path → Option Entry} {d : Disk} {root : Path}
  {tenant name version s n v : String}

/-! ## Names -/

theorem isComponent_iff : isComponent v ↔
    v ≠ "" ∧ '/' ∉ v.toList ∧ '\\' ∉ v.toList ∧ v.toList.head? ≠ some '.' := by
  simp only [isComponent, Manifest.isHidden, ne_eq, decide_not, Bool.and_eq_true, Bool.not_eq_eq_eq_not,
    Bool.not_true, decide_eq_false_iff_not, List.any_eq_false, Bool.or_eq_true, decide_eq_true_eq,
    not_or, and_assoc]
  grind

theorem isHidden_eq_false (h : isComponent v) : Manifest.isHidden v = false := by
  simpa [Manifest.isHidden] using (isComponent_iff.1 h).2.2.2

/-- A component is none of the names that a directory has for itself and its neighbours. -/
theorem proper_of_isComponent (h : isComponent v) : v ≠ "" ∧ v ≠ "." ∧ v ≠ ".." := by
  obtain ⟨hne, -, -, hhead⟩ := isComponent_iff.1 h
  refine ⟨hne, ?_, ?_⟩ <;> rintro rfl <;> exact hhead rfl

theorem proper_scopeName (h : IsScope tenant) :
    scopeName tenant ≠ "" ∧ scopeName tenant ≠ "." ∧ scopeName tenant ≠ ".." := by
  unfold scopeName
  split
  · decide
  · exact proper_of_isComponent (h.resolve_left ‹_›)

theorem ne_of_isComponent (h : isComponent v) (hidden : Manifest.isHidden n = true) : v ≠ n := by
  rintro rfl
  rw [isHidden_eq_false h] at hidden
  cases hidden

theorem scopeName_ne_staging (h : IsScope tenant) : scopeName tenant ≠ stagingName := by
  unfold scopeName
  split
  · decide
  · exact ne_of_isComponent (h.resolve_left ‹_›) (by decide)

theorem scopeName_inj {tenant' : String} (h : IsScope tenant) (h' : IsScope tenant')
    (heq : scopeName tenant = scopeName tenant') : tenant = tenant' := by
  have hsystem {t : String} (ht : t ≠ "") (hs : IsScope t) : t ≠ systemScope :=
    ne_of_isComponent (hs.resolve_left ht) (by decide)
  unfold scopeName at heq
  split at heq <;> split at heq
  · simp_all
  · exact absurd heq.symm (hsystem ‹_› h')
  · exact absurd heq (hsystem ‹_› h)
  · exact heq

theorem Edition.shelf_inj {e e' : Edition} (h : e.IsValid) (h' : e'.IsValid)
    (heq : e.shelf = e'.shelf) : e = e' := by
  obtain ⟨hscope, hname, hversion⟩ : _ ∧ _ ∧ _ := by simpa [shelf] using heq
  cases e
  cases e'
  cases scopeName_inj h.1 h'.1 hscope
  cases hname
  cases hversion
  rfl

theorem scopePath_eq (h : IsScope tenant) :
    scopePath root tenant = .ok (root ++ [scopeName tenant]) := by
  unfold scopePath scopeName checkComponent
  split
  · rfl
  · rw [if_pos (h.resolve_left ‹_›)]
    rfl

theorem pluginPath_eq (root : Path) (h : IsScope tenant) (hn : isComponent name) :
    pluginPath root tenant name = .ok (root ++ [scopeName tenant, name]) := by
  rw [pluginPath, scopePath_eq h, ok_bind, checkComponent, if_pos hn, ok_bind, List.append_assoc]
  rfl

theorem scopePath_refused (h : ¬ IsScope tenant) :
    scopePath root tenant = refuse (.invalid (.component "namespace" tenant)) := by
  rw [IsScope, not_or] at h
  rw [scopePath, if_neg h.1, checkComponent, if_neg h.2]
  rfl

theorem pluginPath_refused (h : ¬ IsScope tenant) :
    pluginPath root tenant name = refuse (.invalid (.component "namespace" tenant)) := by
  rw [pluginPath, scopePath_refused h]
  rfl

theorem pluginPath_refused_name (h : IsScope tenant) (hn : ¬ isComponent name) :
    pluginPath root tenant name = refuse (.invalid (.component "plugin name" name)) := by
  rw [pluginPath, scopePath_eq h, ok_bind, checkComponent, if_neg hn]
  rfl

/-! ## Looking into a neat hub -/

/-- Whether a plugin has a directory. -/
theorem Neat.isDirectory_plugin (h : Neat admits (d.treeAt root)) (htree : d.IsTree)
    (hs : s.utf8ByteSize ≤ maxName ∧ s ≠ "" ∧ s ≠ "." ∧ s ≠ "..")
    (hn : n.utf8ByteSize ≤ maxName ∧ n ≠ "" ∧ n ≠ "." ∧ n ≠ "..") :
    d.isDirectory (root ++ [s, n]) = .ok (decide (d.treeAt root [s, n] = some .directory)) := by
  have hroot : d.entry? root = some .directory := by simpa [treeAt] using h.home
  have hhas := htree.has hroot
  by_cases hscope : d.treeAt root [s] = none
  · have hbelow : d.treeAt root [s, n] = none := h.closed.none_below hscope [n]
    rw [hbelow, isDirectory]
    rcases locate_missing hhas hs.1 hs.2.1 hs.2.2.1 hs.2.2.2 hscope [n] (by simp) true with hl | hl <;>
      exact test_missing hl _
  · have hdir : d.entry? (root ++ [s]) = some .directory := h.scopes s hscope
    have hin := htree.has hdir
    rw [show root ++ [s, n] = root ++ [s] ++ [n] by simp]
    by_cases hname : IsName n
    · have hplain : ∀ target, d.entry? (root ++ [s] ++ [n]) ≠ some (.link target) := by
        intro target hlink
        have hthere : d.treeAt root [s, n] = some (.link target) := by simpa [treeAt] using hlink
        rw [h.plugins s n (by simp [hthere])] at hthere
        cases hthere
      rw [isDirectory, test_on (locate_self hin true) hdir hname hplain]
      rw [List.append_assoc]
      rcases hentry : d.treeAt root [s, n] with _ | e
      · rw [show d.entry? (root ++ ([s] ++ [n])) = none from hentry]
        rfl
      · rw [show d.entry? (root ++ ([s] ++ [n])) = some e from hentry]
        simp
    · have hnull : '\x00' ∈ n.toList := by
        by_contra hnull
        exact hname ⟨hn.2.1, hn.2.2.1, hn.2.2.2, hn.1, hnull⟩
      have hnone : d.treeAt root [s, n] = none := by
        by_contra hne
        exact hname (h.closed [s] n hne).2
      rw [hnone, isDirectory]
      exact test_missing (locate_of_null hnull (by simp) true) _

theorem Neat.has_plugin (h : Neat admits (d.treeAt root)) (htree : d.IsTree)
    (hp : d.treeAt root [s, n] ≠ none) : d.Has (root ++ [s, n]) :=
  htree.has (h.plugins s n hp)

theorem visibleDirectories_eq {base : Path} (names : List String)
    (h : ∀ v ∈ names, d.isDirectory (base ++ [v]) = .ok true ∧ Manifest.isHidden v = false) :
    visibleDirectories d base names = .ok names := by
  induction names with
  | nil => rfl
  | cons v names ih =>
    obtain ⟨hd, hv⟩ := h v (by simp)
    rw [visibleDirectories, hd, ih fun w hw => h w (List.mem_cons_of_mem v hw)]
    simp [hv, pure, Except.pure]

theorem Neat.isDirectory_version (h : Neat admits (d.treeAt root)) (htree : d.IsTree)
    (hv : d.treeAt root [s, n, v] ≠ none) : d.isDirectory (root ++ [s, n] ++ [v]) = .ok true := by
  have hdir : d.entry? (root ++ [s, n] ++ [v]) = some .directory := by
    simpa [treeAt] using (h.versions s n v hv).1
  obtain ⟨habove, hname⟩ := htree.closed (root ++ [s, n]) v (by rw [hdir]; exact Option.some_ne_none _)
  rw [isDirectory, test_on (locate_self (htree.has habove) true) habove hname
    (by rw [hdir]; rintro target ⟨⟩), hdir]
  rfl

theorem mem_names_plugin (d : Disk) (root : Path) (s n v : String) :
    v ∈ d.names (root ++ [s, n]) ↔ d.treeAt root [s, n, v] ≠ none := by
  rw [mem_names]
  simp [treeAt]

/-- The versions of a plugin are the names in its directory. -/
theorem Neat.versionsIn_eq (h : Neat admits (d.treeAt root)) (htree : d.IsTree)
    (hp : d.treeAt root [s, n] ≠ none) :
    versionsIn d (root ++ [s, n]) = .ok (d.names (root ++ [s, n])) := by
  rw [versionsIn, list_self (h.has_plugin htree hp), orBreak, ok_bind]
  refine visibleDirectories_eq _ fun v hv => ?_
  have hthere := (mem_names_plugin d root s n v).1 hv
  exact ⟨h.isDirectory_version htree hthere, isHidden_eq_false (h.versions s n v hthere).2.1⟩

/-- An edition is in stock exactly if something lies in its place. -/
theorem Neat.stock_ne_none (h : Neat admits (d.treeAt root)) (ht : IsScope tenant)
    (hn : isComponent name) :
    stock root d ⟨tenant, name, v⟩ ≠ none ↔ d.treeAt root [scopeName tenant, name, v] ≠ none := by
  unfold stock stockOf
  rw [Edition.shelf]
  constructor
  · intro hne hnone
    simp [hnone] at hne
  · intro hne
    obtain ⟨hdir, hv, -⟩ := h.versions _ _ _ hne
    simp [hdir, Edition.IsValid, ht, hn, hv]

theorem stock_eq_some {e : Edition} {payload : Path → Option Entry}
    (h : stock root d e = some payload) :
    e.IsValid ∧ d.treeAt root e.shelf = some .directory ∧
      payload = fun p => d.treeAt root (e.shelf ++ p) := by
  unfold stock stockOf at h
  split at h <;> cases h
  exact ⟨‹_ ∧ _›.1, ‹_ ∧ _›.2, rfl⟩

end AppBroker.Hub
