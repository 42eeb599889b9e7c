import AppBroker.Proofs.HubRemoval

/-!
# Looking into one scope of a hub

What is looked up or listed in a scope depends on what lies in its directory and on the way there,
and on nothing else: disks that are alike there (`Disk.Alike`) give the same (`Hub.plugin_alike`,
`Hub.list_alike`). A path is taken by its names, so a disk is like another one in a directory only
if no symbolic link lies on the way or in it.
-/

namespace AppBroker

namespace Disk

variable {d d' : Disk} {here place dir p q : Path} {follow : Bool} {k : Nat} {n : String}

/-! ## Places by their names -/

/-- Whether a name is none of those that lead elsewhere. -/
def Leadless (n : String) : Prop := n ≠ "" ∧ n ≠ "." ∧ n ≠ ".."

theorem IsName.leadless (h : IsName n) : Leadless n := ⟨h.ne_empty, h.ne_here, h.ne_above⟩

/-- A way down from a directory, over so many names at most. -/
structure Way (k : Nat) (q : Path) : Prop where
  short : q.length ≤ k
  leadless : ∀ n ∈ q, Leadless n

theorem Way.nil : Way k [] := ⟨Nat.zero_le k, by simp⟩

theorem Way.append (h : Way k q) (hn : Leadless n) : Way (k + 1) (q ++ [n]) where
  short := by simpa using h.short
  leadless m hm := (List.mem_append.1 hm).elim (h.leadless m) fun hm => List.mem_singleton.1 hm ▸ hn

theorem Way.cons (h : Way k q) (hn : Leadless n) : Way (k + 1) (n :: q) where
  short := by simpa using h.short
  leadless := List.forall_mem_cons.2 ⟨hn, h.leadless⟩

theorem Way.of_prefix (h : Way k q) (hp : p <+: q) : Way k p :=
  ⟨Nat.le_trans hp.length_le h.short, fun n hn => h.leadless n (hp.subset hn)⟩

theorem Way.mono {k' : Nat} (h : Way k q) (hk : k ≤ k') : Way k' q := ⟨Nat.le_trans h.short hk, h.leadless⟩

/-- A walk along names without links ends where the names say. -/
theorem walk_plain {fuel : Nat} {names : List String} (hnames : ∀ n ∈ names, Leadless n)
    (hlink : ∀ q, q <+: names → (q ≠ names ∨ follow = true) →
      ∀ target, d.entry? (here ++ q) ≠ some (.link target))
    (h : d.walk follow fuel here names = .ok place) : place = here ++ names := by
  induction names generalizing fuel here with
  | nil =>
    cases fuel <;> cases h <;> simp
  | cons name names ih =>
    cases fuel with
    | zero => cases h
    | succ fuel =>
    obtain ⟨hne, hhere, habove⟩ := hnames name List.mem_cons_self
    have hnext (h : d.walk follow fuel (here ++ [name]) names = .ok place) :
        place = here ++ name :: names := by
      have := ih (fun n hn => hnames n (List.mem_cons_of_mem _ hn))
        (fun q hq hlast => by
          simpa using hlink (name :: q) (by simpa using hq) (by simpa using hlast)) h
      simpa using this
    rw [walk] at h
    simp only [hne, hhere, habove, decide_false, Bool.or_self, Bool.false_eq_true, if_false] at h
    split at h <;> try cases h
    split at h
    · cases h
    split at h
    · rename_i target htarget
      split at h
      · rename_i hlast
        simp only [Bool.and_eq_true, decide_eq_true_eq] at hlast
        obtain rfl := hlast.1
        cases h
        rfl
      · rename_i hlast
        refine absurd htarget (hlink [name] ⟨names, rfl⟩ ?_ target)
        cases follow <;> simp_all
    · exact hnext h
    · split at h
      · rename_i hlast
        obtain rfl := hlast
        cases h
        rfl
      · cases h

theorem locate_plain (hnames : ∀ n ∈ p, Leadless n)
    (hlink : ∀ q, q <+: p → (q ≠ p ∨ follow = true) → ∀ target, d.entry? q ≠ some (.link target))
    (h : d.locate p follow = .ok place) : place = p := by
  unfold locate at h
  split at h
  · cases h
  · exact (walk_plain hnames (by simpa using hlink) h).trans (List.nil_append p)

/-- A walk along names without links depends on what lies on the way only. -/
theorem walk_congr {fuel : Nat} {names : List String} (hnames : ∀ n ∈ names, Leadless n)
    (hlink : ∀ q, q <+: names → ∀ target, d.entry? (here ++ q) ≠ some (.link target))
    (hsame : ∀ q, q <+: names → d'.entry? (here ++ q) = d.entry? (here ++ q)) :
    d'.walk follow fuel here names = d.walk follow fuel here names := by
  induction names generalizing fuel here with
  | nil => cases fuel <;> rfl
  | cons name names ih =>
    cases fuel with
    | zero => rfl
    | succ fuel =>
    obtain ⟨hne, hhere, habove⟩ := hnames name List.mem_cons_self
    have hnext : d'.walk follow fuel (here ++ [name]) names =
        d.walk follow fuel (here ++ [name]) names :=
      ih (fun n hn => hnames n (List.mem_cons_of_mem _ hn))
        (fun q hq => by simpa using hlink (name :: q) (by simpa using hq))
        (fun q hq => by simpa using hsame (name :: q) (by simpa using hq))
    have hat : d'.entry? here = d.entry? here := by simpa using hsame [] (by simp)
    have hchild : d'.entry? (here ++ [name]) = d.entry? (here ++ [name]) := hsame [name] (by simp)
    rw [walk, walk, hat]
    simp only [hne, hhere, habove, decide_false, Bool.or_self, Bool.false_eq_true, if_false, hchild,
      hnext]
    split <;> try rfl
    split <;> try rfl
    split
    · rename_i target htarget
      exact absurd htarget (hlink [name] (by simp) target)
    · rfl
    · rfl

/-! ## Disks on which a directory is the same -/

/-- The names that a tree lists are names of what lies there. -/
theorem IsTree.leadless_list (h : d.IsTree) {names : List String} (hlist : d.list q = .ok names) :
    ∀ n ∈ names, Leadless n := by
  unfold list at hlist
  cases hl : d.locate q with
  | error fault => rw [hl] at hlist; cases hlist
  | ok place =>
    rw [hl, ok_bind] at hlist
    split at hlist <;> cases hlist
    exact fun n hn => (h.closed place n (mem_names.1 hn)).2.leadless

/-- Whether two disks give the same for every way down from a directory that is not too long. -/
structure Alike (k : Nat) (d d' : Disk) (dir : Path) : Prop where
  stat : ∀ q, Way k q → d'.stat (dir ++ q) = d.stat (dir ++ q)
  list : ∀ q, Way k q → d'.list (dir ++ q) = d.list (dir ++ q)
  leadless : ∀ q names, d.list q = .ok names → ∀ n ∈ names, Leadless n

/-- Disks are alike in a directory if the same lies there and on the way to it, and no link. -/
theorem alike_of_same (htree : d.IsTree) (hnames : ∀ n ∈ dir, Leadless n)
    (hlink : ∀ q, q <+: dir ∨ dir <+: q → q.length ≤ dir.length + k →
      ∀ target, d.entry? q ≠ some (.link target))
    (hsame : ∀ q, q <+: dir ∨ dir <+: q → d'.entry? q = d.entry? q)
    (hlisted : ∀ q, dir <+: q → d'.names q = d.names q) : Alike k d d' dir := by
  have hway {q r : Path} (hr : r <+: dir ++ q) : r <+: dir ∨ dir <+: r :=
    List.prefix_or_prefix_of_prefix hr (List.prefix_append dir q)
  have hall {q : Path} (hq : Way k q) : ∀ n ∈ dir ++ q, Leadless n := fun n hn =>
    (List.mem_append.1 hn).elim (hnames n) (hq.leadless n)
  have hfree {q r : Path} (hq : Way k q) (hr : r <+: dir ++ q) (target : String) :
      d.entry? r ≠ some (.link target) := by
    refine hlink r (hway hr) ?_ target
    have := hr.length_le
    have := hq.short
    rw [List.length_append] at *
    omega
  have hlocate {q : Path} (hq : Way k q) : d'.locate (dir ++ q) = d.locate (dir ++ q) := by
    unfold locate
    rw [walk_congr (hall hq) (fun r hr => by simpa using hfree hq hr)
      fun r hr => by simpa using hsame r (hway hr)]
  have hplace {q place : Path} (hq : Way k q) (h : d.locate (dir ++ q) = .ok place) :
      place = dir ++ q := locate_plain (hall hq) (fun r hr _ => hfree hq hr) h
  refine ⟨fun q hq => ?_, fun q hq => ?_, fun q names hlist => htree.leadless_list hlist⟩
  · unfold stat
    rw [hlocate hq]
    cases h : d.locate (dir ++ q) with
    | error fault => rfl
    | ok place =>
      rw [ok_bind, ok_bind, hplace hq h, hsame _ (.inr (List.prefix_append dir q))]
  · unfold list
    rw [hlocate hq]
    cases h : d.locate (dir ++ q) with
    | error fault => rfl
    | ok place =>
      rw [ok_bind, ok_bind, hplace hq h, hsame _ (.inr (List.prefix_append dir q)),
        hlisted _ (List.prefix_append dir q)]

namespace Alike

/-- Disks that are alike in a directory are alike in those in it. -/
theorem below (h : Alike (k + 1) d d' dir) (hn : Leadless n) : Alike k d d' (dir ++ [n]) where
  stat q hq := by simpa using h.stat (n :: q) (hq.cons hn)
  list q hq := by simpa using h.list (n :: q) (hq.cons hn)
  leadless := h.leadless

variable (h : Alike k d d' dir) (hq : Way k q)
include h hq

theorem test (holds : Entry → Bool) : d'.test (dir ++ q) holds = d.test (dir ++ q) holds := by
  rw [Disk.test, Disk.test, h.stat q hq]

theorem isDirectory : d'.isDirectory (dir ++ q) = d.isDirectory (dir ++ q) := h.test hq _

theorem isFile : d'.isFile (dir ++ q) = d.isFile (dir ++ q) := h.test hq _

theorem readText : d'.readText (dir ++ q) = d.readText (dir ++ q) := by
  rw [Disk.readText, Disk.readText, Disk.read, Disk.read, h.stat q hq]

end Alike

end Disk

namespace Manifest

open Disk

variable {d d' : Disk} {dir path q : Path} {k : Nat}

theorem leadless_fileName : Leadless fileName := isName_fileName.leadless

/-- The names in a directory that can be the only one are names that lead nowhere else. -/
theorem leadless_only (h : Alike k d d' dir) {names : List String} (hlist : d.list q = .ok names)
    {keep : String → Bool} {only : String} (honly : names.filter keep = [only]) : Leadless only :=
  h.leadless q names hlist only
    (List.mem_filter.1 (honly ▸ List.mem_singleton_self only)).1

/-- A manifest is found in a directory or one step below. -/
theorem way_of_find (h : Alike k d d' dir) (hfind : find d q = .ok path) :
    ∃ way, path = q ++ way ∧ Way 2 way := by
  obtain ⟨way, rfl, -, rfl | ⟨only, names, rfl, hlist, honly⟩⟩ := find_ok hfind
  · exact ⟨[fileName], by simp, Way.nil.cons leadless_fileName⟩
  · exact ⟨[only, fileName], by simp,
      (Way.nil.cons leadless_fileName).cons (h.leadless q names hlist only honly)⟩

variable (h : Alike (k + 2) d d' dir) (hq : Way k q)
include h hq

theorem find_alike : find d' (dir ++ q) = find d (dir ++ q) := by
  have hfile : d'.isFile (dir ++ q ++ [fileName]) = d.isFile (dir ++ q ++ [fileName]) := by
    simpa using h.isFile ((hq.append leadless_fileName).mono (by omega))
  unfold find
  rw [hfile, h.list q (hq.mono (by omega))]
  cases d.isFile (dir ++ q ++ [fileName]) with
  | error e => rfl
  | ok isFile =>
  simp only [ok_bind]
  split
  · rfl
  cases hlist : d.list (dir ++ q) with
  | error e => rfl
  | ok names =>
  simp only [orBreak, ok_bind]
  split
  · rename_i only honly
    have hin := hq.append (leadless_only h hlist honly)
    have hdir : d'.isDirectory (dir ++ q ++ [only]) = d.isDirectory (dir ++ q ++ [only]) := by
      simpa using h.isDirectory (hin.mono (by omega))
    have hinner : d'.isFile (dir ++ q ++ [only, fileName]) =
        d.isFile (dir ++ q ++ [only, fileName]) := by
      simpa using h.isFile (hin.append leadless_fileName)
    rw [hdir, hinner]
  · rfl

/-- What is read of a plugin's directory is the same on disks that are alike there. -/
theorem read_alike : read d' (dir ++ q) = read d (dir ++ q) := by
  unfold read
  rw [find_alike h hq]
  cases hfind : find d (dir ++ q) with
  | error e => rfl
  | ok path =>
  -- the manifest lies two names below at most, so the bound on ways is large enough
  obtain ⟨way, rfl, hway⟩ := way_of_find h hfind
  have hboth : Way (k + 2) (q ++ way) := ⟨by
    rw [List.length_append]
    exact Nat.add_le_add hq.short hway.short, fun n hn =>
    (List.mem_append.1 hn).elim (hq.leadless n) (hway.leadless n)⟩
  have htext := h.readText hboth
  rw [ok_bind, ok_bind, List.append_assoc, htext]

end Manifest

namespace Version

variable {versions sorted : List String} {version requested : String}

/-- Sorting the other way rearranges versions as well. -/
theorem perm_sortDescending (h : sortDescending versions = .ok sorted) : sorted.Perm versions := by
  unfold sortDescending at h
  cases hkeys : keyed versions with
  | error e => rw [hkeys] at h; cases h
  | ok keys =>
    rw [hkeys] at h
    cases h
    obtain ⟨keys', hkeys', hraw, -⟩ := keyed_eq (hasKey_of_keyed hkeys)
    obtain rfl := Except.ok.inj (hkeys.symm.trans hkeys')
    rw [← hraw]
    exact (List.mergeSort_perm _ _).map _

/-- The version that is selected is one of those to select from. -/
theorem mem_of_select (h : select versions requested = .ok (some version)) : version ∈ versions := by
  unfold select at h
  split at h
  · by_cases hempty : versions = []
    · subst hempty
      cases h
    · rcases latest_cases hempty with ⟨v, hlatest, hv, -⟩ | ⟨⟨e, he⟩, -⟩
      · rw [hlatest] at h
        cases h
        exact hv
      · rw [he] at h
        cases h
  · split at h <;> cases h
    assumption

end Version

namespace Hub

open Disk

variable {d d' : Disk} {root dir q : Path} {tenant name : String} {tag : Tag}

/-! ## Looking into a scope -/

theorem visibleDirectories_subset {base : Path} {names visible : List String}
    (h : visibleDirectories d base names = .ok visible) : visible ⊆ names := by
  induction names generalizing visible with
  | nil => cases h; exact List.Subset.refl _
  | cons name names ih =>
    rw [visibleDirectories] at h
    cases hdir : d.isDirectory (base ++ [name]) with
    | error e => rw [hdir] at h; cases h
    | ok isDirectory =>
    cases hrest : visibleDirectories d base names with
    | error e => rw [hdir, hrest] at h; cases h
    | ok rest =>
    rw [hdir, hrest, ok_bind, ok_bind] at h
    cases h
    split
    · exact List.cons_subset_cons name (ih hrest)
    · exact List.subset_cons_of_subset name (ih hrest)

theorem leadless_versionsIn
    (hlisted : ∀ q names, d.list q = .ok names → ∀ n ∈ names, Leadless n) {versions : List String}
    (hversions : versionsIn d q = .ok versions) : ∀ v ∈ versions, Leadless v := by
  unfold versionsIn at hversions
  cases hlist : d.list q with
  | error e => rw [hlist] at hversions; cases hversions
  | ok names =>
    rw [hlist, orBreak, ok_bind] at hversions
    exact fun v hv => hlisted q names hlist v (visibleDirectories_subset hversions hv)

section Alike

variable {k : Nat} (h : Alike (k + 3) d d' dir)
include h

theorem visibleDirectories_alike (hq : Way k q) (names : List String)
    (hnames : ∀ n ∈ names, Leadless n) :
    visibleDirectories d' (dir ++ q) names = visibleDirectories d (dir ++ q) names := by
  induction names with
  | nil => rfl
  | cons name names ih =>
    have hdir : d'.isDirectory (dir ++ q ++ [name]) = d.isDirectory (dir ++ q ++ [name]) := by
      simpa using h.isDirectory ((hq.append (hnames name List.mem_cons_self)).mono (by omega))
    rw [visibleDirectories, visibleDirectories, hdir,
      ih fun n hn => hnames n (List.mem_cons_of_mem _ hn)]

theorem versionsIn_alike (hq : Way k q) :
    versionsIn d' (dir ++ q) = versionsIn d (dir ++ q) := by
  unfold versionsIn
  rw [h.list q (hq.mono (by omega))]
  cases hlist : d.list (dir ++ q) with
  | error e => rfl
  | ok names => exact visibleDirectories_alike h hq names (h.leadless _ names hlist)

theorem firstReadable_alike (hq : Way k q) (versions : List String)
    (hversions : ∀ v ∈ versions, Leadless v) :
    firstReadable d' (dir ++ q) versions = firstReadable d (dir ++ q) versions := by
  induction versions with
  | nil => rfl
  | cons version versions ih =>
    have hread : Manifest.read d' (dir ++ q ++ [version]) = Manifest.read d (dir ++ q ++ [version]) := by
      simpa using Manifest.read_alike h
        (hq.append (hversions version List.mem_cons_self))
    rw [firstReadable, firstReadable, hread, ih fun v hv => hversions v (List.mem_cons_of_mem _ hv)]

theorem latestIn_alike (hq : Way k q) :
    latestIn d' (dir ++ q) = latestIn d (dir ++ q) := by
  unfold latestIn
  rw [versionsIn_alike h hq]
  cases hversions : versionsIn d (dir ++ q) with
  | error e => rfl
  | ok versions =>
    rw [ok_bind]
    cases hsorted : Version.sortDescending versions with
    | error e => rfl
    | ok sorted =>
      exact firstReadable_alike h hq sorted fun v hv => leadless_versionsIn h.leadless hversions v
        ((Version.perm_sortDescending hsorted).mem_iff.1 hv)

end Alike

/-- What is listed of directories depends on which of them there are and on the latest versions. -/
theorem pluginsIn_congr (tenant : String) (category : Option Category) (names : List String)
    (h : ∀ n ∈ names, d'.isDirectory (dir ++ [n]) = d.isDirectory (dir ++ [n]) ∧
      latestIn d' (dir ++ [n]) = latestIn d (dir ++ [n])) :
    pluginsIn d' dir tenant category names = pluginsIn d dir tenant category names := by
  induction names with
  | nil => rfl
  | cons name names ih =>
    obtain ⟨hdir, hlatest⟩ := h name List.mem_cons_self
    rw [pluginsIn, pluginsIn, hdir, hlatest, ih fun n hn => h n (List.mem_cons_of_mem _ hn)]

theorem pluginsIn_alike (h : Alike 4 d d' dir) (tenant : String) (category : Option Category)
    (names : List String) (hnames : ∀ n ∈ names, Leadless n) :
    pluginsIn d' dir tenant category names = pluginsIn d dir tenant category names := by
  refine pluginsIn_congr tenant category names fun n hn => ?_
  have hname : Way 1 [n] := Way.nil.cons (hnames n hn)
  exact ⟨h.isDirectory (hname.mono (by omega)), latestIn_alike h hname⟩

section Plugin

variable (hscope : IsScope tag.tenant)
  (h : isComponent tag.name → Alike 3 d d' (root ++ [scopeName tag.tenant, tag.name]))
include hscope h

/-- A tag denotes the same directory on disks that are alike where its plugin is. -/
theorem find_alike : find d' root tag = find d root tag := by
  unfold find
  by_cases hname : isComponent tag.name
  swap
  · rw [pluginPath_refused_name hscope hname]
    rfl
  have hdir := (h hname).isDirectory (q := []) .nil
  have hversions := versionsIn_alike (h hname) (q := []) .nil
  rw [List.append_nil] at hdir hversions
  rw [pluginPath_eq root hscope hname, ok_bind, ok_bind, hdir, hversions]

/-- What a tag denotes is the directory of a version. -/
theorem version_of_find {path : Path} (hfind : find d root tag = .ok path) : isComponent tag.name ∧
    ∃ version, path = root ++ [scopeName tag.tenant, tag.name] ++ [version] ∧ Leadless version := by
  unfold find at hfind
  by_cases hname : isComponent tag.name
  swap
  · rw [pluginPath_refused_name hscope hname] at hfind
    cases hfind
  rw [pluginPath_eq root hscope hname, ok_bind] at hfind
  cases hdir : d.isDirectory (root ++ [scopeName tag.tenant, tag.name]) with
  | error e => rw [hdir] at hfind; cases hfind
  | ok isDirectory =>
  rw [hdir, ok_bind] at hfind
  split at hfind
  · cases hfind
  cases hversions : versionsIn d (root ++ [scopeName tag.tenant, tag.name]) with
  | error e => rw [hversions] at hfind; cases hfind
  | ok versions =>
  rw [hversions, ok_bind] at hfind
  split at hfind
  · cases hfind
  cases hselect : Version.select versions tag.version with
  | error e => rw [hselect] at hfind; cases hfind
  | ok selected =>
  rw [hselect, ok_bind] at hfind
  cases selected with
  | none => cases hfind
  | some version =>
    cases hfind
    exact ⟨hname, version, rfl,
      leadless_versionsIn (h hname).leadless hversions version (Version.mem_of_select hselect)⟩

theorem plugin_alike : plugin d' root tag = plugin d root tag := by
  unfold plugin
  rw [find_alike hscope h]
  cases hfind : find d root tag with
  | error e => rfl
  | ok path =>
    obtain ⟨hname, version, rfl, hversion⟩ := version_of_find hscope h hfind
    rw [ok_bind, ok_bind, Manifest.read_alike (h hname) (Way.nil.cons hversion)]

end Plugin

section Scope

variable (hscope : IsScope tenant) (h : Alike 4 d d' (root ++ [scopeName tenant]))
include hscope h

/-- A scope lists the same plugins, with the same warnings. -/
theorem list_alike (category : Option Category) :
    list d' root tenant category = list d root tenant category := by
  unfold list
  have hdir : d'.isDirectory (root ++ [scopeName tenant]) =
      d.isDirectory (root ++ [scopeName tenant]) := by
    simpa using h.isDirectory (q := []) .nil
  have hnames : d'.list (root ++ [scopeName tenant]) = d.list (root ++ [scopeName tenant]) := by
    simpa using h.list [] .nil
  rw [scopePath_eq hscope, ok_bind, ok_bind, hdir, hnames]
  cases d.isDirectory (root ++ [scopeName tenant]) with
  | error e => rfl
  | ok isDirectory =>
  rw [ok_bind]
  split
  · rfl
  cases hlist : d.list (root ++ [scopeName tenant]) with
  | error e => rfl
  | ok names => exact pluginsIn_alike h tenant category names (h.leadless _ names hlist)

end Scope

/-- Whether a scope gives the same on two disks, whatever is looked up in it or listed of it. -/
structure Agree (root : Path) (tenant : String) (d d' : Disk) : Prop where
  find : ∀ tag : Tag, tag.tenant = tenant → Hub.find d' root tag = Hub.find d root tag
  plugin : ∀ tag : Tag, tag.tenant = tenant → Hub.plugin d' root tag = Hub.plugin d root tag
  list : ∀ category, Hub.list d' root tenant category = Hub.list d root tenant category

theorem Agree.refl (root : Path) (tenant : String) (d : Disk) : Agree root tenant d d :=
  ⟨fun _ _ => rfl, fun _ _ => rfl, fun _ => rfl⟩

theorem agree_of_alike (ht : IsScope tenant) (h : Alike 4 d d' (root ++ [scopeName tenant])) :
    Agree root tenant d d' := by
  have hplugin (tag : Tag) (htag : tag.tenant = tenant) (hname : isComponent tag.name) :
      Alike 3 d d' (root ++ [scopeName tag.tenant, tag.name]) := by
    have := h.below (proper_of_isComponent hname)
    rwa [htag, List.append_cons]
  exact ⟨fun tag htag => find_alike (htag ▸ ht) (hplugin tag htag),
    fun tag htag => plugin_alike (htag ▸ ht) (hplugin tag htag), list_alike ht h⟩

/-- Where there is no scope nothing is looked at. -/
theorem agree_unscoped (ht : ¬ IsScope tenant) : Agree root tenant d d' := by
  have hfind (d : Disk) (tag : Tag) (htag : tag.tenant = tenant) :
      find d root tag = refuse (.invalid (.component "namespace" tenant)) := by
    rw [find, htag, pluginPath_refused ht]
    rfl
  refine ⟨fun tag htag => ?_, fun tag htag => ?_, fun category => ?_⟩
  · rw [hfind d tag htag, hfind d' tag htag]
  · rw [plugin, plugin, hfind d tag htag, hfind d' tag htag]
    rfl
  · rw [list, list, scopePath_refused ht]
    rfl

end Hub

end AppBroker
