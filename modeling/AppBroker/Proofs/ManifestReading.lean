import AppBroker.Manifest
import AppBroker.Proofs.DiskTree

/-!
# Reading manifests

The manifest of a directory lies at its top, or at the top of a directory in it, and the same bytes
describe the same plugin wherever they lie, up to that place (`Manifest.ofData_moved`). So the
directory that a manifest was found in can be copied and moved, and is read as before
(`Manifest.read_top`).
-/

namespace AppBroker

namespace Disk

/-- Whether a path leads to a directory at a place, without links in it. -/
structure Leads (d : Disk) (source place : Path) : Prop where
  found : d.locate source = .ok place
  directory : d.entry? place = some .directory
  linkless : ∀ p target, d.treeAt place p ≠ some (.link target)

variable {d : Disk} {source place : Path} {n : String}

/-- Where no link is listed none is found. -/
theorem IsTree.entry?_linkless (h : d.IsTree) (hlinks : ∀ e ∈ d.entries, ∀ target, e.2 ≠ .link target)
    (p : Path) (target : String) : d.entry? p ≠ some (.link target) := by
  intro hlink
  unfold entry? at hlink
  split at hlink
  · cases hlink
  · exact hlinks _ ((Table.get?_eq_some_iff h.once _ _).1 hlink) target rfl

/-- A directory of a tree in which no link is listed. -/
theorem IsTree.leads (h : d.IsTree) (hplace : d.entry? place = some .directory)
    (hlinks : ∀ e ∈ d.entries, ∀ target, e.2 ≠ .link target) : d.Leads place place where
  found := locate_self (h.has hplace) true
  directory := hplace
  linkless _ target := h.entry?_linkless hlinks _ target

/-- Whether something on a disk is a symbolic link. -/
def isLink : Entry → Bool
  | .link _ => true
  | _ => false

theorem IsTree.leads_of_linkless (h : d.IsTree) (hplace : d.entry? place = some .directory)
    (hnone : ∀ e ∈ d.entries, isLink e.2 = false) : d.Leads place place :=
  h.leads hplace fun e he target hlink => by
    have := hnone e he
    rw [hlink] at this
    cases this

theorem Leads.test_self (h : d.Leads source place) (holds : Entry → Bool) :
    d.test source holds = .ok (holds .directory) := by
  rw [Disk.test, stat, h.found, ok_bind, h.directory]
  rfl

theorem Leads.test (h : d.Leads source place) (hn : IsName n) (holds : Entry → Bool) :
    d.test (source ++ [n]) holds = .ok ((d.treeAt place [n]).any holds) :=
  test_on h.found h.directory hn (h.linkless [n]) holds

theorem Leads.isFile_cases (h : d.Leads source place) (hn : IsName n) :
    (∃ data, d.treeAt place [n] = some (.file data) ∧ d.isFile (source ++ [n]) = .ok true) ∨
      d.isFile (source ++ [n]) = .ok false := by
  rw [isFile, h.test hn]
  rcases d.treeAt place [n] with _ | ⟨data⟩ | _ | target
  · exact .inr rfl
  · exact .inl ⟨data, rfl, rfl⟩
  · exact .inr rfl
  · exact .inr rfl

theorem Leads.isDirectory_cases (h : d.Leads source place) (hn : IsName n) :
    (d.entry? (place ++ [n]) = some .directory ∧ d.isDirectory (source ++ [n]) = .ok true) ∨
      d.isDirectory (source ++ [n]) = .ok false := by
  rw [isDirectory, h.test hn, treeAt]
  rcases d.entry? (place ++ [n]) with _ | ⟨data⟩ | _ | target
  · exact .inr rfl
  · exact .inr rfl
  · exact .inl ⟨rfl, rfl⟩
  · exact .inr rfl

theorem Leads.child (h : d.Leads source place) (hn : IsName n)
    (hd : d.entry? (place ++ [n]) = some .directory) : d.Leads (source ++ [n]) (place ++ [n]) where
  found := locate_on h.found h.directory hn (h.linkless [n])
  directory := hd
  linkless p target := by
    rw [treeAt_append]
    exact h.linkless ([n] ++ p) target

theorem Leads.list (h : d.Leads source place) : d.list source = .ok (d.names place) := by
  rw [Disk.list, h.found, ok_bind, h.directory]
  rfl

end Disk

namespace Manifest

open Disk

variable {d : Disk} {source place path : Path} {p : Plugin}

theorem isName_fileName : IsName fileName := by
  constructor <;> decide

/-- The plugin that the bytes of a manifest describe. -/
def ofData (path : Path) (data : List UInt8) : Outcome Plugin :=
  match Text.decode? data with
  | some cs => ofText path (Text.unifyLineEnds cs)
  | none => fail .badValue

theorem ofText_moved {cs : List Char} (h : ofText path cs = .ok p) (path' : Path) :
    ofText path' cs = .ok { p with path := path'.parent.text } := by
  unfold ofText at h ⊢
  split at h
  · cases h
  · cases h
  · rename_i entries heq
    dsimp only at h ⊢
    split at h
    · cases h
    · rename_i hkeys
      split at h <;> cases h
      simp_all
  · cases h

/-- The same bytes describe the same plugin at any place. -/
theorem ofData_moved {data : List UInt8} (h : ofData path data = .ok p) (path' : Path) :
    ofData path' data = .ok { p with path := path'.parent.text } := by
  unfold ofData at h ⊢
  split at h
  · exact ofText_moved h path'
  · cases h

/-- The manifest at the top of a directory. -/
theorem read_top (data : List UInt8) (hfound : d.locate source = .ok place)
    (hplace : d.entry? place = some .directory)
    (hfile : d.treeAt place [fileName] = some (.file data)) :
    find d source = .ok (source ++ [fileName]) ∧
      read d source = ofData (source ++ [fileName]) data := by
  have hlink : ∀ target, d.entry? (place ++ [fileName]) ≠ some (.link target) := by
    intro target hlink
    rw [treeAt, hlink] at hfile
    cases hfile
  have hfind : find d source = .ok (source ++ [fileName]) := by
    rw [find, isFile, test_on hfound hplace isName_fileName hlink]
    rw [treeAt] at hfile
    rw [hfile]
    rfl
  refine ⟨hfind, ?_⟩
  rw [read, hfind, ok_bind, readText, Disk.read, stat_on hfound hplace isName_fileName hlink]
  rw [treeAt] at hfile
  rw [hfile, ofData]
  show (match Text.decode? data with | some cs => _ | none => _ : Outcome _) >>= _ = _
  split <;> rfl

/-- A manifest is a file that was found at the top of a directory, or in a directory at its top. -/
theorem find_ok {dir path : Path} (h : find d dir = .ok path) :
    ∃ way, path = dir ++ way ++ [fileName] ∧ d.isFile (dir ++ way ++ [fileName]) = .ok true ∧
      (way = [] ∨ ∃ only names, way = [only] ∧ d.list dir = .ok names ∧ only ∈ names) := by
  unfold find at h
  cases hfile : d.isFile (dir ++ [fileName]) with
  | error e => rw [hfile] at h; cases h
  | ok isFile =>
  rw [hfile, ok_bind] at h
  split at h
  · rename_i htrue
    cases h
    rw [htrue] at hfile
    exact ⟨[], by simp, by simpa using hfile, .inl rfl⟩
  cases hlist : d.list dir with
  | error e => rw [hlist] at h; cases h
  | ok names =>
  rw [hlist, orBreak, ok_bind] at h
  split at h
  · rename_i only honly
    cases hdir : d.isDirectory (dir ++ [only]) with
    | error e => rw [hdir] at h; cases h
    | ok isDirectory =>
    rw [hdir, ok_bind] at h
    split at h
    · cases hinner : d.isFile (dir ++ [only, fileName]) with
      | error e => rw [hinner] at h; cases h
      | ok isFile =>
      rw [hinner, ok_bind] at h
      split at h
      · rename_i htrue
        cases h
        rw [htrue] at hinner
        exact ⟨[only], by simp, by simpa using hinner, .inr ⟨only, names, rfl, rfl,
          (List.mem_filter.1 (honly ▸ List.mem_singleton_self only)).1⟩⟩
      · cases h
    · cases h
  · cases h

/-- The manifest of a directory is at its top or in a directory in it; else there is none. -/
theorem find_cases (h : d.IsTree) (hsource : d.Leads source place) :
    (∃ way data, d.Leads (source ++ way) (place ++ way) ∧
      d.treeAt (place ++ way) [fileName] = some (.file data) ∧
      find d source = .ok (source ++ way ++ [fileName])) ∨
    ∃ e, find d source = .error e := by
  unfold find
  rcases hsource.isFile_cases isName_fileName with ⟨data, hfile, htrue⟩ | hfalse
  · exact .inl ⟨[], data, by simpa using hsource, by simpa using hfile, by rw [htrue]; simp; rfl⟩
  rw [hfalse, hsource.list]
  simp only [orBreak, ok_bind, Bool.false_eq_true, if_false]
  split
  · rename_i only honly
    have hthere : only ∈ d.names place :=
      (List.mem_filter.1 (honly ▸ List.mem_singleton_self only)).1
    have hname := (h.closed place only (mem_names.1 hthere)).2
    rcases hsource.isDirectory_cases hname with ⟨hdirectory, htrue⟩ | hfalse
    · have hinner := hsource.child hname hdirectory
      have hfile := hinner.isFile_cases isName_fileName
      rw [List.append_assoc] at hfile
      rw [htrue]
      rcases hfile with ⟨data, hfile, htrue⟩ | hfalse
      · refine .inl ⟨[only], data, hinner, hfile, ?_⟩
        simp only [List.cons_append, List.nil_append] at htrue
        simp [htrue, pure, Except.pure]
      · simp only [List.cons_append, List.nil_append] at hfalse
        exact .inr ⟨_, by simp only [hfalse, ok_bind, if_true, Bool.false_eq_true, if_false]; rfl⟩
    · exact .inr ⟨_, by rw [hfalse]; rfl⟩
  · exact .inr ⟨_, rfl⟩

/-- A directory's manifest is found in the same place on every disk that has the same directory. -/
theorem find_congr {d' : Disk} (h : d.IsTree) (hsource : d.Leads source place)
    (hsource' : d'.Leads source place) (hsame : d'.treeAt place = d.treeAt place)
    (hnames : d'.names place = d.names place) : find d' source = find d source := by
  have htest (n : String) (hn : IsName n) (holds : Entry → Bool) :
      d'.test (source ++ [n]) holds = d.test (source ++ [n]) holds := by
    rw [hsource.test hn, hsource'.test hn, hsame]
  unfold find
  rw [isFile, isFile, htest _ isName_fileName, hsource.list, hsource'.list, hnames]
  cases d.test (source ++ [fileName]) _ with
  | error e => rfl
  | ok isFile =>
    simp only [ok_bind, orBreak]
    split
    · rfl
    split
    · rename_i only honly
      have hthere : only ∈ d.names place :=
        (List.mem_filter.1 (honly ▸ List.mem_singleton_self only)).1
      have hname := (h.closed place only (mem_names.1 hthere)).2
      rw [isDirectory, isDirectory, htest only hname]
      cases hd : d.test (source ++ [only]) (· = .directory) with
      | error e => rfl
      | ok isDirectory =>
        simp only [ok_bind]
        split
        · rename_i htrue
          rcases hsource.isDirectory_cases hname with ⟨hdirectory, -⟩ | hfalse
          · have hsub : d'.entry? (place ++ [only]) = some .directory :=
              (congrFun hsame [only]).trans hdirectory
            have hin := (hsource.child hname hdirectory).test isName_fileName
            have hin' := (hsource'.child hname hsub).test isName_fileName
            rw [treeAt_append, hsame, ← treeAt_append] at hin'
            simp only [List.append_assoc, List.cons_append, List.nil_append] at hin hin'
            rw [Disk.isFile, Disk.isFile, hin, hin']
          · rw [Disk.isDirectory, hd, htrue] at hfalse
            cases hfalse
        · rfl
    · rfl

/-- A directory's manifest is read from its bytes. -/
theorem read_cases (h : d.IsTree) (hsource : d.Leads source place) :
    (∃ way data, d.Leads (source ++ way) (place ++ way) ∧
      d.treeAt (place ++ way) [fileName] = some (.file data) ∧
      find d source = .ok (source ++ way ++ [fileName]) ∧
      read d source = ofData (source ++ way ++ [fileName]) data) ∨
    ∃ e, find d source = .error e ∧ read d source = .error e := by
  rcases find_cases h hsource with ⟨way, data, hleads, hfile, hfind⟩ | ⟨e, hfind⟩
  · refine .inl ⟨way, data, hleads, hfile, hfind, ?_⟩
    obtain ⟨htop, hread⟩ := read_top _ hleads.found hleads.directory hfile
    rw [← hread, read, read, hfind, htop]
  · exact .inr ⟨e, hfind, by rw [read, hfind]; rfl⟩

end Manifest

end AppBroker
