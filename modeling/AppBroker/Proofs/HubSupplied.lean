import AppBroker.Proofs.ArchiveContained
import AppBroker.Proofs.HubManaged

/-!
# Hubs supplied from directories and archives

What is unpacked from an archive that stays in its directory is a tree without links, as what is
copied from a directory is, and nothing else is in the staging directory (`Unpacking`). So an
installation from such an archive leaves the hub in order as well (`Tidy.unpacks`), and so does
every history of installations from either and of removals (`Supplied.tidy`).
-/

namespace AppBroker

namespace Disk

variable {d : Disk} {dir here place : Path} {names : List String} {n : String} {follow : Bool}
  {fuel : Nat}

/-- Where nothing lies yet, a walk without links and steps back has come to a directory. -/
theorem walk_new (hlink : ∀ q target, d.entry? (here ++ q) ≠ some (.link target))
    (hnames : ".." ∉ names) (hhere : d.entry? here ≠ none) (hnone : d.entry? (dir ++ [n]) = none)
    (h : d.walk follow fuel here names = .ok (dir ++ [n])) :
    d.entry? dir = some .directory ∧ n ∈ names ∧ Leadless n ∧ n.utf8ByteSize ≤ maxName := by
  -- Every step stays in place or goes down, and all but the last end at something that is there.
  induction names generalizing fuel here with
  | nil =>
    cases fuel <;> cases h <;> exact absurd hnone hhere
  | cons name names ih =>
    cases fuel with
    | zero => cases h
    | succ fuel =>
    have habove : name ≠ ".." := fun heq => hnames (heq ▸ List.mem_cons_self)
    have hrest : ".." ∉ names := fun hin => hnames (List.mem_cons_of_mem _ hin)
    have hlater (hnew : d.entry? dir = some .directory ∧ n ∈ names ∧ Leadless n ∧
        n.utf8ByteSize ≤ maxName) : d.entry? dir = some .directory ∧ n ∈ name :: names ∧
          Leadless n ∧ n.utf8ByteSize ≤ maxName :=
      ⟨hnew.1, List.mem_cons_of_mem _ hnew.2.1, hnew.2.2⟩
    rw [walk] at h
    split at h
    swap
    · cases h
    swap
    · cases h
    next hdir =>
    by_cases hdot : (decide (name = "") || decide (name = ".")) = true
    · rw [if_pos hdot] at h
      exact hlater (ih hlink hrest hhere h)
    rw [if_neg hdot, if_neg habove] at h
    split at h
    · cases h
    next hshort =>
    dsimp only at h
    split at h
    · next target htarget => exact absurd htarget (hlink [name] target)
    · next e _ hthere =>
      refine hlater (ih (fun q target => ?_) hrest (by simp [hthere]) h)
      rw [List.append_assoc]
      exact hlink _ target
    · split at h
      swap
      · cases h
      obtain ⟨rfl, hn⟩ := List.append_inj' (Except.ok.inj h) rfl
      obtain rfl : name = n := by simpa using hn
      simp only [Bool.or_eq_true, decide_eq_true_eq, not_or] at hdot
      exact ⟨hdir, by simp, ⟨hdot.1, hdot.2, habove⟩, Nat.not_lt.1 hshort⟩

theorem locate_new (hdir : d.Has here) (hlink : ∀ q target, d.entry? (here ++ q) ≠ some (.link target))
    (hnames : ".." ∉ names) (hnone : d.entry? (dir ++ [n]) = none)
    (h : d.locate (here ++ names) follow = .ok (dir ++ [n])) :
    d.entry? dir = some .directory ∧ IsName n := by
  unfold locate at h
  split at h
  · cases h
  next hnull =>
  have hwalk := @walk_names d here [] follow (1000 + names.length) names hdir.names
    fun p hp => hdir.directory p hp
  rw [List.nil_append] at hwalk
  rw [show (here ++ names).length + 1000 = 1000 + names.length + here.length by simp; omega, hwalk] at h
  obtain ⟨habove, hin, ⟨hne, hhere, hback⟩, hshort⟩ := walk_new hlink hnames (by simp [hdir.at]) hnone h
  refine ⟨habove, hne, hhere, hback, hshort, fun hin' => hnull ?_⟩
  rw [List.any_eq_true]
  exact ⟨n, List.mem_append_right _ hin, by simpa using hin'⟩

/-- A file, or something new, in place of what is no directory. -/
theorem IsTree.put_over (h : d.IsTree) (hdir : d.entry? dir = some .directory) (hn : IsName n)
    (hnot : d.entry? (dir ++ [n]) ≠ some .directory) (e : Entry) : (d.put (dir ++ [n]) e).IsTree where
  once := Table.nodup_keys_insert h.once _ _
  closed := by
    intro p m hm
    rw [entry?_put _ _ _ _ (by simp)] at hm ⊢
    split at hm
    · next heq =>
      obtain ⟨rfl, hmn⟩ := List.append_inj' heq rfl
      obtain rfl : n = m := by simpa using hmn
      rw [if_neg (by simp)]
      exact ⟨hdir, hn⟩
    · obtain ⟨hp, hm⟩ := h.closed p m hm
      rw [if_neg (by rintro rfl; exact hnot hp)]
      exact ⟨hp, hm⟩

theorem IsTree.put_located (h : d.IsTree) (hdir : d.Has here)
    (hlink : ∀ q target, d.entry? (here ++ q) ≠ some (.link target)) (hnames : ".." ∉ names)
    (hl : d.locate (here ++ names) follow = .ok place) (hnot : d.entry? place ≠ some .directory)
    (e : Entry) : (d.put place e).IsTree := by
  rcases List.eq_nil_or_concat place with rfl | ⟨dir, n, rfl⟩
  · exact absurd (entry?_nil d) hnot
  rw [List.concat_eq_append] at hl hnot ⊢
  obtain ⟨habove, hn⟩ : d.entry? dir = some .directory ∧ IsName n := by
    by_cases hnone : d.entry? (dir ++ [n]) = none
    · exact locate_new hdir hlink hnames hnone hl
    · exact h.closed dir n hnone
  exact h.put_over habove hn hnot e

end Disk

namespace Hub

open Disk Archive

variable {d d₀ s s' : Disk} {root source : Path} {view : Path → Option Entry} {tenant : String}

/-- An installation that unpacks an archive: all of the disk is a tree, the rest of the hub is as
given, and the staging directory holds nothing but what was unpacked. -/
structure Unpacking (root : Path) (view : Path → Option Entry) (d₀ s : Disk) : Prop
    extends Sealed root d₀ s where
  atWork : AtWork root view s
  only : ∀ n q, s.entry? (stagingPath root ++ n :: q) ≠ none → n = extractName

theorem Unpacking.enclosing : Enclosing root d₀ (Unpacking root view d₀) where
  sealed h := h.toSealed
  put := by
    intro s names follow place e h hnames hl hnot he
    obtain ⟨r, rfl, -⟩ := locate_below h.has h.linkless leadless_extract hnames hl
    have hplace : stagingPath root ++ extractName :: r =
        root ++ ([stagingName, workName] ++ extractName :: r) := by simp [stagingPath, workName]
    have hsteps : ".." ∉ extractName :: names := by
      rw [List.mem_cons, not_or]
      exact ⟨by decide, hnames⟩
    have hview := @treeAt_put s _ root
      (by simp : [stagingName, workName] ++ extractName :: r ≠ []) e
    refine ⟨h.put_located leadless_extract hnames hl he, ⟨?_, ?_, ?_⟩, fun n q hq => ?_⟩
    · exact h.atWork.tree.put_located h.has h.linkless hsteps hl hnot e
    · rw [hplace, hview, ← h.atWork.rest]
      funext q
      unfold unstaged overlaid
      split
      · rfl
      · next hout =>
        refine if_neg ?_
        rintro rfl
        exact hout (List.prefix_append _ _)
    · rw [hplace, hview]
      exact (if_neg (by simp)).trans h.atWork.work
    · rw [entry?_put _ _ _ _ (by simp)] at hq
      split at hq
      · next heq => exact (List.cons.inj (List.append_cancel_left heq)).1.symm
      · exact h.only n q hq

/-- What was unpacked is moved with its manifest, and is all that is staged. -/
theorem Unpacking.moved {way : List String} {data : List UInt8} (h : Unpacking root view d₀ s)
    (hway : s.entry? (stagingPath root ++ extractName :: way) = some .directory)
    (hfile : s.entry? (stagingPath root ++ extractName :: way ++ [Manifest.fileName]) = some (.file data))
    (hm : s.move (stagingPath root ++ extractName :: way) (stagingPath root ++ [payloadName]) = .ok s') :
    AtWork root view s' ∧
      s'.treeAt root [stagingName, workName, payloadName] = some .directory ∧
      s'.treeAt root [stagingName, workName, payloadName, Manifest.fileName] = some (.file data) ∧
      s'.treeAt root [stagingName, workName, "previous"] = none := by
  obtain ⟨dir, n, hsplit⟩ : ∃ dir n, stagingPath root ++ extractName :: way = dir ++ [n] :=
    ⟨_, _, (List.dropLast_concat_getLast (by simp)).symm⟩
  have hfree : s.entry? (stagingPath root ++ [payloadName]) = none := by
    by_contra hne
    exact absurd (h.only payloadName [] hne) (by decide)
  have hprevious : s.entry? (stagingPath root ++ ["previous"]) = none := by
    by_contra hne
    exact absurd (h.only "previous" [] hne) (by decide)
  have hout : ¬ stagingPath root ++ extractName :: way <+: stagingPath root ++ [payloadName] := by
    rw [List.prefix_append_right_inj, List.cons_prefix_cons]
    exact fun hin => absurd hin.1 (by decide)
  rw [hsplit] at hm hway hout
  obtain ⟨s₁, hmoved, htree, hview⟩ :=
    h.atWork.tree.moved hway h.atWork.entry_work isName_payload hfree hout
  obtain rfl := Except.ok.inj (hmoved.symm.trans hm)
  rw [← entry?_cut (by simp), ← hsplit, stagingPath_append] at hview
  have hcut : Disk.treeAt (s.cut (stagingPath root ++ extractName :: way)) root =
      overlaid (s.treeAt root) ([stagingName, workName] ++ extractName :: way) fun _ => none := by
    refine treeAt_overlaid (entry?_cut (by simp) |>.trans ?_)
    simp [stagingPath, workName]
  have hall := (treeAt_overlaid hview).trans (by rw [hcut])
  have hpayload (q : Path) : s₁.treeAt root ([stagingName, workName, payloadName] ++ q) =
      s.entry? (stagingPath root ++ extractName :: way ++ q) := by
    rw [hall, overlaid_inside]
    rfl
  refine ⟨⟨htree, ?_, ?_⟩, ?_, ?_, ?_⟩
  · rw [hall]
    exact (unstaged_overlaid_inside _ _ [payloadName]).trans
      ((unstaged_overlaid_inside _ _ (extractName :: way)).trans h.atWork.rest)
  · rw [hall, overlaid_outside (by simp), overlaid_outside (by simp), h.atWork.work]
  · rw [← List.append_nil [stagingName, workName, payloadName], hpayload, List.append_nil, hsplit, hway]
  · exact (hpayload [Manifest.fileName]).trans hfile
  · have hnot : ¬ [stagingName, workName] ++ extractName :: way <+: [stagingName, workName, "previous"] := by
      simp [extractName]
    rw [hall, overlaid_outside (by simp [payloadName]), overlaid_outside hnot]
    simpa [treeAt, stagingPath, workName] using hprevious

/-- A hub in order is plain while an installation works in it. -/
theorem AtWork.plain (h : AtWork root view d) (hneat : Neat (fun _ => True) view) : Plain root d where
  tree := h.tree
  home := by
    have hhome := h.treeAt_eq (q := []) (by simp)
    simpa [treeAt, hneat.home] using hhome
  shallow p hp target hlink := by
    by_cases hwork : [stagingName, workName] <+: p
    · obtain rfl := hwork.eq_of_length_le hp
      rw [h.work] at hlink
      cases hlink
    · rw [h.treeAt_eq hwork] at hlink
      have hdir : view p = some .directory := by
        rcases p with - | ⟨s, - | ⟨n, - | ⟨v, p⟩⟩⟩
        · exact hneat.home
        · exact hneat.scopes s (by simp [hlink])
        · exact hneat.plugins s n (by simp [hlink])
        · exact absurd hp (by simp)
      rw [hdir] at hlink
      cases hlink

/-- An archive that stays in its directory is staged as a tree, or it is not staged. -/
theorem AtWork.unpack_cases (h : AtWork root view s) (hneat : Neat (fun _ => True) view)
    (hempty : ∀ q, q ≠ [] → s.entry? (stagingPath root ++ q) = none)
    (hfile : s.isDirectory source ≠ .ok true)
    (hharmless : ∀ data, s.read source = .ok data → IsHarmless source.name data) :
    (∃ e s', stage (stagingPath root) source s = (.error e, s') ∧ AtWork root view s') ∨
    ∃ data s', stage (stagingPath root) source s = (.ok (), s') ∧ AtWork root view s' ∧
      s'.treeAt root [stagingName, workName, payloadName] = some .directory ∧
      s'.treeAt root [stagingName, workName, payloadName, Manifest.fileName] = some (.file data) ∧
      s'.treeAt root [stagingName, workName, "previous"] = none := by
  have hplain := h.plain hneat
  have hhas := h.tree.has h.entry_work
  have hworking : Working root s s := ⟨hplain, hplain.kept (isPart_staged root), h.tree.once, hhas⟩
  -- Before anything is unpacked, only the staging directory itself is there.
  have hclean (q : Path) (hq : s.entry? (stagingPath root ++ q) ≠ none) : q = [] := by
    by_contra hne
    exact hq (hempty q hne)
  have hunpacking : Unpacking root view s s := by
    refine ⟨⟨hworking, fun q hq => ?_⟩, h, fun n q hq => absurd (hclean _ hq) (by simp)⟩
    obtain rfl := hclean q hq
    rw [List.append_nil, hhas.at]
    exact ⟨by simp, by rintro target ⟨⟩⟩
  rcases stage_archive_cases Unpacking.enclosing hunpacking hfile hharmless with
    ⟨e, s', hstage, hs'⟩ | ⟨manifest, s₁, s', hs₁, hfind, hmove, hstage⟩
  · exact .inl ⟨e, s', hstage, hs'.atWork⟩
  · obtain ⟨way, data, rfl, -, hdir, hdata⟩ := hs₁.manifest_cases hfind
    rw [Path.parent, List.dropLast_concat] at hmove
    exact .inr ⟨data, s', hstage, hs₁.moved hdir hdata hmove⟩

/-- An installation from an archive that stays in its directory leaves the hub in order. -/
theorem Tidy.unpacks (h : Tidy root d) (hfile : d.isDirectory source ≠ .ok true)
    (hharmless : ∀ data, d.read source = .ok data → IsHarmless source.name data) (tenant : String) :
    Installed root tenant d (install root tenant source d) := by
  by_cases hexists : d.exists? source = .ok true
  swap
  · obtain ⟨e, hrefused⟩ := install_nowhere hexists
    rw [hrefused]
    exact h.undone tenant e
  by_cases ht : IsScope tenant
  swap
  · obtain ⟨e, hrefused⟩ := install_refused hexists ht
    rw [hrefused]
    exact h.undone tenant e
  obtain ⟨d₁, d₂, hmade, hwork, hat, hempty, hmore, -⟩ := AtWork.start h.neat h.tree
  rw [install_eq hexists ht hmade hwork]
  obtain ⟨e, hstat, -⟩ := stat_of_test hexists
  have hstat' : d₂.stat source = d.stat source := (stat_more hmore hstat).trans hstat.symm
  have hbare (q : Path) (hq : q ≠ []) : d₂.entry? (stagingPath root ++ q) = none := by
    obtain ⟨name, q, rfl⟩ := List.exists_cons_of_ne_nil hq
    have hnone := (hat.tree.closed.treeAt root).none_below (hempty name) q
    simpa [treeAt, stagingPath, workName] using hnone
  rcases hat.unpack_cases h.neat.opened hbare (by rwa [isDirectory, test, hstat'])
      (fun data hread => hharmless data (by rwa [Disk.read, ← hstat'])) with
    ⟨e, s, hstage, hat'⟩ | ⟨data, s, hstage, hat', htop, hdata, hprevious⟩
  · exact hat'.installed (Action.bind_error hstage) h.neat.opened h.named.opened
      (fun _ hp => by cases hp) fun _ _ _ => .inl
  · obtain ⟨o, d', view', hplaced, hat'', hneat', hnamed', hstocked, hadds⟩ :=
      hat'.placed h.neat.opened h.named.opened ht htop hdata hprevious
    exact hat''.installed ((Action.bind_ok hstage).trans hplaced) hneat' hnamed' hstocked hadds

/-! ## Histories -/

/-- Whether a path leads to what can be installed: to a directory without links in it, or to an
archive that stays in its directory. -/
def IsSupply (d : Disk) (source : Path) : Prop :=
  (∃ place, d.Leads source place) ∨ d.isDirectory source ≠ .ok true ∧
    ∀ data, d.read source = .ok data → IsHarmless source.name data

theorem Tidy.supplied (h : Tidy root d) (hsource : IsSupply d source) (tenant : String) :
    Installed root tenant d (install root tenant source d) := by
  rcases hsource with ⟨place, hleads⟩ | ⟨hfile, hharmless⟩
  · exact h.installs hleads tenant
  · exact h.unpacks hfile hharmless tenant

/-- A hub that starts empty and is changed by installations and removals only. Between them other
places of the disk may change in any way. -/
inductive Supplied (root : Path) : Disk → Prop
  | new {d : Disk} : d.IsTree → d.entry? root = some .directory →
      (∀ q, q ≠ [] → d.treeAt root q = none) → Supplied root d
  | edited {d d' : Disk} : Supplied root d → d'.IsTree → d'.treeAt root = d.treeAt root →
      Supplied root d'
  | installed {d : Disk} {source : Path} (tenant : String) : Supplied root d → IsSupply d source →
      Supplied root (install root tenant source d).2
  | removed {d : Disk} (tag : Tag) : Supplied root d → Supplied root (remove root tag d).2

theorem Supplied.tidy (h : Supplied root d) : Tidy root d := by
  induction h with
  | new htree hroot hempty => exact (Managed.new htree hroot hempty).tidy
  | edited _ htree hsame ih => exact ⟨htree, hsame ▸ ih.neat, hsame ▸ ih.named⟩
  | installed tenant _ hsource ih => exact (ih.supplied hsource tenant).tidy
  | removed tag _ ih => exact ih.removed tag

end Hub

end AppBroker
