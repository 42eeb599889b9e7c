import AppBroker.Proofs.HubRemoval
import Mathlib.Logic.Function.Basic

/-!
# Installing editions

An installation works in the staging directory and touches the rest of the hub in one place only:
where the edition goes that the manifest names (`AtWork.place_cases`). The whole of what was there
makes way for the whole of what was staged. An installation that fails changes no edition, though
it may leave behind the directory of a plugin without a version: that is so when the version cannot
be the name of a directory.
-/

namespace AppBroker.Hub

open Disk

variable {admits : String → Prop} {view tree : Path → Option Entry} {d d' : Disk}
  {root source place : Path} {tenant s n v : String} {p : Plugin}

/-! ## What installing does to a neat hub -/

/-- A hub with its staging directory. -/
def withStaging (view : Path → Option Entry) : Path → Option Entry := fun p =>
  if p = [stagingName] then some .directory else view p

/-- A hub with the directories of a scope and of a plugin. -/
def withPlugin (view : Path → Option Entry) (s n : String) : Path → Option Entry := fun p =>
  if p = [s] ∨ p = [s, n] then some .directory else view p

theorem opened_of_ne {q : Path} (h : q ≠ [stagingName]) : withStaging view q = view q := if_neg h

theorem based_of_ne {q : Path} (h : q ≠ [s]) (h' : q ≠ [s, n]) : withPlugin view s n q = view q :=
  if_neg (not_or.2 ⟨h, h'⟩)

theorem isName_staging : IsName stagingName := by constructor <;> decide

theorem Neat.opened (h : Neat admits view) : Neat admits (withStaging view) where
  closed := by
    intro q m hq
    by_cases hm : q ++ [m] = [stagingName]
    · obtain ⟨rfl, hm⟩ := List.append_inj' (show q ++ [m] = [] ++ [stagingName] from hm) rfl
      obtain rfl : m = stagingName := by simpa using hm
      exact ⟨(opened_of_ne (by simp)).trans h.home, isName_staging⟩
    · rw [opened_of_ne hm] at hq
      obtain ⟨hdir, hname⟩ := h.closed q m hq
      refine ⟨?_, hname⟩
      unfold withStaging
      split
      · rfl
      · exact hdir
  home := (opened_of_ne (by simp)).trans h.home
  staged k := (opened_of_ne (by simp)).trans (h.staged k)
  scopes k hk := by
    unfold withStaging at hk ⊢
    split
    · rfl
    · rename_i hne
      rw [if_neg hne] at hk
      exact h.scopes k hk
  plugins k l hk := by
    rw [opened_of_ne (by simp)] at hk ⊢
    exact h.plugins k l hk
  versions k l m hk := by
    rw [opened_of_ne (by simp)] at hk ⊢
    obtain ⟨hdir, hm, hadmits, p, ⟨data, hdata, hread⟩, hp⟩ := h.versions k l m hk
    exact ⟨hdir, hm, hadmits, p, ⟨data, (opened_of_ne (by simp)).trans hdata, hread⟩, hp⟩

theorem Neat.based (h : Neat admits view) (hs : IsName s) (hn : IsName n) (hne : s ≠ stagingName) :
    Neat admits (withPlugin view s n) where
  closed := by
    intro q m hq
    unfold withPlugin at hq ⊢
    split at hq
    · rename_i hm
      rcases hm with hm | hm
      · obtain ⟨rfl, hm⟩ := List.append_inj' (show q ++ [m] = [] ++ [s] from hm) rfl
        obtain rfl : m = s := by simpa using hm
        exact ⟨by simpa using h.home, hs⟩
      · obtain ⟨rfl, hm⟩ := List.append_inj' (show q ++ [m] = [s] ++ [n] from hm) rfl
        obtain rfl : m = n := by simpa using hm
        exact ⟨by simp, hn⟩
    · obtain ⟨hdir, hname⟩ := h.closed q m hq
      exact ⟨by split <;> [rfl; exact hdir], hname⟩
  home := (based_of_ne (by simp) (by simp)).trans h.home
  staged k := (based_of_ne (by simp) (by simpa using fun heq _ => hne heq.symm)).trans (h.staged k)
  scopes k hk := by
    unfold withPlugin at hk ⊢
    split
    · rfl
    · rename_i hother
      rw [if_neg hother] at hk
      exact h.scopes k hk
  plugins k l hk := by
    unfold withPlugin at hk ⊢
    split
    · rfl
    · rename_i hother
      rw [if_neg hother] at hk
      exact h.plugins k l hk
  versions k l m hk := by
    rw [based_of_ne (by simp) (by simp)] at hk ⊢
    obtain ⟨hdir, hm, hadmits, p, ⟨data, hdata, hread⟩, hp⟩ := h.versions k l m hk
    exact ⟨hdir, hm, hadmits, p,
      ⟨data, (based_of_ne (by simp) (by simp)).trans hdata, hread⟩, hp⟩

/-- A neat hub stays neat when a version of a plugin takes its place. -/
theorem Neat.stocked (h : Neat admits view) (hbase : view [s, n] = some .directory)
    (hname : IsName v) (hv : isComponent v) (hadmits : admits v)
    (hclosed : Closed tree) (htop : tree [] = some .directory)
    (hp : Presents tree p) (hpn : p.name = n) (hpv : p.version = v) :
    Neat admits (overlaid view [s, n, v] tree) := by
  have hshallow {q : Path} (hq : q.length < 3) : overlaid view [s, n, v] tree q = view q :=
    overlaid_outside fun hin => by have := hin.length_le; simp at this; omega
  constructor
  · exact (h.closed.overlaid hclosed fun _ => ⟨hbase, hname⟩ :
      Closed (overlaid view ([s, n] ++ [v]) tree))
  · exact (hshallow (by simp)).trans h.home
  · exact fun k => (hshallow (by simp)).trans (h.staged k)
  · intro k hk
    rw [hshallow (by simp)] at hk ⊢
    exact h.scopes k hk
  · intro k l hk
    rw [hshallow (by simp)] at hk ⊢
    exact h.plugins k l hk
  · intro k l m hk
    by_cases hthis : [s, n, v] = [k, l, m]
    · obtain ⟨rfl, rfl, rfl⟩ : s = k ∧ n = l ∧ v = m := by simpa using hthis
      have hin (q : Path) : overlaid view [s, n, v] tree ([s, n, v] ++ q) = tree q :=
        overlaid_inside _ _ _ _
      obtain ⟨data, hdata, hread⟩ := hp
      exact ⟨(hin []).trans htop, hv, hadmits, p, ⟨data, (hin _).trans hdata, hread⟩, hpn, hpv⟩
    · have hout (q : Path) : ¬ [s, n, v] <+: [k, l, m] ++ q := by
        intro hin
        simp only [List.cons_append, List.nil_append, List.cons_prefix_cons, List.nil_prefix] at hin
        simp [hin] at hthis
      rw [overlaid_outside (by simpa using hout [])] at hk ⊢
      obtain ⟨hdir, hm, hadmits, p', ⟨data, hdata, hread⟩, hp'⟩ := h.versions k l m hk
      exact ⟨hdir, hm, hadmits, p', ⟨data, (overlaid_outside (hout _)).trans hdata, hread⟩, hp'⟩

theorem Filled.stocked (h : Filled view) (htop : tree [] = some .directory) :
    Filled (overlaid (withPlugin view s n) [s, n, v] tree) := by
  intro k l hkl
  by_cases hthis : k = s ∧ l = n
  · obtain ⟨rfl, rfl⟩ := hthis
    exact ⟨v, by rw [overlaid_at, htop]; exact Option.some_ne_none _⟩
  · have hout (q : Path) : ¬ [s, n, v] <+: k :: l :: q := by
      intro hin
      simp only [List.cons_prefix_cons] at hin
      exact hthis ⟨hin.1.symm, hin.2.1.symm⟩
    rw [overlaid_outside (hout []), based_of_ne (by simp) (by simpa using hthis)] at hkl
    obtain ⟨w, hw⟩ := h k l hkl
    exact ⟨w, by rwa [overlaid_outside (hout [w]), based_of_ne (by simp) (by simp)]⟩

theorem Filled.opened (h : Filled view) : Filled (withStaging view) := by
  intro k l hkl
  rw [opened_of_ne (by simp)] at hkl
  obtain ⟨w, hw⟩ := h k l hkl
  exact ⟨w, by rwa [opened_of_ne (by simp)]⟩

theorem stockOf_opened (view : Path → Option Entry) : stockOf (withStaging view) = stockOf view :=
  stockOf_congr fun _ _ _ => opened_of_ne (by simp [Edition.shelf])

theorem stockOf_based (view : Path → Option Entry) (s n : String) :
    stockOf (withPlugin view s n) = stockOf view :=
  stockOf_congr fun _ _ _ => based_of_ne (by simp [Edition.shelf]) (by simp [Edition.shelf])

/-- What takes the place of an edition is what is in stock of it. -/
theorem stockOf_stocked {e : Edition} (he : e.IsValid) (htop : tree [] = some .directory) :
    stockOf (overlaid view e.shelf tree) = Function.update (stockOf view) e (some tree) := by
  funext e'
  unfold stockOf
  by_cases heq : e' = e
  · subst heq
    have hin (q : Path) : overlaid view e'.shelf tree (e'.shelf ++ q) = tree q :=
      overlaid_inside _ _ _ _
    rw [Function.update_self, if_pos ⟨he, by simpa using (hin []).trans htop⟩]
    simp only [hin]
  · rw [Function.update_of_ne heq]
    by_cases he' : e'.IsValid
    · have hout (q : Path) : overlaid view e.shelf tree (e'.shelf ++ q) = view (e'.shelf ++ q) := by
        refine overlaid_outside fun hin => heq ?_
        have hshelf : e.shelf <+: e'.shelf :=
          List.prefix_of_prefix_length_le hin (List.prefix_append _ _) (by simp [Edition.shelf])
        exact Edition.shelf_inj he' he (hshelf.eq_of_length (by simp [Edition.shelf])).symm
      have htop' := hout []
      rw [List.append_nil] at htop'
      simp only [htop', hout]
    · simp [he']

/-! ## Work in the staging directory -/

/-- The name of the staging directory of an installation. -/
def workName : String := "install-*"

/-- A hub seen without the staging directory of an installation. -/
def unstaged (view : Path → Option Entry) : Path → Option Entry :=
  overlaid view [stagingName, workName] fun _ => none

theorem unstaged_outside {q : Path} (h : ¬ [stagingName, workName] <+: q) :
    unstaged view q = view q := overlaid_outside h

/-- What happens in the staging directory is not seen. -/
theorem unstaged_overlaid_inside (view tree : Path → Option Entry) (q : Path) :
    unstaged (overlaid view ([stagingName, workName] ++ q) tree) = unstaged view := by
  funext r
  unfold unstaged overlaid
  split
  · rfl
  · rename_i hout
    rw [if_neg fun hin => hout ((List.prefix_append _ _).trans hin)]

/-- What happens elsewhere is seen. -/
theorem unstaged_overlaid_outside (hs : s ≠ stagingName) (q : Path) :
    unstaged (overlaid view (s :: q) tree) = overlaid (unstaged view) (s :: q) tree := by
  funext r
  unfold unstaged overlaid
  cases r with
  | nil => simp
  | cons k r =>
    by_cases hk : k = s
    · subst hk
      simp [Ne.symm hs]
    · simp [Ne.symm hk]

theorem unstaged_based (hs : s ≠ stagingName) :
    unstaged (withPlugin view s n) = withPlugin (unstaged view) s n := by
  funext r
  unfold unstaged overlaid withPlugin
  by_cases hin : [stagingName, workName] <+: r
  · obtain ⟨q, rfl⟩ := hin
    simp [Ne.symm hs]
  · simp [hin]

theorem overlaid_twice (tree' : Path → Option Entry) (q : Path) :
    overlaid (overlaid view q tree') q tree = overlaid view q tree := by
  funext r
  unfold overlaid
  split <;> rfl

/-- An installation at work: the rest of the hub is as given, and the staging directory is there. -/
structure AtWork (root : Path) (view : Path → Option Entry) (d : Disk) : Prop where
  tree : d.IsTree
  rest : unstaged (d.treeAt root) = view
  work : d.treeAt root [stagingName, workName] = some .directory

theorem AtWork.treeAt_eq (h : AtWork root view d) {q : Path} (hq : ¬ [stagingName, workName] <+: q) :
    d.treeAt root q = view q := by
  rw [← h.rest, unstaged_outside hq]

theorem stagingPath_parent (root : Path) : (stagingPath root).parent = root ++ [stagingName] := by
  rw [stagingPath, Path.parent, show root ++ [stagingName, "install-*"] =
    root ++ [stagingName] ++ ["install-*"] by simp, List.dropLast_concat]

/-- A new directory: what was there is there still, and no other directory has a new name. -/
theorem put_more {dir : Path} (hnone : d.entry? (dir ++ [n]) = none) (q : Path) (e : Entry)
    (hq : d.entry? q = some e) : Disk.entry? (d.put (dir ++ [n]) .directory) q = some e := by
  rw [entry?_put _ _ _ _ (by simp), if_neg, hq]
  rintro rfl
  rw [hnone] at hq
  cases hq

theorem put_outside {dir : Path} (hin : root <+: dir ++ [n]) {q : Path} (hq : ¬ root <+: q) :
    Disk.entry? (d.put (dir ++ [n]) .directory) q = d.entry? q := by
  rw [entry?_put _ _ _ _ (by simp), if_neg]
  rintro rfl
  exact hq hin

/-- The place of all staging directories is there, or it is made. -/
theorem Neat.staging_made (h : Neat admits (d.treeAt root)) (htree : d.IsTree) :
    ∃ d₁ : Disk, (d.isDirectory (stagingPath root).parent = .ok false ∧
        d.makeDirectory (stagingPath root).parent = .ok d₁ ∨
        d.isDirectory (stagingPath root).parent = .ok true ∧ d₁ = d) ∧
      d₁.IsTree ∧ d₁.treeAt root = withStaging (d.treeAt root) ∧
      (∀ q e, d.entry? q = some e → d₁.entry? q = some e) ∧
      (∀ q, ¬ root <+: q → d₁.entry? q = d.entry? q) ∧
      ∀ dir, ¬ root <+: dir → d₁.names dir = d.names dir := by
  have hroot : d.entry? root = some .directory := by simpa [treeAt] using h.home
  rw [stagingPath_parent]
  by_cases hnone : d.treeAt root [stagingName] = none
  · have hnone' : d.entry? (root ++ [stagingName]) = none := hnone
    have htest := test_on (locate_self (htree.has hroot) true) hroot isName_staging
      (by simp [hnone']) (· = .directory)
    rw [hnone'] at htest
    refine ⟨d.put (root ++ [stagingName]) .directory, .inl ⟨htest, ?_⟩,
      htree.put hroot isName_staging hnone' _, ?_, put_more hnone',
      fun q => put_outside (List.prefix_append _ _), fun dir hdir => ?_⟩
    · exact makeDirectory_child (htree.has hroot) isName_staging hnone'
    · rw [treeAt_put (List.cons_ne_nil _ _)]
      funext q
      unfold withStaging
      simp only [eq_comm]
    · refine names_put (fun m heq => hdir ?_) _
      obtain ⟨rfl, -⟩ := List.append_inj' heq rfl
      exact List.prefix_refl _
  · have hthere : d.entry? (root ++ [stagingName]) = some .directory := h.scopes _ hnone
    have htest := test_on (locate_self (htree.has hroot) true) hroot isName_staging
      (by rw [hthere]; rintro target ⟨⟩) (· = .directory)
    rw [hthere] at htest
    refine ⟨d, .inr ⟨htest, rfl⟩, htree, ?_, fun _ _ he => he, fun _ _ => rfl, fun _ _ => rfl⟩
    funext q
    unfold withStaging
    split
    · rename_i hq
      rw [hq]
      exact hthere
    · rfl

/-- The staging directory is there from the start of an installation. -/
theorem AtWork.start (h : Neat admits (d.treeAt root)) (htree : d.IsTree) :
    ∃ d₁ d₂ : Disk, (d.isDirectory (stagingPath root).parent = .ok false ∧
        d.makeDirectory (stagingPath root).parent = .ok d₁ ∨
        d.isDirectory (stagingPath root).parent = .ok true ∧ d₁ = d) ∧
      d₁.makeDirectory (stagingPath root) = .ok d₂ ∧
      AtWork root (withStaging (d.treeAt root)) d₂ ∧
      (∀ name, d₂.treeAt root [stagingName, workName, name] = none) ∧
      (∀ q e, d.entry? q = some e → d₂.entry? q = some e) ∧
      (∀ q, ¬ root <+: q → d₂.entry? q = d.entry? q) ∧
      ∀ dir, ¬ root <+: dir → d₂.names dir = d.names dir := by
  obtain ⟨d₁, hmade, htree₁, hview₁, hmore₁, houtside₁, hnames₁⟩ := h.staging_made htree
  have hopen := h.opened
  rw [← hview₁] at hopen
  have hdir₁ : d₁.entry? (root ++ [stagingName]) = some .directory := by
    show d₁.treeAt root [stagingName] = _
    rw [hview₁]
    exact if_pos rfl
  have hnone₁ : d₁.entry? (root ++ [stagingName] ++ [workName]) = none := by
    have := hopen.staged workName
    simpa [treeAt] using this
  have hwork : IsName workName := by constructor <;> decide
  have hview₂ : (d₁.put (root ++ [stagingName] ++ [workName]) .directory).treeAt root =
      fun q => if [stagingName, workName] = q then some .directory else d₁.treeAt root q := by
    rw [List.append_assoc]
    exact treeAt_put (by simp) _
  refine ⟨d₁, d₁.put (root ++ [stagingName] ++ [workName]) .directory, hmade, ?_, ⟨?_, ?_, ?_⟩,
    fun name => ?_, fun q e hq => put_more hnone₁ q e (hmore₁ q e hq), fun q hq => ?_,
    fun dir hdir => ?_⟩
  · rw [← makeDirectory_child (htree₁.has hdir₁) hwork hnone₁, List.append_assoc]
    rfl
  · exact htree₁.put hdir₁ hwork hnone₁ _
  · rw [hview₂, ← hview₁]
    funext q
    unfold unstaged overlaid
    split
    · rename_i hin
      obtain ⟨r, rfl⟩ := hin
      exact (hopen.closed.none_below (hopen.staged workName) r).symm
    · rename_i hout
      refine if_neg ?_
      rintro rfl
      exact hout (List.prefix_refl _)
  · rw [hview₂]
    exact if_pos rfl
  · rw [hview₂]
    refine (if_neg (by simp)).trans ?_
    exact hopen.closed.none_below (hopen.staged workName) [name]
  · rw [put_outside (by rw [List.append_assoc]; exact List.prefix_append _ _) hq, houtside₁ q hq]
  · rw [names_put (fun m heq => hdir ?_), hnames₁ dir hdir]
    obtain ⟨rfl, -⟩ := List.append_inj' heq rfl
    exact List.prefix_append _ _

/-- The staging directory is gone at the end of an installation. -/
theorem AtWork.finish (h : AtWork root view d) :
    ∃ d', Disk.tryUpdate (·.removeTree (stagingPath root)) d = (.ok (), d') ∧ d'.IsTree ∧
      d'.treeAt root = view := by
  have hdir : d.entry? (root ++ [stagingName] ++ [workName]) = some .directory := by
    simpa [treeAt] using h.work
  obtain ⟨habove, hname⟩ := h.tree.closed _ workName (by rw [hdir]; exact Option.some_ne_none _)
  have hremove := removeTree_child (h.tree.has habove) hname hdir
  rw [List.append_assoc] at hremove
  refine ⟨_, tryUpdate_ok hremove, h.tree.cut (by simp), ?_⟩
  rw [← h.rest]
  exact treeAt_overlaid (entry?_cut (by simp))

/-- The name of what an installation puts into the staging directory. -/
def payloadName : String := "payload"

/-- A payload is staged as it lies in the source, or no manifest is found, or the staging directory
lies in what would be copied. -/
theorem AtWork.stage_cases (h : AtWork root view d)
    (hfree : d.treeAt root [stagingName, workName, payloadName] = none)
    (hsource : d.Leads source place) :
    (∃ e, stage (stagingPath root) source d = (.error e, d) ∧
      (Manifest.find d source = .error e ∨
        ∃ way, place ++ way <+: root ++ [stagingName, workName, payloadName])) ∨
    ∃ way data d', d.Leads (source ++ way) (place ++ way) ∧
      Manifest.find d source = .ok (source ++ way ++ [Manifest.fileName]) ∧
      d.treeAt (place ++ way) [Manifest.fileName] = some (.file data) ∧
      stage (stagingPath root) source d = (.ok (), d') ∧ AtWork root view d' ∧
      d'.treeAt root =
        overlaid (d.treeAt root) [stagingName, workName, payloadName] (d.treeAt (place ++ way)) := by
  have hdirectory : d.isDirectory source = .ok true := hsource.test_self _
  rcases Manifest.find_cases h.tree hsource with ⟨way, data, hleads, hfile, hfind⟩ | ⟨e, hfind⟩
  swap
  · refine .inl ⟨e, ?_, .inl hfind⟩
    unfold stage
    dsimp only
    rw [look_bind hdirectory, if_pos rfl, look_bind_error hfind]
  have hwork : d.entry? (stagingPath root) = some .directory := h.work
  have hnone : d.entry? (stagingPath root ++ [payloadName]) = none := by
    simpa [stagingPath, treeAt, workName] using hfree
  have hname : IsName payloadName := by constructor <;> decide
  have hpath : stagingPath root ++ [payloadName] = root ++ [stagingName, workName, payloadName] := by
    simp [stagingPath, workName]
  have hcopied {o : Outcome Unit} {d' : Disk}
      (hcopy : Disk.update (·.copyTree (source ++ way) (stagingPath root ++ [payloadName])) d =
        (o, d')) : stage (stagingPath root) source d = (o, d') := by
    unfold stage
    dsimp only
    rw [look_bind hdirectory, if_pos rfl, look_bind hfind, Path.parent, List.dropLast_concat]
    exact hcopy
  by_cases hin : place ++ way <+: stagingPath root ++ [payloadName]
  · have hrefused := copyTree_within hleads.found hleads.directory (h.tree.has hwork) hname hnone hin
    exact .inl ⟨_, hcopied (by rw [Disk.update, hrefused]; rfl), .inr ⟨way, hpath ▸ hin⟩⟩
  obtain ⟨d', hcopy, htree', hview'⟩ := h.tree.copied hleads.found hleads.directory hwork hname
    hnone hin
  rw [hpath] at hview'
  have hview := treeAt_overlaid hview'
  refine .inr ⟨way, data, d', hleads, hfind, hfile, hcopied (update_ok hcopy), ⟨htree', ?_, ?_⟩,
    hview⟩
  · rw [hview, ← h.rest]
    exact unstaged_overlaid_inside _ _ [payloadName]
  · rw [hview, overlaid_outside (by simp), h.work]

/-- From outside of the hub a payload is staged as it lies in the source, or no manifest is found. -/
theorem AtWork.run_stage (h : AtWork root view d)
    (hfree : d.treeAt root [stagingName, workName, payloadName] = none)
    (hsource : d.Leads source place) (hapart : ¬ root <+: place ∧ ¬ place <+: root) :
    (∃ e, Manifest.find d source = .error e ∧ stage (stagingPath root) source d = (.error e, d)) ∨
    ∃ way data d', d.Leads (source ++ way) (place ++ way) ∧
      Manifest.find d source = .ok (source ++ way ++ [Manifest.fileName]) ∧
      d.treeAt (place ++ way) [Manifest.fileName] = some (.file data) ∧
      stage (stagingPath root) source d = (.ok (), d') ∧ AtWork root view d' ∧
      d'.treeAt root =
        overlaid (d.treeAt root) [stagingName, workName, payloadName] (d.treeAt (place ++ way)) := by
  rcases h.stage_cases hfree hsource with ⟨e, hstage, hfind | ⟨way, hin⟩⟩ | hstaged
  · exact .inl ⟨e, hfind, hstage⟩
  · rcases List.prefix_or_prefix_of_prefix ((List.prefix_append place way).trans hin)
      (List.prefix_append root _) with hle | hle
    · exact absurd hle hapart.2
    · exact absurd hle hapart.1
  · exact .inr hstaged

theorem AtWork.entry_work (h : AtWork root view d) :
    d.entry? (stagingPath root) = some .directory := h.work

theorem stagingPath_append (root : Path) (name : String) :
    stagingPath root ++ [name] = root ++ [stagingName, workName, name] := by
  simp [stagingPath, workName]

section Placing

variable (h : AtWork root view d) (hneat : Neat admits view) (hs : s ≠ stagingName)
  (hbase : view [s, n] = some .directory) (hname : IsName v)

include h hneat hs hbase hname

/-- What lies in an edition's place makes way for a new payload. -/
theorem AtWork.run_clear (hprevious : d.treeAt root [stagingName, workName, "previous"] = none)
    {α : Type} (next : Unit → Action Disk α) :
    ∃ d', (look (·.exists? (root ++ [s, n] ++ [v])) >>= fun there =>
        if there = true then
          Disk.update (·.move (root ++ [s, n] ++ [v]) (stagingPath root ++ ["previous"])) >>= next
        else next ()) d = next () d' ∧
      AtWork root (overlaid view [s, n, v] fun _ => none) d' ∧
      ∀ q, d'.treeAt root ([stagingName, workName, payloadName] ++ q) =
        d.treeAt root ([stagingName, workName, payloadName] ++ q) := by
  have hpath : root ++ [s, n] ++ [v] = root ++ [s, n, v] := by simp
  have hout (q : Path) : ¬ [stagingName, workName] <+: s :: q := by simp [Ne.symm hs]
  have hbase' : d.entry? (root ++ [s, n]) = some .directory := by
    rw [← hbase, ← h.treeAt_eq (hout _)]
    rfl
  have htarget : d.entry? (root ++ [s, n] ++ [v]) = view [s, n, v] := by
    rw [hpath, ← h.treeAt_eq (hout _)]
    rfl
  by_cases hnone : view [s, n, v] = none
  · rw [hnone] at htarget
    have htest := test_on (locate_self (h.tree.has hbase') true) hbase' hname
      (by rw [htarget]; rintro target ⟨⟩) fun _ => true
    rw [htarget] at htest
    refine ⟨d, by rw [look_bind htest]; rfl, ?_, fun q => rfl⟩
    have hsame : (overlaid view [s, n, v] fun _ => none) = view := by
      funext q
      unfold overlaid
      split
      · rename_i hin
        obtain ⟨r, rfl⟩ := hin
        exact (hneat.closed.none_below hnone r).symm
      · rfl
    rwa [hsame]
  · rw [(hneat.versions s n v hnone).1] at htarget
    have htest := test_on (locate_self (h.tree.has hbase') true) hbase' hname
      (by rw [htarget]; rintro target ⟨⟩) fun _ => true
    rw [htarget] at htest
    have hprevious' : d.entry? (stagingPath root ++ ["previous"]) = none := by
      rw [stagingPath_append]
      exact hprevious
    obtain ⟨d', hmove, htree', hview'⟩ := h.tree.moved htarget h.entry_work
      (by decide : IsName "previous") hprevious' (by
        rw [hpath, stagingPath_append, List.prefix_append_right_inj]
        simp [hs])
    have hview : d'.treeAt root = overlaid (overlaid (d.treeAt root) [s, n, v] fun _ => none)
        [stagingName, workName, "previous"] (d.treeAt (root ++ [s, n] ++ [v])) := by
      rw [stagingPath_append, hpath, ← entry?_cut (by simp)] at hview'
      rw [treeAt_overlaid hview', treeAt_overlaid (entry?_cut (by simp)), hpath]
    refine ⟨d', ?_, ⟨htree', ?_, ?_⟩, fun q => ?_⟩
    · rw [look_bind htest]
      exact update_bind hmove
    · rw [hview, ← h.rest]
      refine (unstaged_overlaid_inside _ _ ["previous"]).trans ?_
      exact unstaged_overlaid_outside hs [n, v]
    · rw [hview, overlaid_outside (by simp), overlaid_outside (by simp [hs]), h.work]
    · rw [hview, overlaid_outside (by simp [payloadName]), overlaid_outside (by simp [hs])]

omit hneat in
/-- The payload takes an edition's place, and its manifest is read there. -/
theorem AtWork.run_move (data : List UInt8) (hfree : view [s, n, v] = none)
    (hpayload : d.treeAt root [stagingName, workName, payloadName] = some .directory)
    (hdata : d.treeAt root [stagingName, workName, payloadName, Manifest.fileName] =
      some (.file data)) :
    ∃ d', d.move (stagingPath root ++ [payloadName]) (root ++ [s, n] ++ [v]) = .ok d' ∧
      Manifest.read d' (root ++ [s, n] ++ [v]) =
        Manifest.ofData (root ++ [s, n] ++ [v] ++ [Manifest.fileName]) data ∧
      AtWork root (overlaid view [s, n, v]
        fun q => d.treeAt root ([stagingName, workName, payloadName] ++ q)) d' := by
  have hpath : root ++ [s, n] ++ [v] = root ++ [s, n, v] := by simp
  have hout (q : Path) : ¬ [stagingName, workName] <+: s :: q := by simp [Ne.symm hs]
  have hbase' : d.entry? (root ++ [s, n]) = some .directory := by
    rw [← hbase, ← h.treeAt_eq (hout _)]
    rfl
  have hfree' : d.entry? (root ++ [s, n] ++ [v]) = none := by
    rw [hpath, ← hfree, ← h.treeAt_eq (hout _)]
    rfl
  have hpayload' : d.entry? (stagingPath root ++ [payloadName]) = some .directory := by
    rw [stagingPath_append]
    exact hpayload
  obtain ⟨d', hmove, htree', hview'⟩ := h.tree.moved hpayload' hbase' hname hfree' (by
    rw [hpath, stagingPath_append, List.prefix_append_right_inj]
    simp [Ne.symm hs])
  have hview : d'.treeAt root = overlaid (overlaid (d.treeAt root)
      [stagingName, workName, payloadName] fun _ => none) [s, n, v]
        fun q => d.treeAt root ([stagingName, workName, payloadName] ++ q) := by
    rw [stagingPath_append, hpath, ← entry?_cut (by simp)] at hview'
    rw [treeAt_overlaid hview', treeAt_overlaid (entry?_cut (by simp)), treeAt_append]
  have hin (q : Path) : d'.treeAt root ([s, n, v] ++ q) =
      d.treeAt root ([stagingName, workName, payloadName] ++ q) := by
    rw [hview, overlaid_inside]
  have hplace : d'.entry? (root ++ [s, n] ++ [v]) = some .directory := by
    rw [hpath, ← hpayload]
    exact hin []
  have hread := (Manifest.read_top data (locate_self (htree'.has hplace) true) hplace (by
    rw [← hdata, hpath, treeAt_append]
    exact hin [Manifest.fileName])).2
  refine ⟨d', hmove, hread, htree', ?_, ?_⟩
  · rw [hview, ← h.rest]
    refine (unstaged_overlaid_outside hs [n, v]).trans ?_
    rw [← unstaged_overlaid_inside (d.treeAt root) (fun _ => none) [payloadName]]
    rfl
  · rw [hview, overlaid_outside (by simp [hs]), overlaid_outside (by simp), h.work]

end Placing

/-- Whether the parts of an edition can be the names of directories. -/
def Edition.IsNamed (e : Edition) : Prop := ∀ name ∈ e.shelf, IsName name

/-- The edition that a plugin becomes in a scope. -/
def editionOf (tenant : String) (p : Plugin) : Edition := ⟨tenant, p.name, p.version⟩

section Place

variable {data : List UInt8}

/-- A payload whose manifest cannot be read, or names no place, is not placed. -/
theorem place_refused (hread : Manifest.read d (stagingPath root ++ [payloadName]) =
      Manifest.ofData (stagingPath root ++ [payloadName] ++ [Manifest.fileName]) data)
    (ht : IsScope tenant)
    (hnot : ∀ p, Manifest.ofData [] data = .ok p → ¬ (editionOf tenant p).IsValid) :
    ∃ e, Hub.place root (stagingPath root) tenant d = (.error e, d) := by
  unfold Hub.place
  dsimp only
  cases hdata : Manifest.ofData (stagingPath root ++ [payloadName] ++ [Manifest.fileName]) data with
  | error e => exact ⟨e, look_bind_error (hread.trans hdata)⟩
  | ok p =>
    have hvalid := hnot _ (Manifest.ofData_moved hdata [])
    rw [look_bind (hread.trans hdata)]
    by_cases hname : isComponent p.name
    · have hversion : ¬ isComponent p.version := fun hv => hvalid ⟨ht, hname, hv⟩
      rw [checkComponent, if_pos hname]
      refine ⟨.refusal (.invalid (.component "version" p.version)), Action.lift_ok_bind.trans ?_⟩
      rw [checkComponent, if_neg hversion]
      exact Action.lift_error_bind
    · rw [checkComponent, if_neg hname]
      exact ⟨_, Action.lift_error_bind⟩

/-- Placing a payload whose manifest names a place. -/
theorem place_eq (hread : Manifest.read d (stagingPath root ++ [payloadName]) = .ok p)
    (he : (editionOf tenant p).IsValid) :
    Hub.place root (stagingPath root) tenant d =
      (Disk.update (·.makeDirectories (root ++ [scopeName tenant, p.name])) >>= fun _ =>
        look (·.exists? (root ++ [scopeName tenant, p.name] ++ [p.version])) >>= fun there =>
          let last (_ : Unit) : Action Disk Plugin :=
            Disk.update (·.move (stagingPath root ++ [payloadName])
              (root ++ [scopeName tenant, p.name] ++ [p.version])) >>= fun _ =>
            look (fun d => Manifest.read d (root ++ [scopeName tenant, p.name] ++ [p.version])) >>=
              fun installed => pure { installed with tenant }
          if there = true then
            Disk.update (·.move (root ++ [scopeName tenant, p.name] ++ [p.version])
              (stagingPath root ++ ["previous"])) >>= last
          else last ()) d := by
  have hname : isComponent p.name := he.2.1
  have hversion : isComponent p.version := he.2.2
  unfold Hub.place
  dsimp only
  rw [look_bind hread, checkComponent, if_pos hname]
  refine Action.lift_ok_bind.trans ?_
  rw [checkComponent, if_pos hversion]
  refine Action.lift_ok_bind.trans ?_
  have ht : IsScope tenant := he.1
  rw [pluginPath_eq root ht hname]
  exact Action.lift_ok_bind

/-- A payload whose manifest names a place goes there, unless the names in it are none. -/
theorem AtWork.place_cases (h : AtWork root view d) (hneat : Neat admits view)
    (hpayload : d.treeAt root [stagingName, workName, payloadName] = some .directory)
    (hdata : d.treeAt root [stagingName, workName, payloadName, Manifest.fileName] = some (.file data))
    (hprevious : d.treeAt root [stagingName, workName, "previous"] = none)
    (hread : Manifest.ofData [] data = .ok p) (he : (editionOf tenant p).IsValid) :
    ((editionOf tenant p).IsNamed ∧ ∃ d', Hub.place root (stagingPath root) tenant d =
        (.ok { p with tenant, path := Path.text (root ++ (editionOf tenant p).shelf) }, d') ∧
      AtWork root (overlaid (withPlugin view (scopeName tenant) p.name) (editionOf tenant p).shelf
        fun q => d.treeAt root ([stagingName, workName, payloadName] ++ q)) d') ∨
    (¬ (editionOf tenant p).IsNamed ∧ ∃ failure d',
      Hub.place root (stagingPath root) tenant d = (.error failure, d') ∧
      (AtWork root view d' ∨ ¬ IsName p.version ∧ IsName (scopeName tenant) ∧ IsName p.name ∧
        AtWork root (withPlugin view (scopeName tenant) p.name) d')) := by
  have ht : IsScope tenant := he.1
  have hname : isComponent p.name := he.2.1
  have hversion : isComponent p.version := he.2.2
  have hs := scopeName_ne_staging ht
  have hout (q : Path) : ¬ [stagingName, workName] <+: scopeName tenant :: q := by simp [Ne.symm hs]
  have hp : d.entry? (stagingPath root ++ [payloadName]) = some .directory := by
    rw [stagingPath_append]
    exact hpayload
  have htop := (Manifest.read_top data (locate_self (h.tree.has hp) true) hp (by
    rw [← hdata, stagingPath_append]
    simp [treeAt])).2
  rw [place_eq (htop.trans (Manifest.ofData_moved hread _)) he]
  have hroot : d.entry? root = some .directory := by
    have := h.treeAt_eq (q := []) (by simp)
    rw [hneat.home] at this
    simpa [treeAt] using this
  rcases makeDirectories_two h.tree hroot (n := scopeName tenant) (m := p.name)
      (by simpa using ⟨proper_scopeName ht, proper_of_isComponent hname⟩)
      (by rw [h.treeAt_eq (hout _)]; exact hneat.scopes _)
      (by rw [h.treeAt_eq (hout _)]; exact hneat.plugins _ _) with
    ⟨hsn, hnn, d₁, hmade, htree₁, hview₁⟩ | ⟨hnot, fault, hfault⟩
  · have hwork₁ : AtWork root (withPlugin view (scopeName tenant) p.name) d₁ := by
      refine ⟨htree₁, ?_, ?_⟩
      · rw [hview₁, ← h.rest]
        exact unstaged_based hs
      · rw [hview₁]
        refine (if_neg (by simp [Ne.symm hs])).trans h.work
    have hkept₁ (q : Path) (hq : [stagingName, workName] <+: q) :
        d₁.treeAt root q = d.treeAt root q := by
      rw [hview₁]
      refine if_neg ?_
      rintro (rfl | rfl) <;> simp [Ne.symm hs] at hq
    rw [update_bind hmade]
    by_cases hvn : IsName p.version
    · refine .inl ⟨by simpa [Edition.IsNamed, Edition.shelf, editionOf] using ⟨hsn, hnn, hvn⟩, ?_⟩
      have hneat₁ := hneat.based hsn hnn hs
      have hbase₁ : withPlugin view (scopeName tenant) p.name [scopeName tenant, p.name] =
          some .directory := if_pos (.inr rfl)
      obtain ⟨d₂, hclear, hwork₂, hkept₂⟩ := hwork₁.run_clear hneat₁ hs hbase₁ hvn
        (by rw [hkept₁ _ (by simp)]; exact hprevious) _
      have hbase₂ : overlaid (withPlugin view (scopeName tenant) p.name)
          [scopeName tenant, p.name, p.version] (fun _ => none) [scopeName tenant, p.name] =
            some .directory := by
        rw [overlaid_outside (by simp), hbase₁]
      have hsame (q : Path) : d₂.treeAt root ([stagingName, workName, payloadName] ++ q) =
          d.treeAt root ([stagingName, workName, payloadName] ++ q) := by
        rw [hkept₂, hkept₁ _ (by simp)]
      obtain ⟨d₃, hmove, hread₃, hwork₃⟩ := hwork₂.run_move hs hbase₂ hvn data
        (overlaid_at _ _ _)
        (by rw [← hpayload]; exact hsame []) (by rw [← hdata]; exact hsame [Manifest.fileName])
      refine ⟨d₃, ?_, ?_⟩
      · refine hclear.trans ?_
        rw [update_bind hmove, look_bind (hread₃.trans (Manifest.ofData_moved hread _)), Path.parent,
          List.dropLast_concat, List.append_assoc]
        rfl
      · rw [overlaid_twice] at hwork₃
        simp only [hsame] at hwork₃
        exact hwork₃
    · obtain ⟨hne, hhere, habove⟩ := proper_of_isComponent hversion
      have hbase : d₁.entry? (root ++ [scopeName tenant, p.name]) = some .directory := by
        show d₁.treeAt root _ = _
        rw [hview₁]
        exact if_pos (.inr rfl)
      have hhas := htree₁.has hbase
      have hlost : ∃ fault, d₁.move (stagingPath root ++ [payloadName])
          (root ++ [scopeName tenant, p.name] ++ [p.version]) = .error fault := by
        rcases locate_unnamed hhas false hne hhere habove hvn with hl | hl <;>
          exact move_nowhere _ hl
      obtain ⟨fault, hlost⟩ := hlost
      refine .inr ⟨fun hnamed => hvn (hnamed _ (by simp [Edition.shelf, editionOf])), ?_⟩
      rcases locate_unnamed hhas true hne hhere habove hvn with hl | hl
      · refine ⟨.breakage fault.breakage, d₁, ?_, .inr ⟨hvn, hsn, hnn, hwork₁⟩⟩
        rw [look_bind (test_missing hl _)]
        exact update_bind_error hlost
      · exact ⟨.breakage .fileSystem, d₁, look_bind_error (test_missing hl _),
          .inr ⟨hvn, hsn, hnn, hwork₁⟩⟩
  · exact .inr ⟨fun hnamed => hnot ⟨hnamed _ (by simp [Edition.shelf, editionOf]),
      hnamed _ (by simp [Edition.shelf, editionOf])⟩, _, d, update_bind_error hfault, .inl h⟩

end Place

end AppBroker.Hub
