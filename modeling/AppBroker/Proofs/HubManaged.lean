import AppBroker.Proofs.HubConfined
import AppBroker.Proofs.HubRefinement

/-!
# Hubs under any installation

A source may lie in the hub itself, as an installed plugin does, or have the hub in it. What is staged
from a plugin of the hub is a copy, so the plugin may make way for it. A directory that has the hub in
it is not staged: the copy would have to hold itself. Either way the hub stays in order
(`Tidy.installed`), and every history of installations and removals keeps it so (`Managed.tidy`).
-/

namespace AppBroker.Hub

open Disk

/-- Whether what has versions has a name that a plugin may have. -/
def Named (view : Path → Option Entry) : Prop := ∀ s n v, view [s, n, v] ≠ none → isComponent n

/-- A disk with a hub in order. -/
structure Tidy (root : Path) (d : Disk) : Prop where
  tree : d.IsTree
  neat : Neat (fun _ => True) (d.treeAt root)
  named : Named (d.treeAt root)

variable {view tree : Path → Option Entry} {d d' : Disk} {root source place q : Path}
  {tenant s n v : String} {p : Plugin} {data : List UInt8}

theorem Named.opened (h : Named view) : Named (withStaging view) := by
  intro s n v hv
  rw [opened_of_ne (by simp)] at hv
  exact h s n v hv

theorem Named.based (h : Named view) (s n : String) : Named (withPlugin view s n) := by
  intro k l m hm
  rw [based_of_ne (by simp) (by simp)] at hm
  exact h k l m hm

theorem Named.stocked (h : Named view) (hn : isComponent n) :
    Named (overlaid view [s, n, v] tree) := by
  intro k l m hm
  by_cases hin : [s, n, v] <+: [k, l, m]
  · obtain ⟨rfl, rfl, rfl⟩ : s = k ∧ n = l ∧ v = m := by simpa using hin
    exact hn
  · rw [overlaid_outside hin] at hm
    exact h k l m hm

/-! ## Installing -/

/-- The links that are there when an installation has started were there before. -/
theorem AtWork.link_before (h : AtWork root (withStaging (d.treeAt root)) d')
    (hempty : ∀ name, d'.treeAt root [stagingName, workName, name] = none)
    (hsame : ∀ q, ¬ root <+: q → d'.entry? q = d.entry? q) {target : String}
    (hlink : d'.entry? q = some (.link target)) : d.entry? q = some (.link target) := by
  by_cases hin : root <+: q
  swap
  · rwa [hsame q hin] at hlink
  obtain ⟨r, rfl⟩ := hin
  change d'.treeAt root r = _ at hlink
  by_cases hwork : [stagingName, workName] <+: r
  · -- there is only the new staging directory
    obtain ⟨r, rfl⟩ := hwork
    cases r with
    | nil => exact absurd (h.work.symm.trans hlink) (by simp)
    | cons name r =>
      have hnone : d'.treeAt root ([stagingName, workName, name] ++ r) = none :=
        (h.tree.closed.treeAt root).none_below (hempty name) r
      exact absurd (hnone.symm.trans hlink) (by simp)
  · rw [h.treeAt_eq hwork, withStaging] at hlink
    split at hlink
    · cases hlink
    · exact hlink

/-- Whether every version in a hub was there before, or is the one that an installation gave. -/
def Adds (tenant : String) (o : Outcome Plugin) (before after : Path → Option Entry) : Prop :=
  ∀ s n v, after [s, n, v] ≠ none →
    before [s, n, v] ≠ none ∨ ∃ p, o = .ok p ∧ [s, n, v] = (editionOf tenant p).shelf

/-- How an installation leaves a hub: in order, with the edition in stock that it gave, and with no
other that was not there. -/
structure Installed (root : Path) (tenant : String) (d : Disk) (r : Outcome Plugin × Disk) :
    Prop where
  tidy : Tidy root r.2
  stocked : ∀ p, r.1 = .ok p → stock root r.2 (editionOf tenant p) ≠ none
  adds : Adds tenant r.1 (d.treeAt root) (r.2.treeAt root)

theorem Tidy.undone (h : Tidy root d) (tenant : String) (e : Failure) :
    Installed root tenant d (.error e, d) :=
  ⟨h, (fun _ hp => by cases hp), fun _ _ _ => .inl⟩

/-- A payload is placed, or it is not; the hub around the staging directory is in order. -/
theorem AtWork.placed (h : AtWork root view d) (hneat : Neat (fun _ => True) view)
    (hnamed : Named view) (ht : IsScope tenant)
    (htop : d.treeAt root [stagingName, workName, payloadName] = some .directory)
    (hdata : d.treeAt root [stagingName, workName, payloadName, Manifest.fileName] =
      some (.file data))
    (hprevious : d.treeAt root [stagingName, workName, "previous"] = none) :
    ∃ o d' view', Hub.place root (stagingPath root) tenant d = (o, d') ∧ AtWork root view' d' ∧
      Neat (fun _ => True) view' ∧ Named view' ∧
      (∀ p, o = .ok p → stockOf view' (editionOf tenant p) ≠ none) ∧ Adds tenant o view view' := by
  have hbased (o : Outcome Plugin) (s n : String) : Adds tenant o view (withPlugin view s n) := by
    intro k l m hm
    rw [based_of_ne (by simp) (by simp)] at hm
    exact .inl hm
  by_cases hplace : ∃ p, Manifest.ofData [] data = .ok p ∧ (editionOf tenant p).IsValid
  swap
  · have hpayload : d.entry? (stagingPath root ++ [payloadName]) = some .directory := by
      rw [stagingPath_append]
      exact htop
    obtain ⟨e, hrefused⟩ := place_refused
      (Manifest.read_top data (locate_self (h.tree.has hpayload) true) hpayload (by
        rw [← hdata, stagingPath_append]
        simp [treeAt])).2 ht fun p hp hvalid => hplace ⟨p, hp, hvalid⟩
    exact ⟨_, _, _, hrefused, h, hneat, hnamed, (fun _ hp => by cases hp), fun _ _ _ => .inl⟩
  obtain ⟨p, hread, hvalid⟩ := hplace
  rcases h.place_cases hneat htop hdata hprevious hread hvalid with
    ⟨hall, d', hplaced, hat⟩ | ⟨-, e, d', hplaced, hat | ⟨-, hs, hn, hat⟩⟩
  · have hs : IsName (scopeName tenant) := hall _ (by simp [Edition.shelf, editionOf])
    have hn : IsName p.name := hall _ (by simp [Edition.shelf, editionOf])
    have hv : IsName p.version := hall _ (by simp [Edition.shelf, editionOf])
    have hclosed : Closed fun q => d.treeAt root ([stagingName, workName, payloadName] ++ q) := by
      have := h.tree.closed.treeAt (root ++ [stagingName, workName, payloadName])
      rwa [treeAt_append] at this
    refine ⟨_, _, _, hplaced, hat,
      (hneat.based hs hn (scopeName_ne_staging ht)).stocked (if_pos (.inr rfl)) hv hvalid.2.2 trivial
        hclosed htop ⟨data, hdata, hread⟩ rfl rfl,
      (hnamed.based _ _).stocked hvalid.2.1, fun p' hp => ?_, fun k l m hm => ?_⟩
    · obtain rfl := Except.ok.inj hp
      rw [stockOf, if_pos ⟨hvalid, (overlaid_at _ _ _).trans htop⟩]
      exact Option.some_ne_none _
    · by_cases hin : (editionOf tenant p).shelf <+: [k, l, m]
      · exact .inr ⟨_, rfl, (hin.eq_of_length rfl).symm⟩
      · rw [overlaid_outside hin] at hm
        exact hbased _ _ _ k l m hm
  · exact ⟨_, _, _, hplaced, hat, hneat, hnamed, (fun _ hp => by cases hp), fun _ _ _ => .inl⟩
  · exact ⟨_, _, _, hplaced, hat, hneat.based hs hn (scopeName_ne_staging ht), hnamed.based _ _,
      (fun _ hp => by cases hp), hbased _ _ _⟩

/-- When the staging directory is taken away the hub is as it was around that. -/
theorem AtWork.installed {d₀ : Disk} {m : Action Disk Plugin} {o : Outcome Plugin}
    (h : AtWork root view d') (hrun : m d = (o, d')) (hneat : Neat (fun _ => True) view)
    (hnamed : Named view) (hstocked : ∀ p, o = .ok p → stockOf view (editionOf tenant p) ≠ none)
    (hadds : Adds tenant o (withStaging (d₀.treeAt root)) view) :
    Installed root tenant d₀ (m.followedBy (tryUpdate (·.removeTree (stagingPath root))) d) := by
  obtain ⟨d'', hclean, htree, hview⟩ := h.finish
  rw [Action.followedBy_of hrun hclean]
  refine ⟨⟨htree, hview ▸ hneat, hview ▸ hnamed⟩, fun p hp => ?_, fun s n v hv => ?_⟩
  · rw [stock, hview]
    exact hstocked p hp
  · rw [hview] at hv
    refine (hadds s n v hv).imp_left fun hbefore => ?_
    rwa [opened_of_ne (by simp)] at hbefore

/-- An installation from any directory leaves the hub in order, however it ends. -/
theorem Tidy.installs (h : Tidy root d) (hsource : d.Leads source place) (tenant : String) :
    Installed root tenant d (install root tenant source d) := by
  have hexists : d.exists? source = .ok true := hsource.test_self _
  by_cases ht : IsScope tenant
  swap
  · obtain ⟨e, hrefused⟩ := install_refused hexists ht
    rw [hrefused]
    exact h.undone tenant e
  obtain ⟨d₁, d₂, hmade, hwork, hat, hempty, hmore, hsame, -⟩ := AtWork.start h.neat h.tree
  rw [install_eq hexists ht hmade hwork]
  have hleads : d₂.Leads source place :=
    { found := locate_more hmore hsource.found (by simp [hsource.directory])
      directory := hmore _ _ hsource.directory
      linkless := fun r target hlink => hsource.linkless r target (hat.link_before hempty hsame hlink) }
  rcases hat.stage_cases (hempty _) hleads with
    ⟨e, hstage, -⟩ | ⟨way, data, d₃, hway, -, hdata, hstage, hat₃, hview₃⟩
  · exact hat.installed (Action.bind_error hstage) h.neat.opened h.named.opened
      (fun _ hp => by cases hp) fun _ _ _ => .inl
  have hpayload (q : Path) : d₃.treeAt root ([stagingName, workName, payloadName] ++ q) =
      d₂.treeAt (place ++ way) q := by
    rw [hview₃, overlaid_inside]
  have htop : d₂.treeAt (place ++ way) [] = some .directory := by
    simpa [treeAt] using hway.directory
  obtain ⟨o, d₄, view', hplaced, hat₄, hneat', hnamed', hstocked, hadds⟩ :=
    hat₃.placed h.neat.opened h.named.opened ht ((hpayload []).trans htop)
      ((hpayload [_]).trans hdata) (by
        rw [hview₃, overlaid_outside (by simp [payloadName])]
        exact hempty _)
  exact hat₄.installed ((Action.bind_ok hstage).trans hplaced) hneat' hnamed' hstocked hadds

theorem Tidy.installed (h : Tidy root d) (hsource : d.Leads source place) (tenant : String) :
    Tidy root (install root tenant source d).2 := (h.installs hsource tenant).tidy

/-! ## Removing -/

theorem entry?_of_cut {e : Entry} (h : Disk.entry? (d.cut place) q = some e) : d.entry? q = some e := by
  by_cases hplace : place = []
  · subst hplace
    by_cases hq : q = []
    · subst hq
      exact h
    · rw [entry?_eq_get? hq, cut, get?_filter d.entries (fun q => !isWithin [] q)] at h
      simp [isWithin] at h
  · rw [entry?_cut hplace, overlaid] at h
    split at h
    · cases h
    · exact h

theorem removeTree_ok {path : Path} (h : d.removeTree path = .ok d') : ∃ place, d' = d.cut place := by
  unfold Disk.removeTree at h
  cases hl : d.locate path false with
  | error fault => rw [hl] at h; cases h
  | ok place =>
    rw [hl, ok_bind] at h
    split at h <;> cases h
    exact ⟨place, rfl⟩

theorem removeDirectory_ok {path : Path} (h : d.removeDirectory path = .ok d') :
    ∃ place, d' = d.cut place := by
  unfold Disk.removeDirectory at h
  cases hl : d.locate path false with
  | error fault => rw [hl] at h; cases h
  | ok place =>
    rw [hl, ok_bind] at h
    split at h <;> try cases h
    split at h <;> cases h
    exact ⟨place, rfl⟩

/-- Whether a disk has nothing that another one does not have. -/
def Within (d d' : Disk) : Prop := ∀ q e, d'.entry? q = some e → d.entry? q = some e

theorem Within.cut (h : Within d d') (place : Path) : Within d (d'.cut place) :=
  fun q e he => h q e (entry?_of_cut he)

/-- Removing brings nothing onto the disk. -/
theorem brings_within (d : Disk) (root : Path) (tag : Tag) :
    (Hub.remove root tag).Brings (Within d) (Within d) := by
  have hversions (base : Path) (versions : List String) :
      (removeVersions tag base versions).Brings (Within d) (Within d) := by
    induction versions with
    | nil => exact Action.brings_pure _ fun _ h => h
    | cons version rest ih =>
      refine brings_look (fun _ h => h) fun there => ?_
      refine .whether (fun _ h => h) (fun _ => Action.brings_ofOutcome _ fun _ h => h) fun _ => ?_
      refine .bind (brings_update (fun _ h => h) fun s s' h hm => ?_) (fun _ h => h) fun _ => ih
      obtain ⟨place, rfl⟩ := removeTree_ok hm
      exact h.cut place
  have hlast (base : Path) (versions : List String) : (removeVersions tag base versions >>= fun _ =>
      Disk.tryUpdate (·.removeDirectory base)).Brings (Within d) (Within d) := by
    refine (hversions base versions).bind (fun _ h => h) fun _ => ?_
    refine brings_tryUpdate (fun _ h => h) fun s s' h hm => ?_
    obtain ⟨place, rfl⟩ := removeDirectory_ok hm
    exact h.cut place
  unfold Hub.remove
  refine .given (fun _ h => h) fun base hbase => ?_
  refine brings_look (fun _ h => h) fun there => ?_
  refine .whether (fun _ h => h) (fun _ => Action.brings_ofOutcome _ fun _ h => h) fun _ => ?_
  refine brings_look (fun _ h => h) fun installed => ?_
  split
  · exact .whether (fun _ h => h) (fun _ => Action.brings_ofOutcome _ fun _ h => h) fun _ =>
      hlast base _
  · refine .given (fun _ h => h) fun versions hsort => ?_
    exact .whether (fun _ h => h) (fun _ => Action.brings_ofOutcome _ fun _ h => h) fun _ =>
      hlast base _

theorem Tidy.removed (h : Tidy root d) (tag : Tag) : Tidy root (remove root tag d).2 := by
  obtain ⟨htree, hneat, -⟩ := h.neat.remove_spec h.tree tag
  refine ⟨htree, hneat, fun s n v hv => ?_⟩
  obtain ⟨e, he⟩ := Option.ne_none_iff_exists'.1 hv
  have hbefore : d.treeAt root [s, n, v] = some e :=
    brings_within d root tag d (fun _ _ h => h) _ _ he
  exact h.named s n v (by rw [hbefore]; exact Option.some_ne_none _)

/-! ## Histories -/

/-- A hub that starts empty and is changed by installations and removals only, from directories
anywhere on the disk. Between them other places of the disk may change in any way. -/
inductive Managed (root : Path) : Disk → Prop
  | new {d : Disk} : d.IsTree → d.entry? root = some .directory →
      (∀ q, q ≠ [] → d.treeAt root q = none) → Managed root d
  | edited {d d' : Disk} : Managed root d → d'.IsTree → d'.treeAt root = d.treeAt root →
      Managed root d'
  | installed {d : Disk} {source place : Path} (tenant : String) : Managed root d →
      d.Leads source place → Managed root (install root tenant source d).2
  | removed {d : Disk} (tag : Tag) : Managed root d → Managed root (remove root tag d).2

theorem Managed.tidy (h : Managed root d) : Tidy root d := by
  induction h with
  | new htree hroot hempty =>
    exact ⟨htree, (neat_new htree hroot hempty).1, fun s n v hv => absurd (hempty _ (by simp)) hv⟩
  | edited _ htree hsame ih => exact ⟨htree, hsame ▸ ih.neat, hsame ▸ ih.named⟩
  | installed tenant _ hsource ih => exact ih.installed hsource tenant
  | removed tag _ ih => exact ih.removed tag

end AppBroker.Hub
