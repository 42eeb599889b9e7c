import AppBroker.Proofs.HubRefinement
import AppBroker.Proofs.HubStaging

/-!
# Placing a payload

A staged payload is moved to the place of its edition. Until that move nothing but the staging
directory changes, so a failure up to then leaves the hub as it is; what is in the way is put aside
just before it, and then the move itself does not fail. After it only the manifest is read again,
and where it is a file it reads as it did before (`Working.place_cases`).
-/

namespace AppBroker.Hub

open Disk

variable {d d₀ s s' : Disk} {root : Path} {tenant a b v : String} {p : Plugin} {data : List UInt8}
  {own : Path → Bool}

/-- The directories that lead to where an installation for a tenant works and to the plugin. -/
def IsLead (root : Path) (tenant : String) (p : Path) : Prop :=
  p = root ++ [stagingName] ∨ p = root ++ [scopeName tenant] ∨
    ∃ name, p = root ++ [scopeName tenant, name]

section Edition

variable {e : Edition}

/-- The directory of an edition's plugin. -/
def Edition.base (e : Edition) : Path := [scopeName e.tenant, e.name]

theorem Edition.shelf_eq (e : Edition) : root ++ e.base ++ [e.version] = root ++ e.shelf := by
  simp [base, shelf]

theorem Edition.not_above_base (e : Edition) : ¬ root ++ e.shelf <+: root ++ e.base := by
  simp [base, shelf]

variable (he : e.IsValid)
include he

theorem Edition.IsValid.way : Way 3 e.shelf :=
  way_version he.1 (proper_of_isComponent he.2.1) (proper_of_isComponent he.2.2)

/-- The place of an edition and the staging directory are apart. -/
theorem Edition.IsValid.apart (q r : Path) : ¬ stagingPath root ++ q <+: root ++ e.shelf ++ r ∧
    ¬ root ++ e.shelf ++ r <+: stagingPath root ++ q := by
  have := scopeName_ne_staging he.1
  simp [stagingPath, Edition.shelf, this, Ne.symm this]

theorem Edition.IsValid.apart_base (q : Path) : ¬ stagingPath root ++ q <+: root ++ e.base := by
  simp [stagingPath, Edition.base, Ne.symm (scopeName_ne_staging he.1)]

end Edition

/-- A payload with its manifest in the staging directory. -/
structure Loaded (root : Path) (data : List UInt8) (s : Disk) : Prop where
  has : s.Has (stagingPath root)
  once : s.entries.keys.Nodup
  payload : s.entry? (stagingPath root ++ [payloadName]) = some .directory
  manifest : s.entry? (stagingPath root ++ [payloadName, Manifest.fileName]) = some (.file data)

theorem isName_payload : IsName payloadName := by constructor <;> decide

theorem isInstalled_staged {e : Edition} (q : Path) : isInstalled root e (stagingPath root ++ q) = true :=
  Bool.or_eq_true_iff.2 (.inl (isStaged_iff.2 (List.prefix_append _ _)))

theorem isInstalled_shelf {e : Edition} : isInstalled root e (root ++ e.shelf) = true :=
  Bool.or_eq_true_iff.2 (.inr (isWithin_iff.2 (List.prefix_refl _)))

theorem Working.installing (h : Working root d₀ s) (e : Edition) :
    Kept root (isInstalled root e) d₀ s :=
  h.kept.mono (isPart_installed root e) fun _ hp => Bool.or_eq_true_iff.2 (.inl hp)

namespace Loaded

variable (h : Loaded root data s)
include h

/-- What the manifest says while it is staged. -/
theorem read_staged : Manifest.read s (stagingPath root ++ [payloadName]) =
    Manifest.ofData (stagingPath root ++ [payloadName] ++ [Manifest.fileName]) data :=
  (Manifest.read_top data (locate_self (h.has.child isName_payload h.payload) true) h.payload (by
    rw [treeAt, ← h.manifest, List.append_assoc]
    rfl)).2

section Edition

variable {e : Edition} (hk : Kept root (isInstalled root e) d₀ s) (he : e.IsValid)
include hk he

/-- What is in the way of a payload is put aside. -/
theorem cleared (hm : s.move (root ++ e.shelf) (stagingPath root ++ ["previous"]) = .ok s') :
    Loaded root data s' ∧ Kept root (isInstalled root e) d₀ s' ∧ s'.entry? (root ++ e.shelf) = none ∧
      ∀ p, p <+: root ++ e.base → s'.entry? p = s.entry? p := by
  have hname : IsName "previous" := by decide
  obtain ⟨source, target, hs, ht, hs'⟩ := Disk.move_ok hm
  rw [hk.place_eq he.way hs, hk.place_staged hname ht] at hs'
  have hsame (q : Path) (hq : ¬ stagingPath root ++ ["previous"] <+: q) (hq' : ¬ root ++ e.shelf <+: q) :
      entry? (s.carried (root ++ e.shelf) (stagingPath root ++ ["previous"])) q = s.entry? q :=
    carried_outside h.once (by simp [Edition.shelf]) (by simp) hq hq'
  rw [stagingPath_append] at hm
  have hkept := hk.move he.way (way_staged hname) (by simp) isInstalled_shelf
    (by rw [← stagingPath_append]; exact isInstalled_staged _) hm
  subst hs'
  refine ⟨⟨h.has.congr fun p hp => ?_, once_carried h.once _ _, ?_, ?_⟩, hkept, ?_, fun p hp => ?_⟩
  · exact hsame p (fun hin => not_above (by simp) (hin.trans hp)) fun hin =>
      (he.apart [] []).2 (by simpa using hin.trans hp)
  · rw [hsame _ (by simp [payloadName]) (by simpa using (he.apart [payloadName] []).2), h.payload]
  · rw [hsame _ (by simp [payloadName])
      (by simpa using (he.apart [payloadName, Manifest.fileName] []).2), h.manifest]
  · exact carried_gone h.once (by simp [Edition.shelf]) (by simp)
      (by simpa using (he.apart ["previous"] []).1)
  · exact hsame p (fun hin => he.apart_base _ (hin.trans hp)) fun hin => e.not_above_base (hin.trans hp)

/-- The payload is moved to its place, and its manifest reads as before. -/
theorem placed (hbase : s.Has (root ++ e.base))
    (hm : s.move (stagingPath root ++ [payloadName]) (root ++ e.shelf) = .ok s') :
    Kept root (isInstalled root e) d₀ s' ∧ s'.Has (stagingPath root) ∧
      Manifest.read s' (root ++ e.shelf) =
        Manifest.ofData (root ++ e.shelf ++ [Manifest.fileName]) data := by
  obtain ⟨source, target, hs, ht, hs'⟩ := Disk.move_ok hm
  have htarget := hk.place_eq he.way ht
  rw [hk.place_staged isName_payload hs, htarget] at hs'
  have hsame (q : Path) (hq : ¬ root ++ e.shelf <+: q) (hq' : ¬ stagingPath root ++ [payloadName] <+: q) :
      entry? (s.carried (stagingPath root ++ [payloadName]) (root ++ e.shelf)) q = s.entry? q :=
    carried_outside h.once (by simp) (by simp [Edition.shelf]) hq hq'
  have hversion : IsName e.version := isName_of_locate hbase (proper_of_isComponent he.2.2)
    (by rw [e.shelf_eq]; exact ht)
  have hin (q : Path) (f : Entry) (hq : s.entry? (stagingPath root ++ [payloadName] ++ q) = some f) :
      entry? (s.carried (stagingPath root ++ [payloadName]) (root ++ e.shelf)) (root ++ e.shelf ++ q) =
        some f :=
    carried_inside h.once (by simp) (by simp [Edition.shelf]) hq
  have hbase' : (s.carried (stagingPath root ++ [payloadName]) (root ++ e.shelf)).Has (root ++ e.base) :=
    hbase.congr fun p hp => hsame p (fun hin => e.not_above_base (hin.trans hp)) fun hin =>
      he.apart_base _ (hin.trans hp)
  have hplace := hbase'.child hversion (by
    rw [e.shelf_eq]
    simpa using hin [] .directory (by simpa using h.payload))
  rw [e.shelf_eq] at hplace
  rw [stagingPath_append] at hm
  have hkept := hk.move (way_staged isName_payload) he.way (by simp [Edition.shelf])
    (by rw [← stagingPath_append]; exact isInstalled_staged _) isInstalled_shelf hm
  subst hs'
  refine ⟨hkept, h.has.congr fun p hp => ?_, ?_⟩
  · exact hsame p (fun hin => (he.apart [] []).2 (by simpa using hin.trans hp)) fun hin =>
      not_above (by simp) (hin.trans hp)
  · exact (Manifest.read_top data (locate_self hplace true) hplace.at
      (hin [Manifest.fileName] _ (by rw [List.append_assoc]; exact h.manifest))).2

omit hk in
/-- Where nothing is in the way the payload can be moved. -/
theorem exists_placed (hbase : s.Has (root ++ e.base)) (hversion : IsName e.version)
    (hnone : s.entry? (root ++ e.shelf) = none) :
    ∃ s', s.move (stagingPath root ++ [payloadName]) (root ++ e.shelf) = .ok s' := by
  have hs := locate_child h.has false isName_payload (by simp [h.payload])
  have ht := locate_child hbase false hversion (by rw [e.shelf_eq]; simp [hnone])
  rw [e.shelf_eq] at ht
  exact ⟨_, move_free hs ht (by simp [h.payload]) hnone (by simp)
    (by simpa using (he.apart [payloadName] []).1)⟩

end Edition

end Loaded

/-- How an attempt to place a payload ends: with nothing done outside of the staging directory, or
with the payload in its place. -/
inductive Attempt (root : Path) (tenant : String) (d : Disk) : Outcome Plugin × Disk → Prop
  | undone {d₁ s : Disk} (e : Failure) : Made (IsLead root tenant) d d₁ → Working root d₁ s →
      Attempt root tenant d (.error e, s)
  | done {d₁ s : Disk} (p : Plugin) : Made (IsLead root tenant) d d₁ →
      Kept root (isInstalled root (editionOf tenant p)) d₁ s → s.Has (stagingPath root) →
      Attempt root tenant d (.ok p, s)

/-- The last steps of placing a payload, when nothing was in its way or it was put aside. -/
theorem Loaded.last_cases (h : Loaded root data s) {e : Edition} (he : e.IsValid)
    (hk : Kept root (isInstalled root e) d₀ s) (hbase : s.Has (root ++ e.base)) {p : Plugin}
    (hread : Manifest.ofData [] data = .ok p) (tenant : String) :
    (∃ fault, s.move (stagingPath root ++ [payloadName]) (root ++ e.shelf) = .error fault ∧
      (Disk.update (·.move (stagingPath root ++ [payloadName]) (root ++ e.shelf)) >>= fun _ =>
        look (fun d => Manifest.read d (root ++ e.shelf)) >>= fun installed =>
          (pure { installed with tenant } : Action Disk Plugin)) s = (fail fault.breakage, s)) ∨
    ∃ path s', (Disk.update (·.move (stagingPath root ++ [payloadName]) (root ++ e.shelf)) >>= fun _ =>
        look (fun d => Manifest.read d (root ++ e.shelf)) >>= fun installed =>
          (pure { installed with tenant } : Action Disk Plugin)) s = (.ok { p with tenant, path }, s') ∧
      Kept root (isInstalled root e) d₀ s' ∧ s'.Has (stagingPath root) := by
  cases hm : s.move (stagingPath root ++ [payloadName]) (root ++ e.shelf) with
  | error fault => exact .inl ⟨fault, rfl, update_bind_error hm⟩
  | ok s' =>
    obtain ⟨hkept, hhas, hagain⟩ := h.placed hk he hbase hm
    rw [Manifest.ofData_moved hread] at hagain
    exact .inr ⟨_, s', by rw [update_bind hm, look_bind hagain]; rfl, hkept, hhas⟩

/-- A payload is placed, or all is left as it was. -/
theorem Working.place_cases (h : Working root d₀ s) (ht : IsScope tenant) (hload : Loaded root data s) :
    Attempt root tenant d₀ (Hub.place root (stagingPath root) tenant s) := by
  have hread := hload.read_staged
  by_cases hvalid : ∃ p, Manifest.ofData [] data = .ok p ∧ (editionOf tenant p).IsValid
  swap
  · obtain ⟨e, hrefused⟩ := place_refused hread ht fun p hp he => hvalid ⟨p, hp, he⟩
    rw [hrefused]
    exact .undone e .none h
  obtain ⟨p, hp, he⟩ := hvalid
  have hshelf : root ++ [scopeName tenant, p.name] ++ [p.version] = root ++ (editionOf tenant p).shelf :=
    (editionOf tenant p).shelf_eq
  rw [place_eq (hread.trans (Manifest.ofData_moved hp _)) he]
  dsimp only
  rw [hshelf]
  cases hmake : s.makeDirectories (root ++ [scopeName tenant, p.name]) with
  | error fault =>
    rw [update_bind_error hmake]
    exact .undone _ .none h
  | ok s₁ =>
  rw [update_bind hmake]
  obtain ⟨d₁, hmade, h₁, hbase, hsame⟩ := h.makeDirectories (proper_scopeName ht)
    (proper_of_isComponent he.2.1) (scopeName_ne_staging ht) hmake
  have hbase : s₁.Has (root ++ (editionOf tenant p).base) := hbase
  have hmade : Made (IsLead root tenant) d₀ d₁ :=
    hmade.mono fun q hq => .inr (hq.imp id fun hq => ⟨p.name, hq⟩)
  have hload₁ : Loaded root data s₁ := ⟨h₁.has, h₁.once,
    (hsame _ (isStaged_iff.2 (List.prefix_append _ _))).trans hload.payload,
    (hsame _ (isStaged_iff.2 (List.prefix_append _ _))).trans hload.manifest⟩
  have hk₁ := h₁.installing (editionOf tenant p)
  cases hthere : s₁.exists? (root ++ (editionOf tenant p).shelf) with
  | error e =>
    rw [look_bind_error hthere]
    exact .undone e hmade h₁
  | ok there =>
  rw [look_bind hthere]
  cases there with
  | false =>
    rw [if_neg Bool.false_ne_true]
    rcases hload₁.last_cases he hk₁ hbase hp tenant with ⟨fault, -, hlast⟩ | ⟨path, s₂, hlast, hk₂, hhas₂⟩
    · rw [hlast]
      exact .undone _ hmade h₁
    · rw [hlast]
      exact .done { p with tenant, path } hmade hk₂ hhas₂
  | true =>
    rw [if_pos rfl]
    cases haside : s₁.move (root ++ (editionOf tenant p).shelf) (stagingPath root ++ ["previous"]) with
    | error fault =>
      rw [update_bind_error haside]
      exact .undone _ hmade h₁
    | ok s₂ =>
    rw [update_bind haside]
    obtain ⟨hload₂, hk₂, hgone, hsame₂⟩ := hload₁.cleared hk₁ he haside
    have hbase₂ : s₂.Has (root ++ (editionOf tenant p).base) := hbase.congr hsame₂
    rcases hload₂.last_cases he hk₂ hbase₂ hp tenant with ⟨fault, hlost, -⟩ | ⟨path, s₃, hlast, hk₃, hhas₃⟩
    · -- what was there had a name that is possible, so the payload can go by it
      obtain ⟨_, _, hplace, -, -⟩ := Disk.move_ok haside
      rw [← Edition.shelf_eq] at hplace
      have hversion := isName_of_locate hbase (proper_of_isComponent he.2.2) hplace
      obtain ⟨s₃, hs₃⟩ := hload₂.exists_placed he hbase₂ hversion hgone
      exact absurd (hlost.symm.trans hs₃) (by simp)
    · rw [hlast]
      exact .done { p with tenant, path } hmade hk₃ hhas₃

/-! ## The whole of an installation -/

theorem isName_work : IsName workName := by decide

theorem stagingPath_eq (root : Path) : root ++ [stagingName] ++ [workName] = stagingPath root := by
  simp [stagingPath, workName]

/-- An installation starts to work in a new directory. -/
theorem Plain.opened (h : Plain root d) (hdir : d.entry? (root ++ [stagingName]) = some .directory)
    (hnone : d.entry? (stagingPath root) = none) :
    d.makeDirectory (stagingPath root) = .ok (d.put (stagingPath root) .directory) ∧
      Working root d (d.put (stagingPath root) .directory) := by
  have hhas := h.tree.has hdir
  have hplace : entry? (d.put (stagingPath root) .directory) (stagingPath root) = some .directory := by
    rw [entry?_put _ _ _ _ (by simp [stagingPath]), if_pos rfl]
  rw [← stagingPath_eq] at hnone hplace ⊢
  refine ⟨makeDirectory_child hhas isName_work hnone, h, ?_, Table.nodup_keys_insert h.tree.once _ _, ?_⟩
  · exact (h.kept (isPart_staged root)).put
      (isStaged_iff.2 (by rw [stagingPath_eq])) (.inl fun _ heq => by cases heq)
  · rw [← stagingPath_eq]
    exact (hhas.put _ _).child isName_work hplace

/-- An installation is refused, or it starts to work. -/
theorem Plain.install_opens {source : Path} (h : Plain root d) (ht : IsScope tenant)
    (hexists : d.exists? source = .ok true) (hfree : d.entry? (stagingPath root) = none) :
    (∃ e, install root tenant source d = (.error e, d)) ∨
    ∃ d₁, Made (IsLead root tenant) d d₁ ∧ Working root d₁ (d₁.put (stagingPath root) .directory) ∧
      d₁.entry? (stagingPath root) = none ∧ install root tenant source d =
        (Action.followedBy (stage (stagingPath root) source >>= fun _ =>
          Hub.place root (stagingPath root) tenant) (tryUpdate (·.removeTree (stagingPath root))))
            (d₁.put (stagingPath root) .directory) := by
  have hroot := h.tree.has h.home
  have hlink : ∀ target, d.entry? (root ++ [stagingName]) ≠ some (.link target) :=
    h.shallow [stagingName] (by simp)
  have htest := test_on (locate_self hroot true) h.home isName_staging hlink (· = .directory)
  cases hthere : d.entry? (root ++ [stagingName]) with
  | none =>
    have hmade : Made (IsLead root tenant) d (d.put (root ++ [stagingName]) .directory) :=
      Made.none.next (.inl rfl) isName_staging h.home hthere
    have hfree' : entry? (d.put (root ++ [stagingName]) .directory) (stagingPath root) = none := by
      rw [entry?_put _ _ _ _ (by simp), if_neg (by simp [stagingPath]), hfree]
    obtain ⟨hmake, hwork⟩ := (h.made hmade).opened
      (by rw [entry?_put _ _ _ _ (by simp), if_pos rfl]) hfree'
    refine .inr ⟨_, hmade, hwork, hfree', install_eq hexists ht (.inl ⟨?_, ?_⟩) hmake⟩
    · rw [stagingPath_parent, Disk.isDirectory, htest, hthere]
      rfl
    · rw [stagingPath_parent]
      exact makeDirectory_child hroot isName_staging hthere
  | some e =>
    cases e with
    | directory =>
      obtain ⟨hmake, hwork⟩ := h.opened hthere hfree
      refine .inr ⟨d, .none, hwork, hfree, install_eq hexists ht (.inr ⟨?_, rfl⟩) hmake⟩
      rw [stagingPath_parent, Disk.isDirectory, htest, hthere]
      rfl
    | link target => exact absurd hthere (hlink target)
    | file data =>
      have hrefused : d.makeDirectory (root ++ [stagingName]) = .error .exists := by
        rw [makeDirectory, locate_child hroot false isName_staging hlink, ok_bind, hthere]
      have hdirectory : d.isDirectory (stagingPath root).parent = .ok false := by
        rw [stagingPath_parent, Disk.isDirectory, htest, hthere]
        rfl
      refine .inl ⟨.breakage DiskFault.exists.breakage, ?_⟩
      unfold install
      dsimp only
      rw [look_bind hexists, if_neg (by simp), scopePath_eq ht]
      refine Action.lift_ok_bind.trans ?_
      rw [look_bind hdirectory, stagingPath_parent]
      exact update_bind_error hrefused

/-- How an installation ends: with nothing done but directories made, or with a plugin in its place.
The staging directory is gone. -/
inductive Ending (root : Path) (tenant : String) (d : Disk) : Outcome Plugin × Disk → Prop
  | undone {d₁ s : Disk} (e : Failure) : Made (IsLead root tenant) d d₁ →
      Kept root (isStaged root) d₁ s → (∀ q, s.entry? (stagingPath root ++ q) = none) →
      Ending root tenant d (.error e, s)
  | done {d₁ s : Disk} (p : Plugin) : Made (IsLead root tenant) d d₁ →
      Kept root (isInstalled root (editionOf tenant p)) d₁ s →
      (∀ q, s.entry? (stagingPath root ++ q) = none) → Ending root tenant d (.ok p, s)

/-- The staging directory is taken away, however the attempt ended. -/
theorem Attempt.ending {m : Action Disk Plugin} {d₁ s : Disk} (h : Attempt root tenant d₁ (m s))
    (hmade : Made (IsLead root tenant) d d₁) :
    Ending root tenant d (m.followedBy (tryUpdate (·.removeTree (stagingPath root))) s) := by
  have hgone (s : Disk) (q : Path) : entry? (s.cut (stagingPath root)) (stagingPath root ++ q) = none := by
    rw [entry?_cut (by simp [stagingPath]), overlaid_inside]
  have hclean {o : Outcome Plugin} {s' : Disk} (hm : m s = (o, s')) (hhas : s'.Has (stagingPath root)) :
      m.followedBy (tryUpdate (·.removeTree (stagingPath root))) s = (o, s'.cut (stagingPath root)) := by
    refine Action.followedBy_of hm (tryUpdate_ok ?_)
    rw [← stagingPath_eq] at hhas ⊢
    exact removeTree_child hhas.parent isName_work hhas.at
  cases hm : m s with
  | mk o s' =>
  rw [hm] at h
  cases h with
  | undone e hmade' hwork =>
    rw [hclean hm hwork.has]
    exact .undone e (hmade.trans hmade')
      (hwork.kept.cut (isStaged_iff.2 (List.prefix_refl _))) (hgone s')
  | done p hmade' hkept hhas =>
    rw [hclean hm hhas]
    exact .done p (hmade.trans hmade')
      (hkept.cut (by simpa using @isInstalled_staged root _ [])) (hgone s')

/-- How a payload is staged: it is not, or it is there with its manifest. -/
def Stages (root source : Path) (d s : Disk) : Prop :=
  (∃ e s', stage (stagingPath root) source s = (.error e, s') ∧ Working root d s') ∨
    ∃ data s', stage (stagingPath root) source s = (.ok (), s') ∧ Working root d s' ∧
      Loaded root data s'

/-- An installation ends well or undone if its payload is staged on a disk that has new directories
and nothing else. -/
theorem Plain.install_ends {source : Path} (h : Plain root d)
    (hfree : d.entry? (stagingPath root) = none)
    (hstages : d.exists? source = .ok true → ∀ d₁ s, Working root d₁ s →
      (∀ p, s.entry? p = d.entry? p ∨ d.entry? p = none ∧ s.entry? p = some .directory) →
        (∀ q, q ≠ [] → s.entry? (stagingPath root ++ q) = none) → Stages root source d₁ s) :
    Ending root tenant d (install root tenant source d) := by
  have hundone (e : Failure) : Ending root tenant d (.error e, d) :=
    .undone e .none (h.kept (isPart_staged root)) (h.tree.closed.none_below hfree)
  by_cases hexists : d.exists? source = .ok true
  swap
  · obtain ⟨e, hrefused⟩ := install_nowhere hexists
    rw [hrefused]
    exact hundone e
  by_cases ht : IsScope tenant
  swap
  · obtain ⟨e, hrefused⟩ := install_refused hexists ht
    rw [hrefused]
    exact hundone e
  rcases h.install_opens ht hexists hfree with ⟨e, hrefused⟩ | ⟨d₁, hmade, hwork, hfree₁, hrun⟩
  · rw [hrefused]
    exact hundone e
  rw [hrun]
  refine Attempt.ending ?_ hmade
  have hnew (p : Path) : entry? (d₁.put (stagingPath root) .directory) p = d.entry? p ∨
      d.entry? p = none ∧ entry? (d₁.put (stagingPath root) .directory) p = some .directory := by
    rw [entry?_put _ _ _ _ (by simp [stagingPath])]
    split
    · next heq => exact .inr ⟨heq ▸ hfree, rfl⟩
    · exact (hmade.entry?_cases p).imp id fun hmade => ⟨hmade.1, hmade.2.1⟩
  have hempty (q : Path) (hq : q ≠ []) :
      entry? (d₁.put (stagingPath root) .directory) (stagingPath root ++ q) = none := by
    rw [entry?_put _ _ _ _ (by simp [stagingPath]), if_neg (by simpa using hq)]
    exact (h.made hmade).tree.closed.none_below hfree₁ q
  rcases hstages hexists d₁ _ hwork hnew hempty with ⟨e, s, hstage, hs⟩ | ⟨data, s, hstage, hs, hload⟩
  · rw [Action.bind_error hstage]
    exact .undone e .none hs
  · rw [Action.bind_ok hstage]
    exact hs.place_cases ht hload

end AppBroker.Hub
