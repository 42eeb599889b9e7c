import AppBroker.Hub.Install
import AppBroker.Proofs.HubStock
import AppBroker.Proofs.VersionOrder

/-!
# Looking up and removing editions

In a neat hub a tag is looked up in the stock: what `find` gives is the place of the edition that
the tag names, or of the latest one (`Neat.find_cases`), and `plugin` reads from it the plugin whose
name, version and scope are those of the edition (`Neat.plugin_eq`). Removing takes the editions
that a tag names out of the stock, and leaves a neat hub (`Neat.remove_cases`).
-/

namespace AppBroker

namespace Action

variable {σ α β : Type} {m : Action σ α} {f : α → Action σ β} {s s' : σ}

theorem bind_ok {a : α} (h : m s = (.ok a, s')) : (m >>= f) s = f a s' := by
  show Action.bind m f s = _
  simp only [Action.bind, h]

theorem bind_error {e : Failure} (h : m s = (.error e, s')) : (m >>= f) s = (.error e, s') := by
  show Action.bind m f s = _
  simp only [Action.bind, h]

theorem lift_ok_bind {a : α} : ((ofOutcome (.ok a) : Action σ α) >>= f) s = f a s := bind_ok rfl

theorem lift_error_bind {e : Failure} :
    ((ofOutcome (.error e) : Action σ α) >>= f) s = (.error e, s) := bind_error rfl

end Action

namespace Disk

variable {α β : Type} {d d' : Disk} {g : Disk → Outcome α} {f : α → Action Disk β}
  {change : Disk → Answer Disk} {k : Unit → Action Disk β}

theorem look_bind {a : α} (h : g d = .ok a) : (look g >>= f) d = f a d :=
  Action.bind_ok (by rw [look, h])

theorem look_bind_error {e : Failure} (h : g d = .error e) : (look g >>= f) d = (.error e, d) :=
  Action.bind_error (by rw [look, h])

theorem update_ok (h : change d = .ok d') : update change d = (.ok (), d') := by
  rw [update, h]

theorem update_bind (h : change d = .ok d') : (update change >>= k) d = k () d' :=
  Action.bind_ok (update_ok h)

theorem update_bind_error {fault : DiskFault} (h : change d = .error fault) :
    (update change >>= k) d = (fail fault.breakage, d) :=
  Action.bind_error (by rw [update, h]; rfl)

theorem tryUpdate_ok (h : change d = .ok d') : tryUpdate change d = (.ok (), d') := by
  rw [tryUpdate, h]

theorem tryUpdate_error {fault : DiskFault} (h : change d = .error fault) :
    tryUpdate change d = (.ok (), d) := by
  rw [tryUpdate, h]

end Disk

namespace Hub

open Disk

variable {admits : String → Prop} {view : Path → Option Entry} {d : Disk} {root : Path}
  {tenant name version s n v : String} {tag : Tag}

/-! ## What taking away does to a neat hub -/

/-- A neat hub stays neat when a plugin or a version is taken away. -/
theorem Neat.without (h : Neat admits view) {place : Path} (hne : 2 ≤ place.length)
    (hshort : place.length ≤ 3) : Neat admits (overlaid view place fun _ => none) := by
  have hshallow {p : Path} (hp : p.length < 2) : overlaid view place (fun _ => none) p = view p :=
    overlaid_outside fun hin => by have := hin.length_le; omega
  have hkept {p : Path} (hp : overlaid view place (fun _ => none) p ≠ none) :
      ¬ place <+: p ∧ overlaid view place (fun _ => none) p = view p := by
    by_cases hin : place <+: p
    · simp [overlaid, hin] at hp
    · exact ⟨hin, overlaid_outside hin⟩
  constructor
  · obtain ⟨dir, m, rfl⟩ : ∃ dir m, place = dir ++ [m] := by
      rcases List.eq_nil_or_concat place with rfl | ⟨dir, m, rfl⟩
      · simp at hne
      · exact ⟨dir, m, List.concat_eq_append⟩
    exact h.closed.overlaid closed_none fun hno => absurd rfl hno
  · rw [hshallow (by simp)]
    exact h.home
  · intro k
    by_contra hno
    obtain ⟨-, heq⟩ := hkept hno
    rw [heq] at hno
    exact hno (h.staged k)
  · intro k hk
    rw [hshallow (by simp)] at hk ⊢
    exact h.scopes k hk
  · intro k l hk
    obtain ⟨-, heq⟩ := hkept hk
    rw [heq] at hk ⊢
    exact h.plugins k l hk
  · intro k l m hk
    obtain ⟨hout, heq⟩ := hkept hk
    rw [heq] at hk
    obtain ⟨hdir, hm, hadmits, p, hp, hname, hversion⟩ := h.versions k l m hk
    refine ⟨by rw [heq, hdir], hm, hadmits, p, ?_, hname, hversion⟩
    obtain ⟨data, hdata, hread⟩ := hp
    refine ⟨data, ?_, hread⟩
    refine (overlaid_outside fun hin => ?_).trans hdata
    exact hout (List.prefix_of_prefix_length_le hin (List.prefix_append _ _) (by simpa using hshort))

/-- Some versions of a plugin taken away. -/
def cleared (view : Path → Option Entry) (s n : String) (versions : List String) :
    Path → Option Entry := fun p =>
  if ∃ v ∈ versions, [s, n, v] <+: p then none else view p

theorem cleared_cons (view : Path → Option Entry) (s n v : String) (versions : List String) :
    cleared view s n (v :: versions) =
      cleared (overlaid view [s, n, v] fun _ => none) s n versions := by
  funext p
  unfold cleared overlaid
  simp only [List.mem_cons, exists_eq_or_imp]
  by_cases hv : [s, n, v] <+: p <;> simp [hv]

/-- Removing versions that are there takes away just them. -/
theorem run_removeVersions (tag : Tag) (h : Neat admits (d.treeAt root)) (htree : d.IsTree)
    (versions : List String) (honce : versions.Nodup)
    (hthere : ∀ v ∈ versions, d.treeAt root [s, n, v] ≠ none) :
    ∃ d', removeVersions tag (root ++ [s, n]) versions d = (.ok (), d') ∧ d'.IsTree ∧
      Neat admits (d'.treeAt root) ∧ d'.treeAt root = cleared (d.treeAt root) s n versions := by
  induction versions generalizing d with
  | nil => exact ⟨d, rfl, htree, h, by funext p; simp [cleared]⟩
  | cons v versions ih =>
    obtain ⟨hv, honce⟩ := List.nodup_cons.1 honce
    have hthis := hthere v (by simp)
    have hdir : d.entry? (root ++ [s, n] ++ [v]) = some .directory := by
      simpa [treeAt] using (h.versions s n v hthis).1
    obtain ⟨habove, hname⟩ :=
      htree.closed (root ++ [s, n]) v (by rw [hdir]; exact Option.some_ne_none _)
    have hview : (d.cut (root ++ [s, n] ++ [v])).treeAt root =
        overlaid (d.treeAt root) [s, n, v] fun _ => none :=
      treeAt_overlaid (by rw [entry?_cut (by simp)]; simp)
    obtain ⟨d', hrun, htree', hneat', hview'⟩ := ih (d := d.cut (root ++ [s, n] ++ [v]))
      (by rw [hview]; exact h.without (by simp) (by simp)) (htree.cut (by simp)) honce fun w hw => by
        have hother : ¬ [s, n, v] <+: [s, n, w] := by
          rintro hin
          obtain rfl : v = w := by simpa using hin
          exact hv hw
        rw [hview, overlaid_outside hother]
        exact hthere w (List.mem_cons_of_mem v hw)
    refine ⟨d', ?_, htree', hneat', by rw [hview', hview, cleared_cons]⟩
    rw [removeVersions, look_bind (h.isDirectory_version htree hthis)]
    simp only [Bool.not_true, Bool.false_eq_true, if_false]
    rw [← hrun]
    exact update_bind (removeTree_child (htree.has habove) hname hdir)

theorem cleared_ne_none {versions : List String} {p : Path} :
    cleared view s n versions p ≠ none ↔ (∀ v ∈ versions, ¬ [s, n, v] <+: p) ∧ view p ≠ none := by
  unfold cleared
  split
  · rename_i hin
    obtain ⟨v, hv, hin⟩ := hin
    exact ⟨fun h => absurd rfl h, fun h => absurd hin (h.1 v hv)⟩
  · rename_i hout
    exact ⟨fun h => ⟨fun v hv hin => hout ⟨v, hv, hin⟩, h⟩, fun h => h.2⟩

/-! ## Removing -/

/-- The stock without the editions that a tag names: one version, or all of them. -/
def Stock.without (stock : Stock) (tag : Tag) : Stock := fun e =>
  if e.tenant = tag.tenant ∧ e.name = tag.name ∧ (tag.version = "" ∨ e.version = tag.version) then none
  else stock e

/-- The stock of a hub depends on what lies in the places of its editions. -/
theorem stockOf_congr {view' : Path → Option Entry}
    (h : ∀ e : Edition, e.IsValid → ∀ p, view' (e.shelf ++ p) = view (e.shelf ++ p)) :
    stockOf view' = stockOf view := by
  funext e
  unfold stockOf
  by_cases he : e.IsValid
  · have htop : view' e.shelf = view e.shelf := by simpa using h e he []
    simp only [htop, h e he]
  · simp [he]

/-- Taking versions away takes them out of the stock. -/
theorem stockOf_cleared (ht : IsScope tag.tenant) {versions : List String}
    (hall : ∀ v, v ∈ versions ↔
      view [scopeName tag.tenant, tag.name, v] ≠ none ∧ (tag.version = "" ∨ v = tag.version)) :
    stockOf (cleared view (scopeName tag.tenant) tag.name versions) = (stockOf view).without tag := by
  funext e
  unfold Stock.without
  split
  · rename_i heq
    obtain ⟨htenant, hname, hversion⟩ := heq
    unfold stockOf
    rw [if_neg]
    rintro ⟨-, hdir⟩
    have hne : cleared view (scopeName tag.tenant) tag.name versions e.shelf ≠ none := by
      rw [hdir]
      exact Option.some_ne_none _
    obtain ⟨hnot, hthere⟩ := cleared_ne_none.1 hne
    rw [Edition.shelf, htenant, hname] at hthere hnot
    exact hnot e.version ((hall e.version).2 ⟨hthere, hversion⟩) (List.prefix_refl _)
  · rename_i hother
    have hkept (he : e.IsValid) (p : Path) :
        cleared view (scopeName tag.tenant) tag.name versions (e.shelf ++ p) = view (e.shelf ++ p) := by
      unfold cleared
      rw [if_neg]
      rintro ⟨v, hv, hin⟩
      obtain ⟨hscope, hname, hversion⟩ : scopeName tag.tenant = scopeName e.tenant ∧
          tag.name = e.name ∧ v = e.version := by
        simpa [Edition.shelf] using hin
      refine hother ⟨(scopeName_inj ht he.1 hscope).symm, hname.symm, ?_⟩
      rw [← hversion]
      exact ((hall v).1 hv).2
    unfold stockOf
    by_cases he : e.IsValid
    · have htop := hkept he []
      rw [List.append_nil] at htop
      simp only [htop, hkept he]
    · simp [he]

/-- The directory of a plugin goes when nothing is left in it. -/
theorem run_tidy (h : Neat admits (d.treeAt root)) (htree : d.IsTree)
    (hbase : d.treeAt root [s, n] ≠ none) :
    ∃ d', Disk.tryUpdate (·.removeDirectory (root ++ [s, n])) d = (.ok (), d') ∧ d'.IsTree ∧
      Neat admits (d'.treeAt root) ∧ stock root d' = stock root d ∧
      ∀ k l, d'.treeAt root [k, l] ≠ none →
        d.treeAt root [k, l] ≠ none ∧ (∀ v, d'.treeAt root [k, l, v] = d.treeAt root [k, l, v]) ∧
        (k = s → l = n → ∃ v, d'.treeAt root [k, l, v] ≠ none) := by
  have hdir : d.entry? (root ++ [s] ++ [n]) = some .directory := by
    simpa [treeAt] using h.plugins s n hbase
  obtain ⟨habove, hname⟩ := htree.closed (root ++ [s]) n (by rw [hdir]; exact Option.some_ne_none _)
  have hremove := removeDirectory_child (htree.has habove) hname hdir
  rw [List.append_assoc] at hremove
  simp only [List.cons_append, List.nil_append] at hremove
  by_cases hempty : d.names (root ++ [s, n]) = []
  · rw [if_pos hempty] at hremove
    have hview : (d.cut (root ++ [s, n])).treeAt root = overlaid (d.treeAt root) [s, n] fun _ => none :=
      treeAt_overlaid (entry?_cut (by simp))
    have hnothing (v : String) : d.treeAt root [s, n, v] = none := by
      by_contra hv
      have := (mem_names_plugin d root s n v).2 hv
      rw [hempty] at this
      cases this
    have hbelow (v : String) (p : Path) : d.treeAt root ([s, n, v] ++ p) = none :=
      h.closed.none_below (hnothing v) p
    refine ⟨_, tryUpdate_ok hremove, htree.cut (by simp), ?_, ?_, ?_⟩
    · rw [hview]
      exact h.without (by simp) (by simp)
    · unfold stock
      rw [hview]
      refine stockOf_congr fun e _ p => ?_
      by_cases hin : [s, n] <+: e.shelf ++ p
      · obtain ⟨rfl, rfl⟩ : s = scopeName e.tenant ∧ n = e.name := by
          simpa [Edition.shelf] using hin
        rw [overlaid, if_pos hin]
        exact (hbelow e.version p).symm
      · exact overlaid_outside hin
    · intro k l hkl
      rw [hview] at hkl ⊢
      have hout : ¬ [s, n] <+: [k, l] := by
        intro hin
        simp [overlaid, hin] at hkl
      refine ⟨by rwa [overlaid_outside hout] at hkl, fun v => overlaid_outside fun hin => hout ?_, ?_⟩
      · simpa using hin
      · rintro rfl rfl
        exact absurd (List.prefix_refl _) hout
  · rw [if_neg hempty] at hremove
    refine ⟨d, tryUpdate_error hremove, htree, h, rfl, fun k l hkl => ⟨hkl, fun v => rfl, ?_⟩⟩
    rintro rfl rfl
    obtain ⟨v, hv⟩ := List.exists_mem_of_ne_nil _ hempty
    exact ⟨v, (mem_names_plugin d root k l v).1 hv⟩

/-- Whether the parts of a tag can name directories, and are not too long to be looked for. -/
structure Tag.IsSought (tag : Tag) : Prop where
  scope : IsScope tag.tenant
  name : isComponent tag.name
  scope_short : tag.tenant.utf8ByteSize ≤ maxName
  name_short : tag.name.utf8ByteSize ≤ maxName

theorem short_scopeName (h : tenant.utf8ByteSize ≤ maxName) :
    (scopeName tenant).utf8ByteSize ≤ maxName := by
  unfold scopeName
  split
  · decide
  · exact h

theorem short_of_scopeName (h : (scopeName tenant).utf8ByteSize ≤ maxName) :
    tenant.utf8ByteSize ≤ maxName := by
  unfold scopeName at h
  split at h
  · rename_i hempty
    rw [hempty]
    decide
  · exact h

theorem Neat.isDirectory_sought (h : Neat admits (d.treeAt root)) (htree : d.IsTree)
    (hsought : Tag.IsSought tag) :
    d.isDirectory (root ++ [scopeName tag.tenant, tag.name]) =
      .ok (decide (d.treeAt root [scopeName tag.tenant, tag.name] ≠ none)) := by
  rw [h.isDirectory_plugin htree
    ⟨short_scopeName hsought.scope_short, proper_scopeName hsought.scope⟩
    ⟨hsought.name_short, proper_of_isComponent hsought.name⟩]
  congr 1
  by_cases hnone : d.treeAt root [scopeName tag.tenant, tag.name] = none
  · simp [hnone]
  · rw [h.plugins _ _ hnone]
    simp

section Steps

variable {base : Path} {names chosen : List String}

/-- A plugin without a directory is not removed. -/
theorem remove_undirected (hpath : pluginPath root tag.tenant tag.name = .ok base)
    (hdir : d.isDirectory base = .ok false) :
    remove root tag d = (refuse (.pluginAbsent tag.qualifiedName), d) := by
  unfold remove
  rw [hpath]
  refine Action.lift_ok_bind.trans ?_
  rw [look_bind hdir]
  exact Action.lift_error_bind

/-- A version that is not installed is not removed. -/
theorem remove_unversioned (hpath : pluginPath root tag.tenant tag.name = .ok base)
    (hdir : d.isDirectory base = .ok true) (hnames : versionsIn d base = .ok names)
    (hversion : tag.version ≠ "") (hnot : tag.version ∉ names) :
    remove root tag d = (refuse (.versionAbsent tag.qualifiedName tag.version), d) := by
  unfold remove
  rw [hpath]
  refine Action.lift_ok_bind.trans ?_
  rw [look_bind hdir]
  dsimp only
  rw [if_neg (by simp), look_bind hnames, if_pos hversion, if_pos hnot]
  exact Action.lift_error_bind

/-- Of a plugin without versions none is removed. -/
theorem remove_emptied (hpath : pluginPath root tag.tenant tag.name = .ok base)
    (hdir : d.isDirectory base = .ok true) (hnames : versionsIn d base = .ok [])
    (hversion : tag.version = "") :
    remove root tag d = (refuse (.pluginAbsent tag.qualifiedName), d) := by
  unfold remove
  rw [hpath]
  refine Action.lift_ok_bind.trans ?_
  rw [look_bind hdir]
  dsimp only
  have hsort : Version.sort [] = .ok [] := by
    simp [Version.sort, Version.keyed, pure, Except.pure]
  rw [if_neg (by simp), look_bind hnames, if_neg (not_not.2 hversion), hsort]
  refine Action.lift_ok_bind.trans ?_
  exact Action.lift_error_bind

/-- If the versions cannot be ordered, none is removed. -/
theorem remove_unordered {e : Failure} (hpath : pluginPath root tag.tenant tag.name = .ok base)
    (hdir : d.isDirectory base = .ok true) (hnames : versionsIn d base = .ok names)
    (hversion : tag.version = "") (hsort : Version.sort names = .error e) :
    remove root tag d = (.error e, d) := by
  unfold remove
  rw [hpath]
  refine Action.lift_ok_bind.trans ?_
  rw [look_bind hdir]
  dsimp only
  rw [if_neg (by simp), look_bind hnames, if_neg (not_not.2 hversion), hsort]
  exact Action.lift_error_bind

/-- The versions that are chosen are removed, and then the plugin's directory if it is empty. -/
theorem remove_chosen (hpath : pluginPath root tag.tenant tag.name = .ok base)
    (hdir : d.isDirectory base = .ok true) (hnames : versionsIn d base = .ok names)
    (hchosen : tag.version ≠ "" ∧ tag.version ∈ names ∧ chosen = [tag.version] ∨
      tag.version = "" ∧ Version.sort names = .ok chosen ∧ chosen ≠ []) :
    remove root tag d =
      (removeVersions tag base chosen >>= fun _ => tryUpdate (·.removeDirectory base)) d := by
  unfold remove
  rw [hpath]
  refine Action.lift_ok_bind.trans ?_
  rw [look_bind hdir]
  dsimp only
  rw [if_neg (by simp), look_bind hnames]
  rcases hchosen with ⟨hversion, hmem, rfl⟩ | ⟨hversion, hsort, hne⟩
  · rw [if_pos hversion, if_neg (not_not.2 hmem)]
  · rw [if_neg (not_not.2 hversion), hsort]
    refine Action.lift_ok_bind.trans ?_
    rw [if_neg (by simpa using hne)]

end Steps

/-- Removing chosen versions takes them out of the stock, and leaves no plugin's directory empty. -/
theorem Neat.run_chosen (h : Neat admits (d.treeAt root)) (htree : d.IsTree) (tag : Tag)
    (ht : IsScope tag.tenant) (chosen : List String) (honce : chosen.Nodup)
    (hall : ∀ v, v ∈ chosen ↔ d.treeAt root [scopeName tag.tenant, tag.name, v] ≠ none ∧
      (tag.version = "" ∨ v = tag.version))
    (hbase : d.treeAt root [scopeName tag.tenant, tag.name] ≠ none) :
    ∃ d', (removeVersions tag (root ++ [scopeName tag.tenant, tag.name]) chosen >>= fun _ =>
        tryUpdate (·.removeDirectory (root ++ [scopeName tag.tenant, tag.name]))) d = (.ok (), d') ∧
      d'.IsTree ∧ Neat admits (d'.treeAt root) ∧ stock root d' = (stock root d).without tag ∧
      (Filled (d.treeAt root) → Filled (d'.treeAt root)) := by
  obtain ⟨d₁, hrun, htree₁, hneat₁, hview₁⟩ := run_removeVersions tag
    (s := scopeName tag.tenant) (n := tag.name) h htree chosen honce fun v hv => ((hall v).1 hv).1
  have hshort {p : Path} (hp : p.length < 3) : d₁.treeAt root p = d.treeAt root p := by
    rw [hview₁, cleared, if_neg]
    rintro ⟨v, -, hin⟩
    have := hin.length_le
    simp at this
    omega
  obtain ⟨d₂, htidy, htree₂, hneat₂, hstock₂, hplugins⟩ := run_tidy (s := scopeName tag.tenant)
    (n := tag.name) hneat₁ htree₁ (by rw [hshort (by simp)]; exact hbase)
  refine ⟨d₂, by rw [Action.bind_ok hrun]; exact htidy, htree₂, hneat₂, ?_, ?_⟩
  · rw [hstock₂, stock, hview₁, stockOf_cleared ht hall]
    rfl
  · intro hfilled k l hkl
    obtain ⟨hthere, hsame, hnonempty⟩ := hplugins k l hkl
    by_cases hthis : k = scopeName tag.tenant ∧ l = tag.name
    · exact hnonempty hthis.1 hthis.2
    · rw [hshort (by simp)] at hthere
      obtain ⟨v, hv⟩ := hfilled k l hthere
      refine ⟨v, ?_⟩
      rw [hsame, hview₁]
      refine cleared_ne_none.2 ⟨fun w _ hin => hthis ?_, hv⟩
      obtain ⟨hs, hn, -⟩ : scopeName tag.tenant = k ∧ tag.name = l ∧ w = v := by simpa using hin
      exact ⟨hs.symm, hn.symm⟩

/-- Removing a tag's editions: nothing is done if the plugin or the version is not there, or if all
versions are meant and they cannot be ordered. Otherwise the editions are gone from the stock, and so
is a plugin's directory that has no version left. -/
theorem Neat.remove_cases (h : Neat admits (d.treeAt root)) (htree : d.IsTree)
    (hsought : Tag.IsSought tag) :
    let there (v : String) := d.treeAt root [scopeName tag.tenant, tag.name, v] ≠ none
    (remove root tag d = (refuse (.pluginAbsent tag.qualifiedName), d) ∧ (∀ v, ¬ there v) ∧
      (tag.version = "" ∨ d.treeAt root [scopeName tag.tenant, tag.name] = none)) ∨
    (remove root tag d = (refuse (.versionAbsent tag.qualifiedName tag.version), d) ∧
      tag.version ≠ "" ∧ ¬ there tag.version ∧
      d.treeAt root [scopeName tag.tenant, tag.name] ≠ none) ∨
    ((∃ e, remove root tag d = (.error e, d)) ∧ ∃ v, there v ∧ ¬ Version.HasKey v) ∨
    ∃ d', remove root tag d = (.ok (), d') ∧ (∃ v, there v ∧ (tag.version = "" ∨ v = tag.version)) ∧
      d'.IsTree ∧ Neat admits (d'.treeAt root) ∧ stock root d' = (stock root d).without tag ∧
      (Filled (d.treeAt root) → Filled (d'.treeAt root)) := by
  intro there
  have hpath := pluginPath_eq root hsought.scope hsought.name
  have hdir := h.isDirectory_sought htree hsought
  have hmem := mem_names_plugin d root (scopeName tag.tenant) tag.name
  by_cases hbase : d.treeAt root [scopeName tag.tenant, tag.name] = none
  · simp only [hbase, ne_eq, not_true, decide_false] at hdir
    refine .inl ⟨remove_undirected hpath hdir, fun v hv => hv ?_, .inr hbase⟩
    exact h.closed.none_below hbase [v]
  simp only [hbase, ne_eq, not_false_iff, decide_true] at hdir
  have hnames := h.versionsIn_eq htree hbase
  by_cases hversion : tag.version = ""
  · by_cases hempty : d.names (root ++ [scopeName tag.tenant, tag.name]) = []
    · rw [hempty] at hnames
      refine .inl ⟨remove_emptied hpath hdir hnames hversion, fun v hv => ?_, .inl hversion⟩
      have := (hmem v).2 hv
      rw [hempty] at this
      cases this
    · rcases Version.sort_cases (d.names (root ++ [scopeName tag.tenant, tag.name])) with
        ⟨sorted, hsort, hperm⟩ | ⟨⟨e, hsort⟩, v, hv, hkey⟩
      swap
      · exact .inr (.inr (.inl ⟨⟨e, remove_unordered hpath hdir hnames hversion hsort⟩, v,
          (hmem v).1 hv, hkey⟩))
      have hne : sorted ≠ [] := by
        rintro rfl
        exact hempty (List.nil_perm.1 hperm)
      obtain ⟨v, hv⟩ := List.exists_mem_of_ne_nil _ hempty
      rw [remove_chosen hpath hdir hnames (.inr ⟨hversion, hsort, hne⟩)]
      obtain ⟨d', hrun, hrest⟩ := h.run_chosen htree tag hsought.scope sorted
        (hperm.nodup_iff.2 (htree.nodup_names _))
        (fun w => by rw [hperm.mem_iff, hmem]; simp [hversion]) hbase
      exact .inr (.inr (.inr ⟨d', hrun, ⟨v, (hmem v).1 hv, .inl hversion⟩, hrest⟩))
  · by_cases hthere : there tag.version
    · have hin := (hmem tag.version).2 hthere
      rw [remove_chosen hpath hdir hnames (.inl ⟨hversion, hin, rfl⟩)]
      obtain ⟨d', hrun, hrest⟩ := h.run_chosen htree tag hsought.scope
        [tag.version] (by simp)
        (fun w => by
          simp only [List.mem_singleton, hversion, false_or]
          exact ⟨fun hw => ⟨hw ▸ hthere, hw⟩, fun hw => hw.2⟩) hbase
      exact .inr (.inr (.inr ⟨d', hrun, ⟨_, hthere, .inr rfl⟩, hrest⟩))
    · exact .inr (.inl ⟨remove_unversioned hpath hdir hnames hversion
        (fun hin => hthere ((hmem tag.version).1 hin)), hversion, hthere, hbase⟩)

/-! ## Looking up -/

/-- A tag is looked up among the versions of its plugin, which have to be ordered if the latest one
is meant. -/
theorem Neat.find_cases (h : Neat admits (d.treeAt root)) (htree : d.IsTree)
    (hsought : Tag.IsSought tag) :
    let there (v : String) := d.treeAt root [scopeName tag.tenant, tag.name, v] ≠ none
    (find d root tag = refuse (.pluginAbsent tag.qualifiedName) ∧ ∀ v, ¬ there v) ∨
    (find d root tag = refuse (.versionAbsent tag.qualifiedName tag.version) ∧ tag.version ≠ "" ∧
      ¬ there tag.version ∧ ∃ v, there v) ∨
    ((∃ e, find d root tag = .error e) ∧ tag.version = "" ∧ ∃ v, there v ∧ ¬ Version.HasKey v) ∨
    ∃ v, find d root tag = .ok (root ++ [scopeName tag.tenant, tag.name, v]) ∧ there v ∧
      (tag.version = "" ∧ (∀ w, there w → Version.RanksOver v w) ∨
        tag.version ≠ "" ∧ v = tag.version) := by
  intro there
  have hpath := pluginPath_eq root hsought.scope hsought.name
  have hdir := h.isDirectory_sought htree hsought
  have hmem := mem_names_plugin d root (scopeName tag.tenant) tag.name
  unfold find
  rw [hpath, ok_bind, hdir, ok_bind]
  by_cases hbase : d.treeAt root [scopeName tag.tenant, tag.name] = none
  · exact .inl ⟨by simp [hbase, refuse], fun v hv => hv (h.closed.none_below hbase [v])⟩
  rw [h.versionsIn_eq htree hbase]
  simp only [hbase, ne_eq, not_false_iff, decide_true, Bool.not_true, Bool.false_eq_true, if_false,
    ok_bind]
  by_cases hempty : d.names (root ++ [scopeName tag.tenant, tag.name]) = []
  · refine .inl ⟨by rw [hempty]; rfl, fun v hv => ?_⟩
    have := (hmem v).2 hv
    rw [hempty] at this
    cases this
  rw [if_neg (by simpa using hempty)]
  obtain ⟨w, hw⟩ := List.exists_mem_of_ne_nil _ hempty
  by_cases hversion : tag.version = ""
  · rw [Version.select, if_pos hversion]
    rcases Version.latest_cases hempty with ⟨v, hlatest, hv, hranks⟩ | ⟨⟨e, hlatest⟩, v, hv, hkey⟩
    · refine .inr (.inr (.inr ⟨v, ?_, (hmem v).1 hv,
        .inl ⟨hversion, fun u hu => hranks u ((hmem u).2 hu)⟩⟩))
      rw [hlatest]
      simp [pure, Except.pure]
    · exact .inr (.inr (.inl ⟨⟨e, by rw [hlatest]; rfl⟩, hversion, v, (hmem v).1 hv, hkey⟩))
  · rw [Version.select, if_neg hversion]
    by_cases hthere : there tag.version
    · refine .inr (.inr (.inr ⟨tag.version, ?_, hthere, .inr ⟨hversion, rfl⟩⟩))
      rw [if_pos ((hmem tag.version).2 hthere)]
      simp [pure, Except.pure]
    · refine .inr (.inl ⟨?_, hversion, hthere, w, (hmem w).1 hw⟩)
      rw [if_neg fun hin => hthere ((hmem tag.version).1 hin)]
      rfl

/-- The manifest in a version's place describes the plugin in that version. -/
theorem Neat.read_eq (h : Neat admits (d.treeAt root)) (htree : d.IsTree)
    (hthere : d.treeAt root [s, n, v] ≠ none) :
    ∃ p, Manifest.read d (root ++ [s, n, v]) = .ok p ∧ p.name = n ∧ p.version = v ∧
      p.path = Path.text (root ++ [s, n, v]) := by
  obtain ⟨hdir, -, -, p, ⟨data, hdata, hread⟩, hname, hversion⟩ := h.versions s n v hthere
  have hplace : d.entry? (root ++ [s, n, v]) = some .directory := hdir
  have htop := (Manifest.read_top data (locate_self (htree.has hplace) true) hplace
    (by simpa [treeAt] using hdata)).2
  refine ⟨{ p with path := Path.text (root ++ [s, n, v]) }, ?_, hname, hversion, rfl⟩
  rw [htop, Manifest.ofData_moved hread, Path.parent, List.dropLast_concat]

/-- The plugin that is found is the one that lies there. -/
theorem Neat.plugin_eq (h : Neat admits (d.treeAt root)) (htree : d.IsTree)
    (hfind : find d root tag = .ok (root ++ [s, n, v])) (hthere : d.treeAt root [s, n, v] ≠ none) :
    ∃ p, plugin d root tag = .ok p ∧ p.name = n ∧ p.version = v ∧ p.tenant = tag.tenant ∧
      p.path = Path.text (root ++ [s, n, v]) := by
  obtain ⟨p, hread, hname, hversion, hpath⟩ := h.read_eq htree hthere
  exact ⟨{ p with tenant := tag.tenant }, by rw [plugin, hfind, ok_bind, hread]; rfl, hname, hversion,
    rfl, hpath⟩

end Hub

end AppBroker
