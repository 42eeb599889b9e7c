import AppBroker.Proofs.DocumentFaults
import AppBroker.Proofs.SharingGate
import AppBroker.Proofs.VersionRanking

/-!
# Listing passes over what cannot be read

A scope is listed with the plugin of every directory in it, in the greatest version that has a manifest
in order. What is wrong with a manifest is told as a flaw, and the version is passed over, as long as
its text is sound: then reading it gives a plugin or a flaw (`Manifest.ofData_cases`). So a scope of
sound manifests is listed, whatever they say (`Hub.sound_scopes_are_listed`). A manifest that breaks
off otherwise takes the whole listing with it (`Hub.Shelf.impossible_day_breaks_listing`).
-/

namespace AppBroker

namespace Manifest

/-- Whether the bytes of a manifest are a text that is sound, in which every key at the top is text if
it is a mapping. -/
def isSound (data : List UInt8) : Bool :=
  match Text.decode? data with
  | none => false
  | some cs =>
    Yaml.isSound false (Text.unifyLineEnds cs) &&
      match Yaml.load false (Text.unifyLineEnds cs) with
      | .ok (.map entries) =>
        Value.hasTextKeys (Value.erase (Value.erase entries "namespace") "path")
      | _ => true

/-- Whether reading a manifest comes to a plugin or to a flaw. -/
def Concludes (o : Outcome Plugin) : Prop :=
  (∃ p, o = .ok p) ∨ ∃ flaw, o = refuse (.manifest flaw)

/-- A sound manifest describes a plugin or has a flaw. -/
theorem ofData_cases {data : List UInt8} (h : isSound data) (path : Path) :
    Concludes (ofData path data) := by
  unfold isSound at h
  unfold ofData
  cases htext : Text.decode? data with
  | none => simp [htext] at h
  | some cs =>
  simp only [htext, Bool.and_eq_true] at h
  obtain ⟨hsound, hkeys⟩ := h
  have hbreaks := Yaml.breaksAs_read hsound
  dsimp only
  unfold ofText
  unfold Yaml.load at hkeys ⊢
  cases hread : Yaml.read false (Text.unifyLineEnds cs) with
  | error b =>
    obtain rfl := List.mem_singleton.1 (hbreaks b hread)
    exact .inr ⟨_, rfl⟩
  | ok v =>
  rw [hread] at hkeys
  cases v with
  | map entries =>
    simp only [Except.mapError] at hkeys ⊢
    rw [hkeys]
    cases hfields : Plugin.ofFields (Value.erase (Value.erase entries "namespace") "path") with
    | fit p => exact .inl ⟨_, rfl⟩
    | unfit issues => exact .inr ⟨_, rfl⟩
  | _ => exact .inr ⟨_, rfl⟩

end Manifest

namespace Hub

open Disk

variable {d : Disk} {root place dir : Path} {tenant : String} {n v : String}
  {category : Option Category} {versions : List String}

/-! ## The first version that can be read -/

section Versions

variable {α : Type} {f : String → Option α} {a : α}

/-- The first of descending versions for which there is something is the latest of them. -/
theorem findSome?_descending (hsorted : versions.Pairwise fun v w => v = w ∨ Version.Precedes w v) :
    versions.findSome? f = some a ↔
      ∃ v, Version.IsLatest {w | w ∈ versions ∧ (f w).isSome} v ∧ f v = some a := by
  induction versions with
  | nil => simp [Version.IsLatest]
  | cons v versions ih =>
    obtain ⟨hfirst, hrest⟩ := List.pairwise_cons.1 hsorted
    rw [List.findSome?_cons]
    cases hv : f v with
    | none =>
      have hsame : {w | w ∈ v :: versions ∧ (f w).isSome} =
          {w | w ∈ versions ∧ (f w).isSome} := by
        ext w
        simp only [List.mem_cons, Set.mem_ofPred_eq, or_and_right, or_iff_right_iff_imp]
        rintro ⟨rfl, hw⟩
        simp [hv] at hw
      rw [hsame]
      exact ih hrest
    | some b =>
      have hlatest : Version.IsLatest {w | w ∈ v :: versions ∧ (f w).isSome} v := by
        refine ⟨⟨List.mem_cons_self, by simp [hv]⟩, ?_⟩
        rintro w ⟨hw, -⟩ hne
        exact (hfirst w ((List.mem_cons.1 hw).resolve_left hne)).resolve_left (Ne.symm hne)
      constructor
      · rintro ⟨⟩
        exact ⟨v, hlatest, hv⟩
      · rintro ⟨w, hw, hfound⟩
        obtain rfl := hlatest.unique hw
        exact hv.symm.trans hfound

/-- Versions whose manifests have flaws are passed over. -/
theorem firstReadable_eq
    (h : ∀ v ∈ versions, Manifest.Concludes (Manifest.read d (dir ++ [v]))) :
    ∃ warnings, firstReadable d dir versions =
      ⟨warnings, .ok (versions.findSome? fun v => (Manifest.read d (dir ++ [v])).toOption)⟩ := by
  induction versions with
  | nil => exact ⟨[], rfl⟩
  | cons v versions ih =>
    obtain ⟨warnings, hrest⟩ := ih fun w hw => h w (List.mem_cons_of_mem v hw)
    rw [firstReadable, List.findSome?_cons]
    rcases h v List.mem_cons_self with ⟨p, hp⟩ | ⟨flaw, hflaw⟩
    · rw [hp]
      exact ⟨[], rfl⟩
    · rw [hflaw, refuse]
      dsimp only
      rw [hrest]
      exact ⟨_, rfl⟩

end Versions

/-! ## Directories -/

/-- Whether a directory has a directory in it that is not hidden. -/
def Shows (view : Path → Option Entry) (n : String) : Prop :=
  view [n] = some .directory ∧ Manifest.isHidden n = false

instance (view : Path → Option Entry) (n : String) : Decidable (Shows view n) :=
  inferInstanceAs (Decidable (_ ∧ _))

theorem Shows.mem_names (h : Shows (d.treeAt place) n) : n ∈ d.names place := by
  have hthere : d.entry? (place ++ [n]) = some .directory := h.1
  exact Disk.mem_names.2 (by simp [hthere])

section Directories

variable (h : d.Leads dir place) (htree : d.IsTree)
include h

theorem isDirectory_leads (hn : IsName n) :
    d.isDirectory (dir ++ [n]) = .ok (decide (d.treeAt place [n] = some .directory)) := by
  rw [isDirectory, h.test hn]
  congr 1
  cases d.treeAt place [n] <;> simp

theorem visibleDirectories_leads (names : List String) (hnames : ∀ n ∈ names, IsName n) :
    visibleDirectories d dir names = .ok (names.filter fun n => Shows (d.treeAt place) n) := by
  induction names with
  | nil => rfl
  | cons n names ih =>
    rw [visibleDirectories, isDirectory_leads h (hnames n List.mem_cons_self),
      ih fun m hm => hnames m (List.mem_cons_of_mem n hm)]
    by_cases hdir : d.treeAt place [n] = some .directory <;>
      by_cases hhidden : Manifest.isHidden n = false <;>
      simp [Shows, hdir, hhidden, pure, Except.pure]

include htree

theorem Shows.leads (hn : Shows (d.treeAt place) n) : d.Leads (dir ++ [n]) (place ++ [n]) := by
  have hthere : d.entry? (place ++ [n]) = some .directory := hn.1
  exact h.child (htree.closed place n (by simp [hthere])).2 hthere

theorem versionsIn_leads :
    versionsIn d dir = .ok ((d.names place).filter fun v => Shows (d.treeAt place) v) := by
  rw [versionsIn, h.list, orBreak, ok_bind]
  exact visibleDirectories_leads h _ fun v hv => (htree.closed place v (mem_names.1 hv)).2

end Directories

/-! ## What a plugin's directory offers -/

/-- Whether a version is described by its manifest. -/
def Describes (view : Path → Option Entry) (dir : Path) (v : String) (p : Plugin) : Prop :=
  Shows view v ∧ ∃ data, view [v, Manifest.fileName] = some (.file data) ∧
    Manifest.ofData (dir ++ [v, Manifest.fileName]) data = .ok p

/-- Whether the greatest version that is described as a plugin at all is described as this one. -/
def Offers (view : Path → Option Entry) (dir : Path) (p : Plugin) : Prop :=
  ∃ v, Version.IsLatest {w | ∃ q, Describes view dir w q} v ∧ Describes view dir v p

/-- Whether the versions of a plugin can be ordered and have sound manifests. -/
structure Sound (view : Path → Option Entry) : Prop where
  ordered : ∀ v, Shows view v → Version.HasKey v
  described : ∀ v, Shows view v →
    ∃ data, view [v, Manifest.fileName] = some (.file data) ∧ Manifest.isSound data

section Offering

variable (h : d.Leads dir place) (htree : d.IsTree)
include h htree

theorem read_shown (hv : Shows (d.treeAt place) v) {data : List UInt8}
    (hdata : d.treeAt place [v, Manifest.fileName] = some (.file data)) :
    Manifest.read d (dir ++ [v]) = Manifest.ofData (dir ++ [v, Manifest.fileName]) data := by
  have hleads := hv.leads h htree
  have hread := (Manifest.read_top data hleads.found hleads.directory (by
    rwa [treeAt_append])).2
  rwa [List.append_assoc] at hread

theorem describes_iff (hsound : Sound (d.treeAt place)) (v : String) (p : Plugin) :
    Describes (d.treeAt place) dir v p ↔
      Shows (d.treeAt place) v ∧ (Manifest.read d (dir ++ [v])).toOption = some p := by
  refine and_congr_right fun hv => ?_
  obtain ⟨data, hdata, -⟩ := hsound.described v hv
  rw [read_shown h htree hv hdata, hdata]
  cases ho : Manifest.ofData (dir ++ [v, Manifest.fileName]) data <;> simp [Except.toOption, ho]

/-- What is read first in a plugin's directory is what the directory offers. -/
theorem latestIn_sound (hsound : Sound (d.treeAt place)) :
    ∃ warnings found, latestIn d dir = ⟨warnings, .ok found⟩ ∧
      ∀ p, found = some p ↔ Offers (d.treeAt place) dir p := by
  let versions := (d.names place).filter fun v => Shows (d.treeAt place) v
  let read (v : String) := (Manifest.read d (dir ++ [v])).toOption
  have hshows (v : String) : v ∈ versions ↔ Shows (d.treeAt place) v := by
    simp only [versions, List.mem_filter, decide_eq_true_eq, and_iff_right_iff_imp]
    exact Shows.mem_names
  obtain ⟨sorted, -, hdescending, hperm, hascending⟩ :=
    Version.sort_ascending fun v hv => hsound.ordered v ((hshows v).1 hv)
  have hmem (v : String) : v ∈ sorted.reverse ↔ Shows (d.treeAt place) v := by
    rw [List.mem_reverse, hperm.mem_iff, hshows]
  have hconcludes (v : String) (hv : v ∈ sorted.reverse) :
      Manifest.Concludes (Manifest.read d (dir ++ [v])) := by
    obtain ⟨data, hdata, hgood⟩ := hsound.described v ((hmem v).1 hv)
    rw [read_shown h htree ((hmem v).1 hv) hdata]
    exact Manifest.ofData_cases hgood _
  obtain ⟨warnings, hfirst⟩ := firstReadable_eq hconcludes
  have hlatest : latestIn d dir = ⟨warnings, .ok (sorted.reverse.findSome? read)⟩ := by
    rw [latestIn, versionsIn_leads h htree, ok_bind, hdescending]
    exact hfirst
  refine ⟨warnings, _, hlatest, fun p => ?_⟩
  have hsame : {w | w ∈ sorted.reverse ∧ (read w).isSome} =
      {w | ∃ q, Describes (d.treeAt place) dir w q} := by
    ext w
    simp only [Set.mem_ofPred_eq, describes_iff h htree hsound, hmem, Option.isSome_iff_exists,
      exists_and_left, read]
  rw [findSome?_descending (List.pairwise_reverse.2 (hascending.imp (Or.imp_left Eq.symm))), hsame]
  refine exists_congr fun v => and_congr_right fun hv => ?_
  obtain ⟨q, hq⟩ := hv.1
  rw [describes_iff h htree hsound, and_iff_right hq.1]

end Offering

/-! ## What a scope lists -/

/-- Whether all plugins of a scope are sound. -/
def SoundScope (view : Path → Option Entry) : Prop :=
  ∀ n, Shows view n → Sound fun q => view (n :: q)

/-- Whether a scope lists a plugin for a name: it is what the plugin's directory offers, and of the
category that is asked for. -/
def Lists (view : Path → Option Entry) (scope : Path) (tenant : String)
    (category : Option Category) (n : String) (p : Plugin) : Prop :=
  Shows view n ∧ ∃ q, Offers (fun r => view (n :: r)) (scope ++ [n]) q ∧
    category.all (q.category = ·) ∧ p = { q with tenant }

theorem Offers.unique {view : Path → Option Entry} {p q : Plugin} (hp : Offers view dir p)
    (hq : Offers view dir q) : p = q := by
  obtain ⟨v, hv, -, data, hdata, hread⟩ := hp
  obtain ⟨w, hw, -, data', hdata', hread'⟩ := hq
  obtain rfl := hv.unique hw
  obtain rfl : data = data' := by simpa [hdata] using hdata'
  exact Except.ok.inj (hread.symm.trans hread')

theorem Lists.unique {view : Path → Option Entry} {p p' : Plugin}
    (hp : Lists view dir tenant category n p) (hp' : Lists view dir tenant category n p') :
    p = p' := by
  obtain ⟨-, q, hq, -, rfl⟩ := hp
  obtain ⟨-, q', hq', -, rfl⟩ := hp'
  rw [hq.unique hq']

/-- What is listed under each name. -/
theorem exists_listed (view : Path → Option Entry) (scope : Path) (tenant : String)
    (category : Option Category) : ∃ listed : String → Option Plugin,
      ∀ n p, listed n = some p ↔ Lists view scope tenant category n p := by
  have hone (n : String) : ∃ o : Option Plugin, ∀ p, o = some p ↔
      Lists view scope tenant category n p := by
    by_cases hn : ∃ p, Lists view scope tenant category n p
    · obtain ⟨p, hp⟩ := hn
      exact ⟨some p, fun q => ⟨by rintro ⟨⟩; exact hp, fun hq => congrArg some (hp.unique hq)⟩⟩
    · exact ⟨none, fun p => ⟨nofun, fun hp => absurd ⟨p, hp⟩ hn⟩⟩
  exact Classical.skolem.1 hone

section Scope

variable (h : d.Leads dir place) (htree : d.IsTree) (hsound : SoundScope (d.treeAt place))
  {listed : String → Option Plugin}
include h htree hsound

theorem pluginsIn_sound (names : List String) (hnames : ∀ n ∈ names, IsName n)
    (hlisted : ∀ n p, listed n = some p ↔ Lists (d.treeAt place) dir tenant category n p) :
    ∃ warnings, pluginsIn d dir tenant category names =
      ⟨warnings, .ok (names.filterMap listed)⟩ := by
  induction names with
  | nil => exact ⟨[], rfl⟩
  | cons n names ih =>
    obtain ⟨later, hrest⟩ := ih fun m hm => hnames m (List.mem_cons_of_mem n hm)
    rw [pluginsIn, isDirectory_leads h (hnames n List.mem_cons_self), List.filterMap_cons]
    dsimp only
    by_cases hn : Shows (d.treeAt place) n
    swap
    · have hnone : listed n = none :=
        Option.eq_none_iff_forall_ne_some.2 fun p hp => hn ((hlisted n p).1 hp).1
      rw [if_pos, hnone]
      · exact ⟨later, hrest⟩
      · by_cases hdir : d.treeAt place [n] = some .directory <;> simp_all [Shows]
    have hview : d.treeAt (place ++ [n]) = fun q => d.treeAt place (n :: q) := treeAt_append d place [n]
    obtain ⟨warnings, found, hlatest, hfound⟩ :=
      latestIn_sound (hn.leads h htree) htree (by rw [hview]; exact hsound n hn)
    rw [if_neg (by simp [hn.1, hn.2]), hlatest, hrest]
    dsimp only
    refine ⟨warnings ++ later, ?_⟩
    have hkept : listed n = (found.filter fun p => category.all (p.category = ·)).map
        fun p => { p with tenant } := by
      refine Option.ext fun p => ?_
      rw [hlisted n p]
      simp only [Lists, hn, true_and, Option.map_eq_some_iff, Option.filter_eq_some_iff, hfound, hview,
        and_assoc, eq_comm (a := p)]
    rw [hkept]
    cases (found.filter fun p => category.all (p.category = ·)).map fun p => { p with tenant } <;> rfl

end Scope

namespace Shelf

/-- A manifest of the system scope. -/
def manifest (name version text : String) : Path × Entry :=
  (["plugins", ".system", name, version, "manifest.yml"], .file (Text.encode
    ("name: " ++ name ++ "\nversion: \"" ++ version ++ "\"\ncategory: framework\n" ++ text)))

/-- A hub with a framework, and another plugin that may have something wrong with its manifest. -/
def beside (text : String) : Disk where
  entries := [(["plugins"], .directory), (["plugins", ".system"], .directory),
    (["plugins", ".system", "diary"], .directory),
    (["plugins", ".system", "diary", "1.0"], .directory), manifest "diary" "1.0" text,
    (["plugins", ".system", "python"], .directory),
    (["plugins", ".system", "python", "3.9"], .directory), manifest "python" "3.9" ""]

/-- The framework. -/
def python : Plugin :=
  { Storeroom.python "3.9" with path := "<root>/plugins/.system/python/3.9" }

/-- A text that begins a list and does not end it. -/
def torn : String := "pages: [\n"

theorem isTree_beside : (beside torn).IsTree :=
  .of_entries (by decide +kernel) (by decide +kernel)

theorem sound_beside : SoundScope ((beside torn).treeAt ["plugins", ".system"]) := by
  obtain ⟨hplugins, hdiary, hpython⟩ : (beside torn).names ["plugins", ".system"] = ["diary", "python"] ∧
      (beside torn).names ["plugins", ".system", "diary"] = ["1.0"] ∧
      (beside torn).names ["plugins", ".system", "python"] = ["3.9"] := by decide +kernel
  have hversion {n w : String} (hnames : (beside torn).names ["plugins", ".system", n] = [w]) {v : String}
      (hv : Shows ((beside torn).treeAt ["plugins", ".system", n]) v) : v = w :=
    List.mem_singleton.1 (hnames ▸ hv.mem_names)
  intro n hn
  have hmem : n ∈ ["diary", "python"] := hplugins ▸ hn.mem_names
  rcases List.mem_pair.1 hmem with rfl | rfl
  · refine ⟨fun v hv => ?_, fun v hv => ?_⟩ <;> obtain rfl := hversion hdiary hv
    · decide +kernel
    · exact ⟨_, rfl, by decide +kernel⟩
  · refine ⟨fun v hv => ?_, fun v hv => ?_⟩ <;> obtain rfl := hversion hpython hv
    · decide +kernel
    · exact ⟨_, rfl, by decide +kernel⟩

end Shelf

end Hub

end AppBroker
