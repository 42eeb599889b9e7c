import AppBroker.Proofs.HubInstall
import Mathlib.Data.Set.Finite.List

/-!
# A hub is a map of editions

A hub that starts empty and is changed by installations and removals only (`Reached`) is a finite
map from scope, name and version to what lies in the edition's directory, and each operation on
directories is the operation on the map that one would expect (`KeepsStock`): installing sets one
entry, removing takes away the entries that the tag names, looking up finds the entry that the tag
names, and all of them fail without any change. One step keeps the hub neat (`Neat.install_cases`,
`Neat.remove_spec`), so every history does (`Reached.neat`). What a tag comes to is said by the map
alone (`Stock.verdict`), save that a removal takes the directory which a failed installation left
behind for a plugin without the version.
-/

namespace AppBroker

namespace Action

theorem followedBy_of {σ α : Type} {m : Action σ α} {last : Action σ Unit} {s s₁ s₂ : σ}
    {o : Outcome α} (h : m s = (o, s₁)) (hlast : last s₁ = (.ok (), s₂)) :
    m.followedBy last s = (o, s₂) := by
  simp only [followedBy, h, hlast]

end Action

namespace Hub

open Disk

variable {admits : String → Prop} {d d' : Disk} {root source place : Path} {tenant : String}
  {p : Plugin} {tag : Tag}

/-- Whether a path leads to a directory that is not part of a hub and has no part of it. -/
structure IsSource (d : Disk) (root source place : Path) : Prop extends d.Leads source place where
  outside : ¬ root <+: place
  around : ¬ place <+: root

/-- A source is there still when an installation has started. -/
theorem IsSource.leads_more (h : IsSource d root source place)
    (hmore : ∀ q e, d.entry? q = some e → d'.entry? q = some e)
    (hsame : ∀ q, ¬ root <+: q → d'.entry? q = d.entry? q) (q : Path) :
    d'.treeAt (place ++ q) = d.treeAt (place ++ q) ∧ d'.Leads source place := by
  have htree (q : Path) : d'.entry? (place ++ q) = d.entry? (place ++ q) := by
    refine hsame _ fun hin => ?_
    rcases List.prefix_or_prefix_of_prefix hin (List.prefix_append place q) with hle | hle
    · exact h.outside hle
    · exact h.around hle
  refine ⟨?_, locate_more hmore h.found (by simp [h.directory]), hmore _ _ h.directory, ?_⟩
  · funext r
    unfold treeAt
    rw [List.append_assoc]
    exact htree (q ++ r)
  · intro r target
    rw [treeAt, htree]
    exact h.linkless r target

theorem install_eq {d₁ d₂ : Disk} (hsource : d.exists? source = .ok true) (ht : IsScope tenant)
    (hmade : d.isDirectory (stagingPath root).parent = .ok false ∧
        d.makeDirectory (stagingPath root).parent = .ok d₁ ∨
      d.isDirectory (stagingPath root).parent = .ok true ∧ d₁ = d)
    (hwork : d₁.makeDirectory (stagingPath root) = .ok d₂) :
    install root tenant source d =
      (Action.followedBy (stage (stagingPath root) source >>= fun _ =>
        Hub.place root (stagingPath root) tenant) (tryUpdate (·.removeTree (stagingPath root)))) d₂ := by
  unfold install
  dsimp only
  rw [look_bind hsource, if_neg (by simp), scopePath_eq ht]
  refine Action.lift_ok_bind.trans ?_
  rcases hmade with ⟨hdir, hmake⟩ | ⟨hdir, rfl⟩
  · rw [look_bind hdir, if_pos (by rfl), update_bind hmake, update_bind hwork]
  · rw [look_bind hdir, if_neg (by simp), update_bind hwork]

/-- Nothing is done where there is no source. -/
theorem install_nowhere (h : d.exists? source ≠ .ok true) :
    ∃ e, install root tenant source d = (.error e, d) := by
  unfold install
  dsimp only
  cases hexists : d.exists? source with
  | error e => exact ⟨e, look_bind_error hexists⟩
  | ok there =>
    cases there with
    | true => exact absurd hexists h
    | false =>
      refine ⟨.refusal (.manifest (.noSource source.text)), ?_⟩
      rw [look_bind hexists, if_pos (by rfl)]
      rfl

/-- Nothing is done for what is no scope. -/
theorem install_refused (h : d.exists? source = .ok true) (ht : ¬ IsScope tenant) :
    ∃ e, install root tenant source d = (.error e, d) := by
  refine ⟨.refusal (.invalid (.component "namespace" tenant)), ?_⟩
  unfold install
  dsimp only
  rw [look_bind h, if_neg (by simp), scopePath_refused ht]
  exact Action.lift_error_bind

/-- Whether an edition can be in stock: its parts name directories. -/
def Edition.IsFit (e : Edition) : Prop := e.IsValid ∧ e.IsNamed

/-- An installation gives the plugin of the source, and puts its payload in stock. Or it fails,
because no manifest can be read or what it names is no place in the hub, and changes no edition. -/
theorem Neat.install_cases (h : Neat admits (d.treeAt root)) (tenant : String) (htree : d.IsTree)
    (hsource : IsSource d root source place)
    (hadmits : ∀ p, Manifest.read d source = .ok p → admits p.version) :
    ∃ d', d'.IsTree ∧ Neat admits (d'.treeAt root) ∧
      ((∀ v, admits v → IsName v) → Filled (d.treeAt root) → Filled (d'.treeAt root)) ∧
      ((∃ p, Manifest.read d source = .ok p ∧ (editionOf tenant p).IsFit ∧
          install root tenant source d =
            (.ok { p with tenant, path := Path.text (root ++ (editionOf tenant p).shelf) }, d') ∧
          ∃ manifest seat, Manifest.find d source = .ok manifest ∧
            d.locate manifest.parent = .ok seat ∧ stock root d' =
              Function.update (stock root d) (editionOf tenant p) (some (d.treeAt seat))) ∨
        ((∀ p, Manifest.read d source = .ok p → ¬ (editionOf tenant p).IsFit) ∧
          (∃ e, install root tenant source d = (.error e, d')) ∧ stock root d' = stock root d)) := by
  have hexists : d.exists? source = .ok true := hsource.test_self _
  by_cases ht : IsScope tenant
  swap
  · refine ⟨d, htree, h, fun _ hf => hf, .inr ⟨fun p _ hfit => ht hfit.1.1,
      ⟨.refusal (.invalid (.component "namespace" tenant)), ?_⟩, rfl⟩⟩
    unfold install
    dsimp only
    rw [look_bind hexists, if_neg (by simp), scopePath_refused ht]
    exact Action.lift_error_bind
  obtain ⟨d₁, d₂, hmade, hwork, hat, hempty, hmore, hsame, hnames⟩ := AtWork.start h htree
  rw [install_eq hexists ht hmade hwork]
  have hleads := (hsource.leads_more hmore hsame []).2
  have hfind : Manifest.find d₂ source = Manifest.find d source := by
    refine Manifest.find_congr htree hsource.toLeads hleads ?_ (hnames _ hsource.outside)
    simpa using (hsource.leads_more hmore hsame []).1
  rcases hat.run_stage (hempty _) hleads ⟨hsource.outside, hsource.around⟩ with
    ⟨e, hnone, hstage⟩ | ⟨way, data, d₃, hway, hfound, hdata, hstage, hat₃, hview₃⟩
  · -- No manifest: only the staging directory came and went.
    obtain ⟨d', hclean, htree', hview'⟩ := hat.finish
    refine ⟨d', htree', hview' ▸ h.opened, fun _ hf => hview' ▸ hf.opened, .inr ⟨?_, ⟨e, ?_⟩, ?_⟩⟩
    · intro p hp
      rw [hfind] at hnone
      rw [Manifest.read, hnone] at hp
      cases hp
    · exact Action.followedBy_of (Action.bind_error hstage) hclean
    · rw [stock, hview', stockOf_opened]
      rfl
  have hpayload : (fun q => d₃.treeAt root ([stagingName, workName, payloadName] ++ q)) =
      d.treeAt (place ++ way) := by
    funext q
    rw [hview₃, overlaid_inside, (hsource.leads_more hmore hsame way).1]
  have hseat : d.treeAt (place ++ way) [] = some .directory := by
    rw [← (hsource.leads_more hmore hsame way).1, treeAt, List.append_nil]
    exact hway.directory
  rw [(hsource.leads_more hmore hsame way).1] at hdata
  obtain ⟨hlocate, hread⟩ : d.locate (source ++ way) = .ok (place ++ way) ∧
      Manifest.read d source = Manifest.ofData (source ++ way ++ [Manifest.fileName]) data := by
    rw [hfind] at hfound
    rcases Manifest.read_cases htree hsource.toLeads with ⟨way', data', hway', hdata', hfound', hread'⟩ |
      ⟨e, hnone, -⟩
    · rw [hfound] at hfound'
      obtain rfl : way = way' := by simpa using hfound'
      rw [hdata] at hdata'
      cases hdata'
      exact ⟨hway'.found, hread'⟩
    · rw [hfound] at hnone
      cases hnone
  have htop₃ : d₃.treeAt root [stagingName, workName, payloadName] = some .directory := by
    rw [← hseat]
    exact congrFun hpayload []
  have hdata₃ : d₃.treeAt root [stagingName, workName, payloadName, Manifest.fileName] =
      some (.file data) := by
    rw [← hdata]
    exact congrFun hpayload [Manifest.fileName]
  have hprevious₃ : d₃.treeAt root [stagingName, workName, "previous"] = none := by
    rw [hview₃, overlaid_outside (by simp [payloadName])]
    exact hempty _
  by_cases hnames : ∃ p, Manifest.ofData [] data = .ok p ∧ (editionOf tenant p).IsValid
  swap
  · -- The manifest cannot be read, or it names no place.
    have hplace₃ : d₃.entry? (stagingPath root ++ [payloadName]) = some .directory := by
      rw [stagingPath_append]
      exact htop₃
    obtain ⟨e, hrefused⟩ := place_refused
      (Manifest.read_top data (locate_self (hat₃.tree.has hplace₃) true) hplace₃ (by
        rw [← hdata₃, stagingPath_append]
        simp [treeAt])).2 ht (fun p hp hvalid => hnames ⟨p, hp, hvalid⟩)
    obtain ⟨d', hclean, htree', hview'⟩ := hat₃.finish
    refine ⟨d', htree', hview' ▸ h.opened, fun _ hf => hview' ▸ hf.opened, .inr ⟨?_, ⟨e, ?_⟩, ?_⟩⟩
    · intro p hp hfit
      rw [hread] at hp
      exact hnames ⟨_, Manifest.ofData_moved hp [], hfit.1⟩
    · exact Action.followedBy_of ((Action.bind_ok hstage).trans hrefused) hclean
    · rw [stock, hview', stockOf_opened]
      rfl
  obtain ⟨p, hp, hvalid⟩ := hnames
  have hread' := hread.trans (Manifest.ofData_moved hp _)
  have hadmitted := hadmits _ hread'
  rcases hat₃.place_cases h.opened htop₃ hdata₃ hprevious₃ hp hvalid with
    ⟨hnamed, d₄, hplaced, hat₄⟩ | ⟨hnot, e, d₄, hplaced, hat₄⟩
  · -- The payload is in its place.
    rw [hpayload] at hat₄
    obtain ⟨d', hclean, htree', hview'⟩ := hat₄.finish
    have hs : IsName (scopeName tenant) := hnamed _ (by simp [Edition.shelf, editionOf])
    have hn : IsName p.name := hnamed _ (by simp [Edition.shelf, editionOf])
    have hv : IsName p.version := hnamed _ (by simp [Edition.shelf, editionOf])
    refine ⟨d', htree', ?_, fun _ hf => ?_, .inl ⟨_, hread', ⟨hvalid, hnamed⟩, ?_, _, place ++ way,
      hfind ▸ hfound, ?_, ?_⟩⟩
    · rw [hview']
      exact (h.opened.based hs hn (scopeName_ne_staging ht)).stocked (if_pos (.inr rfl)) hv hvalid.2.2
        hadmitted (htree.closed.treeAt _) hseat ⟨data, hdata, hp⟩ rfl rfl
    · rw [hview']
      exact hf.opened.stocked hseat
    · exact Action.followedBy_of ((Action.bind_ok hstage).trans hplaced) hclean
    · rw [Path.parent, List.dropLast_concat]
      exact hlocate
    · rw [stock, hview', stockOf_stocked hvalid hseat, stockOf_based, stockOf_opened]
      rfl
  · -- The names cannot be those of directories.
    obtain ⟨view', hat', hneat', hfilled', hstock'⟩ : ∃ view', AtWork root view' d₄ ∧
        Neat admits view' ∧ ((∀ v, admits v → IsName v) → Filled (d.treeAt root) → Filled view') ∧
        stockOf view' = stock root d := by
      rcases hat₄ with hat₄ | ⟨hv, hs, hn, hat₄⟩
      · exact ⟨_, hat₄, h.opened, fun _ hf => hf.opened, stockOf_opened _⟩
      · refine ⟨_, hat₄, h.opened.based hs hn (scopeName_ne_staging ht),
          fun hall => absurd (hall _ hadmitted) hv, ?_⟩
        rw [stockOf_based, stockOf_opened]
        rfl
    obtain ⟨d', hclean, htree', rfl⟩ := hat'.finish
    refine ⟨d', htree', hneat', hfilled', .inr ⟨?_, ⟨e, ?_⟩, hstock'⟩⟩
    · intro q hq hfit
      rw [hread'] at hq
      cases hq
      exact hnot hfit.2
    · exact Action.followedBy_of ((Action.bind_ok hstage).trans hplaced) hclean

/-! ## Hubs that come about -/

/-- A hub that starts empty and is changed by installations and removals only. Between them other
places of the disk may change in any way. What is installed comes from directories, in versions that
can be ordered and that are admitted. -/
inductive Reached (root : Path) (admits : String → Prop) : Disk → Prop
  | new {d : Disk} : d.IsTree → d.entry? root = some .directory →
      (∀ q, q ≠ [] → d.treeAt root q = none) → Reached root admits d
  | edited {d d' : Disk} : Reached root admits d → d'.IsTree → d'.treeAt root = d.treeAt root →
      Reached root admits d'
  | installed {d : Disk} {source place : Path} (tenant : String) : Reached root admits d →
      IsSource d root source place →
      (∀ p, Manifest.read d source = .ok p → admits p.version) →
      Reached root admits (install root tenant source d).2
  | removed {d : Disk} (tag : Tag) : Reached root admits d → Reached root admits (remove root tag d).2

theorem neat_new (htree : d.IsTree) (hroot : d.entry? root = some .directory)
    (hempty : ∀ q, q ≠ [] → d.treeAt root q = none) :
    Neat admits (d.treeAt root) ∧ Filled (d.treeAt root) where
  left :=
    { closed := htree.closed.treeAt root
      home := by simpa [treeAt] using hroot
      staged := fun n => hempty _ (by simp)
      scopes := fun s hs => absurd (hempty _ (by simp)) hs
      plugins := fun s n hs => absurd (hempty _ (by simp)) hs
      versions := fun s n v hs => absurd (hempty _ (by simp)) hs }
  right := fun s n hs => absurd (hempty _ (by simp)) hs

theorem short_of_isDirectory {q : Path} (h : d.isDirectory q = .ok true) :
    ∀ n ∈ q, n.utf8ByteSize ≤ maxName := by
  unfold isDirectory test stat locate at h
  split at h
  · rename_i e he
    split at he
    · cases he
    · cases hwalk : d.walk true (q.length + 1000) [] q with
      | error fault => rw [hwalk] at he; cases he
      | ok place => exact walk_short hwalk
  · split at h <;> cases h

/-- An empty hub has nothing in stock. -/
theorem stock_new (hempty : ∀ q, q ≠ [] → d.treeAt root q = none) : stock root d = fun _ => none := by
  funext e
  rw [stock, stockOf, hempty e.shelf (by simp [Edition.shelf])]
  simp

theorem remove_undone {base : Path} (hpath : pluginPath root tag.tenant tag.name = .ok base)
    (hdir : d.isDirectory base ≠ .ok true) :
    ∃ e, remove root tag d = (.error e, d) := by
  cases hd : d.isDirectory base with
  | error e =>
    refine ⟨e, ?_⟩
    unfold remove
    rw [hpath]
    refine Action.lift_ok_bind.trans ?_
    exact look_bind_error hd
  | ok isDirectory =>
    cases isDirectory with
    | true => exact absurd hd hdir
    | false => exact ⟨_, remove_undirected hpath hd⟩

/-! ## What a tag comes to -/

/-- What the stock says of a tag: its parts must be able to name directories, its plugin must be in
stock, and so must the version that it asks for, if any. -/
noncomputable def Stock.verdict (stock : Stock) (tag : Tag) : Outcome Unit :=
  open Classical in
  if ¬ IsScope tag.tenant then refuse (.invalid (.component "namespace" tag.tenant))
  else if ¬ isComponent tag.name then refuse (.invalid (.component "plugin name" tag.name))
  else if ∀ v, stock ⟨tag.tenant, tag.name, v⟩ = none then refuse (.pluginAbsent tag.qualifiedName)
  else if tag.version ≠ "" ∧ stock ⟨tag.tenant, tag.name, tag.version⟩ = none then
    refuse (.versionAbsent tag.qualifiedName tag.version)
  else .ok ()

variable {stocked : Stock}

theorem verdict_absent (ht : IsScope tag.tenant) (hn : isComponent tag.name)
    (h : ∀ v, stocked ⟨tag.tenant, tag.name, v⟩ = none) :
    stocked.verdict tag = refuse (.pluginAbsent tag.qualifiedName) := by
  rw [Stock.verdict, if_neg (not_not.2 ht), if_neg (not_not.2 hn), if_pos h]

theorem verdict_unversioned (ht : IsScope tag.tenant) (hn : isComponent tag.name) {v : String}
    (h : stocked ⟨tag.tenant, tag.name, v⟩ ≠ none) (hversion : tag.version ≠ "")
    (hnone : stocked ⟨tag.tenant, tag.name, tag.version⟩ = none) :
    stocked.verdict tag = refuse (.versionAbsent tag.qualifiedName tag.version) := by
  rw [Stock.verdict, if_neg (not_not.2 ht), if_neg (not_not.2 hn), if_neg fun hall => h (hall v),
    if_pos ⟨hversion, hnone⟩]

theorem verdict_ok (ht : IsScope tag.tenant) (hn : isComponent tag.name) {v : String}
    (h : stocked ⟨tag.tenant, tag.name, v⟩ ≠ none) (hv : tag.version = "" ∨ v = tag.version) :
    stocked.verdict tag = .ok () := by
  rw [Stock.verdict, if_neg (not_not.2 ht), if_neg (not_not.2 hn), if_neg fun hall => h (hall v),
    if_neg]
  rintro ⟨hversion, hnone⟩
  rw [← hv.resolve_left hversion] at hnone
  exact h hnone

/-- Of a tag that cannot name directories neither is anything found nor anything removed. -/
theorem verdict_invalid (stocked : Stock) (root : Path) (d : Disk)
    (h : ¬ (IsScope tag.tenant ∧ isComponent tag.name)) :
    ∃ e, stocked.verdict tag = .error e ∧ remove root tag d = (.error e, d) ∧
      find d root tag = .error e := by
  unfold Stock.verdict remove find
  by_cases ht : IsScope tag.tenant
  · have hn : ¬ isComponent tag.name := fun hn => h ⟨ht, hn⟩
    rw [if_neg (not_not.2 ht), if_pos hn, pluginPath_refused_name ht hn]
    exact ⟨_, rfl, Action.lift_error_bind, rfl⟩
  · rw [if_pos ht, pluginPath_refused ht]
    exact ⟨_, rfl, Action.lift_error_bind, rfl⟩

theorem without_eq_self
    (h : ∀ e : Edition, e.tenant = tag.tenant → e.name = tag.name →
      (tag.version = "" ∨ e.version = tag.version) → stocked e = none) :
    stocked.without tag = stocked := by
  funext e
  unfold Stock.without
  split
  · rename_i hthis
    exact (h e hthis.1 hthis.2.1 hthis.2.2).symm
  · rfl

/-- What is in stock can be: its parts name directories, and are not too long. -/
theorem fit_of_stock (htree : d.IsTree) {e : Edition} (h : stock root d e ≠ none) : e.IsFit := by
  obtain ⟨payload, hpayload⟩ := Option.ne_none_iff_exists'.1 h
  obtain ⟨hvalid, hdir, -⟩ := stock_eq_some hpayload
  exact ⟨hvalid, fun name hname =>
    (htree.closed.treeAt root).isName (by rw [hdir]; exact Option.some_ne_none _) hname⟩

/-- A removal leaves a neat hub, and fails only with nothing done. If the versions can be ordered, it
takes just the editions that the tag names out of the stock. -/
theorem Neat.remove_spec (h : Neat admits (d.treeAt root)) (htree : d.IsTree) (tag : Tag) :
    (remove root tag d).2.IsTree ∧ Neat admits ((remove root tag d).2.treeAt root) ∧
      (Filled (d.treeAt root) → Filled ((remove root tag d).2.treeAt root)) ∧
      ((∀ v, admits v → Version.HasKey v) →
        stock root (remove root tag d).2 = (stock root d).without tag) ∧
      ((remove root tag d).1 = .ok () ∨ (remove root tag d).2 = d) := by
  have hundone {e : Failure} (hremove : remove root tag d = (.error e, d))
      (hnone : (∀ v, admits v → Version.HasKey v) → ∀ e : Edition, e.tenant = tag.tenant →
        e.name = tag.name → (tag.version = "" ∨ e.version = tag.version) → stock root d e = none) :
      (remove root tag d).2.IsTree ∧ Neat admits ((remove root tag d).2.treeAt root) ∧
        (Filled (d.treeAt root) → Filled ((remove root tag d).2.treeAt root)) ∧
        ((∀ v, admits v → Version.HasKey v) →
          stock root (remove root tag d).2 = (stock root d).without tag) ∧
        ((remove root tag d).1 = .ok () ∨ (remove root tag d).2 = d) := by
    rw [hremove]
    exact ⟨htree, h, id, fun hkeys => (without_eq_self (hnone hkeys)).symm, .inr rfl⟩
  by_cases hvalid : IsScope tag.tenant ∧ isComponent tag.name
  swap
  · obtain ⟨e, -, hremove, -⟩ := verdict_invalid (stock root d) root d hvalid
    refine hundone hremove fun _ e ht hn _ => ?_
    by_contra hne
    have hfit := (fit_of_stock htree hne).1
    exact hvalid ⟨ht ▸ hfit.1, hn ▸ hfit.2.1⟩
  by_cases hshort : tag.tenant.utf8ByteSize ≤ maxName ∧ tag.name.utf8ByteSize ≤ maxName
  swap
  · have hpath := pluginPath_eq root hvalid.1 hvalid.2
    obtain ⟨e, hremove⟩ := remove_undone hpath fun hdir => hshort (by
      have hall := short_of_isDirectory hdir
      exact ⟨short_of_scopeName (hall _ (by simp)), hall tag.name (by simp)⟩)
    refine hundone hremove fun _ e ht hn _ => ?_
    by_contra hne
    have hnamed := (fit_of_stock htree hne).2
    exact hshort ⟨ht ▸ short_of_scopeName (hnamed _ (by simp [Edition.shelf])).short,
      hn ▸ (hnamed e.name (by simp [Edition.shelf])).short⟩
  have hsought : Tag.IsSought tag := ⟨hvalid.1, hvalid.2, hshort.1, hshort.2⟩
  have hthere (v : String) := h.stock_ne_none (v := v) hsought.scope hsought.name
  rcases h.remove_cases htree hsought with ⟨hremove, hnone, -⟩ | ⟨hremove, hversion, hnone, -⟩ |
    ⟨⟨e, hremove⟩, v, hv, hkey⟩ | ⟨d', hremove, -, htree', hneat', hstock', hfilled'⟩
  · refine hundone hremove fun _ => ?_
    rintro ⟨t, n, v⟩ rfl rfl -
    by_contra hne
    exact hnone v ((hthere v).1 hne)
  · refine hundone hremove fun _ => ?_
    rintro ⟨t, n, v⟩ rfl rfl hv
    by_contra hne
    obtain rfl : v = tag.version := hv.resolve_left hversion
    exact hnone ((hthere _).1 hne)
  · exact hundone hremove fun hkeys => absurd (hkeys v (h.versions _ _ v hv).2.2.1) hkey
  · rw [hremove]
    exact ⟨htree', hneat', hfilled', fun _ => hstock', .inl rfl⟩

/-- A hub that comes about is neat, and if every version that is admitted can be the name of a
directory, then no plugin's directory in it is empty. -/
theorem Reached.neat (h : Reached root admits d) :
    d.IsTree ∧ Neat admits (d.treeAt root) ∧
      ((∀ v, admits v → IsName v) → Filled (d.treeAt root)) := by
  induction h with
  | @new d htree hroot hempty =>
    obtain ⟨hneat, hfilled⟩ : Neat admits (d.treeAt root) ∧ _ := neat_new htree hroot hempty
    exact ⟨htree, hneat, fun _ => hfilled⟩
  | edited _ htree hsame ih =>
    rw [hsame]
    exact ⟨htree, ih.2⟩
  | @installed d source place tenant _ hsource hadmits ih =>
    obtain ⟨htree, hneat, hfilled⟩ := ih
    obtain ⟨d', htree', hneat', hfilled', hcases⟩ := hneat.install_cases tenant htree hsource
      hadmits
    have hstate : (install root tenant source d).2 = d' := by
      rcases hcases with ⟨p, -, -, hinstall, -⟩ | ⟨-, ⟨e, hinstall⟩, -⟩ <;> rw [hinstall]
    rw [hstate]
    exact ⟨htree', hneat', fun hall => hfilled' hall (hfilled hall)⟩
  | removed tag _ ih =>
    obtain ⟨htree, hneat, hfilled⟩ := ih
    obtain ⟨htree', hneat', hfilled', -⟩ := hneat.remove_spec htree tag
    exact ⟨htree', hneat', fun hall => hfilled' (hfilled hall)⟩

theorem finite_stock (root : Path) (d : Disk) : {e | stock root d e ≠ none}.Finite := by
  refine Set.Finite.of_finite_image (f := fun e : Edition => root ++ e.shelf) ?_ ?_
  · refine (List.finite_toSet d.entries.keys).subset ?_
    rintro _ ⟨e, he, rfl⟩
    obtain ⟨payload, hpayload⟩ := Option.ne_none_iff_exists'.1 he
    obtain ⟨-, hdir, -⟩ := stock_eq_some hpayload
    have hentry : d.entry? (root ++ e.shelf) = some .directory := hdir
    rw [entry?_eq_get? (by simp [Edition.shelf])] at hentry
    exact mem_keys_iff.2 (by rw [hentry]; exact Option.some_ne_none _)
  · intro e he e' he' heq
    obtain ⟨payload, hpayload⟩ := Option.ne_none_iff_exists'.1 he
    obtain ⟨payload', hpayload'⟩ := Option.ne_none_iff_exists'.1 he'
    exact Edition.shelf_inj (stock_eq_some hpayload).1 (stock_eq_some hpayload').1
      (List.append_cancel_left heq)

/-- What a hub does to its stock, and tells of it. -/
structure KeepsStock (root : Path) (admits : String → Prop) (d : Disk) : Prop where
  finite : {e | stock root d e ≠ none}.Finite
  /-- An installation that gives a plugin puts the edition that the manifest names in stock, with all
  that lies with the manifest and nothing else. One that fails changes no edition, and it fails
  only if no manifest can be read or what it names has no place. -/
  installs : ∀ tenant source place, IsSource d root source place →
    (∀ p, Manifest.read d source = .ok p → admits p.version) →
    let (outcome, d') := install root tenant source d
    (∃ p manifest seat, Manifest.read d source = .ok p ∧ (editionOf tenant p).IsFit ∧
      outcome = .ok { p with tenant, path := Path.text (root ++ (editionOf tenant p).shelf) } ∧
      Manifest.find d source = .ok manifest ∧ d.locate manifest.parent = .ok seat ∧
      stock root d' = Function.update (stock root d) (editionOf tenant p) (some (d.treeAt seat))) ∨
    (∀ p, Manifest.read d source = .ok p → ¬ (editionOf tenant p).IsFit) ∧
      (∃ e, outcome = .error e) ∧ stock root d' = stock root d
  /-- Removing takes the editions that the tag names out of the stock, or fails and changes
  nothing. -/
  removes : ∀ tag, let (outcome, d') := remove root tag d
    stock root d' = (stock root d).without tag ∧ (outcome = .ok () ∨ d' = d)
  /-- A tag is looked up in the stock: what is found is the edition that it names, or of its plugin
  one that no other ranks above. The plugin that is read there has the name, the version and the
  scope of the edition. -/
  finds : ∀ tag, tag.tenant.utf8ByteSize ≤ maxName → tag.name.utf8ByteSize ≤ maxName →
    (∃ e, (stock root d).verdict tag = .error e ∧ find d root tag = .error e ∧
      plugin d root tag = .error e) ∨
    (stock root d).verdict tag = .ok () ∧ ∃ v p, stock root d ⟨tag.tenant, tag.name, v⟩ ≠ none ∧
      (tag.version = "" ∧ (∀ w, stock root d ⟨tag.tenant, tag.name, w⟩ ≠ none →
        Version.RanksOver v w) ∨ tag.version ≠ "" ∧ v = tag.version) ∧
      find d root tag = .ok (root ++ (⟨tag.tenant, tag.name, v⟩ : Edition).shelf) ∧
      plugin d root tag = .ok p ∧ p.name = tag.name ∧ p.version = v ∧ p.tenant = tag.tenant
  /-- Removing fails as looking up does, if each version that came can be the name of a directory. -/
  refuses : (∀ v, admits v → IsName v) →
    ∀ tag, tag.tenant.utf8ByteSize ≤ maxName → tag.name.utf8ByteSize ≤ maxName →
      (remove root tag d).1 = (stock root d).verdict tag

namespace Storeroom

/-- An empty hub, and a source for it whose manifest gives a version. -/
def bare (version : String) : Disk where
  entries := [(["plugins"], .directory), (["source"], .directory),
    (["source", "manifest.yml"], .file (Text.encode
      ("name: python\nversion: \"" ++ version ++ "\"\ncategory: framework\n")))]

/-- The plugin that the manifest describes. -/
def python (version : String) : Plugin where
  name := "python"
  displayName := "python"
  version := version
  category := .framework
  path := "<root>/source"

theorem name_python (version : String) : (python version).name ≠ "" := by simp [python]

theorem isTree_bare (version : String) : (bare version).IsTree :=
  .of_entries (by simp [bare, Table.keys]) (by
    intro e he
    simp only [bare, List.mem_cons, List.not_mem_nil, or_false] at he
    rcases he with rfl | rfl | rfl
    · exact ⟨rfl, by decide⟩
    · exact ⟨rfl, by decide⟩
    · refine ⟨by simp [bare, entry?, Table.get?], ?_⟩
      show ∀ n ∈ ["source", "manifest.yml"], IsName n
      decide)

theorem isSource_bare (version : String) :
    IsSource (bare version) ["plugins"] ["source"] ["source"] where
  toLeads := (isTree_bare version).leads (by simp [bare, entry?, Table.get?]) (by simp [bare])
  outside := by decide
  around := by decide

theorem empty_bare (version : String) : ∀ q, q ≠ [] → (bare version).treeAt ["plugins"] q = none := by
  intro q hq
  obtain ⟨n, q, rfl⟩ := List.exists_cons_of_ne_nil hq
  simp [bare, treeAt, entry?, Table.get?]

theorem reached_bare (version : String) : Reached ["plugins"] admits (bare version) :=
  .new (isTree_bare version) (by simp [bare, entry?, Table.get?]) (empty_bare version)

/-- The only version that comes. -/
def isThreeNine (v : String) : Prop := v = "3.9"

theorem read_bare : Manifest.read (bare "3.9") ["source"] = .ok (python "3.9") := by decide +kernel

theorem admits_bare (p : Plugin) (hp : Manifest.read (bare "3.9") ["source"] = .ok p) :
    isThreeNine p.version := by
  obtain rfl := Except.ok.inj (read_bare.symm.trans hp)
  rfl

theorem reached_stocked :
    Reached ["plugins"] isThreeNine (install ["plugins"] "" ["source"] (bare "3.9")).2 :=
  .installed "" (reached_bare "3.9") (isSource_bare "3.9") admits_bare

theorem hasKey_of_isThreeNine (v : String) (hv : isThreeNine v) : Version.HasKey v :=
  hv ▸ ⟨⟨[.number 3, .number 9], "3.9"⟩, by decide⟩

end Storeroom

end Hub

end AppBroker
