import AppBroker.Proofs.HubPlacing

/-!
# A failed installation leaves the hub as it was

An installation from a directory that fails may leave directories behind that lead to a plugin. Who
looks a plugin up or lists a scope does not see them: a directory with nothing in it gives what no
directory gives (`Matches.made`). Only where the manifest is a symbolic link can an installation fail
after the payload has taken its place, for a link may lead somewhere else from there
(`linked_manifest_replaces`).
-/

namespace AppBroker.Hub

open Disk

variable {d d' d₁ s : Disk} {root dir source x : Path} {tenant other n m : String} {tag : Tag}

/-! ## What directories that are made change -/

/-- Whether a scope gives the same on two disks, for the names that a plugin may have. -/
structure Matches (root : Path) (other : String) (d d' : Disk) : Prop where
  find : ∀ tag : Tag, tag.tenant = other → tag.name.utf8ByteSize ≤ maxName →
    Hub.find d' root tag = Hub.find d root tag
  plugin : ∀ tag : Tag, tag.tenant = other → tag.name.utf8ByteSize ≤ maxName →
    Hub.plugin d' root tag = Hub.plugin d root tag
  list : ∀ category, Hub.list d' root other category = Hub.list d root other category

theorem Agree.matches (h : Agree root other d d') : Matches root other d d' :=
  ⟨fun tag ht _ => h.find tag ht, fun tag ht _ => h.plugin tag ht, h.list⟩

theorem Matches.trans {d'' : Disk} (h : Matches root other d d') (h' : Matches root other d' d'') :
    Matches root other d d'' :=
  ⟨fun tag ht hn => (h'.find tag ht hn).trans (h.find tag ht hn),
    fun tag ht hn => (h'.plugin tag ht hn).trans (h.plugin tag ht hn),
    fun category => (h'.list category).trans (h.list category)⟩

/-- A directory that is no part of a scope. -/
theorem Plain.agree_made (h : Plain root d) (hlinks : Unlinked root other d)
    (hroot : root <+: x) (hne : x ≠ root) (hout : ¬ root ++ [scopeName other] <+: x) :
    Agree root other d (d.put x .directory) := by
  have hbelow : ¬ x <+: root := fun hin => hne (hin.eq_of_length (hin.length_le.antisymm hroot.length_le))
  have hkept : Kept root (isWithin x) d (d.put x .directory) :=
    (h.kept (isPart_within hbelow)).put (isWithin_iff.2 (List.prefix_refl x)) (.inl fun _ => nofun)
  refine hkept.agree h (fun _ q hq => Bool.eq_false_iff.2 fun hx => ?_) hlinks
  have hx : x <+: q := isWithin_iff.1 hx
  have hcomparable : x <+: root ++ [scopeName other] := by
    rcases hq with hq | hq
    · exact hx.trans hq
    · exact (List.prefix_or_prefix_of_prefix hx hq).resolve_right hout
  rcases List.prefix_concat_iff.1 hcomparable with rfl | hin
  · exact hout (List.prefix_refl _)
  · exact hbelow hin

/-- What is looked up is not there, or there are no versions of it. -/
theorem find_nothing (ht : IsScope tag.tenant) (hn : isComponent tag.name)
    (h : d.isDirectory (root ++ [scopeName tag.tenant, tag.name]) = .ok false ∨
      d.isDirectory (root ++ [scopeName tag.tenant, tag.name]) = .ok true ∧
        d.list (root ++ [scopeName tag.tenant, tag.name]) = .ok []) :
    find d root tag = refuse (.pluginAbsent tag.qualifiedName) := by
  rw [find, pluginPath_eq root ht hn, ok_bind]
  rcases h with hdir | ⟨hdir, hlist⟩
  · rw [hdir]
    rfl
  · rw [hdir, ok_bind, versionsIn, hlist]
    rfl

/-- Nothing is found of a plugin that a directory has nothing of. -/
theorem isDirectory_none (h : d.Has dir) (hn : Leadless n) (hshort : n.utf8ByteSize ≤ maxName)
    (hnone : d.entry? (dir ++ [n]) = none) : d.isDirectory (dir ++ [n]) = .ok false := by
  by_cases hname : IsName n
  · rw [isDirectory, test_on (locate_self h true) h.at hname (by simp [hnone]), hnone]
    rfl
  · have hnull : '\x00' ∈ n.toList := by
      by_contra hnull
      exact hname ⟨hn.1, hn.2.1, hn.2.2, hshort, hnull⟩
    rw [isDirectory, test_missing (locate_of_null hnull (List.mem_append_right _ (by simp)) true)]
    rfl

/-- Where nothing is found on either disk, the same is found. -/
theorem same_nothing (ht : IsScope tag.tenant) (hn : isComponent tag.name)
    (h : d.isDirectory (root ++ [scopeName tag.tenant, tag.name]) = .ok false ∨
      d.isDirectory (root ++ [scopeName tag.tenant, tag.name]) = .ok true ∧
        d.list (root ++ [scopeName tag.tenant, tag.name]) = .ok [])
    (h' : d'.isDirectory (root ++ [scopeName tag.tenant, tag.name]) = .ok false ∨
      d'.isDirectory (root ++ [scopeName tag.tenant, tag.name]) = .ok true ∧
        d'.list (root ++ [scopeName tag.tenant, tag.name]) = .ok []) :
    find d' root tag = find d root tag ∧ plugin d' root tag = plugin d root tag := by
  rw [plugin, plugin, find_nothing ht hn h, find_nothing ht hn h']
  exact ⟨rfl, rfl⟩

/-- Names that no plugin has are refused on any disk. -/
theorem Matches.of_components (ht : IsScope other)
    (hfind : ∀ tag : Tag, tag.tenant = other → isComponent tag.name → tag.name.utf8ByteSize ≤ maxName →
      Hub.find d' root tag = Hub.find d root tag ∧ Hub.plugin d' root tag = Hub.plugin d root tag)
    (hlist : ∀ category, Hub.list d' root other category = Hub.list d root other category) :
    Matches root other d d' := by
  have hboth (tag : Tag) (htag : tag.tenant = other) (hshort : tag.name.utf8ByteSize ≤ maxName) :
      Hub.find d' root tag = Hub.find d root tag ∧ Hub.plugin d' root tag = Hub.plugin d root tag := by
    by_cases hn : isComponent tag.name
    · exact hfind tag htag hn hshort
    · have hrefused (d : Disk) : Hub.find d root tag =
          refuse (.invalid (.component "plugin name" tag.name)) := by
        rw [Hub.find, pluginPath_refused_name (htag ▸ ht) hn]
        rfl
      rw [Hub.plugin, Hub.plugin, hrefused, hrefused]
      exact ⟨rfl, rfl⟩
  exact ⟨fun tag htag hn => (hboth tag htag hn).1, fun tag htag hn => (hboth tag htag hn).2, hlist⟩

/-- A new directory for a scope. -/
theorem Plain.scope_made (h : Plain root d) (ht : IsScope other) (hname : IsName (scopeName other))
    (hnone : d.entry? (root ++ [scopeName other]) = none)
    (hput : d' = d.put (root ++ [scopeName other]) .directory) : Matches root other d d' := by
  have hentry (q : Path) : d'.entry? q =
      if root ++ [scopeName other] = q then some .directory else d.entry? q := by
    rw [hput, entry?_put _ _ _ _ (by simp)]
  have hroot := h.tree.has h.home
  have hhas : d'.Has (root ++ [scopeName other]) :=
    (hput ▸ hroot.put (scopeName other) .directory).child hname ((hentry _).trans (if_pos rfl))
  have hbelow (n : String) : d'.entry? (root ++ [scopeName other] ++ [n]) = none := by
    rw [hentry, if_neg (by simp), h.tree.closed.none_below hnone]
  refine .of_components ht (fun tag htag hn hshort => ?_) fun category => ?_
  · subst htag
    have hbefore : d.isDirectory (root ++ [scopeName tag.tenant, tag.name]) = .ok false := by
      rw [isDirectory]
      rcases locate_missing hroot hname.short hname.ne_empty hname.ne_here hname.ne_above hnone
          [tag.name] (by simp) true with hl | hl <;>
        exact test_missing hl _
    have hafter := isDirectory_none hhas (proper_of_isComponent hn) hshort (hbelow tag.name)
    rw [List.append_assoc] at hafter
    exact same_nothing ht hn (.inl hbefore) (.inl hafter)
  · have hempty : d'.names (root ++ [scopeName other]) = [] :=
      List.eq_nil_iff_forall_not_mem.2 fun n hn => mem_names.1 hn (hbelow n)
    rw [list, list, scopePath_eq ht, ok_bind, ok_bind, hhas.isDirectory_self, list_self hhas, hempty,
      isDirectory_none hroot hname.leadless hname.short hnone]
    rfl

/-- A directory without versions adds nothing to what is listed. -/
theorem pluginsIn_append (category : Option Category) (names : List String)
    (hdir : d.isDirectory (dir ++ [n]) = .ok true) (hnone : latestIn d (dir ++ [n]) = ⟨[], .ok none⟩) :
    pluginsIn d dir tenant category (names ++ [n]) = pluginsIn d dir tenant category names := by
  induction names with
  | nil =>
    rw [List.nil_append]
    simp only [pluginsIn, hdir, hnone]
    split <;> rfl
  | cons name names ih => rw [List.cons_append, pluginsIn, pluginsIn, ih]

theorem latestIn_empty (hlist : d.list dir = .ok []) : latestIn d dir = ⟨[], .ok none⟩ := by
  have hversions : versionsIn d dir >>= Version.sortDescending = .ok [] := by
    rw [versionsIn, hlist]
    exact Version.sortDescending_nil
  rw [latestIn, hversions]
  rfl

/-- The other plugins of a scope do not change. -/
theorem Plain.alike_beside (h : Plain root d) (hlinks : Unlinked root other d)
    (hscope : d.Has (root ++ [scopeName other])) (hm : Leadless m) (hne : m ≠ n)
    (hput : d' = d.put (root ++ [scopeName other] ++ [n]) .directory) :
    Alike 3 d d' (root ++ [scopeName other] ++ [m]) := by
  refine alike_of_same h.tree (fun k hk => ?_) (fun q hq hshort target => ?_) (fun q hq => ?_)
    fun q hq => hput ▸ names_put (fun k heq => ?_) _
  · rcases List.mem_append.1 hk with hk | hk
    · exact (hscope.names k hk).leadless
    · exact List.mem_singleton.1 hk ▸ hm
  · by_cases hin : q <+: root ++ [scopeName other]
    · rw [hscope.directory q hin]
      rintro ⟨⟩
    · obtain ⟨r, rfl⟩ : root ++ [scopeName other] <+: q := by
        rcases hq with hq | hq
        · obtain rfl := (List.prefix_concat_iff.1 hq).resolve_right hin
          exact List.prefix_append _ _
        · exact (List.prefix_append _ _).trans hq
      have hr : r.length ≤ 4 := by
        simp only [List.length_append, List.length_singleton] at hshort
        omega
      simpa [treeAt] using hlinks r hr target
  · rw [hput, entry?_put _ _ _ _ (by simp), if_neg]
    rintro rfl
    rcases hq with hq | hq <;> simp [hne, Ne.symm hne] at hq
  · have := hq.length_le
    have hlen := congrArg List.length heq
    simp only [List.length_append, List.length_singleton] at hlen this
    omega

/-- A new directory for a plugin. -/
theorem Plain.plugin_made (h : Plain root d) (ht : IsScope other) (hlinks : Unlinked root other d)
    (hscope : d.entry? (root ++ [scopeName other]) = some .directory) (hname : IsName n)
    (hnone : d.entry? (root ++ [scopeName other] ++ [n]) = none)
    (hput : d' = d.put (root ++ [scopeName other] ++ [n]) .directory) : Matches root other d d' := by
  have hentry (q : Path) : d'.entry? q =
      if root ++ [scopeName other] ++ [n] = q then some .directory else d.entry? q := by
    rw [hput, entry?_put _ _ _ _ (by simp)]
  have hhas := h.tree.has hscope
  have hhas' : d'.Has (root ++ [scopeName other]) := hput ▸ hhas.put n .directory
  have hplugin := hhas'.child hname ((hentry _).trans (if_pos rfl))
  have hlist : d'.list (root ++ [scopeName other] ++ [n]) = .ok [] := by
    rw [list_self hplugin, List.eq_nil_iff_forall_not_mem.2 fun v hv => mem_names.1 hv ?_]
    rw [hentry, if_neg (by simp), h.tree.closed.none_below hnone]
  have hbeside {m : String} (hm : Leadless m) (hne : m ≠ n) :=
    h.alike_beside hlinks hhas hm hne hput
  refine .of_components ht (fun tag htag hn hshort => ?_) fun category => ?_
  · subst htag
    have hbase : root ++ [scopeName tag.tenant, tag.name] =
        root ++ [scopeName tag.tenant] ++ [tag.name] := by simp
    by_cases heq : tag.name = n
    · have hbefore := isDirectory_none hhas hname.leadless hname.short hnone
      rw [← heq, ← hbase] at hbefore hlist hplugin
      exact same_nothing ht hn (.inl hbefore) (.inr ⟨hplugin.isDirectory_self, hlist⟩)
    · have halike : isComponent tag.name → Alike 3 d d' (root ++ [scopeName tag.tenant, tag.name]) :=
        fun _ => hbase ▸ hbeside (proper_of_isComponent hn) heq
      exact ⟨find_alike ht halike, plugin_alike ht halike⟩
  · have hsame : pluginsIn d' (root ++ [scopeName other]) other category
        (d.names (root ++ [scopeName other])) =
          pluginsIn d (root ++ [scopeName other]) other category (d.names (root ++ [scopeName other])) := by
      refine pluginsIn_congr other category _ fun m hm => ?_
      have hthere := mem_names.1 hm
      have halike := hbeside (h.tree.closed _ m hthere).2.leadless
        (by rintro rfl; exact hthere hnone)
      exact ⟨by simpa using halike.isDirectory (q := []) .nil,
        by simpa using latestIn_alike halike (q := []) .nil⟩
    rw [list, list, scopePath_eq ht, ok_bind, ok_bind, hhas'.isDirectory_self, hhas.isDirectory_self,
      list_self hhas', list_self hhas, hput, names_put_new hnone, ← hput]
    exact (pluginsIn_append category _ hplugin.isDirectory_self (latestIn_empty hlist)).trans hsame

theorem IsLead.shape (h : IsLead root tenant x) : ∃ a, x = root ++ [a] ∨ ∃ b, x = root ++ [a] ++ [b] := by
  rcases h with rfl | rfl | ⟨b, rfl⟩
  · exact ⟨_, .inl rfl⟩
  · exact ⟨_, .inl rfl⟩
  · exact ⟨scopeName tenant, .inr ⟨b, by simp⟩⟩

/-- Directories that an installation makes are not seen, whatever scope they are made for. -/
theorem Plain.matches_made (h : Plain root d) (hlinks : Unlinked root other d)
    (hmade : Made (IsLead root tenant) d d₁) : Matches root other d d₁ := by
  by_cases ht : IsScope other
  swap
  · exact (agree_unscoped ht).matches
  induction hmade with
  | none => exact (Agree.refl root other d).matches
  | @next d' dir n hmade hlead hname hdir hnone ih =>
    have h' := h.made hmade
    have hlinks' := hlinks.made hmade
    refine ih.trans ?_
    obtain ⟨a, hx | ⟨b, hx⟩⟩ := hlead.shape
    · obtain ⟨rfl, hn⟩ := List.append_inj' hx rfl
      obtain rfl : n = a := by simpa using hn
      by_cases ha : n = scopeName other
      · subst ha
        exact h'.scope_made ht hname hnone rfl
      · exact (h'.agree_made hlinks' (List.prefix_append _ _) (by simp)
          (by simp [Ne.symm ha])).matches
    · obtain ⟨rfl, hn⟩ := List.append_inj' hx rfl
      obtain rfl : n = b := by simpa using hn
      by_cases ha : a = scopeName other
      · subst ha
        exact h'.plugin_made ht hlinks' hdir hname hnone rfl
      · exact (h'.agree_made hlinks' (by simp) (by simp) (by simp [Ne.symm ha])).matches

/-! ## Installing from a directory -/

/-- A directory is staged with the manifest that was found, unless that is a link. -/
theorem Working.stages_directory (h : Working root d s) (hdirectory : s.isDirectory source = .ok true)
    (hlinks : ∀ dir target, s.entry? (dir ++ [Manifest.fileName]) ≠ some (.link target)) :
    Stages root source d s := by
  cases hfind : Manifest.find s source with
  | error e =>
    refine .inl ⟨e, s, ?_, h⟩
    unfold stage
    dsimp only
    rw [look_bind hdirectory, if_pos rfl, look_bind_error hfind]
  | ok manifest =>
  obtain ⟨way, rfl, hfile, -⟩ := Manifest.find_ok hfind
  have hstage : stage (stagingPath root) source s =
      Disk.update (·.copyTree (source ++ way) (stagingPath root ++ [payloadName])) s := by
    unfold stage
    dsimp only
    rw [look_bind hdirectory, if_pos rfl, look_bind hfind, Path.parent, List.dropLast_concat]
    rfl
  cases hcopy : s.copyTree (source ++ way) (stagingPath root ++ [payloadName]) with
  | error fault => exact .inl ⟨.breakage fault.breakage, s, by rw [hstage, Disk.update, hcopy]; rfl, h⟩
  | ok s' =>
  obtain ⟨hwork, place, hfound, hplace, hcopied⟩ := h.copied isName_payload hcopy
  rw [isFile, test_on hfound hplace Manifest.isName_fileName (hlinks place)] at hfile
  obtain ⟨entry, hentry, hholds⟩ := Option.any_eq_true _ _ |>.1 (Except.ok.inj hfile)
  cases entry with
  | directory => cases hholds
  | link target => exact absurd hentry (hlinks place target)
  | file data =>
    refine .inr ⟨data, s', by rw [hstage, update_ok hcopy], hwork, hwork.has, hwork.once, ?_, ?_⟩
    · simpa using hcopied [] .directory (by simpa using hplace)
    · simpa using hcopied [Manifest.fileName] _ hentry

namespace Storeroom

def manifest : List UInt8 := Text.encode "name: python\nversion: \"3.9\"\ncategory: framework\n"

/-- A hub with a plugin, and another payload for the same version that has a link for its manifest.
The link leads out of the payload and in again, by the name that the payload has. -/
def linked : Disk where
  entries := [(["plugins"], .directory), (["plugins", ".system"], .directory),
    (["plugins", ".system", "python"], .directory), (["plugins", ".system", "python", "3.9"], .directory),
    (["plugins", ".system", "python", "3.9", "manifest.yml"], .file manifest),
    (["payload"], .directory), (["payload", "real.yml"], .file manifest),
    (["payload", "manifest.yml"], .link "../payload/real.yml")]

end Storeroom

end AppBroker.Hub
