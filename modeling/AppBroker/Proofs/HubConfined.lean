import AppBroker.Catalog
import AppBroker.Proofs.HubInstall
import AppBroker.Proofs.HubScopes

/-!
# A tenant changes the own scope of a hub

Installing and removing plugins, whether that ends well or not, changes a hub in two places only: in
the directory of the tenant's scope and where installations are prepared (`Hub.Confined`). So what
other scopes give stays as it is.
-/

namespace AppBroker

namespace Action

variable {σ α β : Type} {I J K : σ → Prop} {m : Action σ α} {f : α → Action σ β}

/-- Whether an action that starts where `I` holds ends where `J` holds, be it in a failure. -/
def Brings (I : σ → Prop) (m : Action σ α) (J : σ → Prop) : Prop := ∀ s, I s → J (m s).2

theorem Brings.mono {I' : σ → Prop} (hm : m.Brings I J) (hI : ∀ s, I' s → I s) : m.Brings I' J :=
  fun s hs => hm s (hI s hs)

theorem Brings.bind (hm : m.Brings I J) (hJ : ∀ s, J s → K s) (hf : ∀ a, (f a).Brings J K) :
    (m >>= f).Brings I K := by
  intro s hs
  show K (Action.bind m f s).2
  have h := hm s hs
  unfold Action.bind
  split <;> rename_i hms <;> rw [hms] at h
  · exact hf _ _ h
  · exact hJ _ h

/-- An outcome is known in what follows it. -/
theorem Brings.given {o : Outcome α} (hI : ∀ s, I s → J s) (hf : ∀ a, o = .ok a → (f a).Brings I J) :
    ((ofOutcome o : Action σ α) >>= f).Brings I J := by
  intro s hs
  cases o with
  | ok a => exact hf a rfl s hs
  | error e => exact hI s hs

theorem brings_ofOutcome (o : Outcome α) (hI : ∀ s, I s → J s) :
    (ofOutcome o : Action σ α).Brings I J := hI

theorem brings_pure (a : α) (hI : ∀ s, I s → J s) : (Pure.pure a : Action σ α).Brings I J := hI

/-- What is done in one of two cases before going on. -/
theorem Brings.whether {c : Prop} [Decidable c] {m : Action σ Unit} {f : Unit → Action σ β}
    (hI : ∀ s, I s → J s) (hm : c → m.Brings I I) (hf : ∀ u, (f u).Brings I J) :
    (if c then m >>= f else f ()).Brings I J := by
  split
  · exact (hm ‹_›).bind hI hf
  · exact hf ()

theorem Brings.followedBy {last : Action σ Unit} (hm : m.Brings I J) (hlast : last.Brings J K) :
    (m.followedBy last).Brings I K := by
  intro s hs
  have h := hlast _ (hm s hs)
  unfold Action.followedBy
  dsimp only
  split <;> rename_i hl <;> rw [hl] at h <;> exact h

end Action

namespace Disk

variable {I J : Disk → Prop} {α β : Type} {d d' : Disk} {p place source : Path}

/-- What was looked up is known in what follows. -/
theorem brings_known {g : Disk → Outcome α} {f : α → Action Disk β} (hI : ∀ d, I d → J d)
    (hf : ∀ a, (f a).Brings (fun d => I d ∧ g d = .ok a) J) : (look g >>= f).Brings I J := by
  intro d hd
  cases hg : g d with
  | ok a =>
    rw [look_bind hg]
    exact hf a d ⟨hd, hg⟩
  | error e =>
    rw [look_bind_error hg]
    exact hI d hd

theorem brings_look {g : Disk → Outcome α} {f : α → Action Disk β} (hI : ∀ d, I d → J d)
    (hf : ∀ a, (f a).Brings I J) : (look g >>= f).Brings I J :=
  brings_known hI fun a => (hf a).mono fun _ h => h.1

theorem brings_update {f : Disk → Answer Disk} (hI : ∀ d, I d → J d)
    (h : ∀ d d', I d → f d = .ok d' → J d') : (update f).Brings I J := by
  intro d hd
  unfold update
  split
  · exact h _ _ hd ‹_›
  · exact hI d hd

theorem brings_tryUpdate {f : Disk → Answer Disk} (hI : ∀ d, I d → J d)
    (h : ∀ d d', I d → f d = .ok d' → J d') : (tryUpdate f).Brings I J := by
  intro d hd
  unfold tryUpdate
  split
  · exact h _ _ hd ‹_›
  · exact hI d hd

/-- What a disk has stays when a directory is made. -/
theorem more_of_makeDirectory (h : d.makeDirectory p = .ok d') (q : Path) (e : Entry)
    (hq : d.entry? q = some e) : d'.entry? q = some e := by
  unfold makeDirectory at h
  cases hl : d.locate p false with
  | error fault => rw [hl] at h; cases h
  | ok place =>
    rw [hl, ok_bind] at h
    split at h <;> cases h
    rename_i hnone
    have hne : place ≠ [] := by
      rintro rfl
      cases hnone
    rw [entry?_put _ _ _ _ hne, if_neg, hq]
    rintro rfl
    rw [hnone] at hq
    cases hq

/-- A directory is still there after another one was made. -/
theorem isDirectory_makeDirectory (h : d.isDirectory source = .ok true)
    (hm : d.makeDirectory p = .ok d') : d'.isDirectory source = .ok true :=
  test_more (more_of_makeDirectory hm) h

end Disk

namespace Hub

open Disk

variable {d d' : Disk} {root : Path} {tenant : String}

/-- A hub whose directory is found by its names, with no link for a scope or a plugin. -/
structure Plain (root : Path) (d : Disk) : Prop where
  tree : d.IsTree
  home : d.entry? root = some .directory
  shallow : ∀ p, p.length ≤ 2 → ∀ target, d.treeAt root p ≠ some (.link target)

/-- Whether no link lies where a scope has its plugins, their versions and their manifests. -/
def Unlinked (root : Path) (tenant : String) (d : Disk) : Prop :=
  ∀ p, p.length ≤ 4 → ∀ target, d.treeAt root (scopeName tenant :: p) ≠ some (.link target)

/-- A hub on a disk that has no links at all. -/
theorem Plain.of_linkless (h : d.IsTree) (home : d.entry? root = some .directory)
    (hlinks : ∀ e ∈ d.entries, ∀ target, e.2 ≠ .link target) :
    Plain root d ∧ ∀ tenant, Unlinked root tenant d :=
  ⟨⟨h, home, fun _ _ => h.entry?_linkless hlinks _⟩, fun _ _ _ => h.entry?_linkless hlinks _⟩

/-! ## Where a tenant changes a hub -/

/-- Whether a place lies in the directory of a tenant's scope or where installations are prepared. -/
def isOwn (root : Path) (tenant : String) (p : Path) : Bool :=
  isWithin (root ++ [scopeName tenant]) p || isWithin (root ++ [stagingName]) p

theorem isOwn_iff {p : Path} : isOwn root tenant p = true ↔
    root ++ [scopeName tenant] <+: p ∨ root ++ [stagingName] <+: p := by
  simp [isOwn, isWithin_iff]

theorem not_prefix_of_isOwn {p : Path} (h : isOwn root tenant p = true) : ¬ p <+: root := by
  intro hp
  have := hp.length_le
  rcases isOwn_iff.1 h with h | h <;> have := h.length_le <;> simp at this <;> omega

theorem isOwn_append {p : Path} (h : isOwn root tenant p = true) (q : Path) :
    isOwn root tenant (p ++ q) = true :=
  isOwn_iff.2 ((isOwn_iff.1 h).imp (·.trans (List.prefix_append _ _))
    (·.trans (List.prefix_append _ _)))

theorem way_plugin {name : String} (ht : IsScope tenant) (hname : Leadless name) :
    Way 2 [scopeName tenant, name] := (Way.nil.cons hname).cons (proper_scopeName ht)

/-- What lies in another scope, or on the way to it, is not the tenant's own. -/
theorem isOwn_foreign {other : String} {q : Path} (ho : IsScope other) (ht : IsScope tenant)
    (hne : other ≠ tenant)
    (hq : q <+: root ++ [scopeName other] ∨ root ++ [scopeName other] <+: q) :
    isOwn root tenant q = false := by
  have hapart {name : String} (hin : root ++ [name] <+: q) : scopeName other = name := by
    have hle : root ++ [name] <+: root ++ [scopeName other] := by
      rcases hq with hq | hq
      · exact hin.trans hq
      · exact List.prefix_of_prefix_length_le hin hq (by simp)
    simpa [eq_comm] using hle
  rw [Bool.eq_false_iff, ne_eq, isOwn_iff, not_or]
  exact ⟨fun hin => hne (scopeName_inj ho ht (hapart hin)),
    fun hin => scopeName_ne_staging ho (hapart hin)⟩

/-- A part of a disk that lies in the directory of a hub: all of what it has trees of. -/
structure IsPart (root : Path) (own : Path → Bool) : Prop where
  below : ∀ {p : Path}, own p = true → ¬ p <+: root
  grows : ∀ {p : Path}, own p = true → ∀ q : Path, own (p ++ q) = true

theorem isPart_own (root : Path) (tenant : String) : IsPart root (isOwn root tenant) :=
  ⟨not_prefix_of_isOwn, isOwn_append⟩

/-- A disk that differs from another one in a part of a hub only. The hub is found by its names, and
there are no links in its upper levels. -/
structure Kept (root : Path) (own : Path → Bool) (d d' : Disk) : Prop where
  part : IsPart root own
  has : d'.Has root
  rest : d'.entries.filter (fun e => !own e.1) = d.entries.filter fun e => !own e.1
  plain : ∀ p, p.length ≤ 2 → ∀ target, d'.treeAt root p ≠ some (.link target)

/-- A disk that differs from another one in a tenant's own part of a hub only. -/
abbrev Confined (root : Path) (tenant : String) (d d' : Disk) : Prop :=
  Kept root (isOwn root tenant) d d'

variable {own : Path → Bool}

theorem IsPart.ne_nil (h : IsPart root own) {p : Path} (hp : own p = true) : p ≠ [] := by
  rintro rfl
  exact h.below hp List.nil_prefix

theorem Plain.kept (h : Plain root d) (hpart : IsPart root own) : Kept root own d d :=
  ⟨hpart, h.tree.has h.home, rfl, h.shallow⟩

theorem Plain.confined (h : Plain root d) (tenant : String) : Confined root tenant d d :=
  h.kept (isPart_own root tenant)

namespace Kept

variable {d₁ : Disk} {p place : Path} (h : Kept root own d d₁)
include h

theorem entry?_eq (hp : own p = false) : d₁.entry? p = d.entry? p := by
  by_cases hnil : p = []
  · rw [hnil, entry?_nil, entry?_nil]
  have hget (d : Disk) : d.entries.get? p =
      Table.get? (d.entries.filter fun e => !own e.1) p := by
    rw [get?_filter d.entries (fun q => !own q), hp]
    rfl
  rw [entry?_eq_get? hnil, entry?_eq_get? hnil, hget d₁, hget d, h.rest]

theorem names_eq (hp : ∀ n, own (p ++ [n]) = false) : d₁.names p = d.names p := by
  have hnames (d : Disk) : d.names p =
      names ⟨d.entries.filter fun e => !own e.1⟩ p := by
    rw [names, names, Table.keys, Table.keys, List.filterMap_map, List.filterMap_map,
      List.filterMap_filter]
    refine List.filterMap_congr fun e _ => ?_
    cases hchild : childName? p e.1 with
    | none => simp [hchild]
    | some n => simp [childName?_eq_some.1 hchild, hp n]
  rw [hnames d₁, hnames d, h.rest]

/-- Something new in the own part, a link no more than what lies deep enough. -/
theorem put (hp : own p = true) {e : Entry}
    (he : (∀ target, e ≠ .link target) ∨ root.length + 2 < p.length) :
    Kept root own d (d₁.put p e) := by
  have hne := h.part.ne_nil hp
  refine ⟨h.part, ⟨h.has.names, fun q hq => ?_⟩, ?_, fun q hq target hlink => ?_⟩
  · rw [entry?_put _ _ _ _ hne, if_neg, h.has.directory q hq]
    rintro rfl
    exact h.part.below hp hq
  · rw [← h.rest]
    exact @Table.filter_insert _ _ _ (fun q => !own q) p (by rw [hp]; rfl) e _
  · rw [treeAt, entry?_put _ _ _ _ hne] at hlink
    split at hlink
    · rename_i hpq
      rcases he with he | he
      · exact he target (Option.some.inj hlink)
      · rw [hpq, List.length_append] at he
        omega
    · exact h.plain q hq target hlink

theorem cut (hp : own p = true) : Kept root own d (d₁.cut p) := by
  have hne := h.part.ne_nil hp
  refine ⟨h.part, ⟨h.has.names, fun q hq => ?_⟩, ?_, fun q hq target hlink => ?_⟩
  · rw [entry?_cut hne, overlaid_outside fun hin => h.part.below hp (hin.trans hq),
      h.has.directory q hq]
  · rw [← h.rest, Disk.cut, List.filter_filter]
    refine List.filter_congr fun e _ => ?_
    cases hown : own e.1 with
    | true => rfl
    | false =>
      have hout : isWithin p e.1 = false := by
        rw [Bool.eq_false_iff, ne_eq, isWithin_iff]
        rintro ⟨q, hq⟩
        rw [← hq, h.part.grows hp] at hown
        cases hown
      rw [hout]
      rfl
  · rw [treeAt, entry?_cut hne, overlaid] at hlink
    split at hlink
    · cases hlink
    · exact h.plain q hq target hlink

/-- A tree that is laid deep enough into the own part. -/
theorem graft (hp : own p = true) (hdeep : root.length + 2 < p.length)
    (tree : Table Path Entry) : Kept root own d (d₁.graft p tree) := by
  induction tree generalizing d₁ with
  | nil => exact h
  | cons e tree ih =>
    refine ih (h.put (h.part.grows hp e.1) (.inr ?_))
    rw [List.length_append]
    omega

/-- A scope that the part has nothing of gives what it gave. -/
theorem agree {other : String} (hd : Plain root d)
    (hforeign : IsScope other → ∀ q : Path, q <+: root ++ [scopeName other] ∨
      root ++ [scopeName other] <+: q → own q = false)
    (hlinks : Unlinked root other d) : Agree root other d d₁ := by
  by_cases ho : IsScope other
  swap
  · exact agree_unscoped ho
  have hhas : d.Has root := hd.tree.has hd.home
  refine agree_of_alike ho (alike_of_same hd.tree (fun n hn => ?_) (fun q hq hshort target => ?_)
    (fun q hq => h.entry?_eq (hforeign ho q hq))
    fun q hq => h.names_eq fun n => hforeign ho _ (.inr (hq.trans (List.prefix_append _ _))))
  · rcases List.mem_append.1 hn with hn | hn
    · exact (hhas.names n hn).leadless
    · exact List.mem_singleton.1 hn ▸ proper_scopeName ho
  · by_cases hin : q <+: root
    · rw [hhas.directory q hin]
      rintro ⟨⟩
    · obtain ⟨r, rfl⟩ : root ++ [scopeName other] <+: q := by
        rcases hq with hq | hq
        · obtain rfl := (List.prefix_concat_iff.1 hq).resolve_right hin
          exact List.prefix_refl _
        · exact hq
      have := hlinks r (by rw [List.length_append] at hshort; omega) target
      simpa [treeAt] using this

/-! ## What changes a disk there -/

variable {d₂ : Disk} {q r : Path} {name : String} {names : List String}

/-- Shallow places are where their names say. -/
theorem place_eq (hq : Way 3 q) (hl : d₁.locate (root ++ q) false = .ok place) : place = root ++ q := by
  refine locate_plain (fun n hn => ?_) (fun r hr hlast target => ?_) hl
  · exact (List.mem_append.1 hn).elim (fun hn => (h.has.names n hn).leadless) (hq.leadless n)
  · rcases List.prefix_or_prefix_of_prefix hr (List.prefix_append root q) with hin | ⟨r', rfl⟩
    · rw [h.has.directory r hin]
      rintro ⟨⟩
    · have hr' : r' <+: q := (List.prefix_append_right_inj root).1 hr
      refine h.plain r' ?_ target
      by_contra hlong
      have hshort := hq.short
      have hall := hr'.eq_of_length_le (by omega)
      exact (hlast.resolve_right Bool.false_ne_true) (by rw [hall])

/-- What is done at a shallow place is done where its names say. -/
theorem located {α : Type} {f : Path → Answer α} {a : α} (hq : Way 3 q)
    (hm : (d₁.locate (root ++ q) false >>= f) = .ok a) : f (root ++ q) = .ok a := by
  cases hl : d₁.locate (root ++ q) false with
  | error fault => rw [hl] at hm; cases hm
  | ok place => rwa [hl, ok_bind, h.place_eq hq hl] at hm

theorem makeDirectory (hq : Way 3 q) (hown : own (root ++ q) = true)
    (hm : d₁.makeDirectory (root ++ q) = .ok d₂) : Kept root own d d₂ := by
  have hm := h.located hq hm
  split at hm <;> cases hm
  exact h.put hown (.inl fun _ => nofun)

theorem makeDirectoriesFrom (hq : Way 3 (q ++ names))
    (hown : ∀ r, r <+: names → r ≠ [] → own (root ++ q ++ r) = true)
    (hm : d₁.makeDirectoriesFrom (root ++ q) names = .ok d₂) : Kept root own d d₂ := by
  induction names generalizing d₁ q with
  | nil => cases hm; exact h
  | cons name names ih =>
    have hnext {d₃ : Disk} (h₃ : Kept root own d d₃)
        (hm : d₃.makeDirectoriesFrom (root ++ (q ++ [name])) names = .ok d₂) :
        Kept root own d d₂ := by
      refine ih h₃ (by simpa using hq) (fun r hr _ => ?_) hm
      have := hown (name :: r) (by simpa using hr) (List.cons_ne_nil _ _)
      simpa using this
    have hmade {d₃ : Disk} (hm : d₁.makeDirectory (root ++ (q ++ [name])) = .ok d₃) :
        Kept root own d d₃ := by
      rw [List.append_cons] at hq
      refine h.makeDirectory (hq.of_prefix (List.prefix_append _ _)) ?_ hm
      simpa using hown [name] (by simp) (List.cons_ne_nil _ _)
    rw [Disk.makeDirectoriesFrom, List.append_assoc] at hm
    dsimp only at hm
    split at hm
    · exact hnext h hm
    · cases hm
    · cases hd : d₁.makeDirectory (root ++ (q ++ [name])) with
      | error fault => rw [hd] at hm; cases hm
      | ok d₃ =>
        rw [hd] at hm
        exact hnext (hmade hd) hm
    · cases hm

/-- A tree is moved within the own part, and deep enough. -/
theorem move (hq : Way 3 q) (hr : Way 3 r) (hdeep : 2 < r.length)
    (hown : own (root ++ q) = true)
    (hown' : own (root ++ r) = true) (hm : d₁.move (root ++ q) (root ++ r) = .ok d₂) :
    Kept root own d d₂ := by
  have hmoved : Kept root own d
      ((d₁.cut (root ++ q)).graft (root ++ r) (d₁.subtree (root ++ q))) :=
    (h.cut hown).graft hown' (by rw [List.length_append]; omega) _
  have hm := h.located hq hm
  split at hm
  swap
  · cases hm
  have hm := h.located hr hm
  split at hm
  · cases hm
  split at hm
  · split at hm <;> cases hm
    exact hmoved
  · cases hm
  · cases hm
  · cases hm
    exact hmoved

/-- A directory from anywhere is copied into the own part, deep enough. -/
theorem copyTree {source : Path} (hr : Way 3 r) (hdeep : 2 < r.length)
    (hown : own (root ++ r) = true) (hm : d₁.copyTree source (root ++ r) = .ok d₂) :
    Kept root own d d₂ := by
  unfold Disk.copyTree at hm
  cases hl : d₁.locate source with
  | error fault => rw [hl] at hm; cases hm
  | ok place =>
  rw [hl, ok_bind] at hm
  split at hm
  · have hm := h.located hr hm
    have hmade := h.put hown (e := .directory) (.inl fun _ => nofun)
    split at hm
    · cases hm
    · split at hm <;> cases hm
      exact hmade.graft hown (by rw [List.length_append]; omega) _
  · cases hm
  · cases hm

theorem removeTree (hq : Way 3 q) (hown : own (root ++ q) = true)
    (hm : d₁.removeTree (root ++ q) = .ok d₂) : Kept root own d d₂ := by
  have hm := h.located hq hm
  split at hm <;> cases hm
  exact h.cut hown

theorem removeDirectory (hq : Way 3 q) (hown : own (root ++ q) = true)
    (hm : d₁.removeDirectory (root ++ q) = .ok d₂) : Kept root own d d₂ := by
  have hm := h.located hq hm
  split at hm
  · split at hm <;> cases hm
    exact h.cut hown
  · cases hm
  · cases hm

end Kept

/-- Other scopes give what they gave. -/
theorem Confined.agree {d₁ : Disk} {other : String} (h : Confined root tenant d d₁)
    (hd : Plain root d) (ht : IsScope tenant) (hne : other ≠ tenant) (hlinks : Unlinked root other d) :
    Agree root other d d₁ :=
  Kept.agree h hd (fun ho _ => isOwn_foreign ho ht hne) hlinks

/-- The directories that lead to a plugin of the scope. -/
theorem Confined.makeDirectories {d₁ d₂ : Disk} {name : String} (h : Confined root tenant d d₁)
    (ht : IsScope tenant) (hname : Leadless name)
    (hm : d₁.makeDirectories (root ++ [scopeName tenant, name]) = .ok d₂) :
    Confined root tenant d d₂ := by
  unfold Disk.makeDirectories at hm
  split at hm
  · cases hm
  have hskip := makeDirectoriesFrom_names [] root h.has [scopeName tenant, name]
  rw [List.nil_append] at hskip
  rw [hskip, ← List.append_nil root] at hm
  refine h.makeDirectoriesFrom ((way_plugin ht hname).mono (by omega)) (fun r hr hne => ?_) hm
  obtain ⟨n, r, rfl⟩ := List.exists_cons_of_ne_nil hne
  obtain rfl : n = scopeName tenant := (List.cons_prefix_cons.1 hr).1
  exact isOwn_iff.2 (.inl (by simp))

/-! ## Installing and removing -/

theorem isScope_of_scopePath {path : Path} (h : scopePath root tenant = .ok path) :
    IsScope tenant := by
  by_contra hno
  rw [scopePath_refused hno] at h
  cases h

theorem pluginPath_ok {name : String} {base : Path} (h : pluginPath root tenant name = .ok base) :
    IsScope tenant ∧ isComponent name ∧ base = root ++ [scopeName tenant, name] := by
  by_cases hscope : IsScope tenant
  swap
  · rw [pluginPath_refused hscope] at h
    cases h
  by_cases hname : isComponent name
  swap
  · rw [pluginPath_refused_name hscope hname] at h
    cases h
  rw [pluginPath_eq root hscope hname] at h
  exact ⟨hscope, hname, (Except.ok.inj h).symm⟩

theorem isComponent_of_check {what value : String} {u : Unit}
    (h : checkComponent what value = .ok u) : isComponent value := by
  unfold checkComponent at h
  split at h
  · assumption
  · cases h

variable {source : Path} {tag : Tag}

theorem isOwn_scope (q : Path) : isOwn root tenant (root ++ scopeName tenant :: q) = true :=
  isOwn_iff.2 (.inl (by simp))

theorem isOwn_staging (q : Path) : isOwn root tenant (root ++ stagingName :: q) = true :=
  isOwn_iff.2 (.inr (by simp))

theorem way_staging : Way 2 [stagingName, workName] :=
  (Way.nil.cons (by decide : IsName workName).leadless).cons isName_staging.leadless

theorem way_staged {name : String} (hname : IsName name) : Way 3 [stagingName, workName, name] :=
  way_staging.append hname.leadless

theorem way_version {name version : String} (ht : IsScope tenant) (hname : Leadless name)
    (hversion : Leadless version) : Way 3 [scopeName tenant, name, version] :=
  (way_plugin ht hname).append hversion

/-- The payload of a directory is staged in the own part. -/
theorem brings_stage (d : Disk) (tenant : String) : (stage (stagingPath root) source).Brings
    (fun s => Confined root tenant d s ∧ s.isDirectory source = .ok true)
    (Confined root tenant d) := by
  unfold stage
  dsimp only
  refine brings_known (fun _ h => h.1) fun isDirectory => ?_
  cases isDirectory with
  | false =>
    -- only an archive would be unpacked, at places that it names itself
    rintro s ⟨⟨-, htrue⟩, hfalse⟩
    rw [htrue] at hfalse
    cases hfalse
  | true =>
    rw [if_pos rfl]
    refine (brings_look (fun _ h => h) fun manifest => ?_).mono fun _ h => h.1.1
    refine brings_update (fun _ h => h) fun s s' h hcopy => ?_
    rw [show stagingPath root ++ ["payload"] = root ++ [stagingName, workName, "payload"] from
      stagingPath_append root "payload"] at hcopy
    exact h.copyTree (way_staged (by decide)) (by simp) (isOwn_staging _) hcopy

/-- A staged payload is placed in the own part. -/
theorem brings_place (d : Disk) (tenant : String) : (Hub.place root (stagingPath root) tenant).Brings
    (Confined root tenant d) (Confined root tenant d) := by
  unfold Hub.place
  dsimp only
  refine brings_look (fun _ h => h) fun staged => ?_
  refine .given (fun _ h => h) fun _ hname => ?_
  refine .given (fun _ h => h) fun _ hversion => ?_
  refine .given (fun _ h => h) fun base hbase => ?_
  obtain ⟨ht, -, rfl⟩ := pluginPath_ok hbase
  have hname : Leadless staged.name := proper_of_isComponent (isComponent_of_check hname)
  have hversion : Leadless staged.version := proper_of_isComponent (isComponent_of_check hversion)
  have hshelf := way_version ht hname hversion
  -- what is in the way goes to where the payload comes from, so both moves stay in the own part
  have hmove {s s' : Disk} {name : String} (h : Confined root tenant d s) (hin : IsName name) :
      (s.move (root ++ [scopeName tenant, staged.name] ++ [staged.version])
          (stagingPath root ++ [name]) = .ok s' → Confined root tenant d s') ∧
      (s.move (stagingPath root ++ [name])
          (root ++ [scopeName tenant, staged.name] ++ [staged.version]) = .ok s' →
        Confined root tenant d s') := by
    rw [stagingPath_append, List.append_assoc]
    exact ⟨h.move hshelf (way_staged hin) (by simp) (isOwn_scope _) (isOwn_staging _),
      h.move (way_staged hin) hshelf (by simp) (isOwn_staging _) (isOwn_scope _)⟩
  refine .bind (brings_update (fun _ h => h) fun s s' h hm => h.makeDirectories ht hname hm)
    (fun _ h => h) fun _ => ?_
  refine brings_look (fun _ h => h) fun there => ?_
  refine .whether (fun _ h => h) (fun _ => brings_update (fun _ h => h) fun s s' h =>
    (hmove h (by decide)).1) fun _ => ?_
  refine .bind (brings_update (fun _ h => h) fun s s' h =>
    (hmove h (by decide)).2) (fun _ h => h) fun _ => ?_
  exact brings_look (fun _ h => h) fun installed => Action.brings_pure _ fun _ h => h

/-- Installing from a directory changes the own part only, however it ends. -/
theorem brings_install (d : Disk) (tenant : String) : (Hub.install root tenant source).Brings
    (fun s => Confined root tenant d s ∧ s.isDirectory source = .ok true)
    (Confined root tenant d) := by
  have hmake {q : Path} (hq : Way 2 q) (hown : isOwn root tenant (root ++ q) = true) :
      (Disk.update (·.makeDirectory (root ++ q))).Brings
        (fun s => Confined root tenant d s ∧ s.isDirectory source = .ok true)
        (fun s => Confined root tenant d s ∧ s.isDirectory source = .ok true) :=
    brings_update (fun _ h => h) fun s s' h hm =>
      ⟨h.1.makeDirectory (hq.mono (by omega)) hown hm, isDirectory_makeDirectory h.2 hm⟩
  unfold Hub.install
  dsimp only
  refine brings_look (fun _ h => h.1) fun there => ?_
  refine .whether (fun _ h => h.1) (fun _ => Action.brings_ofOutcome _ fun _ h => h) fun _ => ?_
  refine .given (fun _ h => h.1) fun scope hscope => ?_
  refine brings_look (fun _ h => h.1) fun opened => ?_
  refine .whether (fun _ h => h.1) (fun _ => ?_) fun _ => ?_
  · rw [stagingPath_parent]
    exact hmake (way_staging.of_prefix (by simp)) (isOwn_staging [])
  refine .bind (hmake way_staging (isOwn_staging [workName])) (fun _ h => h.1) fun _ => ?_
  refine .followedBy ((brings_stage d tenant).bind (fun _ h => h) fun _ => brings_place d tenant) ?_
  exact brings_tryUpdate (fun _ h => h) fun s s' h hm =>
    h.removeTree (way_staging.mono (by omega)) (isOwn_staging [workName]) hm

theorem brings_removeVersions (d : Disk) (tag : Tag) {name : String} (ht : IsScope tenant)
    (hname : Leadless name) (versions : List String) (hversions : ∀ v ∈ versions, Leadless v) :
    (removeVersions tag (root ++ [scopeName tenant, name]) versions).Brings
      (Confined root tenant d) (Confined root tenant d) := by
  induction versions with
  | nil => exact Action.brings_pure _ fun _ h => h
  | cons version rest ih =>
    rw [removeVersions]
    refine brings_look (fun _ h => h) fun there => ?_
    refine .whether (fun _ h => h) (fun _ => Action.brings_ofOutcome _ fun _ h => h) fun _ => ?_
    refine .bind (brings_update (fun _ h => h) fun s s' h hm => ?_) (fun _ h => h) fun _ =>
      ih fun v hv => hversions v (List.mem_cons_of_mem _ hv)
    rw [List.append_assoc] at hm
    exact h.removeTree (way_version ht hname (hversions version List.mem_cons_self))
      (isOwn_scope _) hm

/-- Removing changes the own part only, however it ends. -/
theorem brings_remove (htree : d.IsTree) (h : Confined root tag.tenant d d) :
    (Hub.remove root tag).Brings (· = d) (Confined root tag.tenant d) := by
  have hsame : ∀ s, s = d → Confined root tag.tenant d s := by
    rintro s rfl
    exact h
  unfold Hub.remove
  refine .given hsame fun base hbase => ?_
  obtain ⟨ht, hname, rfl⟩ := pluginPath_ok hbase
  have hname : Leadless tag.name := proper_of_isComponent hname
  refine brings_look hsame fun there => ?_
  refine .whether hsame (fun _ => Action.brings_ofOutcome _ fun _ h => h) fun _ => ?_
  refine brings_known hsame fun installed => ?_
  have hchosen (versions : List String) (hversions : ∀ v ∈ versions, Leadless v) :
      (removeVersions tag (root ++ [scopeName tag.tenant, tag.name]) versions >>= fun _ =>
        Disk.tryUpdate (·.removeDirectory (root ++ [scopeName tag.tenant, tag.name]))).Brings
          (· = d) (Confined root tag.tenant d) := by
    refine ((brings_removeVersions d tag ht hname versions hversions).bind (fun _ h => h)
      fun _ => ?_).mono hsame
    exact brings_tryUpdate (fun _ h => h) fun s s' h hm =>
      h.removeDirectory ((way_plugin ht hname).mono (by omega)) (isOwn_scope _) hm
  -- nothing has changed yet, so the installed versions are names on a tree
  rintro s ⟨hs, hinstalled⟩
  have hleads : ∀ v ∈ installed, Leadless v :=
    leadless_versionsIn (fun q names => htree.leadless_list) (hs ▸ hinstalled)
  refine (?_ : Action.Brings (· = d) _ (Confined root tag.tenant d)) s hs
  split
  · by_cases hthere : tag.version ∈ installed
    · rw [if_neg (not_not.2 hthere)]
      exact hchosen _ fun v hv => List.mem_singleton.1 hv ▸ hleads _ hthere
    · rw [if_pos hthere]
      exact .given hsame fun _ hno => nomatch hno
  · refine .given hsame fun versions hsort => ?_
    refine .whether hsame (fun _ => Action.brings_ofOutcome _ fun _ h => h)
      fun _ => hchosen versions fun v hv => hleads v ?_
    rcases Version.sort_cases installed with ⟨sorted, hsorted, hperm⟩ | ⟨⟨e, he⟩, -⟩
    · cases hsorted.symm.trans hsort
      exact hperm.mem_iff.1 hv
    · cases he.symm.trans hsort

/-! ## What other scopes see of it -/

variable {other : String}

theorem install_unscoped (ht : ¬ IsScope tenant) :
    (Hub.install root tenant source).Brings (· = d) (· = d) := by
  unfold Hub.install
  dsimp only
  refine brings_look (fun _ h => h) fun there => ?_
  refine .whether (fun _ h => h) (fun _ => Action.brings_ofOutcome _ fun _ h => h) fun _ => ?_
  exact .given (fun _ h => h) fun path hpath => absurd (isScope_of_scopePath hpath) ht

/-- Installing from a directory leaves other scopes as they are, whether it succeeds or not. -/
theorem install_agrees (h : Plain root d) (hsource : d.isDirectory source = .ok true)
    (hne : other ≠ tenant) (hlinks : Unlinked root other d) :
    Agree root other d (Hub.install root tenant source d).2 := by
  by_cases ht : IsScope tenant
  · exact (brings_install d tenant d ⟨h.confined tenant, hsource⟩).agree h ht hne hlinks
  · rw [install_unscoped ht d rfl]
    exact .refl root other d

/-- Removing leaves other scopes as they are, whether it succeeds or not. -/
theorem remove_agrees (h : Plain root d) (hne : other ≠ tag.tenant) (hlinks : Unlinked root other d) :
    Agree root other d (Hub.remove root tag d).2 := by
  by_cases ht : IsScope tag.tenant
  · exact (brings_remove h.tree (h.confined tag.tenant) d rfl).agree h ht hne hlinks
  · have hsame : (Hub.remove root tag).Brings (· = d) (· = d) :=
      .given (fun _ h => h) fun base hbase => absurd (pluginPath_ok hbase).1 ht
    rw [hsame d rfl]
    exact .refl root other d

end Hub

theorem Caller.required_eq_ok {c : Caller} {tenant : String} (h : c.required = .ok tenant) :
    tenant = c.tenant := by
  unfold Caller.required at h
  split at h <;> cases h
  rfl

namespace Catalog

open AppBroker.Action

variable {w : World} {other : String}

theorem brings_change {α : Type} {act : Path → Action Disk α} {J : Disk → Prop}
    (h : J (act w.broker.hub w.disk).2) : (change act).Brings (· = w) (fun w' => J w'.disk) := by
  rintro _ rfl
  exact h

/-- What a caller installs from a directory leaves the scopes of others as they are. -/
theorem install_agrees (caller : Caller) {source : Path} (h : Hub.Plain w.broker.hub w.disk)
    (hsource : w.disk.isDirectory source = .ok true) (hne : other ≠ caller.tenant)
    (hlinks : Hub.Unlinked w.broker.hub other w.disk) :
    Hub.Agree w.broker.hub other w.disk (install caller source w).2.disk := by
  have hstays : ∀ w', w' = w → Hub.Agree w.broker.hub other w.disk w'.disk := by
    rintro _ rfl
    exact .refl _ _ _
  refine (.given hstays fun tenant htenant => brings_change ?_ :
    (install caller source).Brings (· = w) _) w rfl
  exact Hub.install_agrees h hsource (Caller.required_eq_ok htenant ▸ hne) hlinks

/-- What a caller removes leaves the scopes of others as they are. -/
theorem remove_agrees (caller : Caller) (reference : String) (h : Hub.Plain w.broker.hub w.disk)
    (hne : other ≠ caller.tenant) (hlinks : Hub.Unlinked w.broker.hub other w.disk) :
    Hub.Agree w.broker.hub other w.disk (remove caller reference w).2.disk := by
  have hstays : ∀ w', w' = w → Hub.Agree w.broker.hub other w.disk w'.disk := by
    rintro _ rfl
    exact .refl _ _ _
  refine (.given hstays fun tenant htenant => .given hstays fun tag htag => brings_change ?_ :
    (remove caller reference).Brings (· = w) _) w rfl
  exact Hub.remove_agrees h (Caller.required_eq_ok htenant ▸ hne) hlinks

end Catalog

end AppBroker
