import AppBroker.Proofs.DiskMoves
import AppBroker.Proofs.HubConfined

/-!
# An installation at work

An installation works in a staging directory of its own. While it does, the hub is as it was, but for
the directories that lead to that directory and to the plugin, which are made where they are missing
(`Hub.Working`).
-/

namespace AppBroker.Hub

open Disk

variable {d d₀ d₁ s s' : Disk} {root source q : Path} {tenant : String} {p : Plugin} {may : Path → Prop}
  {own : Path → Bool}

theorem Plain.made (h : Plain root d) (hmade : Made may d d₁) : Plain root d₁ where
  tree := hmade.tree h.tree
  home := hmade.more h.home
  shallow p hp target hlink := h.shallow p hp target (hmade.link_before hlink)

theorem Unlinked.made (h : Unlinked root tenant d) (hmade : Made may d d₁) : Unlinked root tenant d₁ :=
  fun p hp target hlink => h p hp target (hmade.link_before hlink)

/-! ## Parts of a hub -/

/-- Whether a place lies in the staging directory of an installation. -/
def isStaged (root p : Path) : Bool := isWithin (stagingPath root) p

/-- Whether a place lies there or in the place of an edition. -/
def isInstalled (root : Path) (e : Edition) (p : Path) : Bool :=
  isStaged root p || isWithin (root ++ e.shelf) p

theorem isStaged_iff {p : Path} : isStaged root p = true ↔ stagingPath root <+: p := isWithin_iff

theorem not_isStaged (h : ¬ stagingPath root <+: q) : isStaged root q = false :=
  Bool.eq_false_iff.2 (mt isStaged_iff.1 h)

theorem not_above {place r : Path} (hr : r ≠ []) : ¬ place ++ r <+: place := fun hin =>
  hr (List.prefix_nil.1 ((List.prefix_append_right_inj place).1 (by simpa using hin)))

theorem isPart_within {place : Path} (h : ¬ place <+: root) : IsPart root (isWithin place) where
  below hp hin := h ((isWithin_iff.1 hp).trans hin)
  grows hp _ := isWithin_iff.2 ((isWithin_iff.1 hp).trans (List.prefix_append _ _))

theorem IsPart.or {own' : Path → Bool} (h : IsPart root own) (h' : IsPart root own') :
    IsPart root fun p => own p || own' p where
  below hp := (Bool.or_eq_true_iff.1 hp).elim h.below h'.below
  grows hp q := Bool.or_eq_true_iff.2 ((Bool.or_eq_true_iff.1 hp).imp (h.grows · q) (h'.grows · q))

theorem isPart_staged (root : Path) : IsPart root (isStaged root) :=
  isPart_within (not_above (List.cons_ne_nil _ _))

theorem isPart_installed (root : Path) (e : Edition) : IsPart root (isInstalled root e) :=
  (isPart_staged root).or (isPart_within (not_above (List.cons_ne_nil _ _)))

theorem Kept.mono {own' : Path → Bool} (h : Kept root own d s) (hpart : IsPart root own')
    (hsub : ∀ p, own p = true → own' p = true) : Kept root own' d s where
  part := hpart
  has := h.has
  rest := by
    have hfilter (t : Table Path Entry) : t.filter (fun e => !own' e.1) =
        (t.filter fun e => !own e.1).filter fun e => !own' e.1 := by
      rw [List.filter_filter]
      refine List.filter_congr fun e _ => ?_
      cases hown : own e.1 with
      | true => simp [hsub _ hown]
      | false => simp
    rw [hfilter s.entries, h.rest, ← hfilter]
  plain := h.plain

/-- What is staged is where its name says. -/
theorem Kept.place_staged (h : Kept root own d s) {name : String} (hname : IsName name) {place : Path}
    (hl : s.locate (stagingPath root ++ [name]) false = .ok place) :
    place = stagingPath root ++ [name] := by
  rw [stagingPath_append] at hl ⊢
  exact h.place_eq (way_staged hname) hl

/-- A directory that is made on both of two disks. -/
theorem Kept.put_both (h : Kept root own d s) {p : Path} (hp : own p = false) (hne : p ≠ [])
    (hnone : s.entry? p = none) : Kept root own (d.put p .directory) (s.put p .directory) where
  part := h.part
  has := ⟨h.has.names, fun q hq => by
    rw [entry?_put _ _ _ _ hne]
    split
    · rfl
    · exact h.has.directory q hq⟩
  rest := by
    have hnew {t : Table Path Entry} (ht : p ∉ t.keys) :
        (Table.insert t p Entry.directory).filter (fun e => !own e.1) =
          t.filter (fun e => !own e.1) ++ [(p, .directory)] := by
      rw [Table.insert_new ht, List.filter_append]
      simp [hp]
    have hd : d.entry? p = none := (h.entry?_eq hp).symm.trans hnone
    rw [entry?_eq_get? hne, ← Decidable.not_not (p := _ = _), ← ne_eq, ← mem_keys_iff] at hnone hd
    show (Table.insert s.entries p Entry.directory).filter _ =
      (Table.insert d.entries p Entry.directory).filter _
    rw [hnew hnone, hnew hd, h.rest]
  plain q hq target hlink := by
    rw [treeAt, entry?_put _ _ _ _ hne] at hlink
    split at hlink
    · cases hlink
    · exact h.plain q hq target hlink

/-! ## At work -/

/-- An installation at work: only in the staging directory there is something else. -/
structure Working (root : Path) (d₀ s : Disk) : Prop where
  plain : Plain root d₀
  kept : Kept root (isStaged root) d₀ s
  once : s.entries.keys.Nodup
  has : s.Has (stagingPath root)

namespace Working

variable (h : Working root d₀ s) {r : Path} {name : String}
include h

theorem put (hr : r ≠ []) (e : Entry) : Working root d₀ (s.put (stagingPath root ++ r) e) where
  plain := h.plain
  kept := h.kept.put (isStaged_iff.2 (List.prefix_append _ _)) (.inr (by
    have := List.length_pos_of_ne_nil hr
    simp [stagingPath]
    omega))
  once := Table.nodup_keys_insert h.once _ _
  has := h.has.congr fun p hp => by
    rw [entry?_put _ _ _ _ (by simp [hr]), if_neg]
    rintro rfl
    exact not_above hr hp

theorem cut (hr : r ≠ []) : Working root d₀ (s.cut (stagingPath root ++ r)) where
  plain := h.plain
  kept := h.kept.cut (isStaged_iff.2 (List.prefix_append _ _))
  once := nodup_keys_filter h.once _
  has := h.has.congr fun p hp => by
    rw [entry?_cut (by simp [hr]), overlaid_outside fun hin => not_above hr (hin.trans hp)]

theorem graft (hr : r ≠ []) (tree : Table Path Entry) :
    Working root d₀ (s.graft (stagingPath root ++ r) tree) := by
  induction tree generalizing s with
  | nil => exact h
  | cons e tree ih =>
    refine ih ?_
    rw [List.append_assoc]
    exact h.put (by simp [hr]) e.2

/-- A directory is copied into the staging directory. -/
theorem copied (hname : IsName name) {source : Path}
    (hm : s.copyTree source (stagingPath root ++ [name]) = .ok s') :
    Working root d₀ s' ∧ ∃ place, s.locate source = .ok place ∧ s.entry? place = some .directory ∧
      ∀ q e, s.entry? (place ++ q) = some e → s'.entry? (stagingPath root ++ [name] ++ q) = some e := by
  unfold Disk.copyTree at hm
  cases hl : s.locate source with
  | error fault => rw [hl] at hm; cases hm
  | ok place =>
  rw [hl, ok_bind] at hm
  split at hm
  rotate_left
  · cases hm
  · cases hm
  next hplace =>
  cases ht : s.locate (stagingPath root ++ [name]) false with
  | error fault => rw [ht] at hm; cases hm
  | ok target =>
  obtain rfl := h.kept.place_staged hname ht
  rw [ht, ok_bind] at hm
  split at hm
  · cases hm
  next hout =>
  split at hm <;> cases hm
  have hne : place ≠ [] := by
    rintro rfl
    exact hout (isWithin_iff.2 List.nil_prefix)
  refine ⟨(h.put (List.cons_ne_nil _ _) _).graft (List.cons_ne_nil _ _) _, place, rfl, hplace,
    fun q e he => ?_⟩
  rw [entry?_graft (nodup_keys_filter (nodup_keys_subtree h.once _) _) (by simp),
    if_pos (List.prefix_append _ _), List.drop_left, entry?_put _ _ _ _ (by simp),
    get?_filter _ fun q => decide (q ≠ [])]
  by_cases hq : q = []
  · subst hq
    rw [List.append_nil, hplace] at he
    simpa using he
  · rw [← treeAt_eq_get? hne, treeAt, he]
    simp [hq]

/-- A directory in the upper levels is there or is made, in the hub as well. -/
theorem makeNext {dir : Path} {n : String} (hdir : s.Has dir) (hn : Leadless n)
    (hout : isStaged root (dir ++ [n]) = false)
    (hlink : ∀ target, s.entry? (dir ++ [n]) ≠ some (.link target)) (rest : List String)
    (hm : s.makeDirectoriesFrom dir (n :: rest) = .ok s') :
    ∃ d₁ s₁, Made (· = dir ++ [n]) d₀ d₁ ∧ Working root d₁ s₁ ∧ s₁.Has (dir ++ [n]) ∧
      (∀ q, isStaged root q = true → s₁.entry? q = s.entry? q) ∧
      s₁.makeDirectoriesFrom (dir ++ [n]) rest = .ok s' := by
  by_cases hname : IsName n
  swap
  · obtain ⟨fault, hfault⟩ := makeDirectoriesFrom_unnamed hdir hn.1 hn.2.1 hn.2.2 hname rest
    exact absurd (hm.symm.trans hfault) (by simp)
  have hstat := stat_on (locate_self hdir true) hdir.at hname hlink
  rw [makeDirectoriesFrom] at hm
  dsimp only at hm
  rw [hstat] at hm
  cases hthere : s.entry? (dir ++ [n]) with
  | none =>
    rw [hthere] at hm
    dsimp only at hm
    rw [makeDirectory_child hdir hname hthere] at hm
    have hdir₀ : d₀.entry? dir = some .directory := by
      rw [← hdir.at]
      refine (h.kept.entry?_eq (Bool.eq_false_iff.2 fun hin => ?_)).symm
      rw [(isPart_staged root).grows hin] at hout
      cases hout
    refine ⟨d₀.put (dir ++ [n]) .directory, s.put (dir ++ [n]) .directory,
      Made.none.next rfl hname hdir₀ ((h.kept.entry?_eq hout).symm.trans hthere), ⟨?_, ?_, ?_, ?_⟩,
      ?_, fun q hq => ?_, hm⟩
    · exact h.plain.made (@Made.next (fun _ => True) _ _ _ _ .none trivial hname hdir₀
        ((h.kept.entry?_eq hout).symm.trans hthere))
    · exact h.kept.put_both hout (by simp) hthere
    · exact Table.nodup_keys_insert h.once _ _
    · exact h.has.congr fun p hp => by
        rw [entry?_put _ _ _ _ (by simp), if_neg]
        rintro rfl
        have := h.has.directory _ hp
        rw [hthere] at this
        cases this
    · exact (hdir.put n _).child hname (by rw [entry?_put _ _ _ _ (by simp), if_pos rfl])
    · rw [entry?_put _ _ _ _ (by simp), if_neg]
      rintro rfl
      rw [hout] at hq
      cases hq
  | some e =>
    rw [hthere] at hm
    cases e with
    | file data => cases hm
    | link target => exact absurd hthere (hlink target)
    | directory =>
      exact ⟨d₀, s, .none, h, hdir.child hname hthere, fun _ _ => rfl, hm⟩

/-- The directories that lead to a plugin are there or are made, in the hub as well. -/
theorem makeDirectories {a b : String} (ha : Leadless a) (hb : Leadless b) (hne : a ≠ stagingName)
    (hm : s.makeDirectories (root ++ [a, b]) = .ok s') :
    ∃ d₁, Made (fun p => p = root ++ [a] ∨ p = root ++ [a, b]) d₀ d₁ ∧ Working root d₁ s' ∧
      s'.Has (root ++ [a, b]) ∧ ∀ q, isStaged root q = true → s'.entry? q = s.entry? q := by
  have hout (q : Path) : isStaged root (root ++ a :: q) = false :=
    not_isStaged (by simp [stagingPath, Ne.symm hne])
  have hshallow {d₁ w : Disk} (hw : Working root d₁ w) {q : Path} (hq : q.length ≤ 2)
      (target : String) : w.entry? (root ++ q) ≠ some (.link target) := hw.kept.plain q hq target
  unfold Disk.makeDirectories at hm
  split at hm
  · cases hm
  have hskip := makeDirectoriesFrom_names [] root (by simpa using h.kept.has : s.Has ([] ++ root)) [a, b]
  rw [List.nil_append] at hskip
  rw [hskip] at hm
  obtain ⟨d₁, s₁, hmade₁, h₁, hhas₁, hsame₁, hm₁⟩ := h.makeNext h.kept.has ha (hout [])
    (hshallow h (by simp)) [b] hm
  have hpath : root ++ [a] ++ [b] = root ++ [a, b] := by simp
  obtain ⟨d₂, s₂, hmade₂, h₂, hhas₂, hsame₂, hm₂⟩ := h₁.makeNext hhas₁ hb (by rw [hpath]; exact hout [b])
    (by rw [hpath]; exact hshallow h₁ (by simp)) [] hm₁
  cases hm₂
  rw [hpath] at hhas₂ hmade₂
  exact ⟨d₂, (hmade₁.mono fun p hp => .inl hp).trans (hmade₂.mono fun p hp => .inr hp), h₂, hhas₂,
    fun q hq => (hsame₂ q hq).trans (hsame₁ q hq)⟩

end Working

end AppBroker.Hub
