import AppBroker.Proofs.HubScopes

/-!
# Trees that are carried and directories that are made

A move that goes well carries a tree from one place to another (`Disk.carried`), and to where nothing
is it does go well. Directories that are made one after the other (`Disk.Made`) add to a disk and change
nothing that was there.
-/

namespace AppBroker

/-- A new key comes last. -/
theorem Table.insert_new {κ α : Type} [DecidableEq κ] {t : Table κ α} {key : κ} (h : key ∉ t.keys)
    (value : α) : t.insert key value = t ++ [(key, value)] := by
  induction t with
  | nil => rfl
  | cons entry t ih =>
    obtain ⟨hne, hrest⟩ := not_or.1 (mt List.mem_cons.2 h)
    rw [Table.insert, if_neg (Ne.symm hne), ih hrest]
    rfl

namespace Disk

variable {d d' : Disk} {dir p q place : Path} {n : String} {follow : Bool}

theorem Has.child (h : d.Has dir) (hn : IsName n) (hd : d.entry? (dir ++ [n]) = some .directory) :
    d.Has (dir ++ [n]) where
  names m hm := (List.mem_append.1 hm).elim (h.names m) fun hm => List.mem_singleton.1 hm ▸ hn
  directory p hp := by
    rcases List.prefix_concat_iff.1 hp with rfl | hp
    · exact hd
    · exact h.directory p hp

theorem Has.parent (h : d.Has (dir ++ q)) : d.Has dir where
  names n hn := h.names n (List.mem_append_left _ hn)
  directory p hp := h.directory p (hp.trans (List.prefix_append _ _))

theorem Has.congr (h : d.Has dir) (hsame : ∀ p, p <+: dir → d'.entry? p = d.entry? p) : d'.Has dir where
  names := h.names
  directory p hp := (hsame p hp).trans (h.directory p hp)

theorem Has.isDirectory_self (h : d.Has dir) : d.isDirectory dir = .ok true := by
  rw [isDirectory, test, stat, locate_self h true, ok_bind, h.at]
  rfl

theorem isName_of_locate (h : d.Has dir) (hn : Leadless n)
    (hl : d.locate (dir ++ [n]) follow = .ok place) : IsName n := by
  by_contra hno
  rcases locate_unnamed h follow hn.1 hn.2.1 hn.2.2 hno with hl' | hl' <;>
    exact absurd (hl.symm.trans hl') (by simp)

/-- A new entry of a directory is listed last. -/
theorem names_put_new (hnone : d.entry? (dir ++ [n]) = none) (e : Entry) :
    (d.put (dir ++ [n]) e).names dir = d.names dir ++ [n] := by
  rw [entry?_eq_get? (by simp), ← Decidable.not_not (p := _ = _), ← ne_eq, ← mem_keys_iff] at hnone
  rw [names, names, put, Table.insert_new hnone]
  simp [Table.keys, List.filterMap_append, childName?_eq_some.2 rfl]

/-! ## Trees that are put somewhere -/

theorem entry?_graft {tree : Table Path Entry} (htree : tree.keys.Nodup) (hplace : place ≠ []) (p : Path) :
    Disk.entry? (d.graft place tree) p =
      if place <+: p then (Table.get? tree (p.drop place.length)).or (d.entry? p) else d.entry? p := by
  by_cases hp : p = []
  · subst hp
    rw [if_neg (by simpa using hplace)]
    rfl
  · rw [entry?_eq_get? hp, entry?_eq_get? hp]
    exact get?_graft d.entries tree htree place p

/-- A disk with a tree carried from one place to another. -/
def carried (d : Disk) (source target : Path) : Disk := (d.cut source).graft target (d.subtree source)

theorem move_ok {source target : Path} (hm : d.move source target = .ok d') :
    ∃ source' target', d.locate source false = .ok source' ∧ d.locate target false = .ok target' ∧
      d' = d.carried source' target' := by
  unfold move at hm
  cases hs : d.locate source false with
  | error fault => rw [hs] at hm; cases hm
  | ok source' =>
  rw [hs, ok_bind] at hm
  split at hm
  swap
  · cases hm
  cases ht : d.locate target false with
  | error fault => rw [ht] at hm; cases hm
  | ok target' =>
  rw [ht, ok_bind] at hm
  refine ⟨source', target', rfl, rfl, ?_⟩
  split at hm
  · cases hm
  split at hm
  · split at hm <;> cases hm
    rfl
  · cases hm
  · cases hm
  · cases hm
    rfl

/-- A tree is moved to where nothing is. -/
theorem move_free {source target source' target' : Path} (hs : d.locate source false = .ok source')
    (ht : d.locate target false = .ok target') (hsource : d.entry? source' ≠ none)
    (htarget : d.entry? target' = none) (hne : source' ≠ []) (hout : ¬ source' <+: target') :
    d.move source target = .ok (d.carried source' target') := by
  obtain ⟨moved, hmoved⟩ := Option.ne_none_iff_exists'.1 hsource
  rw [move, hs, ok_bind, hmoved]
  dsimp only
  rw [ht, ok_bind, Bool.eq_false_iff.2 (mt isWithin_iff.1 hout), htarget, if_neg (by simp [hne])]
  rfl

theorem carried_inside (honce : d.entries.keys.Nodup) {source target : Path} (hs : source ≠ [])
    (ht : target ≠ []) {e : Entry} (he : d.entry? (source ++ q) = some e) :
    entry? (d.carried source target) (target ++ q) = some e := by
  rw [carried, entry?_graft (nodup_keys_subtree honce _) ht, if_pos (List.prefix_append _ _),
    List.drop_left, ← treeAt_eq_get? hs, treeAt, he]
  rfl

theorem carried_outside (honce : d.entries.keys.Nodup) {source target : Path} (hs : source ≠ [])
    (ht : target ≠ []) (hq : ¬ target <+: q) (hq' : ¬ source <+: q) :
    entry? (d.carried source target) q = d.entry? q := by
  rw [carried, entry?_graft (nodup_keys_subtree honce _) ht, if_neg hq, entry?_cut hs,
    overlaid_outside hq']

theorem carried_gone (honce : d.entries.keys.Nodup) {source target : Path} (hs : source ≠ [])
    (ht : target ≠ []) (hout : ¬ target <+: source) :
    entry? (d.carried source target) source = none := by
  rw [carried, entry?_graft (nodup_keys_subtree honce _) ht, if_neg hout, entry?_cut hs,
    overlaid_at]

theorem once_carried (honce : d.entries.keys.Nodup) (source target : Path) :
    (d.carried source target).entries.keys.Nodup :=
  nodup_keys_graft (nodup_keys_filter honce _) _

/-! ## Directories that are made -/

/-- Directories that are made one after the other where nothing was. -/
inductive Made (may : Path → Prop) (d : Disk) : Disk → Prop
  | none : Made may d d
  | next {d' : Disk} {dir : Path} {n : String} : Made may d d' → may (dir ++ [n]) → IsName n →
      d'.entry? dir = some .directory → d'.entry? (dir ++ [n]) = .none →
      Made may d (d'.put (dir ++ [n]) .directory)

namespace Made

variable {may : Path → Prop} {d'' : Disk} (h : Made may d d')
include h

theorem tree (hd : d.IsTree) : d'.IsTree := by
  induction h with
  | none => exact hd
  | next _ _ hn hdir hnone ih => exact ih.put hdir hn hnone _

theorem trans (h' : Made may d' d'') : Made may d d'' := by
  induction h' with
  | none => exact h
  | next _ hmay hn hdir hnone ih => exact .next ih hmay hn hdir hnone

theorem mono {may' : Path → Prop} (hmay : ∀ p, may p → may' p) : Made may' d d' := by
  induction h with
  | none => exact .none
  | next _ hp hn hdir hnone ih => exact .next ih (hmay _ hp) hn hdir hnone

theorem entry?_cases (q : Path) : d'.entry? q = d.entry? q ∨
    (d.entry? q = .none ∧ d'.entry? q = some .directory ∧ may q) := by
  induction h with
  | none => exact .inl rfl
  | @next d' dir n _ hp _ _ hnone ih =>
    rw [entry?_put _ _ _ _ (by simp)]
    split
    · next heq =>
      subst heq
      rcases ih with hsame | ⟨-, hthere, -⟩
      · exact .inr ⟨hsame ▸ hnone, rfl, hp⟩
      · exact absurd (hnone.symm.trans hthere) (by simp)
    · exact ih

theorem more {e : Entry} (hq : d.entry? q = some e) : d'.entry? q = some e := by
  rcases h.entry?_cases q with hsame | ⟨hnone, -⟩
  · rw [hsame, hq]
  · exact absurd (hq.symm.trans hnone) (by simp)

theorem link_before {target : String} (hq : d'.entry? q = some (.link target)) :
    d.entry? q = some (.link target) := by
  rcases h.entry?_cases q with hsame | ⟨-, hdir, -⟩
  · rw [← hsame, hq]
  · exact absurd (hq.symm.trans hdir) (by simp)

end Made

end Disk

end AppBroker
