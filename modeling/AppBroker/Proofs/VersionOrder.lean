import AppBroker.Version
import Mathlib.Data.List.Forall2

/-!
# The order of versions

Components are ordered totally, so keys are, and what `Version.latest` finds ranks below none of the
versions it was given (`Version.latest_cases`). Sorting rearranges versions and loses none
(`Version.sort_cases`). Both fail if one of the versions has no key.
-/

namespace AppBroker.Version

instance : Std.OrientedCmp Component.compare where
  eq_swap {a b} := by
    cases a <;> cases b <;> simp only [Component.compare]
    · exact Std.OrientedOrd.eq_swap
    · rfl
    · rfl
    · exact Std.OrientedOrd.eq_swap

instance : Std.TransCmp Component.compare where
  isLE_trans {a b c} := by
    cases a <;> cases b <;> cases c <;> simp [Component.compare]
    · exact Std.TransCmp.isLE_trans
    · exact Std.TransCmp.isLE_trans

instance : Std.TransCmp Key.compare :=
  have : Std.TransCmp fun a b : Key => List.compareLex Component.compare a.components b.components :=
    { eq_swap := Std.OrientedCmp.eq_swap, isLE_trans := Std.TransCmp.isLE_trans }
  have : Std.TransCmp fun a b : Key => Ord.compare a.raw b.raw :=
    { eq_swap := Std.OrientedCmp.eq_swap, isLE_trans := Std.TransCmp.isLE_trans }
  inferInstanceAs (Std.TransCmp (compareLex _ _))

/-- Whether a version can be ordered. -/
def HasKey (v : String) : Prop := ∃ k, key v = .ok k

theorem raw_of_key {v : String} {k : Key} (h : key v = .ok k) : k.raw = v := by
  unfold key at h
  cases hc : (v.toList.splitOnP isSeparator).mapM component with
  | error e => rw [hc] at h; cases h
  | ok components => rw [hc] at h; cases h; rfl

/-- The keys of versions, in their order. -/
theorem keyed_eq {versions : List String} (h : ∀ v ∈ versions, HasKey v) :
    ∃ keys, keyed versions = .ok keys ∧ keys.map Key.raw = versions ∧
      ∀ k ∈ keys, key k.raw = .ok k := by
  induction versions with
  | nil => exact ⟨[], rfl, rfl, by simp⟩
  | cons v versions ih =>
    obtain ⟨k, hk⟩ := h v (by simp)
    obtain ⟨keys, hkeys, hraw, hall⟩ := ih fun w hw => h w (List.mem_cons_of_mem v hw)
    unfold keyed at hkeys
    refine ⟨k :: keys, ?_, by simp [raw_of_key hk, hraw], ?_⟩
    · rw [keyed, List.mapM_cons, hk, hkeys]
      rfl
    · intro l hl
      rcases List.mem_cons.1 hl with rfl | hl
      · rwa [raw_of_key hk]
      · exact hall l hl

theorem hasKey_of_keyed {versions : List String} {keys : List Key} (h : keyed versions = .ok keys) :
    ∀ v ∈ versions, HasKey v := by
  unfold keyed at h
  induction versions generalizing keys with
  | nil => simp
  | cons v versions ih =>
    rw [List.mapM_cons] at h
    cases hk : key v with
    | error e => rw [hk] at h; cases h
    | ok k =>
      cases hrest : versions.mapM key with
      | error e => rw [hk, hrest] at h; cases h
      | ok rest => exact List.forall_mem_cons.2 ⟨⟨k, hk⟩, ih hrest⟩

/-- Sorting rearranges versions, or one of them has no key. -/
theorem sort_cases (versions : List String) :
    (∃ sorted, sort versions = .ok sorted ∧ sorted.Perm versions) ∨
      (∃ e, sort versions = .error e) ∧ ∃ v ∈ versions, ¬ HasKey v := by
  by_cases h : ∀ v ∈ versions, HasKey v
  · obtain ⟨keys, hkeys, hraw, -⟩ := keyed_eq h
    refine .inl ⟨_, by rw [sort, hkeys]; rfl, ?_⟩
    rw [← hraw]
    exact (List.mergeSort_perm _ _).map _
  · refine .inr ⟨?_, by simpa using h⟩
    cases hkeys : keyed versions with
    | error e => exact ⟨e, by rw [sort, hkeys]; rfl⟩
    | ok keys => exact absurd (hasKey_of_keyed hkeys) h

theorem foldl_maximum (keys : List Key) (k : Key) :
    let best := keys.foldl (fun best k => if best.compare k = .lt then k else best) k
    best ∈ k :: keys ∧ ∀ l ∈ k :: keys, (l.compare best).isLE := by
  induction keys generalizing k with
  | nil =>
    exact ⟨by simp, fun l hl => by
      rw [List.mem_singleton.1 hl]
      exact Std.ReflCmp.isLE_rfl⟩
  | cons j keys ih =>
    dsimp only at ih ⊢
    rw [List.foldl_cons]
    split
    · rename_i hlt
      obtain ⟨hmem, hall⟩ := ih j
      refine ⟨List.mem_cons_of_mem _ hmem, fun l hl => ?_⟩
      rcases List.mem_cons.1 hl with rfl | hl
      · refine Std.TransCmp.isLE_trans ?_ (hall j (by simp))
        rw [hlt]
        rfl
      · exact hall l hl
    · rename_i hge
      obtain ⟨hmem, hall⟩ := ih k
      refine ⟨?_, fun l hl => ?_⟩
      · rcases List.mem_cons.1 hmem with hk | hmem
        · rw [hk]; simp
        · exact List.mem_cons_of_mem _ (List.mem_cons_of_mem _ hmem)
      · rcases List.mem_cons.1 hl with rfl | hl
        · exact hall _ (by simp)
        · rcases List.mem_cons.1 hl with rfl | hl
          · refine Std.TransCmp.isLE_trans ?_ (hall k (by simp))
            rw [show l.compare k = (k.compare l).swap from Std.OrientedCmp.eq_swap]
            generalize k.compare l = o at hge
            cases o <;> simp_all
          · exact hall l (List.mem_cons_of_mem _ hl)

/-- Whether a version ranks at least as high as another one. -/
def RanksOver (v w : String) : Prop :=
  ∃ k l, key v = .ok k ∧ key w = .ok l ∧ (l.compare k).isLE

/-- The latest of versions is one of them, and none of them ranks above it; or one of them has no
key. -/
theorem latest_cases {versions : List String} (hne : versions ≠ []) :
    (∃ v, latest versions = .ok (some v) ∧ v ∈ versions ∧ ∀ w ∈ versions, RanksOver v w) ∨
      (∃ e, latest versions = .error e) ∧ ∃ v ∈ versions, ¬ HasKey v := by
  by_cases h : ∀ v ∈ versions, HasKey v
  swap
  · refine .inr ⟨?_, by simpa using h⟩
    cases hkeys : keyed versions with
    | error e => exact ⟨e, by rw [latest, hkeys]; rfl⟩
    | ok keys => exact absurd (hasKey_of_keyed hkeys) h
  left
  obtain ⟨keys, hkeys, rfl, hall⟩ := keyed_eq h
  cases keys with
  | nil => exact absurd rfl hne
  | cons k keys =>
    obtain ⟨hmem, hbest⟩ := foldl_maximum keys k
    refine ⟨_, by rw [latest, hkeys, ok_bind, maximum]; rfl, List.mem_map_of_mem hmem, ?_⟩
    intro w hw
    obtain ⟨l, hl, rfl⟩ := List.mem_map.1 hw
    exact ⟨_, _, hall _ hmem, hall l hl, hbest l hl⟩

theorem sortDescending_nil : sortDescending [] = .ok [] := by
  simp [sortDescending, keyed, pure, Except.pure]

theorem raw_of_compare {k l : Key} (h : k.compare l = .eq) : k.raw = l.raw := by
  have hraw : Ord.compare k.raw l.raw = .eq := (Ordering.then_eq_eq.1 h).2
  exact Std.LawfulEqOrd.eq_of_compare hraw

/-- Sorted the other way, versions start with the latest. -/
theorem sortDescending_latest {versions : List String} (hne : versions ≠ [])
    (hkeys : ∀ v ∈ versions, HasKey v) :
    ∃ v rest, latest versions = .ok (some v) ∧ sortDescending versions = .ok (v :: rest) := by
  obtain ⟨keys, hkeyed, rfl, -⟩ := keyed_eq hkeys
  obtain ⟨first, keys, rfl⟩ := List.exists_cons_of_ne_nil (by simpa using hne : keys ≠ [])
  obtain ⟨hmem, hbest⟩ := foldl_maximum keys first
  have hsorted := List.pairwise_mergeSort
    (fun (a b c : Key) (hab : (b.compare a).isLE) (hbc : (c.compare b).isLE) =>
      Std.TransCmp.isLE_trans hbc hab)
    (fun a b => by rw [@Std.OrientedCmp.eq_swap _ Key.compare]; cases a.compare b <;> rfl)
    (first :: keys)
  have hperm := List.mergeSort_perm (first :: keys) fun a b => (b.compare a).isLE
  generalize hs : (first :: keys).mergeSort (fun a b => (b.compare a).isLE) = sorted at hsorted hperm
  cases sorted with
  | nil => exact absurd (List.nil_perm.1 hperm) (List.cons_ne_nil _ _)
  | cons top rest =>
    generalize hb : keys.foldl (fun best k => if best.compare k = .lt then k else best) first = best
      at hmem hbest
    -- neither of the two ranks above the other, so they are the same version
    have htop : (best.compare top).isLE := by
      rcases List.mem_cons.1 (hperm.mem_iff.2 hmem) with rfl | hin
      · exact Std.ReflCmp.isLE_rfl
      · exact List.rel_of_pairwise_cons hsorted hin
    have hsame : top.raw = best.raw :=
      raw_of_compare (Std.OrientedCmp.isLE_antisymm (hbest top (hperm.mem_iff.1 List.mem_cons_self))
        htop)
    refine ⟨best.raw, rest.map Key.raw, ?_, ?_⟩
    · rw [latest, hkeyed, ok_bind, maximum, hb]
      rfl
    · rw [sortDescending, hkeyed, ok_bind, hs, List.map_cons, hsame]
      rfl

end AppBroker.Version
