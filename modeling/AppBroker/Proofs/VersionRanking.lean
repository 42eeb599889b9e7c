import AppBroker.Proofs.VersionOrder

/-!
# Versions are ranked strictly

Of two different versions that have keys exactly one ranks below the other: by the first component
in which they differ, or because one has run out of components, or by their text. So some versions
have one latest version and one order, whatever order they are given in and however often each is.
-/

namespace AppBroker.Version

/-- How two different components rank: numbers by value, words by their characters, and a word below
a number. -/
inductive Component.Below : Component → Component → Prop
  | words {a b : String} : a < b → Below (.word a) (.word b)
  | numbers {m n : Nat} : m < n → Below (.number m) (.number n)
  | mixed {a : String} {n : Nat} : Below (.word a) (.number n)

instance (v : String) : Decidable (HasKey v) :=
  match hv : key v with
  | .ok k => .isTrue ⟨k, hv⟩
  | .error _ => .isFalse fun ⟨_, hk⟩ => by simp [hk] at hv

/-- Whether a version ranks below another one. -/
def Precedes (v w : String) : Prop :=
  ∃ k l, key v = .ok k ∧ key w = .ok l ∧ k.compare l = .lt

instance (v w : String) : Decidable (Precedes v w) :=
  match hv : key v, hw : key w with
  | .ok k, .ok l => decidable_of_iff (k.compare l = .lt) <| by
      simp [Precedes, hv, hw]
  | .error _, _ => .isFalse fun ⟨_, _, hk, _⟩ => by simp [hk] at hv
  | _, .error _ => .isFalse fun ⟨_, _, _, hl, _⟩ => by simp [hl] at hw

/-- Whether a version is the one of several that all others rank below. -/
def IsLatest (versions : Set String) (v : String) : Prop :=
  v ∈ versions ∧ ∀ w ∈ versions, w ≠ v → Precedes w v

section Components

instance : Std.LawfulEqCmp Component.compare where
  compare_self {a} := by cases a <;> simp [Component.compare]
  eq_of_compare {a b} h := by
    cases a <;> cases b <;> simp_all [Component.compare]

theorem compare_text_eq_lt {a b : String} : Ord.compare a b = .lt ↔ a < b :=
  compareOfLessAndEq_eq_lt

theorem compare_eq_lt_iff {a b : Component} : a.compare b = .lt ↔ a.Below b := by
  constructor
  · intro h
    cases a <;> cases b <;> simp only [Component.compare] at h
    · exact .words (compare_text_eq_lt.1 h)
    · exact .mixed
    · cases h
    · exact .numbers (Nat.compare_eq_lt.1 h)
  · rintro (h | h | _)
    · exact compare_text_eq_lt.2 h
    · exact Nat.compare_eq_lt.2 h
    · rfl

theorem compareLex_append (same s t : List Component) :
    List.compareLex Component.compare (same ++ s) (same ++ t) =
      List.compareLex Component.compare s t := by
  induction same with
  | nil => rfl
  | cons c same ih =>
    have hself : c.compare c = .eq := Std.ReflCmp.compare_self
    rw [List.cons_append, List.cons_append, List.compareLex_cons_cons, hself, ih]
    rfl

end Components

section Ranking

variable {u v w : String} {k l : Key}

theorem precedes_iff (hk : key v = .ok k) (hl : key w = .ok l) :
    Precedes v w ↔ k.compare l = .lt := by
  simp [Precedes, hk, hl]

theorem not_precedes_self (v : String) : ¬ Precedes v v := by
  rintro ⟨k, l, hk, hl, h⟩
  obtain rfl : k = l := by simpa [hk] using hl
  have hself : k.compare k = .eq := Std.ReflCmp.compare_self
  rw [hself] at h
  cases h

theorem Precedes.trans (huv : Precedes u v) (hvw : Precedes v w) : Precedes u w := by
  obtain ⟨j, k, hj, hk, hjk⟩ := huv
  obtain ⟨k', l, hk', hl, hkl⟩ := hvw
  obtain rfl : k = k' := by simpa [hk] using hk'
  exact ⟨j, l, hj, hl, Std.TransCmp.lt_trans hjk hkl⟩

theorem Precedes.asymm (h : Precedes v w) : ¬ Precedes w v :=
  fun h' => not_precedes_self v (h.trans h')

theorem precedes_or_precedes (hv : HasKey v) (hw : HasKey w) (hne : v ≠ w) :
    Precedes v w ∨ Precedes w v := by
  obtain ⟨k, hk⟩ := hv
  obtain ⟨l, hl⟩ := hw
  rw [precedes_iff hk hl, precedes_iff hl hk]
  cases h : k.compare l with
  | lt => exact .inl rfl
  | eq => exact absurd (by rw [← raw_of_key hk, ← raw_of_key hl, raw_of_compare h]) hne
  | gt => exact .inr (Std.OrientedCmp.lt_of_gt h)

theorem RanksOver.precedes (h : RanksOver v w) (hne : w ≠ v) : Precedes w v := by
  obtain ⟨k, l, hk, hl, hle⟩ := h
  refine ⟨l, k, hl, hk, ?_⟩
  cases hc : l.compare k with
  | lt => rfl
  | eq => exact absurd (by rw [← raw_of_key hk, ← raw_of_key hl, raw_of_compare hc]) hne
  | gt => rw [hc] at hle; cases hle

theorem precedes_of_shorter (hk : key v = .ok k) (hl : key w = .ok l)
    (hshorter : k.components <+: l.components) (hne : k.components ≠ l.components) :
    Precedes v w := by
  obtain ⟨more, hmore⟩ := hshorter
  rw [precedes_iff hk hl]
  have hlex := compareLex_append k.components [] more
  rw [List.append_nil, hmore] at hlex
  cases more with
  | nil => exact absurd (by simpa using hmore) hne
  | cons c more =>
    rw [List.compareLex_nil_cons] at hlex
    rw [Key.compare, hlex]
    rfl

theorem precedes_iff_below {same s t : List Component} {a b : Component} (hk : key v = .ok k)
    (hl : key w = .ok l) (hv : k.components = same ++ a :: s) (hw : l.components = same ++ b :: t)
    (hne : a ≠ b) : Precedes v w ↔ a.Below b := by
  rw [precedes_iff hk hl, ← compare_eq_lt_iff, Key.compare, hv, hw, compareLex_append,
    List.compareLex_cons_cons]
  cases h : a.compare b with
  | lt => simp
  | eq => exact absurd (Std.LawfulEqCmp.eq_of_compare h) hne
  | gt => simp

theorem IsLatest.unique {versions : Set String} (hv : IsLatest versions v)
    (hw : IsLatest versions w) : v = w := by
  by_contra hne
  exact (hv.2 w hw.1 (Ne.symm hne)).asymm (hw.2 v hv.1 hne)

end Ranking

section Lists

variable {versions others : List String}

theorem latest_nil : latest [] = .ok none := rfl

theorem latest_of_ne_nil (hkeys : ∀ v ∈ versions, HasKey v) (hne : versions ≠ []) :
    ∃ v, latest versions = .ok (some v) ∧ IsLatest {w | w ∈ versions} v := by
  rcases latest_cases hne with ⟨v, hv, hmem, htop⟩ | ⟨-, v, hv, hkeyless⟩
  · exact ⟨v, hv, hmem, fun w hw hwv => (htop w hw).precedes hwv⟩
  · exact absurd (hkeys v hv) hkeyless

/-- What is latest depends on which versions there are only. -/
theorem latest_eq (hkeys : ∀ v ∈ versions, HasKey v) (hsame : ∀ v, v ∈ others ↔ v ∈ versions) :
    latest others = latest versions := by
  by_cases hne : versions = []
  · obtain rfl : others = [] := List.eq_nil_iff_forall_not_mem.2 fun v => by simp [hsame, hne]
    rw [hne]
  · obtain ⟨v, hv, hlatest⟩ := latest_of_ne_nil hkeys hne
    have hne' : others ≠ [] := by
      rintro rfl
      simpa using (hsame v).2 hlatest.1
    obtain ⟨w, hw, hlatest'⟩ := latest_of_ne_nil (fun u hu => hkeys u ((hsame u).1 hu)) hne'
    simp only [hsame] at hlatest'
    rw [hv, hw, hlatest.unique hlatest']

/-- A version that is added is the latest one from then on if the latest one ranked below it. -/
theorem latest_added {v old : String} (hkeys : ∀ u ∈ versions, HasKey u) (hv : HasKey v)
    (hold : latest versions = .ok (some old)) (hadded : ∀ u, u ∈ others ↔ u = v ∨ u ∈ versions) :
    latest others = .ok (some (if Precedes old v then v else old)) := by
  have hne : versions ≠ [] := by
    rintro rfl
    cases hold
  obtain ⟨top, htop, hlatest⟩ := latest_of_ne_nil hkeys hne
  obtain rfl : top = old := by simpa [htop] using hold
  have hkeys' : ∀ u ∈ others, HasKey u := by
    intro u hu
    rcases (hadded u).1 hu with rfl | hu
    · exact hv
    · exact hkeys u hu
  have hne' : others ≠ [] := List.ne_nil_of_mem ((hadded v).2 (.inl rfl))
  obtain ⟨new, hnew, hlatest'⟩ := latest_of_ne_nil hkeys' hne'
  simp only [hadded] at hlatest'
  rw [hnew]
  congr 2
  refine hlatest'.unique ?_
  split
  · rename_i hbelow
    refine ⟨.inl rfl, ?_⟩
    rintro u (rfl | hu) huv
    · exact absurd rfl huv
    · by_cases htop : u = top
      · rwa [htop]
      · exact (hlatest.2 u hu htop).trans hbelow
  · rename_i hnot
    refine ⟨.inr hlatest.1, ?_⟩
    rintro u (rfl | hu) htop
    · exact (precedes_or_precedes hv (hkeys _ hlatest.1) htop).resolve_right hnot
    · exact hlatest.2 u hu htop

/-- Whether each version ranks below all that come after it and differ from it. -/
def Ascending (versions : List String) : Prop :=
  versions.Pairwise fun v w => v = w ∨ Precedes v w

theorem Ascending.eq_of_perm (h : Ascending versions) (h' : Ascending others)
    (hperm : versions.Perm others) : versions = others := by
  refine List.Perm.eq_of_pairwise ?_ h h' hperm
  rintro v w - - (rfl | hvw) (hwv | hwv)
  · rfl
  · rfl
  · exact hwv.symm
  · exact absurd hwv hvw.asymm

theorem ascending_of_keys {keys : List Key} (hkeys : ∀ k ∈ keys, key k.raw = .ok k)
    (hsorted : keys.Pairwise fun k l => (k.compare l).isLE) : Ascending (keys.map Key.raw) := by
  rw [Ascending, List.pairwise_map]
  refine hsorted.imp_of_mem fun {k l} hk hl hle => ?_
  have hover : RanksOver l.raw k.raw := ⟨l, k, hkeys l hl, hkeys k hk, hle⟩
  by_cases hne : k.raw = l.raw
  · exact .inl hne
  · exact .inr (hover.precedes hne)

theorem pairwise_mergeSort_keys (keys : List Key) :
    (keys.mergeSort fun k l => (k.compare l).isLE).Pairwise fun k l => (k.compare l).isLE :=
  List.pairwise_mergeSort (fun _ _ _ => Std.TransCmp.isLE_trans)
    (fun k l => by rw [@Std.OrientedCmp.eq_swap _ Key.compare]; cases l.compare k <;> rfl) keys

theorem pairwise_mergeSort_keys_descending (keys : List Key) :
    (keys.mergeSort fun k l => (l.compare k).isLE).Pairwise fun k l => (l.compare k).isLE :=
  List.pairwise_mergeSort
    (fun (a b c : Key) (hab : (b.compare a).isLE) (hbc : (c.compare b).isLE) =>
      Std.TransCmp.isLE_trans hbc hab)
    (fun k l => by rw [@Std.OrientedCmp.eq_swap _ Key.compare]; cases k.compare l <;> rfl) keys

theorem sort_ascending (hkeys : ∀ v ∈ versions, HasKey v) :
    ∃ sorted, sort versions = .ok sorted ∧ sortDescending versions = .ok sorted.reverse ∧
      sorted.Perm versions ∧ Ascending sorted := by
  obtain ⟨keys, hkeyed, rfl, hraw⟩ := keyed_eq hkeys
  let up := keys.mergeSort fun k l => (k.compare l).isLE
  let down := keys.mergeSort fun k l => (l.compare k).isLE
  have hup : up.Perm keys := List.mergeSort_perm _ _
  have hdown : down.Perm keys := List.mergeSort_perm _ _
  have hascending : Ascending (up.map Key.raw) :=
    ascending_of_keys (fun k hk => hraw k (hup.mem_iff.1 hk)) (pairwise_mergeSort_keys keys)
  have hdescending : Ascending (down.reverse.map Key.raw) :=
    ascending_of_keys (fun k hk => hraw k (hdown.mem_iff.1 (List.mem_reverse.1 hk)))
      (List.pairwise_reverse.2 (pairwise_mergeSort_keys_descending keys))
  -- Both are the same versions in ascending order, of which there is only one.
  have hreverse : (down.map Key.raw).reverse = up.map Key.raw := by
    rw [← List.map_reverse]
    exact hdescending.eq_of_perm hascending
      ((down.reverse_perm.trans (hdown.trans hup.symm)).map Key.raw)
  refine ⟨up.map Key.raw, by rw [sort, hkeyed]; rfl, ?_, hup.map _, hascending⟩
  rw [sortDescending, hkeyed, ← hreverse, List.reverse_reverse]
  rfl

theorem sort_eq (hkeys : ∀ v ∈ versions, HasKey v) (hperm : others.Perm versions) :
    sort others = sort versions ∧ sortDescending others = sortDescending versions := by
  obtain ⟨sorted, hup, hdown, hsame, hasc⟩ := sort_ascending hkeys
  obtain ⟨sorted', hup', hdown', hsame', hasc'⟩ :=
    sort_ascending fun v hv => hkeys v (hperm.mem_iff.1 hv)
  obtain rfl : sorted' = sorted := hasc'.eq_of_perm hasc (hsame'.trans (hperm.trans hsame.symm))
  exact ⟨hup'.trans hup.symm, hdown'.trans hdown.symm⟩

end Lists

/-- Versions with keys are ranked strictly and totally, by their components before their text. So
the latest of several is the only one that all others rank below, and neither it nor their order
depends on how they are listed. -/
theorem versions_are_ranked :
    (∀ v w, HasKey v → HasKey w → v ≠ w → Xor (Precedes v w) (Precedes w v)) ∧
    (∀ v, ¬ Precedes v v) ∧
    (∀ u v w, Precedes u v → Precedes v w → Precedes u w) ∧
    (∀ v w k l, key v = .ok k → key w = .ok l →
      (k.components <+: l.components → k.components ≠ l.components → Precedes v w) ∧
      ∀ same a s b t, k.components = same ++ a :: s → l.components = same ++ b :: t → a ≠ b →
        (Precedes v w ↔ a.Below b)) ∧
    ∀ versions, (∀ v ∈ versions, HasKey v) →
      select versions "" = latest versions ∧
      (versions = [] → latest versions = .ok none) ∧
      (versions ≠ [] → ∃ v, latest versions = .ok (some v) ∧ IsLatest {w | w ∈ versions} v ∧
        ∀ w, IsLatest {w | w ∈ versions} w → w = v) ∧
      (∀ others, (∀ v, v ∈ others ↔ v ∈ versions) → latest others = latest versions) ∧
      (∃ sorted, sort versions = .ok sorted ∧ sorted.Perm versions ∧ Ascending sorted) ∧
      (∀ others : List String, others.Perm versions →
        sort others = sort versions ∧ sortDescending others = sortDescending versions) ∧
      ∀ v old others, HasKey v → latest versions = .ok (some old) →
        (∀ u, u ∈ others ↔ u = v ∨ u ∈ versions) →
          latest others = .ok (some (if Precedes old v then v else old)) := by
  refine ⟨?_, not_precedes_self, fun u v w => Precedes.trans, ?_, ?_⟩
  · intro v w hv hw hne
    rcases precedes_or_precedes hv hw hne with h | h
    · exact .inl ⟨h, h.asymm⟩
    · exact .inr ⟨h, h.asymm⟩
  · intro v w k l hk hl
    exact ⟨precedes_of_shorter hk hl, fun same a s b t => precedes_iff_below hk hl⟩
  · intro versions hkeys
    obtain ⟨sorted, hup, -, hperm, hasc⟩ := sort_ascending hkeys
    refine ⟨by rw [select, if_pos rfl], ?_, ?_, fun others => latest_eq hkeys,
      ⟨sorted, hup, hperm, hasc⟩, fun others => sort_eq hkeys,
      fun v old others hv hold => latest_added hkeys hv hold⟩
    · rintro rfl
      exact latest_nil
    · intro hne
      obtain ⟨v, hv, hlatest⟩ := latest_of_ne_nil hkeys hne
      exact ⟨v, hv, hlatest, fun w hw => hw.unique hlatest⟩

example : Precedes "1.0" "1.00.rc1" ∧ Precedes "1.0.rc1" "1.0.1" ∧ Precedes "1.9" "1.10" := by
  decide +kernel

/-- With a newer one among them, and listed in another order and twice over, versions have the newer
one as their latest. -/
theorem newer_version_is_latest :
    latest ["2.7", "3.10", "3.9"] = .ok (some "3.10") ∧
      latest ["3.11", "3.9", "2.7", "3.9", "3.10"] = .ok (some "3.11") := by
  have hold : latest ["2.7", "3.10", "3.9"] = .ok (some "3.10") := by decide +kernel
  obtain ⟨-, -, -, -, -, -, hadded⟩ :=
    versions_are_ranked.2.2.2.2 ["2.7", "3.10", "3.9"] (by decide +kernel)
  have hnew := hadded "3.11" "3.10" ["3.11", "3.9", "2.7", "3.9", "3.10"] (by decide +kernel) hold
    (by simp; grind)
  rw [if_pos (by decide +kernel)] at hnew
  exact ⟨hold, hnew⟩

end AppBroker.Version
