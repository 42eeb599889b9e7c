import AppBroker.Proofs.PlainDisk
import AppBroker.Disk.Update
import Mathlib.Data.List.Induction
import Mathlib.Data.List.Nodup
import Mathlib.Tactic.ByContra

/-!
# Trees on a disk

A disk is a tree if every entry lies in a directory under a possible name. A directory of a tree is
found by its names (`IsTree.has`). What an operation on a whole tree does is said by what lies below
each place (`treeAt`): it lays another tree over one place and leaves all other places as they are
(`overlaid`). Taking a tree away lays nothing over its place (`IsTree.cut`), copying lays a copy over
a place where nothing was (`IsTree.copied`), and moving does both (`IsTree.moved`). Each of them
leaves a tree behind.
-/

namespace AppBroker.Disk

/-- What lies below a place, by the path from there. -/
def treeAt (d : Disk) (place : Path) : Path → Option Entry := fun p => d.entry? (place ++ p)

/-- Whether every entry lies in a directory, and under a name that a file may have. -/
def Closed (tree : Path → Option Entry) : Prop :=
  ∀ p n, tree (p ++ [n]) ≠ none → tree p = some .directory ∧ IsName n

/-- A tree with another one in place of what lay at and below a place. -/
def overlaid (tree : Path → Option Entry) (place : Path) (other : Path → Option Entry) :
    Path → Option Entry := fun p =>
  if place <+: p then other (p.drop place.length) else tree p

/-- A disk on which every entry lies in a directory. -/
structure IsTree (d : Disk) : Prop where
  once : d.entries.keys.Nodup
  closed : Closed d.entry?

variable {d d' : Disk} {dir p q place : Path} {n : String} {tree other : Path → Option Entry}

/-! ## Overlays -/

theorem overlaid_inside (tree : Path → Option Entry) (place : Path) (other : Path → Option Entry)
    (p : Path) : overlaid tree place other (place ++ p) = other p := by
  simp [overlaid]

theorem overlaid_at (tree : Path → Option Entry) (place : Path) (other : Path → Option Entry) :
    overlaid tree place other place = other [] := by
  simp [overlaid]

theorem overlaid_outside (h : ¬ place <+: p) : overlaid tree place other p = tree p := by
  simp [overlaid, h]

theorem treeAt_append (d : Disk) (p q : Path) : d.treeAt (p ++ q) = fun r => d.treeAt p (q ++ r) := by
  funext r
  simp [treeAt]

theorem Closed.treeAt (h : Closed d.entry?) (place : Path) : Closed (d.treeAt place) := fun p n hn => by
  unfold Disk.treeAt at hn ⊢
  exact h (place ++ p) n (by simpa using hn)

theorem closed_none : Closed fun _ => none := fun _ _ h => absurd rfl h

/-- What is not there has nothing below it. -/
theorem Closed.none_below (h : Closed tree) (hp : tree p = none) (q : Path) : tree (p ++ q) = none := by
  induction q using List.reverseRecOn with
  | nil => simpa using hp
  | append_singleton q n ih =>
    by_contra hne
    have := (h (p ++ q) n (by simpa using hne)).1
    rw [ih] at this
    cases this

/-- What has something below it is a directory. -/
theorem Closed.directory_above (h : Closed tree) (hq : q ≠ []) (hne : tree (p ++ q) ≠ none) :
    tree p = some .directory := by
  obtain ⟨n, r, rfl⟩ := List.exists_cons_of_ne_nil hq
  by_contra hp
  have hchild : tree (p ++ [n]) = none := by
    by_contra hchild
    exact hp (h p n hchild).1
  exact hne (by simpa using h.none_below hchild r)

/-- Every name on the way to an entry is one that a file may have. -/
theorem Closed.isName (h : Closed tree) (hne : tree p ≠ none) (hn : n ∈ p) : IsName n := by
  obtain ⟨before, after, rfl⟩ := List.append_of_mem hn
  refine (h before n fun hnone => hne ?_).2
  simpa using h.none_below hnone after

/-- A closed tree that is laid over an entry of a directory leaves a closed tree. -/
theorem Closed.overlaid (h : Closed tree) (hother : Closed other)
    (htop : other [] ≠ none → tree dir = some .directory ∧ IsName n) :
    Closed (overlaid tree (dir ++ [n]) other) := by
  intro p m hm
  by_cases hin : dir ++ [n] <+: p
  · obtain ⟨q, rfl⟩ := hin
    rw [List.append_assoc, overlaid_inside] at hm
    rw [overlaid_inside]
    exact hother q m hm
  · rw [overlaid_outside hin]
    by_cases hat : dir ++ [n] <+: p ++ [m]
    · have heq : dir ++ [n] = p ++ [m] :=
        (List.prefix_concat_iff.1 hat).resolve_right hin
      obtain ⟨rfl, hn⟩ := List.append_inj' heq rfl
      obtain rfl : n = m := by simpa using hn
      refine htop fun hnone => hm ?_
      have := overlaid_inside tree (dir ++ [n]) other []
      rwa [List.append_nil, hnone] at this
    · rw [overlaid_outside hat] at hm
      exact h p m hm

/-! ## Where things lie -/

theorem entry?_nil (d : Disk) : d.entry? [] = some .directory := rfl

theorem entry?_eq_get? (hp : p ≠ []) : d.entry? p = d.entries.get? p := if_neg hp

theorem mem_keys_iff {t : Table Path Entry} : p ∈ t.keys ↔ t.get? p ≠ none := by
  rw [← Table.contains_iff_mem_keys, Table.contains, Option.isSome_iff_ne_none]

theorem childName?_eq_some : childName? dir p = some n ↔ p = dir ++ [n] := by
  unfold childName? Path.parent Path.name
  rcases List.eq_nil_or_concat p with rfl | ⟨q, m, rfl⟩
  · simp
  · simp only [ne_eq, List.concat_eq_append, List.append_eq_nil_iff, List.cons_ne_self, and_false,
      not_false_iff, decide_true, List.dropLast_concat, Bool.true_and, decide_eq_true_eq,
      List.getLast?_concat, Option.getD_some]
    constructor
    · intro h
      split at h
      · rename_i hq
        simpa [hq] using h
      · cases h
    · intro h
      obtain ⟨rfl, hm⟩ := List.append_inj' h rfl
      simpa using hm

/-- The names in a directory are those under which something lies there. -/
theorem mem_names : n ∈ d.names dir ↔ d.entry? (dir ++ [n]) ≠ none := by
  rw [entry?_eq_get? (by simp), ← mem_keys_iff, names, List.mem_filterMap]
  simp only [childName?_eq_some, exists_eq_right]

theorem IsTree.nodup_names (h : d.IsTree) (dir : Path) : (d.names dir).Nodup :=
  List.Nodup.filterMap (fun p q n hp hq => by
    rw [childName?_eq_some.1 hp, childName?_eq_some.1 hq]) h.once

/-- A list of entries makes a tree if each of them is listed after its directory, just once. -/
theorem IsTree.of_entries (honce : d.entries.keys.Nodup)
    (h : ∀ e ∈ d.entries, d.entry? e.1.dropLast = some .directory ∧ ∀ n ∈ e.1, IsName n) :
    d.IsTree where
  once := honce
  closed p n hn := by
    rw [entry?_eq_get? (by simp), ← mem_keys_iff] at hn
    obtain ⟨e, he, heq⟩ := List.mem_map.1 hn
    obtain ⟨hdir, hnames⟩ := h e he
    rw [heq, List.dropLast_concat] at hdir
    exact ⟨hdir, hnames n (by rw [heq]; simp)⟩

/-- A directory of a tree is found by its names. -/
theorem IsTree.has (h : d.IsTree) (hd : d.entry? dir = some .directory) : d.Has dir where
  names n hn := h.closed.isName (by simp [hd]) hn
  directory p hp := by
    obtain ⟨q, rfl⟩ := hp
    by_cases hq : q = []
    · simpa [hq] using hd
    · exact h.closed.directory_above hq (by simp [hd])

theorem Has.at (h : d.Has dir) : d.entry? dir = some .directory :=
  h.directory dir (List.prefix_refl dir)

theorem Has.no_null (h : d.Has dir) : dir.any (fun name => '\x00' ∈ name.toList) = false := by
  rw [List.any_eq_false]
  intro m hm
  simpa using (h.names m hm).no_null

theorem locate_self (h : d.Has dir) (follow : Bool) : d.locate dir follow = .ok dir := by
  have hwalk := @walk_names d dir [] follow 1000 [] h.names fun p hp => h.directory p hp
  rw [List.append_nil, List.nil_append] at hwalk
  rw [locate, h.no_null, if_neg (by simp), Nat.add_comm, hwalk, walk]

theorem list_self (h : d.Has dir) : d.list dir = .ok (d.names dir) := by
  simp [list, locate_self h, h.at, pure, Except.pure]

/-- A walk that ends at an entry goes on from there, also when more lies on the disk by then. -/
theorem walk_append {fuel : Nat} {here : Path} {names : List String}
    (hmore : ∀ p e, d.entry? p = some e → d'.entry? p = some e)
    (h : d.walk true fuel here names = .ok place) (hd : d.entry? place ≠ none)
    (extra : Nat) (rest : List String) :
    ∃ left, extra ≤ left ∧
      d'.walk true (fuel + extra) here (names ++ rest) = d'.walk true left place rest := by
  induction fuel generalizing here names with
  | zero =>
    cases names with
    | nil => cases h; exact ⟨extra, Nat.le_refl _, by simp⟩
    | cons name names => cases h
  | succ fuel ih =>
    cases names with
    | nil =>
      rw [walk] at h
      cases h
      exact ⟨fuel + 1 + extra, by omega, rfl⟩
    | cons name names =>
      rw [show fuel + 1 + extra = fuel + extra + 1 by omega, List.cons_append]
      rw [walk] at h ⊢
      dsimp only at h ⊢
      cases hhere : d.entry? here with
      | none => simp [hhere] at h
      | some e =>
        cases e with
        | file data => simp [hhere] at h
        | link target => simp [hhere] at h
        | directory =>
          simp only [hhere, hmore _ _ hhere, Bool.not_true, Bool.and_false, Bool.false_eq_true,
            if_false] at h ⊢
          by_cases hdot : (decide (name = "") || decide (name = ".")) = true
          · rw [if_pos hdot] at h ⊢
            exact ih h
          rw [if_neg hdot] at h ⊢
          by_cases hup : name = ".."
          · rw [if_pos hup] at h ⊢
            split at h
            · cases h
            · rename_i htop
              rw [if_neg htop]
              exact ih h
          rw [if_neg hup] at h ⊢
          split at h
          · cases h
          rename_i hlong
          rw [if_neg hlong]
          cases hchild : d.entry? (here ++ [name]) with
          | none =>
            rw [hchild] at h
            dsimp only at h
            split at h <;> cases h
            exact absurd hchild hd
          | some e =>
            rw [hchild] at h
            rw [hmore _ _ hchild]
            cases e with
            | file data => exact ih h
            | directory => exact ih h
            | link target =>
              dsimp only at h ⊢
              split at h
              · cases h
              · rename_i hfar
                rw [if_neg hfar, ← List.append_assoc]
                exact ih h

/-- A walk does not get past a name that is too long. -/
theorem walk_short {follow : Bool} {fuel : Nat} {here : Path} {names : List String}
    (h : d.walk follow fuel here names = .ok place) : ∀ n ∈ names, n.utf8ByteSize ≤ maxName := by
  induction fuel generalizing here names with
  | zero =>
    cases names with
    | nil => simp
    | cons name names => cases h
  | succ fuel ih =>
    cases names with
    | nil => simp
    | cons name names =>
      rw [walk] at h
      dsimp only at h
      split at h
      · by_cases hdot : (decide (name = "") || decide (name = ".")) = true
        · rw [if_pos hdot] at h
          have hname : name.utf8ByteSize ≤ maxName := by
            rcases (by simpa using hdot : name = "" ∨ name = ".") with rfl | rfl <;> decide
          exact List.forall_mem_cons.2 ⟨hname, ih h⟩
        rw [if_neg hdot] at h
        by_cases hup : name = ".."
        · rw [if_pos hup] at h
          split at h
          · cases h
          · exact List.forall_mem_cons.2 ⟨by subst hup; decide, ih h⟩
        rw [if_neg hup] at h
        split at h
        · cases h
        rename_i hlong
        refine List.forall_mem_cons.2 ⟨Nat.le_of_not_lt hlong, ?_⟩
        split at h
        · split at h
          · rename_i hlast
            simp_all
          · split at h
            · cases h
            · exact fun n hn => ih h n (List.mem_append_right _ hn)
        · exact ih h
        · split at h
          · rename_i hlast
            simp [hlast]
          · cases h
      · cases h
      · cases h

/-- A name in a directory that was found in any way. -/
theorem locate_on {source : Path} (hsource : d.locate source = .ok place)
    (hplace : d.entry? place = some .directory) (hn : IsName n)
    (hlink : ∀ target, d.entry? (place ++ [n]) ≠ some (.link target)) :
    d.locate (source ++ [n]) = .ok (place ++ [n]) := by
  unfold locate at hsource ⊢
  split at hsource
  · cases hsource
  rename_i hnull
  have hnull' : ¬ (source ++ [n]).any (fun name => '\x00' ∈ name.toList) = true := by
    simpa [hn.no_null] using hnull
  obtain ⟨left, hleft, hwalk⟩ := walk_append (fun _ _ he => he) hsource (by simp [hplace]) 1 [n]
  obtain ⟨fuel, rfl⟩ : ∃ fuel, left = fuel + 1 := ⟨left - 1, by omega⟩
  rw [if_neg hnull', show (source ++ [n]).length + 1000 = source.length + 1000 + 1 by simp,
    hwalk, walk, hplace]
  simp only [hn.ne_empty, hn.ne_here, hn.ne_above, Nat.not_lt.2 hn.short, decide_false,
    Bool.or_self, Bool.false_eq_true, if_false]
  split
  · rename_i target heq
    exact absurd heq (hlink target)
  · rw [walk]
  · simp

/-- What was found is found again when more lies on the disk. -/
theorem locate_more {source : Path} (hmore : ∀ p e, d.entry? p = some e → d'.entry? p = some e)
    (hsource : d.locate source = .ok place) (hplace : d.entry? place ≠ none) :
    d'.locate source = .ok place := by
  unfold locate at hsource ⊢
  split at hsource
  · cases hsource
  · rename_i hnull
    obtain ⟨left, -, hwalk⟩ := walk_append hmore hsource hplace 0 []
    rw [List.append_nil, Nat.add_zero] at hwalk
    rw [if_neg hnull, hwalk, walk]

theorem stat_ok {e : Entry} (h : d.stat p = .ok e) :
    ∃ place, d.locate p = .ok place ∧ d.entry? place = some e := by
  unfold stat at h
  cases hl : d.locate p with
  | error fault => rw [hl] at h; cases h
  | ok place =>
    rw [hl, ok_bind] at h
    split at h <;> cases h
    exact ⟨place, rfl, by assumption⟩

theorem stat_more {e : Entry} (hmore : ∀ p e, d.entry? p = some e → d'.entry? p = some e)
    (h : d.stat p = .ok e) : d'.stat p = .ok e := by
  obtain ⟨place, hl, he⟩ := stat_ok h
  rw [stat, locate_more hmore hl (by simp [he]), ok_bind, hmore place e he]
  rfl

theorem stat_of_test {holds : Entry → Bool} (h : d.test p holds = .ok true) :
    ∃ e, d.stat p = .ok e ∧ holds e = true := by
  unfold test at h
  split at h
  · exact ⟨_, by assumption, Except.ok.inj h⟩
  · split at h <;> cases h

/-- A test that was passed is passed when more lies on the disk. -/
theorem test_more {holds : Entry → Bool} (hmore : ∀ p e, d.entry? p = some e → d'.entry? p = some e)
    (h : d.test p holds = .ok true) : d'.test p holds = .ok true := by
  obtain ⟨e, he, hholds⟩ := stat_of_test h
  rw [test, stat_more hmore he]
  exact congrArg Except.ok hholds

/-- What a name in a directory leads to. -/
theorem stat_on {source : Path} (hsource : d.locate source = .ok place)
    (hplace : d.entry? place = some .directory) (hn : IsName n)
    (hlink : ∀ target, d.entry? (place ++ [n]) ≠ some (.link target)) :
    d.stat (source ++ [n]) =
      match d.entry? (place ++ [n]) with
      | some e => .ok e
      | none => .error .absent := by
  rw [stat, locate_on hsource hplace hn hlink, ok_bind]
  cases d.entry? (place ++ [n]) <;> rfl

theorem test_on {source : Path} (hsource : d.locate source = .ok place)
    (hplace : d.entry? place = some .directory) (hn : IsName n)
    (hlink : ∀ target, d.entry? (place ++ [n]) ≠ some (.link target)) (holds : Entry → Bool) :
    d.test (source ++ [n]) holds = .ok ((d.entry? (place ++ [n])).any holds) := by
  rw [test, stat_on hsource hplace hn hlink]
  cases d.entry? (place ++ [n]) <;> simp [DiskFault.meansAbsent]

/-- A test of a place that is not found: nothing is there, or the fault is reported. -/
theorem test_missing {fault : DiskFault} (h : d.locate p = .error fault) (holds : Entry → Bool) :
    d.test p holds = if fault.meansAbsent then .ok false else fail fault.breakage := by
  rw [test, stat, h, error_bind]

/-- A name with a null, or one in a directory that is not there, leads to nothing. -/
theorem locate_missing (h : d.Has dir) (hn : n.utf8ByteSize ≤ maxName) (he : n ≠ "") (hh : n ≠ ".")
    (ha : n ≠ "..") (hnone : d.entry? (dir ++ [n]) = none) (rest : List String) (hrest : rest ≠ [])
    (follow : Bool) :
    d.locate (dir ++ n :: rest) follow = .error .absent ∨
      d.locate (dir ++ n :: rest) follow = .error .badName := by
  unfold locate
  split
  · exact .inr rfl
  · left
    have hwalk := @walk_names d dir [] follow (1001 + rest.length) (n :: rest) h.names
      fun p hp => h.directory p hp
    rw [show (dir ++ n :: rest).length + 1000 = 1001 + rest.length + dir.length by simp; omega,
      hwalk, List.nil_append, show 1001 + rest.length = (1000 + rest.length) + 1 by omega, walk, h.at]
    simp [he, hh, ha, Nat.not_lt.2 hn, hnone, hrest]

/-! ## Changing a tree -/

theorem locate_of_null (h : '\x00' ∈ n.toList) (hn : n ∈ p) (follow : Bool) :
    d.locate p follow = .error .badName := by
  rw [locate, if_pos]
  exact List.any_eq_true.2 ⟨n, hn, by simpa using h⟩

theorem get?_filter (t : Table Path Entry) (keep : Path → Bool) (p : Path) :
    Table.get? (t.filter fun e => keep e.1) p = if keep p then t.get? p else none := by
  induction t with
  | nil => simp
  | cons e t ih =>
    obtain ⟨k, a⟩ := e
    by_cases hk : k = p
    · subst hk
      by_cases hkeep : keep k <;> simp_all [Table.get?]
    · by_cases hkeep : keep k <;> simp [hkeep, hk, Table.get?, ih]

theorem isWithin_iff : isWithin place p ↔ place <+: p := List.isPrefixOf_iff_prefix

theorem entry?_cut (hplace : place ≠ []) :
    Disk.entry? (d.cut place) = overlaid d.entry? place fun _ => none := by
  funext p
  by_cases hp : p = []
  · subst hp
    rw [overlaid_outside (by simpa using hplace), entry?_nil, entry?_nil]
  · rw [entry?_eq_get? hp, cut, get?_filter d.entries (fun q => !isWithin place q)]
    by_cases hin : place <+: p
    · rw [isWithin_iff.2 hin, overlaid, if_pos hin]
      rfl
    · rw [Bool.eq_false_iff.2 (mt isWithin_iff.1 hin), overlaid_outside hin, entry?_eq_get? hp]
      rfl

theorem subtree_inside (t : Table Path Entry) (place p : Path) (e : Entry) :
    subtree ⟨(place ++ p, e) :: t⟩ place = (p, e) :: subtree ⟨t⟩ place := by
  rw [subtree, List.filterMap_cons, isWithin_iff.2 (List.prefix_append place p)]
  simp [subtree]

theorem subtree_outside (t : Table Path Entry) (h : ¬ place <+: p) (e : Entry) :
    subtree ⟨(p, e) :: t⟩ place = subtree ⟨t⟩ place := by
  rw [subtree, List.filterMap_cons, Bool.eq_false_iff.2 (mt isWithin_iff.1 h)]
  rfl

theorem get?_subtree (d : Disk) (place p : Path) :
    (d.subtree place).get? p = d.entries.get? (place ++ p) := by
  obtain ⟨t⟩ := d
  induction t with
  | nil => rfl
  | cons e t ih =>
    obtain ⟨k, a⟩ := e
    by_cases hk : place <+: k
    · obtain ⟨r, rfl⟩ := hk
      rw [subtree_inside, Table.get?, Table.get?, ih]
      simp
    · have hne : k ≠ place ++ p := by rintro rfl; exact hk (List.prefix_append _ _)
      rw [subtree_outside t hk, ih, Table.get?, if_neg hne]

theorem nodup_keys_subtree (h : d.entries.keys.Nodup) (place : Path) :
    (d.subtree place).keys.Nodup := by
  obtain ⟨t⟩ := d
  induction t with
  | nil => exact List.nodup_nil
  | cons e t ih =>
    obtain ⟨k, a⟩ := e
    obtain ⟨hk, ht⟩ := List.nodup_cons.1 h
    by_cases hin : place <+: k
    · obtain ⟨r, rfl⟩ := hin
      rw [subtree_inside]
      refine List.nodup_cons.2 ⟨fun hmem => hk ?_, ih ht⟩
      have := mem_keys_iff.1 hmem
      rw [get?_subtree] at this
      exact mem_keys_iff.2 this
    · rw [subtree_outside t hin]
      exact ih ht

/-- A table whose entries are put below a place. -/
theorem get?_graft (t tree : Table Path Entry) (htree : tree.keys.Nodup) (place p : Path) :
    Table.get? (List.foldl (fun t e => t.insert (place ++ e.1) e.2) t tree) p =
      if place <+: p then (Table.get? tree (p.drop place.length)).or (t.get? p) else t.get? p := by
  induction tree generalizing t with
  | nil => simp
  | cons e tree ih =>
    obtain ⟨k, a⟩ := e
    obtain ⟨hk, htree⟩ := List.nodup_cons.1 htree
    rw [List.foldl_cons, ih _ htree, Table.get?_insert]
    by_cases hin : place <+: p
    · obtain ⟨r, rfl⟩ := hin
      simp only [List.prefix_append, if_true, List.drop_left, List.append_cancel_left_eq,
        Table.get?]
      by_cases hkr : k = r
      · subst hkr
        have hnone : Table.get? tree k = none := by
          by_contra hne
          exact hk (mem_keys_iff.2 hne)
        simp [hnone]
      · simp [hkr]
    · have hne : place ++ k ≠ p := by rintro rfl; exact hin (List.prefix_append _ _)
      simp [hin, hne]

theorem nodup_keys_graft {t tree : Table Path Entry} (h : t.keys.Nodup) (place : Path) :
    (tree.foldl (fun t e => t.insert (place ++ e.1) e.2) t).keys.Nodup := by
  induction tree generalizing t with
  | nil => exact h
  | cons e tree ih => exact ih (Table.nodup_keys_insert h _ _)

theorem nodup_keys_filter {t : Table Path Entry} (h : t.keys.Nodup) (keep : Path × Entry → Bool) :
    Table.keys (t.filter keep) |>.Nodup :=
  h.sublist (List.Sublist.map _ List.filter_sublist)

/-- Taking a tree away. -/
theorem IsTree.cut (h : d.IsTree) (hplace : place ≠ []) : (d.cut place).IsTree where
  once := nodup_keys_filter h.once _
  closed := by
    obtain ⟨dir, n, rfl⟩ : ∃ dir n, place = dir ++ [n] :=
      ⟨_, _, (List.dropLast_concat_getLast hplace).symm⟩
    rw [entry?_cut hplace]
    exact h.closed.overlaid closed_none fun hne => absurd rfl hne

/-- A file or an empty directory, where no directory is. -/
theorem IsTree.put_at (h : d.IsTree) (hdir : d.entry? dir = some .directory) (hn : IsName n)
    (hold : d.entry? (dir ++ [n]) ≠ some .directory) (e : Entry) : (d.put (dir ++ [n]) e).IsTree where
  once := Table.nodup_keys_insert h.once _ _
  closed := by
    intro p m hm
    rw [entry?_put _ _ _ _ (by simp)] at hm ⊢
    split at hm
    · rename_i heq
      obtain ⟨rfl, hmn⟩ := List.append_inj' heq rfl
      obtain rfl : n = m := by simpa using hmn
      rw [if_neg (by simp)]
      exact ⟨hdir, hn⟩
    · obtain ⟨hp, hm⟩ := h.closed p m hm
      rw [if_neg (by rintro rfl; exact hold hp)]
      exact ⟨hp, hm⟩

/-- A new file or an empty directory. -/
theorem IsTree.put (h : d.IsTree) (hdir : d.entry? dir = some .directory) (hn : IsName n)
    (hnone : d.entry? (dir ++ [n]) = none) (e : Entry) : (d.put (dir ++ [n]) e).IsTree :=
  h.put_at hdir hn (by simp [hnone]) e

theorem treeAt_put {root : Path} (hp : p ≠ []) (e : Entry) :
    (d.put (root ++ p) e).treeAt root = fun q => if p = q then some e else d.treeAt root q := by
  funext q
  rw [treeAt, entry?_put _ _ _ _ (by simp [hp])]
  simp [treeAt]

/-- The names in a directory do not change when something else is put on the disk. -/
theorem names_put (h : ∀ n, p ≠ dir ++ [n]) (e : Entry) : (d.put p e).names dir = d.names dir := by
  have hp : childName? dir p = none := by
    rw [Option.eq_none_iff_forall_ne_some]
    exact fun n hn => h n (childName?_eq_some.1 hn)
  obtain ⟨t⟩ := d
  unfold names put Table.keys
  dsimp only
  induction t with
  | nil => simp [Table.insert, hp]
  | cons first t ih =>
    obtain ⟨k, a⟩ := first
    unfold Table.insert
    split
    · rename_i hk
      simp [hk]
    · simp only [List.map_cons, List.filterMap_cons, ih]

/-- What lies below a directory after something was laid over a place in it. -/
theorem treeAt_overlaid {root : Path} (h : d'.entry? = overlaid d.entry? (root ++ p) tree) :
    d'.treeAt root = overlaid (d.treeAt root) p tree := by
  funext q
  unfold treeAt
  rw [h]
  by_cases hin : p <+: q
  · obtain ⟨r, rfl⟩ := hin
    rw [overlaid_inside, ← List.append_assoc, overlaid_inside]
  · rw [overlaid_outside hin, overlaid_outside (by simpa using hin)]

theorem makeDirectory_child (h : d.Has dir) (hn : IsName n) (hnone : d.entry? (dir ++ [n]) = none) :
    d.makeDirectory (dir ++ [n]) = .ok (d.put (dir ++ [n]) .directory) := by
  rw [makeDirectory, locate_child h false hn (by simp [hnone]), ok_bind, hnone]
  rfl

theorem makeDirectoriesFrom_names (lead names : Path) (h : d.Has (lead ++ names)) (rest : List String) :
    d.makeDirectoriesFrom lead (names ++ rest) = d.makeDirectoriesFrom (lead ++ names) rest := by
  induction names generalizing lead with
  | nil => simp
  | cons n names ih =>
    have hn : IsName n := h.names n (by simp)
    have hbefore : d.Has lead :=
      ⟨fun m hm => h.names m (by simp [hm]),
        fun p hp => h.directory p (hp.trans (List.prefix_append _ _))⟩
    have hchild : d.entry? (lead ++ [n]) = some .directory := h.directory _ (by simp)
    rw [List.cons_append, makeDirectoriesFrom]
    dsimp only
    rw [stat_on (locate_self hbefore true) hbefore.at hn (by simp [hchild]), hchild]
    show d.makeDirectoriesFrom (lead ++ [n]) (names ++ rest) = _
    rw [ih _ (by simpa using h)]
    simp

/-- A directory that is wanted is there already or is made, unless its name cannot be one. -/
theorem makeDirectoriesFrom_next (h : d.IsTree) (hdir : d.entry? dir = some .directory) (hn : IsName n)
    (hfree : d.entry? (dir ++ [n]) ≠ none → d.entry? (dir ++ [n]) = some .directory)
    (rest : List String) :
    ∃ d' : Disk, d.makeDirectoriesFrom dir (n :: rest) = d'.makeDirectoriesFrom (dir ++ [n]) rest ∧
      d'.IsTree ∧ d'.entry? = fun p => if dir ++ [n] = p then some .directory else d.entry? p := by
  have hhas := h.has hdir
  rw [makeDirectoriesFrom]
  dsimp only
  by_cases hnone : d.entry? (dir ++ [n]) = none
  · rw [stat_on (locate_self hhas true) hdir hn (by simp [hnone]), hnone]
    refine ⟨_, by rw [makeDirectory_child hhas hn hnone]; rfl, h.put hdir hn hnone _, ?_⟩
    funext p
    rw [entry?_put _ _ _ _ (by simp)]
  · have hthere := hfree hnone
    rw [stat_on (locate_self hhas true) hdir hn (by simp [hthere]), hthere]
    refine ⟨d, rfl, h, ?_⟩
    funext p
    split
    · rename_i heq
      rw [← heq, hthere]
    · rfl

theorem makeDirectoriesFrom_unnamed (h : d.Has dir) (he : n ≠ "") (hh : n ≠ ".") (ha : n ≠ "..")
    (hn : ¬ IsName n) (rest : List String) :
    ∃ fault, d.makeDirectoriesFrom dir (n :: rest) = .error fault := by
  rw [makeDirectoriesFrom]
  dsimp only
  rcases locate_unnamed h true he hh ha hn with hl | hl <;>
    exact ⟨_, by rw [stat, hl]; rfl⟩

/-- Two directories, one in the other, are there or are made, or their names cannot be theirs. -/
theorem makeDirectories_two {root : Path} {n m : String} (h : d.IsTree)
    (hroot : d.entry? root = some .directory)
    (hproper : ∀ k ∈ [n, m], k ≠ "" ∧ k ≠ "." ∧ k ≠ "..")
    (hn : d.treeAt root [n] ≠ none → d.treeAt root [n] = some .directory)
    (hm : d.treeAt root [n, m] ≠ none → d.treeAt root [n, m] = some .directory) :
    (IsName n ∧ IsName m ∧ ∃ d', d.makeDirectories (root ++ [n, m]) = .ok d' ∧ d'.IsTree ∧
      d'.treeAt root = fun p => if p = [n] ∨ p = [n, m] then some .directory else d.treeAt root p) ∨
    (¬ (IsName n ∧ IsName m) ∧ ∃ fault, d.makeDirectories (root ++ [n, m]) = .error fault) := by
  have hhas := h.has hroot
  obtain ⟨hne, hnh, hna⟩ := hproper n (by simp)
  obtain ⟨hme, hmh, hma⟩ := hproper m (by simp)
  unfold makeDirectories
  split
  · rename_i hnull
    refine .inr ⟨?_, _, rfl⟩
    rintro ⟨hnn, hmn⟩
    rw [List.any_append, hhas.no_null, Bool.false_or] at hnull
    simp [hnn.no_null, hmn.no_null] at hnull
  have hskip := makeDirectoriesFrom_names [] root (by simpa using hhas : d.Has ([] ++ root)) [n, m]
  rw [List.nil_append] at hskip
  rw [hskip]
  by_cases hnn : IsName n
  · obtain ⟨d₁, h₁, htree₁, hview₁⟩ := makeDirectoriesFrom_next h hroot hnn hn [m]
    have hdir₁ : d₁.entry? (root ++ [n]) = some .directory := by simp [hview₁]
    by_cases hmn : IsName m
    · have hfree : d₁.entry? (root ++ [n] ++ [m]) ≠ none →
          d₁.entry? (root ++ [n] ++ [m]) = some .directory := by
        simpa [hview₁, treeAt] using hm
      obtain ⟨d₂, h₂, htree₂, hview₂⟩ := makeDirectoriesFrom_next htree₁ hdir₁ hmn hfree []
      refine .inl ⟨hnn, hmn, d₂, by rw [h₁, h₂]; rfl, htree₂, ?_⟩
      funext p
      rw [treeAt, hview₂, hview₁]
      simp only [List.append_assoc, List.cons_append, List.nil_append, List.append_cancel_left_eq,
        treeAt]
      grind
    · obtain ⟨fault, hfault⟩ := makeDirectoriesFrom_unnamed (htree₁.has hdir₁) hme hmh hma hmn []
      exact .inr ⟨fun hboth => hmn hboth.2, fault, by rw [h₁, hfault]⟩
  · obtain ⟨fault, hfault⟩ := makeDirectoriesFrom_unnamed hhas hne hnh hna hnn [m]
    exact .inr ⟨fun hboth => hnn hboth.1, fault, hfault⟩

theorem removeTree_child (h : d.Has dir) (hn : IsName n)
    (hd : d.entry? (dir ++ [n]) = some .directory) :
    d.removeTree (dir ++ [n]) = .ok (d.cut (dir ++ [n])) := by
  rw [removeTree, locate_child h false hn (by simp [hd]), ok_bind, hd]
  rfl

theorem removeDirectory_child (h : d.Has dir) (hn : IsName n)
    (hd : d.entry? (dir ++ [n]) = some .directory) :
    d.removeDirectory (dir ++ [n]) =
      if d.names (dir ++ [n]) = [] then .ok (d.cut (dir ++ [n])) else .error .notEmpty := by
  rw [removeDirectory, locate_child h false hn (by simp [hd]), ok_bind, hd]
  rfl

/-- Nothing is moved to a place that cannot be found. -/
theorem move_nowhere (source : Path) {target : Path} {fault : DiskFault}
    (h : d.locate target false = .error fault) : ∃ fault', d.move source target = .error fault' := by
  unfold move
  cases d.locate source false with
  | error e => exact ⟨e, rfl⟩
  | ok source =>
    rw [ok_bind]
    cases d.entry? source with
    | none => exact ⟨_, rfl⟩
    | some moved => exact ⟨fault, by dsimp only; rw [h]; rfl⟩

theorem treeAt_eq_get? (hplace : place ≠ []) (p : Path) :
    d.treeAt place p = (d.subtree place).get? p := by
  rw [get?_subtree, treeAt, entry?_eq_get? (by simp [hplace])]

/-- A copy of a directory is made where nothing was, and holds what the directory holds. -/
theorem IsTree.copied (h : d.IsTree) {source : Path} (hsource : d.locate source = .ok place)
    (hplace : d.entry? place = some .directory) (hdir : d.entry? dir = some .directory)
    (hn : IsName n) (hnone : d.entry? (dir ++ [n]) = none) (hout : ¬ place <+: dir ++ [n]) :
    ∃ d', d.copyTree source (dir ++ [n]) = .ok d' ∧ d'.IsTree ∧
      d'.entry? = overlaid d.entry? (dir ++ [n]) (d.treeAt place) := by
  have htarget := locate_child (h.has hdir) false hn (by simp [hnone])
  have hne : place ≠ [] := by rintro rfl; exact hout (List.nil_prefix)
  refine ⟨_, by rw [copyTree, hsource, ok_bind, hplace]; dsimp only; rw [htarget, ok_bind,
    Bool.eq_false_iff.2 (mt isWithin_iff.1 hout), hnone]; rfl, ?_⟩
  have hview : Disk.entry? ((d.put (dir ++ [n]) .directory).graft (dir ++ [n])
      ((d.subtree place).filter (·.1 ≠ []))) =
        overlaid d.entry? (dir ++ [n]) (d.treeAt place) := by
    funext p
    by_cases hp : p = []
    · subst hp
      rw [entry?_nil, overlaid_outside (by simp), entry?_nil]
    rw [entry?_eq_get? hp, graft, get?_graft _ _ (nodup_keys_filter (nodup_keys_subtree h.once _) _),
      ← entry?_eq_get? hp, entry?_put _ _ _ _ (by simp), get?_filter _ fun q => decide (q ≠ [])]
    by_cases hin : dir ++ [n] <+: p
    · obtain ⟨q, rfl⟩ := hin
      rw [overlaid_inside, if_pos (List.prefix_append _ _), List.drop_left, treeAt_eq_get? hne]
      by_cases hq : q = []
      · subst hq
        rw [← treeAt_eq_get? hne, treeAt, List.append_nil, hplace]
        simp
      · have hbelow : d.entry? (dir ++ [n] ++ q) = none := h.closed.none_below hnone q
        have hself : dir ++ [n] ≠ dir ++ [n] ++ q := fun heq => hq (List.self_eq_append_right.1 heq)
        rw [hbelow, if_neg hself]
        simp [hq]
    · rw [if_neg hin, overlaid_outside hin, if_neg (by rintro rfl; exact hin (List.prefix_refl _))]
  refine ⟨⟨nodup_keys_graft (Table.nodup_keys_insert h.once _ _) _, ?_⟩, hview⟩
  rw [hview]
  exact h.closed.overlaid (h.closed.treeAt place) fun _ => ⟨hdir, hn⟩

theorem copyTree_within {source : Path} (hsource : d.locate source = .ok place)
    (hplace : d.entry? place = some .directory) (hdir : d.Has dir) (hn : IsName n)
    (hnone : d.entry? (dir ++ [n]) = none) (hin : place <+: dir ++ [n]) :
    d.copyTree source (dir ++ [n]) = .error .nameTooLong := by
  have htarget := locate_child hdir false hn (by simp [hnone])
  rw [copyTree, hsource, ok_bind, hplace]
  dsimp only
  rw [htarget, ok_bind, isWithin_iff.2 hin]
  rfl

/-- A directory is moved to where nothing was. -/
theorem IsTree.moved (h : d.IsTree) {dir' : Path} {n' : String}
    (hplace : d.entry? (dir ++ [n]) = some .directory) (hdir : d.entry? dir' = some .directory)
    (hn : IsName n') (hnone : d.entry? (dir' ++ [n']) = none) (hout : ¬ dir ++ [n] <+: dir' ++ [n']) :
    ∃ d', d.move (dir ++ [n]) (dir' ++ [n']) = .ok d' ∧ d'.IsTree ∧
      d'.entry? = overlaid (overlaid d.entry? (dir ++ [n]) fun _ => none) (dir' ++ [n'])
        (d.treeAt (dir ++ [n])) := by
  obtain ⟨habove, hname⟩ := h.closed dir n (by simp [hplace])
  have hsource := locate_child (h.has habove) false hname (by simp [hplace])
  have htarget := locate_child (h.has hdir) false hn (by simp [hnone])
  refine ⟨_, by rw [move, hsource, ok_bind, hplace]; dsimp only; rw [htarget, ok_bind,
    Bool.eq_false_iff.2 (mt isWithin_iff.1 hout), hnone]; simp; rfl, ?_⟩
  have hcut := h.cut (by simp : dir ++ [n] ≠ [])
  have hview : Disk.entry? ((d.cut (dir ++ [n])).graft (dir' ++ [n']) (d.subtree (dir ++ [n]))) =
      overlaid (overlaid d.entry? (dir ++ [n]) fun _ => none) (dir' ++ [n'])
        (d.treeAt (dir ++ [n])) := by
    funext p
    by_cases hp : p = []
    · subst hp
      rw [entry?_nil, overlaid_outside (by simp), overlaid_outside (by simp), entry?_nil]
    rw [entry?_eq_get? hp, graft, get?_graft _ _ (nodup_keys_subtree h.once _), ← entry?_eq_get? hp,
      entry?_cut (by simp)]
    by_cases hin : dir' ++ [n'] <+: p
    · obtain ⟨q, rfl⟩ := hin
      have hbelow : d.entry? (dir' ++ [n'] ++ q) = none := h.closed.none_below hnone q
      have hnot : overlaid d.entry? (dir ++ [n]) (fun _ => none) (dir' ++ [n'] ++ q) = none := by
        unfold overlaid
        split <;> simp_all
      rw [overlaid_inside, if_pos (List.prefix_append _ _), List.drop_left, hnot,
        treeAt_eq_get? (by simp), Option.or_none]
    · rw [if_neg hin, overlaid_outside hin]
  refine ⟨⟨nodup_keys_graft hcut.once _, ?_⟩, hview⟩
  rw [hview, ← entry?_cut (by simp)]
  refine hcut.closed.overlaid (h.closed.treeAt _) fun _ => ⟨?_, hn⟩
  rw [entry?_cut (by simp), overlaid_outside, hdir]
  intro hin
  exact hout (hin.trans (List.prefix_append _ _))

end AppBroker.Disk
