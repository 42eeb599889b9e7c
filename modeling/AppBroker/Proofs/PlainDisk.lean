import AppBroker.Disk
import AppBroker.Proofs.ReadBack

/-!
# Files in a directory

A directory that is found by its names, with no link on the way, has its files where their names
say. Names that no file can have are not found, or break the search. What is put into one file is
read from it, and all other places stay as they are.
-/

namespace AppBroker.Disk

/-- Whether a text is a name that a file or a directory may have. -/
structure IsName (n : String) : Prop where
  ne_empty : n ≠ ""
  ne_here : n ≠ "."
  ne_above : n ≠ ".."
  short : n.utf8ByteSize ≤ maxName
  no_null : '\x00' ∉ n.toList

theorem isName_iff {n : String} : IsName n ↔
    n ≠ "" ∧ n ≠ "." ∧ n ≠ ".." ∧ n.utf8ByteSize ≤ maxName ∧ '\x00' ∉ n.toList :=
  ⟨fun h => ⟨h.1, h.2, h.3, h.4, h.5⟩, fun ⟨h₁, h₂, h₃, h₄, h₅⟩ => ⟨h₁, h₂, h₃, h₄, h₅⟩⟩

instance (n : String) : Decidable (IsName n) := decidable_of_iff _ isName_iff.symm

/-- Whether a directory is found by going down its names, with no link on the way. -/
structure Has (d : Disk) (dir : Path) : Prop where
  names : ∀ n ∈ dir, IsName n
  directory : ∀ p, p <+: dir → d.entry? p = some .directory

variable {d : Disk} {dir : Path} {n : String}

theorem walk_names {names : List String} {here : Path} (follow : Bool) (fuel : Nat)
    (rest : List String) (hn : ∀ n ∈ names, IsName n)
    (hd : ∀ p, p <+: names → d.entry? (here ++ p) = some .directory) :
    d.walk follow (fuel + names.length) here (names ++ rest) =
      d.walk follow fuel (here ++ names) rest := by
  induction names generalizing here with
  | nil => simp
  | cons n names ih =>
    have hname := hn n (by simp)
    have hhere : d.entry? here = some .directory := by simpa using hd [] (by simp)
    have hchild : d.entry? (here ++ [n]) = some .directory := hd [n] (by simp)
    have hbelow : ∀ p, p <+: names → d.entry? (here ++ [n] ++ p) = some .directory :=
      fun p hp => by simpa using hd (n :: p) (by simpa using hp)
    have hrest := ih (fun m hm => hn m (List.mem_cons_of_mem n hm)) hbelow
    rw [List.length_cons, ← Nat.add_assoc, List.cons_append, walk, hhere]
    simp only [hname.ne_empty, hname.ne_here, hname.ne_above, Nat.not_lt.2 hname.short, hchild,
      decide_false, Bool.or_self, Bool.false_eq_true, if_false, hrest, List.append_assoc,
      List.cons_append, List.nil_append]

/-- The place of an entry of a directory, unless its name cannot be one. -/
theorem locate_child (h : d.Has dir) (follow : Bool) (hn : IsName n)
    (hlink : ∀ target, d.entry? (dir ++ [n]) ≠ some (.link target)) :
    d.locate (dir ++ [n]) follow = .ok (dir ++ [n]) := by
  have hnull : (dir ++ [n]).any (fun name => '\x00' ∈ name.toList) = false := by
    rw [List.any_eq_false]
    intro m hm
    rcases List.mem_append.1 hm with hm | hm
    · simpa using (h.names m hm).no_null
    · rw [List.mem_singleton.1 hm]
      simpa using hn.no_null
  have hwalk := @walk_names d dir [] follow 1001 [n] h.names fun p hp => h.directory p hp
  have hhere : d.entry? dir = some .directory := h.directory dir (List.prefix_refl dir)
  unfold locate
  rw [hnull, show (dir ++ [n]).length + 1000 = 1001 + dir.length by simp; omega, if_neg (by simp),
    hwalk, List.nil_append, walk, hhere]
  simp only [hn.ne_empty, hn.ne_here, hn.ne_above, Nat.not_lt.2 hn.short, decide_false,
    Bool.or_self, Bool.false_eq_true, if_false]
  split
  · rename_i target heq
    exact absurd heq (hlink target)
  · rw [walk]
  · simp

/-- What a directory cannot have is not found in it. -/
theorem locate_unnamed (h : d.Has dir) (follow : Bool) (he : n ≠ "") (hh : n ≠ ".") (ha : n ≠ "..")
    (hn : ¬ IsName n) :
    d.locate (dir ++ [n]) follow = .error .badName ∨
      d.locate (dir ++ [n]) follow = .error .nameTooLong := by
  unfold locate
  split
  · exact .inl rfl
  · rename_i hnull
    right
    have hnull' : '\x00' ∉ n.toList := by
      simp only [List.any_append, Bool.or_eq_true, not_or] at hnull
      simpa using hnull.2
    have hlong : maxName < n.utf8ByteSize :=
      Nat.lt_of_not_le fun hs => hn ⟨he, hh, ha, hs, hnull'⟩
    have hwalk := @walk_names d dir [] follow 1001 [n] h.names fun p hp => h.directory p hp
    have hhere : d.entry? dir = some .directory := h.directory dir (List.prefix_refl dir)
    rw [show (dir ++ [n]).length + 1000 = 1001 + dir.length by simp; omega, hwalk, List.nil_append,
      walk, hhere]
    simp [he, hh, ha, hlong]

theorem entry?_put (d : Disk) (p q : Path) (e : Entry) (hp : p ≠ []) :
    entry? (d.put p e) q = if p = q then some e else d.entry? q := by
  unfold entry? put
  by_cases hq : q = []
  · subst hq
    simp [hp]
  · simp [hq, Table.get?_insert]

theorem Has.put (h : d.Has dir) (n : String) (e : Entry) : (d.put (dir ++ [n]) e).Has dir where
  names := h.names
  directory p hp := by
    rw [ entry?_put _ _ _ _ (by simp), if_neg, h.directory p hp]
    rintro rfl
    have hlen := hp.length_le
    rw [List.length_append, List.length_singleton] at hlen
    omega

/-- What is read of a file in a directory. -/
theorem readText_child (h : d.Has dir) (hn : IsName n) {text : String}
    (hf : d.entry? (dir ++ [n]) = some (.file (Text.encode text))) :
    d.exists? (dir ++ [n]) = .ok true ∧
      d.readText (dir ++ [n]) = .ok (Text.unifyLineEnds text.toList) := by
  have hplace := locate_child h true hn (by simp [hf])
  have hstat : d.stat (dir ++ [n]) = .ok (.file (Text.encode text)) := by
    simp [stat, hplace, hf, pure, Except.pure]
  constructor
  · simp [exists?, test, hstat]
  · simp [readText, read, hstat, orBreak, Text.decode?_encode, pure, Except.pure]

/-- What is not there is not found, or cannot be looked for. -/
theorem exists?_absent (h : d.Has dir) (he : n ≠ "") (hh : n ≠ ".") (ha : n ≠ "..")
    (hf : d.entry? (dir ++ [n]) = none) :
    d.exists? (dir ++ [n]) = .ok false ∨ ∃ e, d.exists? (dir ++ [n]) = .error e := by
  by_cases hn : IsName n
  · have hplace := locate_child h true hn (by simp [hf])
    have hstat : d.stat (dir ++ [n]) = .error .absent := by
      simp [stat, hplace, hf]
    left
    simp [exists?, test, hstat, DiskFault.meansAbsent]
  · rcases locate_unnamed h true he hh ha hn with hl | hl
    · left
      simp [exists?, test, stat, hl, DiskFault.meansAbsent]
    · right
      simp [exists?, test, stat, hl, DiskFault.meansAbsent, fail]

end AppBroker.Disk
