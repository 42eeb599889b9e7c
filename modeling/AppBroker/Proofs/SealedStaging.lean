import AppBroker.Proofs.HubPlacing

/-!
# A staging directory without links

Where no name steps back and no link lies, every walk from a directory stays below it
(`Disk.walk_below`). So what is written or made in a staging directory without links, at names that
do not step back, lies in it (`Hub.Sealed`).
-/

namespace AppBroker

namespace Disk

variable {d s : Disk} {here place : Path} {names : List String} {n : String} {follow : Bool} {fuel : Nat}

/-- A walk without steps back stays below where it starts, if there are no links. -/
theorem walk_below (hlink : ∀ q target, d.entry? (here ++ q) ≠ some (.link target))
    (hnames : ".." ∉ names) (h : d.walk follow fuel here names = .ok place) :
    ∃ r, place = here ++ r ∧ ∀ n ∈ r, Leadless n := by
  induction names generalizing fuel here with
  | nil =>
    cases fuel <;> cases h <;> exact ⟨[], by simp, by simp⟩
  | cons name names ih =>
    cases fuel with
    | zero => cases h
    | succ fuel =>
    have habove : name ≠ ".." := fun heq => hnames (heq ▸ List.mem_cons_self)
    have hrest : ".." ∉ names := fun hin => hnames (List.mem_cons_of_mem _ hin)
    rw [walk] at h
    split at h
    swap
    · cases h
    swap
    · cases h
    by_cases hdot : (decide (name = "") || decide (name = ".")) = true
    · rw [if_pos hdot] at h
      exact ih hlink hrest h
    rw [if_neg hdot, if_neg habove] at h
    split at h
    · cases h
    have hname : Leadless name := by
      simp only [Bool.or_eq_true, decide_eq_true_eq, not_or] at hdot
      exact ⟨hdot.1, hdot.2, habove⟩
    dsimp only at h
    split at h
    · next target htarget => exact absurd htarget (hlink [name] target)
    · obtain ⟨r, rfl, hr⟩ := ih (fun q target => by
        rw [List.append_assoc]
        exact hlink _ target) hrest h
      exact ⟨name :: r, by simp, List.forall_mem_cons.2 ⟨hname, hr⟩⟩
    · split at h <;> cases h
      exact ⟨[name], rfl, by simpa using hname⟩

/-- Such a walk begins with the first name. -/
theorem locate_below (hdir : d.Has here) (hlink : ∀ q target, d.entry? (here ++ q) ≠ some (.link target))
    (hn : Leadless n) (hnames : ".." ∉ names) (h : d.locate (here ++ n :: names) follow = .ok place) :
    ∃ r, place = here ++ n :: r ∧ ∀ n ∈ r, Leadless n := by
  unfold locate at h
  split at h
  · cases h
  have hwalk := @walk_names d here [] follow (1001 + names.length) (n :: names) hdir.names
    fun p hp => hdir.directory p hp
  rw [List.nil_append] at hwalk
  rw [show (here ++ n :: names).length + 1000 = 1001 + names.length + here.length by simp; omega, hwalk,
    show 1001 + names.length = 1000 + names.length + 1 by omega, walk, hdir.at] at h
  simp only [hn.1, hn.2.1, hn.2.2, decide_false, Bool.or_self, Bool.false_eq_true, if_false] at h
  split at h
  · cases h
  split at h
  · next target htarget => exact absurd htarget (hlink [n] target)
  · obtain ⟨r, rfl, hr⟩ := walk_below (fun q target (hq : d.entry? (here ++ [n] ++ q) = some (.link target)) => by
      rw [List.append_assoc] at hq
      exact hlink _ target hq) hnames h
    exact ⟨r, by simp, hr⟩
  · split at h <;> cases h
    exact ⟨[], rfl, by simp⟩

/-- What a walk along names without links goes through is a directory. -/
theorem directory_of_walk (hnames : ∀ m ∈ names, Leadless m)
    (hlink : ∀ q, q <+: names → q ≠ [] → ∀ target, d.entry? (here ++ q) ≠ some (.link target))
    (h : d.walk follow fuel here (names ++ [n]) = .ok place) :
    d.entry? (here ++ names) = some .directory := by
  induction names generalizing fuel here with
  | nil =>
    cases fuel with
    | zero => cases h
    | succ fuel =>
      rw [List.nil_append, walk] at h
      split at h
      · rwa [List.append_nil]
      · cases h
      · cases h
  | cons name names ih =>
    cases fuel with
    | zero => cases h
    | succ fuel =>
    obtain ⟨hne, hhere, habove⟩ := hnames name List.mem_cons_self
    rw [List.cons_append, walk] at h
    simp only [hne, hhere, habove, decide_false, Bool.or_self, Bool.false_eq_true, if_false] at h
    split at h <;> try cases h
    split at h
    · cases h
    split at h
    · next target htarget => exact absurd htarget (hlink [name] (by simp) (by simp) target)
    · have := ih (fun m hm => hnames m (List.mem_cons_of_mem _ hm)) (fun q hq hne => by
        simpa using hlink (name :: q) (by simpa using hq) (by simp)) h
      simpa using this
    · simp at h

theorem directory_of_locate (hnames : ∀ m ∈ names, Leadless m)
    (hlink : ∀ q, q <+: names → ∀ target, d.entry? q ≠ some (.link target))
    (h : d.locate (names ++ [n]) follow = .ok place) : d.entry? names = some .directory := by
  unfold locate at h
  split at h
  · cases h
  · exact @directory_of_walk _ [] _ _ _ _ _ hnames (fun q hq _ => by simpa using hlink q hq) h

end Disk

namespace Hub

open Disk

variable {d d₀ s s' : Disk} {root place : Path} {names : List String} {n : String} {follow : Bool}

/-- The directory in which an archive is unpacked. -/
def extractName : String := "extract"

/-- An installation at work whose staging directory holds no link. -/
structure Sealed (root : Path) (d₀ s : Disk) : Prop extends Working root d₀ s where
  clean : ∀ q, s.entry? (stagingPath root ++ q) ≠ none →
    (∀ n ∈ q, Leadless n) ∧ ∀ target, s.entry? (stagingPath root ++ q) ≠ some (.link target)

namespace Sealed

variable (h : Sealed root d₀ s)
include h

theorem linkless (q : Path) (target : String) :
    s.entry? (stagingPath root ++ q) ≠ some (.link target) := fun hlink =>
  (h.clean q (by simp [hlink])).2 target hlink

theorem put {r : Path} (hne : r ≠ []) (hr : ∀ n ∈ r, Leadless n) {e : Entry}
    (he : ∀ target, e ≠ .link target) : Sealed root d₀ (s.put (stagingPath root ++ r) e) where
  toWorking := h.toWorking.put hne e
  clean q hq := by
    rw [entry?_put _ _ _ _ (by simp [hne])] at hq ⊢
    split
    · next heq =>
      obtain rfl := List.append_cancel_left heq
      exact ⟨hr, fun target heq => he target (Option.some.inj heq)⟩
    · next hne =>
      rw [if_neg hne] at hq
      exact h.clean q hq

/-- Every way in the staging directory is one without links. -/
theorem no_link {q p : Path} (hp : p <+: stagingPath root ++ q) (target : String) :
    s.entry? p ≠ some (.link target) := by
  rcases List.prefix_or_prefix_of_prefix hp (List.prefix_append (stagingPath root) q) with hin | ⟨r, rfl⟩
  · rw [h.has.directory p hin]
    rintro ⟨⟩
  · exact h.linkless r target

theorem leadless {q : Path} (hq : ∀ n ∈ q, Leadless n) : ∀ n ∈ stagingPath root ++ q, Leadless n :=
  fun n hn => (List.mem_append.1 hn).elim (fun hn => (h.has.names n hn).leadless) (hq n)

theorem place_eq {q : Path} (hq : ∀ n ∈ q, Leadless n)
    (hl : s.locate (stagingPath root ++ q) follow = .ok place) : place = stagingPath root ++ q :=
  locate_plain (h.leadless hq) (fun _ hp _ => h.no_link hp) hl

/-- What is put at a place that names lead to without steps back lies in the staging directory. -/
theorem put_located {names : List String} (hn : Leadless n) (hnames : ".." ∉ names)
    (hl : s.locate (stagingPath root ++ n :: names) follow = .ok place) {e : Entry}
    (he : ∀ target, e ≠ .link target) : Sealed root d₀ (s.put place e) := by
  obtain ⟨r, rfl, hr⟩ := locate_below h.has h.linkless hn hnames hl
  exact h.put (List.cons_ne_nil n r) (List.forall_mem_cons.2 ⟨hn, hr⟩) he

end Sealed

theorem leadless_extract : Leadless extractName := IsName.leadless (by decide)

/-- A property of sealed staging directories that stays when something is put into the directory in
which an archive is unpacked. -/
structure Enclosing (root : Path) (d₀ : Disk) (I : Disk → Prop) : Prop where
  sealed : ∀ {s}, I s → Sealed root d₀ s
  put : ∀ {s names follow place e}, I s → ".." ∉ names →
    s.locate (stagingPath root ++ extractName :: names) follow = .ok place →
      s.entry? place ≠ some .directory → (∀ target, e ≠ .link target) → I (s.put place e)

theorem Sealed.enclosing : Enclosing root d₀ (Sealed root d₀) :=
  ⟨fun h => h, fun h hnames hl _ he => h.put_located leadless_extract hnames hl he⟩

namespace Enclosing

variable {I : Disk → Prop} (hI : Enclosing root d₀ I) (h : I s)
include hI h

theorem makeDirectory (hnames : ".." ∉ names)
    (hm : s.makeDirectory (stagingPath root ++ extractName :: names) = .ok s') : I s' := by
  unfold Disk.makeDirectory at hm
  cases hl : s.locate (stagingPath root ++ extractName :: names) false with
  | error fault => rw [hl] at hm; cases hm
  | ok place =>
    rw [hl, ok_bind] at hm
    split at hm <;> cases hm
    next hnone => exact hI.put h hnames hl (by simp [hnone]) fun _ => nofun

theorem write (hnames : ".." ∉ names) {data : List UInt8}
    (hm : s.write (stagingPath root ++ extractName :: names) data = .ok s') : I s' := by
  unfold Disk.write at hm
  cases hl : s.locate (stagingPath root ++ extractName :: names) with
  | error fault => rw [hl] at hm; cases hm
  | ok place =>
    rw [hl, ok_bind] at hm
    split at hm <;> cases hm
    next hnot => exact hI.put h hnames hl hnot fun _ => nofun

theorem makeDirectoriesFrom {lead : List String} (hq : ∀ p, p <+: lead ++ names → p ≠ [] →
      ∃ rest, p = extractName :: rest ∧ ".." ∉ rest)
    (hm : s.makeDirectoriesFrom (stagingPath root ++ lead) names = .ok s') : I s' := by
  induction names generalizing s lead with
  | nil => cases hm; exact h
  | cons name names ih =>
    have hnext {s₁ : Disk} (h₁ : I s₁)
        (hm : s₁.makeDirectoriesFrom (stagingPath root ++ (lead ++ [name])) names = .ok s') :
        I s' := ih h₁ (by simpa using hq) hm
    rw [Disk.makeDirectoriesFrom, List.append_assoc] at hm
    dsimp only at hm
    split at hm
    · exact hnext h hm
    · cases hm
    · cases hd : s.makeDirectory (stagingPath root ++ (lead ++ [name])) with
      | error fault => rw [hd] at hm; cases hm
      | ok s₁ =>
        rw [hd] at hm
        obtain ⟨rest, heq, hrest⟩ := hq (lead ++ [name]) (by simp) (by simp)
        rw [heq] at hd
        exact hnext (hI.makeDirectory h hrest hd) hm
    · cases hm

/-- Directories are made in the staging directory only. -/
theorem makeDirectories (hnames : ".." ∉ names)
    (hm : s.makeDirectories (stagingPath root ++ extractName :: names) = .ok s') : I s' := by
  unfold Disk.makeDirectories at hm
  split at hm
  · cases hm
  have hskip := makeDirectoriesFrom_names [] (stagingPath root)
    (by simpa using (hI.sealed h).has : s.Has ([] ++ stagingPath root)) (extractName :: names)
  rw [List.nil_append] at hskip
  rw [hskip] at hm
  rw [← List.append_nil (stagingPath root)] at hm
  refine hI.makeDirectoriesFrom h (fun p hp hne => ?_) hm
  obtain ⟨m, rest, rfl⟩ := List.exists_cons_of_ne_nil hne
  rw [List.nil_append, List.cons_prefix_cons] at hp
  obtain ⟨rfl, hp⟩ := hp
  exact ⟨rest, rfl, fun hin => hnames (hp.subset hin)⟩

end Enclosing

end Hub

end AppBroker
