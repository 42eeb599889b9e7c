import AppBroker.Lock
import AppBroker.Lock.Party
import AppBroker.Proofs.KeyedLocks
import Mathlib.Data.List.Nodup

/-!
# Taking turns at a lock

Between steps the line of a key is its holder followed by those who wait, and everybody who asked
for the key stands in one row: first those who got it, in the order in which they got it, then
those who wait. That row is the order of asking, with those left out who were cancelled in the
line. Asking puts one party at its end, handing on a mutex moves the border within the row,
finishing leaves the row alone and cancelling one who waits takes it out (`Sound.ask`,
`Sound.give`, `Sound.part_holding`, `Sound.part_waiting`). No step does more than these
(`Sound.step`), so the row of a key is the same whatever goes on at other keys.
-/

namespace AppBroker

namespace LockRoom

variable {κ τ : Type} [DecidableEq κ]

/-- Whether a party asked for a key and stands somewhere. -/
def Stands (r : LockRoom κ τ) (i : Nat) (key : κ) (phase : Phase) : Prop :=
  ∃ p, r.asked[i]? = some p ∧ p.key = key ∧ p.phase = phase

def asksFor (r : LockRoom κ τ) (key : κ) (i : Nat) : Bool := (r.asked[i]?).any (·.key = key)

/-- Where a party stands. -/
def phase? (r : LockRoom κ τ) (i : Nat) : Option Phase := (r.asked[i]?).map Party.phase

/-- Whether a party was cancelled before it got its key. -/
def abandoned (r : LockRoom κ τ) (i : Nat) : Bool :=
  r.phase? i = some .cancelled && !r.got.contains i

/-- The parties that ask for a key, in the order in which they asked. -/
def askers (r : LockRoom κ τ) (key : κ) : List Nat :=
  (List.range r.asked.length).filter (r.asksFor key)

/-- The parties that got a key, in the order in which they got it. -/
def getters (r : LockRoom κ τ) (key : κ) : List Nat := r.got.filter (r.asksFor key)

/-- What the line of every key has to do with the parties. -/
structure InLine (r : LockRoom κ τ) : Prop where
  owner : ∀ k i, (r.locks.mutexOf k).owner = some i ↔ r.Stands i k .holding
  waiters : ∀ k i, i ∈ (r.locks.mutexOf k).waiters ↔ r.Stands i k .waiting

structure Sound (r : LockRoom κ τ) : Prop extends r.InLine where
  neat : r.locks.Neat
  kept : ∀ (i : Nat) (p : Party κ τ), r.asked[i]? = some p → p.isOpen →
    r.locks.locks.get? p.key = some p.lock
  known : ∀ i ∈ r.got, i < r.asked.length
  turns : ∀ k, r.getters k ++ (r.locks.mutexOf k).waiters =
    (r.askers k).filter fun i => !r.abandoned i

/-- Whether no mutex is free while somebody waits for it. -/
def Settled (r : LockRoom κ τ) : Prop :=
  ∀ k, (r.locks.mutexOf k).owner = none → (r.locks.mutexOf k).waiters = []

variable {r r' : LockRoom κ τ} {key : κ} {lock i : Nat} {p : Party κ τ} {phase : Phase}
  {f : Mutex Nat → Mutex Nat}

omit [DecidableEq κ] in
theorem stands_iff (hp : r.asked[i]? = some p) :
    r.Stands i key phase ↔ p.key = key ∧ p.phase = phase := by
  simp [Stands, hp]

theorem InLine.line_ne_nil (h : r.InLine) (hp : r.asked[i]? = some p) (ho : p.isOpen) :
    (r.locks.mutexOf p.key).line ≠ [] := by
  simp only [Party.isOpen, Bool.or_eq_true, decide_eq_true_eq] at ho
  rcases ho with ho | ho
  · have := (h.waiters p.key i).2 ⟨p, hp, rfl, ho⟩
    simp only [Mutex.line, ne_eq, List.append_eq_nil_iff, not_and]
    intro _ hnil
    simp [hnil] at this
  · have := (h.owner p.key i).2 ⟨p, hp, rfl, ho⟩
    simp [Mutex.line, this]

theorem Sound.nodup_row (h : r.Sound) (k : κ) :
    (r.getters k ++ (r.locks.mutexOf k).waiters).Nodup := by
  rw [h.turns]
  exact (List.nodup_range.filter _).filter _

theorem Sound.nodup_waiters (h : r.Sound) (k : κ) : (r.locks.mutexOf k).waiters.Nodup :=
  (List.nodup_append.1 (h.nodup_row k)).2.1

theorem Sound.not_mem_got (h : r.Sound) (hi : r.Stands i key .waiting) : i ∉ r.got := by
  obtain ⟨p, hp, hkey, hphase⟩ := hi
  have hw := (h.waiters key i).2 ⟨p, hp, hkey, hphase⟩
  intro hgot
  refine (List.nodup_append.1 (h.nodup_row key)).2.2 i ?_ i hw rfl
  simp [getters, asksFor, hgot, hp, hkey]

theorem Sound.mem_got (h : r.Sound) (hi : r.Stands i key .holding) : i ∈ r.got := by
  obtain ⟨p, hp, hkey, hphase⟩ := hi
  have hlt : i < r.asked.length := (List.getElem?_eq_some_iff.1 hp).1
  have hmem : i ∈ (r.askers key).filter fun i => !r.abandoned i := by
    simp only [askers, asksFor, abandoned, phase?, List.mem_filter, List.mem_range, hlt, hp]
    simp [hkey, hphase]
  rw [← h.turns, List.mem_append] at hmem
  rcases hmem with hmem | hmem
  · exact List.mem_of_mem_filter hmem
  · obtain ⟨p', hp', -, hphase'⟩ := (h.waiters key i).1 hmem
    simp_all

section asking

variable (who : τ) (key : κ)

theorem getElem?_ask (r : LockRoom κ τ) (j : Nat) : (r.ask who key).2.asked[j]? =
    if j = r.asked.length then some { who, key, lock := (r.ask who key).1 } else r.asked[j]? := by
  show (r.asked ++ [{ who, key, lock := (r.ask who key).1 }])[j]? = _
  generalize (r.ask who key).1 = lock
  grind

theorem stands_ask {j : Nat} {k : κ} : (r.ask who key).2.Stands j k phase ↔
    r.Stands j k phase ∨ j = r.asked.length ∧ key = k ∧ phase = .waiting := by
  unfold Stands
  simp only [getElem?_ask]
  by_cases hj : j = r.asked.length
  · subst hj
    simp [eq_comm]
  · simp [hj]

theorem Sound.ask (h : r.Sound) : (r.ask who key).2.Sound
    ∧ r.locks.Changed (r.ask who key).2.locks key (·.ask r.asked.length)
    ∧ (r.ask who key).2.locks.locks.get? key = some (r.ask who key).1 := by
  obtain ⟨hc, hlock⟩ := h.neat.enter key r.asked.length
  have hmutex (k : κ) : (r.ask who key).2.locks.mutexOf k = _ := hc.mutexOf k
  have hline : (r.ask who key).2.InLine := by
    refine ⟨fun k j => ?_, fun k j => ?_⟩
    · rw [stands_ask, ← h.owner, hmutex]
      split <;> simp [Mutex.ask]
    · rw [stands_ask, ← h.waiters, hmutex]
      split <;> simp_all [Mutex.ask]
  have hgot : (r.ask who key).2.got = r.got := rfl
  refine ⟨⟨hline, hc.neat, fun j p hp ho => ?_, fun j hj => ?_, fun k => ?_⟩, hc, hlock⟩
  · have hne := hline.line_ne_nil hp ho
    rw [getElem?_ask] at hp
    split at hp
    · cases hp
      exact hlock
    · exact hc.kept _ _ (h.kept _ _ hp ho) hne
  · have := h.known j hj
    show j < (r.asked ++ [_]).length
    simp
    omega
  · -- the party that asks is the last in line; for the others nothing changes
    have hold {j : Nat} (hj : j < r.asked.length) :
        (r.ask who key).2.asked[j]? = r.asked[j]? := by
      rw [getElem?_ask, if_neg (by omega)]
    have hasks (k : κ) : ∀ j < r.asked.length,
        (r.ask who key).2.asksFor k j = r.asksFor k j := fun j hj => by simp [asksFor, hold hj]
    have hgetters : (r.ask who key).2.getters k = r.getters k :=
      List.filter_congr fun j hj => hasks k j (h.known j hj)
    have hentitled : ((r.ask who key).2.askers k).filter (fun j => !(r.ask who key).2.abandoned j)
        = ((r.askers k).filter fun j => !r.abandoned j)
          ++ if key = k then [r.asked.length] else [] := by
      have hlen : (r.ask who key).2.asked.length = r.asked.length + 1 := by
        show (r.asked ++ [_]).length = _
        simp
      simp only [askers, hlen, List.range_succ, List.filter_append, List.filter_filter]
      congr 1
      · refine List.filter_congr fun j hj => ?_
        have hj := List.mem_range.1 hj
        rw [hasks k j hj, abandoned, abandoned, phase?, phase?, hold hj, hgot]
      · simp only [asksFor, abandoned, phase?, getElem?_ask]
        by_cases hk : key = k <;> simp [hk]
    rw [hgetters, hentitled, hmutex, ← h.turns]
    split <;> simp [Mutex.ask]

end asking

section moving

omit [DecidableEq κ] in
theorem getElem?_move (ha : r'.asked = r.asked.modify i fun p => { p with phase })
    (hp : r.asked[i]? = some p) (j : Nat) :
    r'.asked[j]? = if i = j then some { p with phase } else r.asked[j]? := by
  rw [ha, List.getElem?_modify]
  split
  · next heq => subst heq; simp [hp]
  · simp

omit [DecidableEq κ] in
theorem stands_move (ha : r'.asked = r.asked.modify i fun p => { p with phase })
    (hp : r.asked[i]? = some p) {j : Nat} {k : κ} {ph : Phase} :
    r'.Stands j k ph ↔ if i = j then p.key = k ∧ phase = ph else r.Stands j k ph := by
  unfold Stands
  rw [getElem?_move ha hp]
  grind

theorem asksFor_move (ha : r'.asked = r.asked.modify i fun p => { p with phase })
    (hp : r.asked[i]? = some p) : r'.asksFor = r.asksFor := by
  funext k j
  unfold asksFor
  rw [getElem?_move ha hp]
  split
  · next heq => subst heq; simp [hp]
  · rfl

/-- What is left to show of a party that moves on, together with the mutex of its key. -/
theorem Sound.move (h : r.Sound) (hp : r.asked[i]? = some p) (ho : p.isOpen)
    (ha : r'.asked = r.asked.modify i fun p => { p with phase })
    (hc : r.locks.Changed r'.locks p.key f) (hline : r'.InLine)
    (hgot : ∀ j ∈ r'.got, j < r.asked.length)
    (hturns : ∀ k, r'.got.filter (r.asksFor k) ++ (r'.locks.mutexOf k).waiters =
      (r.askers k).filter fun i => !r'.abandoned i) : r'.Sound := by
  have hlen : r'.asked.length = r.asked.length := by simp [ha]
  refine ⟨hline, hc.neat, fun j p' hp' ho' => ?_, hlen ▸ hgot, fun k => ?_⟩
  · have hne := hline.line_ne_nil hp' ho'
    rw [getElem?_move ha hp] at hp'
    split at hp'
    · cases hp'
      exact hc.kept p.key p.lock (h.kept i p hp ho) hne
    · exact hc.kept _ _ (h.kept _ _ hp' ho') hne
  · simp only [getters, askers, asksFor_move ha hp, hlen]
    exact hturns k

/-- What it is for a party to be the first that waits for a free mutex. -/
structure IsNext (r : LockRoom κ τ) (key : κ) (lock i : Nat) (rest : List Nat) : Prop where
  placed : r.locks.locks.get? key = some lock
  free : (r.locks.mutexOf key).owner = none
  queue : (r.locks.mutexOf key).waiters = i :: rest

theorem Sound.give (h : r.Sound) {rest : List Nat} (hn : r.IsNext key lock i rest) :
    (r.give lock i).Sound
      ∧ r.locks.Changed (r.give lock i).locks key Mutex.pass
      ∧ ∃ p, (r.give lock i).asked[i]? = some p ∧ p.key = key ∧ p.lock = lock
        ∧ p.phase = .holding := by
  obtain ⟨p, hp, hkey, hphase⟩ := (h.waiters key i).1 (by simp [hn.queue])
  subst hkey
  have ho : p.isOpen := by simp [Party.isOpen, hphase]
  have hnodup : (i :: rest).Nodup := hn.queue ▸ h.nodup_waiters p.key
  have ha : (r.give lock i).asked = r.asked.modify i fun p => { p with phase := .holding } := rfl
  have hfirst : Mutex.pass (r.locks.mutexOf p.key) = { owner := some i, waiters := rest } := by
    simp [Mutex.pass, hn.queue]
  have hc : r.locks.Changed (r.give lock i).locks p.key Mutex.pass :=
    h.neat.onMutex hn.placed (by simp [hfirst, Mutex.line, hn.free, hn.queue])
  have hmutex (k : κ) : (r.give lock i).locks.mutexOf k =
      if p.key = k then { owner := some i, waiters := rest } else r.locks.mutexOf k := by
    rw [hc.mutexOf]
    split
    · next hk => rw [← hk, hfirst]
    · rfl
  have hline : (r.give lock i).InLine := by
    refine ⟨fun k j => ?_, fun k j => ?_⟩
    · have howner := h.owner k j
      rw [stands_move ha hp, hmutex]
      by_cases hk : p.key = k <;> by_cases hj : i = j
      · simp [hk, hj]
      · subst hk
        simp [hj, ← howner, hn.free]
      · subst hj
        simp [hk, howner, stands_iff hp]
      · simp [hk, hj, howner]
    · have hwaiters := h.waiters k j
      rw [stands_move ha hp, hmutex]
      by_cases hk : p.key = k <;> by_cases hj : i = j
      · subst hj
        simp [hk, (List.nodup_cons.1 hnodup).1]
      · subst hk
        simp [hj, ← hwaiters, hn.queue, Ne.symm hj]
      · subst hj
        simp [hk, hwaiters, stands_iff hp]
      · simp [hk, hj, hwaiters]
  have hi := h.not_mem_got ⟨p, hp, rfl, hphase⟩
  have hlt : i < r.asked.length := (List.getElem?_eq_some_iff.1 hp).1
  have habandoned (j : Nat) : (r.give lock i).abandoned j = r.abandoned j := by
    unfold abandoned phase?
    rw [getElem?_move ha hp]
    split
    · next heq => subst heq; simp [hp, hphase]
    · next hne =>
      show (_ && !(r.got ++ [i]).contains j) = _
      simp [Ne.symm hne]
  have hlock : p.lock = lock := by simpa using (h.kept i p hp ho).symm.trans hn.placed
  refine ⟨h.move hp ho ha hc hline (fun j hj => ?_) (fun k => ?_), hc,
    { p with phase := .holding }, ?_, rfl, hlock, rfl⟩
  · rcases List.mem_append.1 hj with hj | hj
    · exact h.known j hj
    · cases List.mem_singleton.1 hj
      exact hlt
  · simp only [habandoned, ← h.turns k, hmutex]
    show (r.got ++ [i]).filter _ ++ _ = r.got.filter _ ++ _
    rw [List.filter_append, List.append_assoc]
    congr 1
    by_cases hk : p.key = k
    · subst hk
      simp [asksFor, hp, hn.queue]
    · simp [asksFor, hp, hk]
  · rw [getElem?_move ha hp, if_pos rfl]

theorem Sound.length_letGo (h : r.Sound) (hp : r.asked[i]? = some p) (ho : p.isOpen) :
    (p.letGo i (r.locks.mutexOf p.key)).line.length + 1 =
      (r.locks.mutexOf p.key).line.length := by
  unfold Party.letGo
  split
  · next hphase =>
    have := (h.owner p.key i).2 ⟨p, hp, rfl, hphase⟩
    simp [Mutex.line, Mutex.release, this]
  · next hphase =>
    have hw : i ∈ (r.locks.mutexOf p.key).waiters :=
      (h.waiters p.key i).2 ⟨p, hp, rfl, by simpa [Party.isOpen, hphase] using ho⟩
    have := List.length_pos_of_mem hw
    simp only [Mutex.line, Mutex.quit, List.length_append, List.length_erase_of_mem hw]
    omega

theorem Sound.part_eq (h : r.Sound) (phase : Phase) (hp : r.asked[i]? = some p) (ho : p.isOpen) :
    r.locks.Changed (r.part i p phase).locks p.key (p.letGo i)
      ∧ (r.part i p phase).asked = r.asked.modify i (fun p => { p with phase })
      ∧ (r.part i p phase).got = r.got := by
  obtain ⟨hcounted, hc⟩ := h.neat.leave (h.kept i p hp ho) (h.length_letGo hp ho)
  exact ⟨hc, by simp only [LockRoom.part, hcounted], rfl⟩

/-- A holder that is done has had its turn. -/
theorem Sound.part_holding (h : r.Sound) (phase : Phase) (hp : r.asked[i]? = some p)
    (hold : p.phase = .holding) (hopen : phase ≠ .waiting ∧ phase ≠ .holding) :
    (r.part i p phase).Sound
      ∧ ∀ k, (r.part i p phase).locks.mutexOf k =
          if p.key = k then { r.locks.mutexOf k with owner := none } else r.locks.mutexOf k := by
  have ho : p.isOpen := by simp [Party.isOpen, hold]
  obtain ⟨hc, ha, hgot⟩ := h.part_eq phase hp ho
  have hmutex (k : κ) : (r.part i p phase).locks.mutexOf k =
      if p.key = k then { r.locks.mutexOf k with owner := none } else r.locks.mutexOf k := by
    rw [hc.mutexOf]
    simp [Party.letGo, hold, Mutex.release]
  have howned := (h.owner p.key i).2 ⟨p, hp, rfl, hold⟩
  have hline : (r.part i p phase).InLine := by
    refine ⟨fun k j => ?_, fun k j => ?_⟩
    · have howner := h.owner k j
      rw [stands_move ha hp, hmutex]
      by_cases hk : p.key = k <;> by_cases hj : i = j
      · simp [hj, hk, hopen.2]
      · subst hk
        simp [hj, ← howner, howned]
      · subst hj
        simp [hk, howner, stands_iff hp]
      · simp [hk, hj, howner]
    · have hwaiters := h.waiters k j
      rw [stands_move ha hp, hmutex, apply_ite Mutex.waiters, ite_self, hwaiters]
      split
      · next hj => subst hj; simp [stands_iff hp, hold, hopen.1]
      · rfl
  have hi := h.mem_got ⟨p, hp, rfl, hold⟩
  have habandoned (j : Nat) : (r.part i p phase).abandoned j = r.abandoned j := by
    unfold abandoned phase?
    rw [getElem?_move ha hp, hgot]
    split
    · next hj => subst hj; simp [hi]
    · rfl
  refine ⟨h.move hp ho ha hc hline (hgot ▸ h.known) (fun k => ?_), hmutex⟩
  simp only [habandoned, ← h.turns k, hmutex, hgot]
  split <;> rfl

/-- A party cancelled in the line is left out; nobody else is moved. -/
theorem Sound.part_waiting (h : r.Sound) (hp : r.asked[i]? = some p) (hold : p.phase = .waiting) :
    (r.part i p .cancelled).Sound
      ∧ ∀ k, (r.part i p .cancelled).locks.mutexOf k =
          if p.key = k then (r.locks.mutexOf k).quit i else r.locks.mutexOf k := by
  have ho : p.isOpen := by simp [Party.isOpen, hold]
  obtain ⟨hc, ha, hgot⟩ := h.part_eq .cancelled hp ho
  have hmutex (k : κ) : (r.part i p .cancelled).locks.mutexOf k =
      if p.key = k then (r.locks.mutexOf k).quit i else r.locks.mutexOf k := by
    rw [hc.mutexOf]
    simp [Party.letGo, hold]
  have hwaits (k : κ) : i ∈ (r.locks.mutexOf k).waiters ↔ p.key = k := by
    rw [h.waiters, stands_iff hp]
    simp [hold]
  have hwaiters (k : κ) : ((r.part i p .cancelled).locks.mutexOf k).waiters =
      (r.locks.mutexOf k).waiters.filter (· != i) := by
    rw [hmutex]
    split
    · exact (h.nodup_waiters k).erase_eq_filter i
    · next hk => exact (List.filter_eq_self.2 fun j hj => by
        have := (hwaits k).not.2 hk
        grind).symm
  have hline : (r.part i p .cancelled).InLine := by
    refine ⟨fun k j => ?_, fun k j => ?_⟩
    · have howner := h.owner k j
      rw [stands_move ha hp, hmutex, apply_ite Mutex.owner, Mutex.quit, ite_self, howner]
      split
      · next hj => subst hj; simp [stands_iff hp, hold]
      · rfl
    · rw [stands_move ha hp, hwaiters, List.mem_filter, h.waiters]
      grind
  have hi := h.not_mem_got ⟨p, hp, rfl, hold⟩
  have habandoned (j : Nat) : (!(r.part i p .cancelled).abandoned j) =
      ((j != i) && !r.abandoned j) := by
    unfold abandoned phase?
    rw [getElem?_move ha hp, hgot]
    split
    · next hj => subst hj; simp [hi]
    · next hj => simp [Ne.symm hj]
  refine ⟨h.move hp ho ha hc hline (hgot ▸ h.known) (fun k => ?_), hmutex⟩
  have hgetters : (r.getters k).filter (· != i) = r.getters k :=
    List.filter_eq_self.2 fun j hj => by
      have := List.mem_of_mem_filter hj
      grind
  simp only [habandoned, ← List.filter_filter, ← h.turns k, List.filter_append, hwaiters, hgot]
  rw [hgetters]
  rfl

theorem Sound.tell (h : r.Sound) (i : Nat) (how : Ending) : (r.tell i how).Sound := by
  have hget (j : Nat) : ∃ told : Party κ τ → Option Ending,
      (r.tell i how).asked[j]? = (r.asked[j]?).map fun p => { p with told := told p } := by
    refine ⟨fun p => if i = j then p.told.or (some how) else p.told, ?_⟩
    simp only [LockRoom.tell, List.getElem?_modify]
    split
    · rfl
    · simp
  have hasks : (r.tell i how).asksFor = r.asksFor := by
    funext k j
    obtain ⟨told, hj⟩ := hget j
    simp [asksFor, hj, Option.any_map]
  have hstands (j : Nat) (k : κ) (ph : Phase) :
      (r.tell i how).Stands j k ph ↔ r.Stands j k ph := by
    obtain ⟨told, hj⟩ := hget j
    simp [Stands, hj]
  have habandoned : (r.tell i how).abandoned = r.abandoned := by
    funext j
    obtain ⟨told, hj⟩ := hget j
    have hgot : (r.tell i how).got = r.got := rfl
    simp [abandoned, phase?, hj, hgot, Function.comp_def]
  refine ⟨⟨fun k j => ?_, fun k j => ?_⟩, h.neat, fun j p hp ho => ?_, fun j hj => ?_, fun k => ?_⟩
  · rw [hstands]; exact h.owner k j
  · rw [hstands]; exact h.waiters k j
  · obtain ⟨told, hj⟩ := hget j
    rw [hj] at hp
    obtain ⟨p, hp', rfl⟩ := Option.map_eq_some_iff.1 hp
    exact h.kept j p hp' ho
  · simpa [LockRoom.tell] using h.known j hj
  · simp only [getters, askers, hasks, habandoned]
    have := h.turns k
    simpa [LockRoom.tell, getters, askers] using this

end moving

section settling

/-- Whether no key but one is free while somebody waits for it. -/
def SettledBut (r : LockRoom κ τ) (key : κ) : Prop :=
  ∀ k, key ≠ k → (r.locks.mutexOf k).owner = none → (r.locks.mutexOf k).waiters = []

/-- The induction is on those who wait: each gets the key in turn, and one that keeps it ends the
matter. -/
theorem Sound.settle (h : r.Sound) (hs : r.SettledBut key) {queue : List Nat}
    (hfree : (r.locks.mutexOf key).owner = none) (hq : (r.locks.mutexOf key).waiters = queue)
    (hplaced : queue ≠ [] → r.locks.locks.get? key = some lock) :
    (r.settle lock queue).Sound ∧ (r.settle lock queue).Settled := by
  induction queue generalizing r with
  | nil =>
    refine ⟨h, fun k hk => ?_⟩
    by_cases heq : key = k
    · exact heq ▸ hq
    · exact hs k heq hk
  | cons next rest ih =>
    have hn : r.IsNext key lock next rest := ⟨hplaced (by simp), hfree, hq⟩
    obtain ⟨hgive, hc, p, hp, rfl, rfl, hphase⟩ := h.give hn
    have hpass : ((r.give p.lock next).locks.mutexOf p.key) = ⟨some next, rest⟩ := by
      simp [hc.mutexOf, Mutex.pass, hq]
    simp only [LockRoom.settle, hp]
    cases htold : p.told with
    | none =>
      refine ⟨hgive, fun k hk => ?_⟩
      by_cases heq : p.key = k
      · subst heq
        simp [hpass] at hk
      · simp only [hc.mutexOf, heq, if_false] at hk ⊢
        exact hs k heq hk
    | some how =>
      obtain ⟨hpart, hmutex⟩ := hgive.part_holding (.ended how) hp hphase (by simp)
      obtain ⟨hc', -, -⟩ := hgive.part_eq (.ended how) hp (by simp [Party.isOpen, hphase])
      refine ih hpart (fun k heq hk => ?_) ?_ ?_ fun hrest => ?_
      · simp only [hmutex, hc.mutexOf, heq, if_false] at hk ⊢
        exact hs k heq hk
      · simp [hmutex]
      · simp [hmutex, hpass]
      · refine hc'.kept _ _ (hc.kept _ _ hn.placed ?_) ?_
        · simp [hpass, Mutex.line]
        · simpa [hmutex, hpass, Mutex.line] using hrest

theorem Sound.wake (h : r.Sound) (key : κ) (hs : r.SettledBut key)
    (hm : r.locks.mutex lock = r.locks.mutexOf key)
    (hplaced : (r.locks.mutexOf key).waiters ≠ [] → r.locks.locks.get? key = some lock) :
    (r.wake lock).Sound ∧ (r.wake lock).Settled := by
  unfold LockRoom.wake
  rw [hm]
  split
  · next hlocked =>
    refine ⟨h, fun k hk => ?_⟩
    by_cases heq : key = k
    · subst heq
      simp [Mutex.isLocked, hk] at hlocked
    · exact hs k heq hk
  · next hfree => exact h.settle hs (by simpa [Mutex.isLocked] using hfree) rfl hplaced

theorem Sound.wake_part (h : r.Sound) (hs : r.Settled) (hp : r.asked[i]? = some p) (ho : p.isOpen)
    (hpart : (r.part i p phase).Sound) :
    ((r.part i p phase).wake p.lock).Sound ∧ ((r.part i p phase).wake p.lock).Settled := by
  obtain ⟨hc, -, -⟩ := h.part_eq phase hp ho
  have hplaced := h.kept i p hp ho
  have hm : (r.part i p phase).locks.mutex p.lock = (r.part i p phase).locks.mutexOf p.key := by
    rw [hc.mutexOf, if_pos rfl, KeyedLock.mutexOf_eq hplaced]
    refine (KeyedLock.mutex_leave _).trans ?_
    rw [KeyedLock.mutex_onMutex (h.neat.made _ _ hplaced), if_pos rfl]
  refine hpart.wake p.key (fun k heq hk => ?_) hm fun hne => hc.kept _ _ hplaced ?_
  · simp only [hc.mutexOf, heq, if_false] at hk ⊢
    exact hs k hk
  · simp [Mutex.line, hne]

theorem Sound.empty : Sound ({} : LockRoom κ τ) where
  owner k i := by simp [KeyedLock.mutexOf, Stands]
  waiters k i := by simp [KeyedLock.mutexOf, Stands]
  neat := {
    nodup := List.nodup_nil
    made := by simp
    apart := by simp
    entry := by simp [KeyedLock.mutexOf, Mutex.line, Table.contains]
    counted := by simp [KeyedLock.mutexOf, Mutex.line] }
  kept := by simp
  known := by simp
  turns k := by simp [getters, askers, KeyedLock.mutexOf]

omit [DecidableEq κ] in
theorem current?_eq_some [DecidableEq τ] {who : τ} (h : r.current? who = some (i, p)) :
    r.asked[i]? = some p ∧ p.isOpen := by
  obtain ⟨j, -, hj⟩ := List.exists_of_findSome?_eq_some h
  obtain ⟨q, hq, hj⟩ := Option.bind_eq_some_iff.1 hj
  split at hj
  · next hopen =>
    cases hj
    exact ⟨hq, hopen.2⟩
  · cases hj

variable [DecidableEq τ]

theorem Sound.step (h : r.Sound) (hs : r.Settled) (s : LockStep κ τ) :
    (r.step s).Sound ∧ (r.step s).Settled := by
  cases s with
  | acquire who key =>
    obtain ⟨hask, hc, hlock⟩ := h.ask who key
    refine hask.wake key (fun k heq hk => ?_) (KeyedLock.mutexOf_eq hlock).symm
      fun _ => hlock
    simp only [hc.mutexOf, heq, if_false] at hk ⊢
    exact hs k hk
  | finish who how =>
    simp only [LockRoom.step]
    cases hcur : r.current? who with
    | none => exact ⟨h, hs⟩
    | some found =>
      obtain ⟨i, p⟩ := found
      obtain ⟨hp, ho⟩ := current?_eq_some hcur
      dsimp only
      split
      · next hold => exact h.wake_part hs hp ho (h.part_holding _ hp hold (by simp)).1
      · exact ⟨h.tell i how, hs⟩
  | cancel who =>
    simp only [LockRoom.step]
    cases hcur : r.current? who with
    | none => exact ⟨h, hs⟩
    | some found =>
      obtain ⟨i, p⟩ := found
      obtain ⟨hp, ho⟩ := current?_eq_some hcur
      refine h.wake_part hs hp ho ?_
      by_cases hold : p.phase = .holding
      · exact (h.part_holding _ hp hold (by simp)).1
      · exact (h.part_waiting hp (by simpa [Party.isOpen, hold] using ho)).1

theorem Sound.run (h : r.Sound) (hs : r.Settled) (steps : List (LockStep κ τ)) :
    (r.run steps).Sound ∧ (r.run steps).Settled := by
  induction steps generalizing r with
  | nil => exact ⟨h, hs⟩
  | cons s steps ih =>
    obtain ⟨h', hs'⟩ := h.step hs s
    exact ih h' hs'

end settling

theorem Sound.askers_waiting (h : r.Sound) (key : κ) :
    (r.askers key).filter (fun i => r.phase? i = some .waiting) =
      (r.locks.mutexOf key).waiters := by
  have hgot : ∀ i ∈ r.getters key, ¬decide (r.phase? i = some .waiting) = true := by
    intro i hi hw
    obtain ⟨p, hp, hphase⟩ := Option.map_eq_some_iff.1 (of_decide_eq_true hw)
    exact h.not_mem_got ⟨p, hp, rfl, hphase⟩ (List.mem_of_mem_filter hi)
  have hwait : ∀ i ∈ (r.locks.mutexOf key).waiters, decide (r.phase? i = some .waiting) = true := by
    intro i hi
    obtain ⟨p, hp, -, hphase⟩ := (h.waiters key i).1 hi
    simp [phase?, hp, hphase]
  calc (r.askers key).filter (fun i => r.phase? i = some .waiting)
    _ = ((r.askers key).filter fun i => !r.abandoned i).filter
          fun i => r.phase? i = some .waiting := by
        rw [List.filter_filter]
        refine List.filter_congr fun i _ => ?_
        by_cases hw : r.phase? i = some .waiting <;> simp [abandoned, hw]
    _ = (r.getters key ++ (r.locks.mutexOf key).waiters).filter
          fun i => r.phase? i = some .waiting := by rw [h.turns]
    _ = (r.locks.mutexOf key).waiters := by
        rw [List.filter_append, List.filter_eq_nil_iff.2 hgot, List.filter_eq_self.2 hwait,
          List.nil_append]

/-- Whatever steps are taken: nobody shares a key; nobody waits for a free key; the keys of the
table, each of which is there once, are those in use; and the parties that got a key and those that
wait for it are in the order of asking, with only those left out that were cancelled in the line. -/
theorem run_takes_turns [DecidableEq τ] (steps : List (LockStep κ τ)) (key : κ) :
    let r := run {} steps
    (∀ i j, r.Stands i key .holding → r.Stands j key .holding → i = j)
      ∧ (∀ i, r.Stands i key .waiting → ∃ j, r.Stands j key .holding)
      ∧ r.locks.locks.keys.Nodup
      ∧ (key ∈ r.locks.locks.keys ↔ ∃ i, r.Stands i key .holding ∨ r.Stands i key .waiting)
      ∧ (r.locks.isLocked key ↔ ∃ i, r.Stands i key .holding)
      ∧ r.getters key ++ (r.askers key).filter (fun i => r.phase? i = some .waiting) =
        (r.askers key).filter fun i => !r.abandoned i := by
  intro r
  obtain ⟨h, hs⟩ : r.Sound ∧ r.Settled :=
    Sound.empty.run (by simp [Settled, KeyedLock.mutexOf]) steps
  refine ⟨fun i j hi hj => ?_, fun i hi => ?_, h.neat.nodup, ?_, ?_, ?_⟩
  · have hi := (h.owner key i).2 hi
    have hj := (h.owner key j).2 hj
    exact Option.some.inj (hi.symm.trans hj)
  · have hi := (h.waiters key i).2 hi
    cases howner : (r.locks.mutexOf key).owner with
    | none => simp [hs key howner] at hi
    | some j => exact ⟨j, (h.owner key j).1 howner⟩
  · rw [← Table.contains_iff_mem_keys, h.neat.entry, ne_eq, List.eq_nil_iff_forall_not_mem]
    simp only [Mutex.line, List.mem_append, Option.mem_toList, h.waiters, h.owner,
      not_forall, not_not]
  · rw [KeyedLock.isLocked_eq, Mutex.isLocked, Option.isSome_iff_exists]
    exact exists_congr fun i => h.owner key i
  · rw [h.askers_waiting]
    exact h.turns key

example : (run {} [.acquire 1 (), .acquire 2 (), .acquire 3 (), .cancel 2, .finish 1 .failed] :
    LockRoom Unit Nat).order = [1, 3] := by decide

section plain

/-- Whether the queues of a plain table are the lines of a room. -/
def MirroredBy (r : LockRoom κ τ) (t : LockTable κ Nat) : Prop :=
  ∀ k, t.queue k = (r.locks.mutexOf k).line

variable {t : LockTable κ Nat}

theorem MirroredBy.ask (hm : r.MirroredBy t) (h : r.Sound) (who : τ) (key : κ) :
    (r.ask who key).2.MirroredBy (t.join key r.asked.length) := by
  obtain ⟨-, hc, -⟩ := h.ask who key
  intro k
  rw [LockTable.queue_join, hc.mutexOf, hm, hm]
  split
  · next hk => subst hk; simp [Mutex.line, Mutex.ask]
  · rfl

/-- Handing on a mutex is not seen in the queues: whoever is first there holds the key. -/
theorem MirroredBy.give (hm : r.MirroredBy t) (h : r.Sound) {rest : List Nat}
    (hn : r.IsNext key lock i rest) : (r.give lock i).MirroredBy t := by
  obtain ⟨-, hc, -⟩ := h.give hn
  intro k
  rw [hc.mutexOf, hm]
  split
  · next hk => subst hk; simp [Mutex.line, Mutex.pass, hn.free, hn.queue]
  · rfl

theorem MirroredBy.part (hm : r.MirroredBy t) (h : r.Sound) (hp : r.asked[i]? = some p)
    (ho : p.isOpen) : (r.part i p phase).MirroredBy (t.leave p.key i) := by
  obtain ⟨hc, -, -⟩ := h.part_eq phase hp ho
  have howner := h.owner p.key i
  rw [stands_iff hp] at howner
  intro k
  rw [LockTable.queue_leave, hc.mutexOf, hm, hm]
  split
  · next hk =>
    subst hk
    unfold Party.letGo
    split
    · next hold =>
      simp [Mutex.line, Mutex.release, howner.2 ⟨rfl, hold⟩]
    · next hold =>
      have : i ∉ (r.locks.mutexOf p.key).owner.toList := by
        rw [Option.mem_toList, howner]
        exact fun h => hold h.2
      simp [Mutex.line, Mutex.quit, List.erase_append_right _ this]
  · rfl

theorem MirroredBy.holder? (hm : r.MirroredBy t) (hs : r.Settled) (key : κ) :
    t.holder? key = (r.locks.mutexOf key).owner := by
  unfold LockTable.holder?
  rw [hm, Mutex.line]
  cases howner : (r.locks.mutexOf key).owner with
  | none => simp [hs key howner]
  | some i => simp

end plain

end LockRoom

end AppBroker
