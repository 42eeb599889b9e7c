import AppBroker.Proofs.Reachable
import AppBroker.Text.Integer

/-!
# The order of containers

Each container bears a sequence number that is greater than those of the containers made before it,
whatever the clock says (`World.Sequenced`): this is kept by every call, however it ends. The number
is written into a label, and a search that reads it back gives the containers in the order in which
they were made (`World.find_in_order`).

The runtime forgets the last number when the broker ends. A broker that starts anew while the clock
was set back may give smaller numbers than there are. `World.Timely` is what is reached without
that.
-/

namespace AppBroker

open Program Lifecycle

/-! ## Reading a written number -/

namespace Text

theorem decimalValue?_of_isDigit {c : Char} (h : c.isDigit = true) :
    decimalValue? c = some (c.toNat - 48) := by
  have hrange : 48 ≤ c.toNat ∧ c.toNat ≤ 57 := by
    simpa [Char.isDigit, UInt32.le_iff_toNat_le] using h
  unfold decimalValue? decimalZeros
  rw [List.findSome?_cons, if_pos ⟨hrange.1, by omega⟩]

theorem alphabetValue?_of_isDigit {c : Char} (h : c.isDigit = true) :
    alphabetValue? c = some (c.toNat - 48) := by
  have hrange : 48 ≤ c.toNat ∧ c.toNat ≤ 57 := by
    simpa [Char.isDigit, UInt32.le_iff_toNat_le] using h
  have hlower : ¬ ('a' ≤ c ∧ c ≤ 'z') := fun ⟨ha, _⟩ => by
    have : 97 ≤ c.toNat := ha
    omega
  have hupper : ¬ ('A' ≤ c ∧ c ≤ 'Z') := fun ⟨ha, _⟩ => by
    have : 65 ≤ c.toNat := ha
    omega
  unfold alphabetValue?
  rw [if_neg hlower, if_neg hupper, decimalValue?_of_isDigit h]


theorem trimWhile_eq_self {p : Char → Bool} {cs : List Char} (h : ∀ c ∈ cs, p c = false) :
    trimWhile p cs = cs := by
  have hdrop (ds : List Char) (hd : ∀ c ∈ ds, p c = false) : ds.dropWhile p = ds := by
    cases ds with
    | nil => rfl
    | cons d ds => rw [List.dropWhile_cons, hd d List.mem_cons_self, if_neg (by simp)]
  unfold trimWhile dropEndWhile
  rw [hdrop cs h, hdrop _ fun c hc => h c (List.mem_reverse.1 hc), List.reverse_reverse]

theorem isBlank_of_isDigit {c : Char} (h : c.isDigit = true) : isBlank c = false := by
  have hrange : 48 ≤ c.toNat ∧ c.toNat ≤ 57 := by
    simpa [Char.isDigit, UInt32.le_iff_toNat_le] using h
  simp only [isBlank, isSpace, Bool.or_eq_false_iff, Bool.and_eq_false_iff,
    decide_eq_false_iff_not]
  omega

theorem digitsIn?_of_isDigit {cs : List Char} (hne : cs ≠ []) (h : ∀ c ∈ cs, c.isDigit = true) :
    digitsIn? 10 cs = some (cs.map fun c => c.toNat - 48) := by
  have hsplit : cs.splitOn '_' = [cs] := List.splitOn_eq_singleton fun hm => by
    have := h _ hm
    revert this
    decide
  have hmap : cs.mapM alphabetValue? = some (cs.map fun c => c.toNat - 48) := by
    clear hsplit hne
    induction cs with
    | nil => rfl
    | cons c cs ih =>
      rw [List.mapM_cons, alphabetValue?_of_isDigit (h c List.mem_cons_self),
        ih fun d hd => h d (List.mem_cons_of_mem _ hd)]
      rfl
  have hsmall : (cs.map fun c => c.toNat - 48).all (· < 10) = true := by
    rw [List.all_eq_true]
    intro d hd
    obtain ⟨c, hc, rfl⟩ := List.mem_map.1 hd
    have hrange : 48 ≤ c.toNat ∧ c.toNat ≤ 57 := by
      simpa [Char.isDigit, UInt32.le_iff_toNat_le] using h c hc
    exact decide_eq_true (by omega)
  unfold digitsIn?
  simp only [hsplit, List.any_cons, List.any_nil, Bool.or_false, List.isEmpty_iff, hne,
    List.flatten_cons, List.flatten_nil, List.append_nil, hmap, Option.bind_some, hsmall, if_true,
    if_false]

/-- Digits are read as the number that they write, unless there are too many. -/
theorem integerIn?_digits {cs : List Char} (negative : Bool) (hne : cs ≠ [])
    (hd : ∀ c ∈ cs, c.isDigit = true) :
    integerIn? 10 (if negative then '-' :: cs else cs) =
      if maxNumeralLength < cs.length then none
      else some (if negative then -(Nat.ofDigitChars 10 cs 0 : Int)
        else Nat.ofDigitChars 10 cs 0) := by
  have hmark : dropBaseMark 10 cs = cs := by
    unfold dropBaseMark
    split
    · rw [if_neg (by simp [baseMark?])]
    · rfl
  have hblank : ∀ c ∈ (if negative then '-' :: cs else cs), isBlank c = false := by
    have hcs : ∀ c ∈ cs, isBlank c = false := fun c hc => isBlank_of_isDigit (hd c hc)
    cases negative with
    | false => exact hcs
    | true => exact List.forall_mem_cons.2 ⟨by decide, hcs⟩
  have hread : Nat.ofDigitChars 10 cs 0 =
      (cs.map fun c => c.toNat - 48).foldl (fun n d => 10 * n + d) 0 := by
    rw [List.foldl_map]
    rfl
  unfold integerIn?
  rw [trimWhile_eq_self hblank]
  cases negative with
  | true =>
    simp only [if_true, hmark, digitsIn?_of_isDigit hne hd, ← hread, List.length_map,
      decide_true, Bool.true_and, decide_eq_true_eq]
  | false =>
    obtain ⟨c, rest, rfl⟩ := List.exists_cons_of_ne_nil hne
    have hc := hd c List.mem_cons_self
    have hminus : c ≠ '-' := by rintro rfl; exact absurd hc (by decide)
    have hplus : c ≠ '+' := by rintro rfl; exact absurd hc (by decide)
    simp only [Bool.false_eq_true, if_false, List.cons.injEq, hminus, hplus, false_and,
      imp_self, implies_true, hmark, digitsIn?_of_isDigit hne hd, ← hread, List.length_map,
      decide_true, Bool.true_and, decide_eq_true_eq]

theorem isDigit_of_mem_toDigits {n : Nat} {c : Char} (h : c ∈ Nat.toDigits 10 n) :
    c.isDigit = true :=
  Nat.isDigit_of_mem_toDigits (by decide) (by decide) h

theorem toList_toString (n : Int) : (toString n).toList =
    if decide (n < 0) then '-' :: Nat.toDigits 10 n.natAbs else Nat.toDigits 10 n.natAbs := by
  rw [Int.toString_eq_repr]
  cases n with
  | ofNat a =>
    rw [if_neg (by simp)]
    simp [Int.repr, Nat.repr_eq_ofList_toDigits]
  | negSucc a =>
    rw [if_pos (by simp)]
    simp [Int.repr, Nat.repr_eq_ofList_toDigits]

/-- A number reads back as itself, if it is not too long to be written. -/
theorem integer?_toString_eq (n : Int) : integer? (toString n) = (numeral? n).map fun _ => n := by
  unfold integer? numeral?
  rw [toList_toString, integerIn?_digits _ Nat.toDigits_ne_nil fun c => isDigit_of_mem_toDigits,
    Nat.ofDigitChars_ten_toDigits]
  split
  · rfl
  · simp only [decide_eq_true_eq, Option.map_some, Option.some.injEq]
    split <;> omega

theorem integer?_toString {n m : Int} (h : integer? (toString n) = some m) : m = n := by
  rw [integer?_toString_eq, Option.map_eq_some_iff] at h
  obtain ⟨_, _, rfl⟩ := h
  rfl

theorem toString_injective {m n : Int} (h : toString m = toString n) : m = n := by
  have hdigits : (toString m).toList = (toString n).toList := congrArg String.toList h
  rw [toList_toString, toList_toString] at hdigits
  have hminus (a : Nat) : '-' ∉ Nat.toDigits 10 a := fun hm =>
    absurd (isDigit_of_mem_toDigits hm) (by decide)
  have hnat {a b : Nat} (hab : Nat.toDigits 10 a = Nat.toDigits 10 b) : a = b := by
    rw [← Nat.ofDigitChars_ten_toDigits (n := a), hab, Nat.ofDigitChars_ten_toDigits]
  simp only [decide_eq_true_eq] at hdigits
  split at hdigits <;> split at hdigits
  · have := hnat (List.cons.inj hdigits).2
    omega
  · exact absurd (hdigits ▸ List.mem_cons_self) (hminus _)
  · exact absurd (hdigits ▸ List.mem_cons_self) (hminus _)
  · have := hnat hdigits
    omega

end Text

/-- Handles are read of a list of containers exactly if they go with it one by one. -/
theorem Runtime.handlesOf_iff {network : String} {cs : List Container} {hs : List Handle} :
    handlesOf network cs = .ok hs ↔ List.Forall₂ (fun c h => handleOf network c = .ok h) cs hs := by
  refine ⟨forall₂_handlesOf, fun h => ?_⟩
  induction h with
  | nil => rfl
  | cons hc _ ih =>
    unfold handlesOf at ih ⊢
    rw [List.mapM_cons, hc, ih]
    rfl

/-! ## Growing numbers -/

/-- Whether labels tell a sequence number. -/
def Bears (labels : Table String String) (n : Int) : Prop :=
  labels.get? Runtime.sequenceLabel = some (toString n)

theorem Bears.unique {labels : Table String String} {m n : Int} (h : Bears labels m)
    (h' : Bears labels n) : m = n :=
  Text.toString_injective (Option.some.inj (h.symm.trans h'))

/-- Whether labels tell slots and growing numbers, all below the one that is given next. -/
structure InSequence (labels : List (Table String String)) (next : Int) : Prop where
  slotted : ∀ l ∈ labels, (l.get? Runtime.serviceLabel).isSome
  below : ∀ l ∈ labels, ∃ n < next, Bears l n
  increasing : labels.Pairwise fun l l' => ∀ m n, Bears l m → Bears l' n → m < n

namespace InSequence

variable {labels labels' : List (Table String String)} {l : Table String String} {next next' : Int}

theorem sublist (h : InSequence labels next) (hsub : labels'.Sublist labels)
    (hnext : next ≤ next') : InSequence labels' next' where
  slotted l hl := h.slotted l (hsub.subset hl)
  below l hl := by
    obtain ⟨n, hn, hb⟩ := h.below l (hsub.subset hl)
    exact ⟨n, by omega, hb⟩
  increasing := h.increasing.sublist hsub

theorem append (h : InSequence labels next) (hslot : (l.get? Runtime.serviceLabel).isSome)
    (hl : Bears l next) (hnext : next < next') : InSequence (labels ++ [l]) next' where
  slotted l' hl' := by
    rcases List.mem_append.1 hl' with hl' | hl'
    · exact h.slotted l' hl'
    · rwa [List.mem_singleton.1 hl']
  below l' hl' := by
    rcases List.mem_append.1 hl' with hl' | hl'
    · obtain ⟨n, hn, hb⟩ := h.below l' hl'
      exact ⟨n, by omega, hb⟩
    · exact ⟨next, hnext, by rwa [List.mem_singleton.1 hl']⟩
  increasing := List.pairwise_append.2 ⟨h.increasing, by simp, fun a ha b hb m n hm hn => by
    obtain ⟨m', hm', hbears⟩ := h.below a ha
    rw [List.mem_singleton.1 hb] at hn
    rw [hm.unique hbears, hn.unique hl]
    exact hm'⟩

end InSequence

/-- Telling the time does not count. -/
theorem Clock.nanos_afterNow (clock : Clock) : clock.afterNow.nanos = clock.nanos := by
  -- For any moment, since comparing it with the later one takes long.
  have hkept (moment : Moment) : ({ clock with moment := moment } : Clock).nanos = clock.nanos := rfl
  exact hkept _

namespace Store

/-- Reading records does not count. -/
theorem nanos_readRecords (clock : Clock) (entries : List (Value × Value)) :
    (readRecords clock entries).2.nanos = clock.nanos := by
  induction entries generalizing clock with
  | nil => rfl
  | cons entry rest ih =>
    obtain ⟨name, value⟩ := entry
    unfold readRecords
    split
    · rfl
    · rename_i fields _
      have hrest := ih (if Record.needsClock fields then clock.afterNow else clock)
      have hsame : (if Record.needsClock fields then clock.afterNow else clock).nanos =
          clock.nanos := by
        split
        · exact clock.nanos_afterNow
        · rfl
      dsimp only
      split
      · exact hsame
      · split <;> rename_i heq <;> rw [heq] at hrest <;> exact hrest.trans hsame

theorem nanos_load (codec : Yaml.Codec) (d : Disk) (root : Path) (clock : Clock)
    (tenant : String) : (load codec d root clock tenant).2.nanos = clock.nanos := by
  unfold load
  dsimp only
  split
  · rfl
  · exact nanos_readRecords _ _

end Store

namespace World

variable {w w' : World} {c : Call}

/-- The sequence number that is given next. -/
def nextSequence (w : World) : Int := max w.clock.nanos (w.broker.runtime.lastSequence + 1)

/-- Whether containers bear growing numbers, all below the one that is given next. -/
def Sequenced (w : World) : Prop :=
  InSequence (w.engine.containers.map (·.labels)) w.nextSequence

theorem Became.nextSequence {cs : List Container} (h : w.Became cs w') :
    w'.nextSequence = w.nextSequence := by
  obtain ⟨_, _, _, rfl⟩ := h
  rfl

theorem nextSequence_clock {clock : Clock} (h : clock.nanos = w.clock.nanos) :
    { w with clock := clock }.nextSequence = w.nextSequence := by
  unfold nextSequence
  rw [h]

theorem nextSequence_load (tenant : String) (w : World) :
    (load tenant w).2.nextSequence = w.nextSequence :=
  nextSequence_clock (Store.nanos_load ..)

theorem nextSequence_bind {α β : Type} {m : Action World α} {f : α → Action World β}
    (hm : ∀ w, (m w).2.nextSequence = w.nextSequence)
    (hf : ∀ a w, (f a w).2.nextSequence = w.nextSequence) (w : World) :
    (Action.bind m f w).2.nextSequence = w.nextSequence := by
  have h := hm w
  unfold Action.bind
  split <;> rename_i hmw <;> rw [hmw] at h
  · exact (hf _ _).trans h
  · exact h

/-- Only making containers counts. -/
theorem nextSequence_answer (hc : c.isSparing = true) (w : World) :
    (w.answer c).2.nextSequence = w.nextSequence := by
  have hrewrite (tenant : String) (f : Table String Record → Outcome (Table String Record)) :
      (rewrite tenant f w).2.nextSequence = w.nextSequence :=
    nextSequence_bind (nextSequence_load tenant) (fun _ _ => by split <;> rfl) w
  cases c with
  | create | start | stop | restart | destroy | route => cases hc
  | record tenant name | records tenant =>
    exact nextSequence_bind (nextSequence_load tenant) (fun _ _ => rfl) w
  | addRecord tenant r | replaceRecord tenant r | removeRecord tenant r => exact hrewrite tenant _
  | find app tenant service => exact (w.answer_find app tenant service).1.nextSequence
  | inspect h => exact (w.answer_inspect h).1.nextSequence
  | exec h user command => exact (w.answer_exec h user command).nextSequence
  | deploy tenant name branch =>
    show (withSource _ w).2.nextSequence = _
    unfold withSource
    split
    · rfl
    · dsimp only
      split <;> rfl
  | branches tenant name =>
    show (withSource _ w).2.nextSequence = _
    unfold withSource
    split <;> rfl
  | disconnect =>
    show (Runtime.close w).2.nextSequence = _
    unfold Runtime.close Action.modify
    dsimp only
    split <;> rfl
  | now => exact nextSequence_clock w.clock.nanos_afterNow
  | tenants | compose | plugin | warn => rfl

theorem Became.sequenced {cs : List Container} (h : w.Became cs w') (hw : w.Sequenced)
    (hcs : (cs.map (·.labels)).Sublist (w.engine.containers.map (·.labels))) : w'.Sequenced := by
  unfold Sequenced
  rw [h.nextSequence]
  obtain ⟨_, _, _, rfl⟩ := h
  exact InSequence.sublist hw hcs (Int.le_refl _)

theorem map_labels_changed (cs : List Container) (id : String) {f : Container → Container}
    (hl : ∀ c, (f c).labels = c.labels) :
    (Engine.changed cs id f).map (·.labels) = cs.map (·.labels) := by
  unfold Engine.changed
  rw [List.map_map]
  refine List.map_congr_left fun c _ => ?_
  dsimp only [Function.comp]
  split
  · exact hl c
  · rfl

theorem counted_nextSequence (w : World) : w.nextSequence < w.counted.nextSequence := by
  show w.nextSequence < max (w.clock.nanos + w.clock.tick) (w.nextSequence + 1)
  omega

/-- Nothing is asked of the engine where the sequence number cannot be written down. -/
theorem answer_create_of_unwritable (h : Text.numeral? w.nextSequence = none)
    (app tenant : String) (tag : Tag) :
    w.answer (.create app tenant tag) = (fail .badValue, w.counted) := by
  show Runtime.create app tenant tag w = _
  have hnext : Runtime.nextSerial w = (.ok (w.idsGiven + 1, w.nextSequence), w.counted) := rfl
  unfold Runtime.create Action.bind
  simp only [hnext, h, Option.isNone_none, if_true]

theorem sequenced_create (hn : Engine.Numbered w.engine.containers w.engine.made)
    (hw : w.Sequenced) (app tenant : String) (tag : Tag) :
    (w.answer (.create app tenant tag)).2.Sequenced := by
  have hcounted := w.counted_nextSequence
  rcases w.lineup_create (k := ⟨tenant, app⟩) hn tag with ⟨-, hq⟩ | ⟨-, ⟨w₁, hb, hw₁⟩, -⟩
  · refine hq.sequenced (InSequence.sublist hw (.refl _) (Int.le_of_lt hcounted)) (.refl _)
  · rw [hw₁]
    have hnext := hb.nextSequence
    obtain ⟨_, _, _, rfl⟩ := hb
    unfold Sequenced
    rw [List.map_append]
    exact InSequence.append hw rfl rfl hcounted

/-- Whatever is called, and however the call ends, containers bear growing numbers. -/
theorem Sequenced.answer (hw : w.Sequenced)
    (hn : Engine.Numbered w.engine.containers w.engine.made) (c : Call) :
    (w.answer c).2.Sequenced := by
  have hchanged {id : String} {f : Container → Container} {w' : World}
      (hcases : w.Quiet w' ∨ w.Became (Engine.changed w.engine.containers id f) w')
      (hl : ∀ c, (f c).labels = c.labels) : w'.Sequenced := by
    rcases hcases with hq | hb
    · exact hq.sequenced hw (.refl _)
    · exact hb.sequenced hw (by rw [map_labels_changed _ _ hl])
  have hsparing (hc : c.isSparing = true) : (w.answer c).2.Sequenced := by
    unfold Sequenced
    rw [nextSequence_answer hc, (w.same_answer hc).containers]
    exact hw
  cases c with
  | create app tenant tag => exact sequenced_create hn hw app tenant tag
  | start h => exact hchanged (w.handled_start h) fun _ => rfl
  | restart h => exact hchanged (w.handled_restart h) fun _ => rfl
  | stop h => exact hchanged (w.handled_stop h) fun _ => rfl
  | destroy h =>
    rcases w.handled_destroy h with hq | hb
    · exact hq.sequenced hw (.refl _)
    · exact hb.sequenced hw (List.filter_sublist.map _)
  | route change => exact hw
  | _ => exact hsparing rfl

end World

/-- What every call keeps is kept by a program that runs by itself. -/
theorem Program.run_keeps {α : Type} {I : World → Prop} (hI : ∀ c w, I w → I (w.answer c).2)
    (p : Program α) {w : World} (h : I w) : I (p.run w).2 := by
  induction p generalizing w with
  | done r => exact h
  | call c next ih => exact ih _ (hI c w h)
  | lock key next ih | unlock key next ih => exact ih h

/-- What every call keeps is kept by programs that run together. -/
theorem Pool.run_keeps {α : Type} {I : World → Prop} (hI : ∀ c w, I w → I (w.answer c).2)
    {p : Pool α} (h : I p.world) (order : List Nat) : I (p.run order).world := by
  induction order generalizing p with
  | nil => exact h
  | cons i order ih =>
    refine ih ?_
    cases ht : p.tasks[i]? with
    | none => rwa [step_none ht]
    | some task =>
      cases task with
      | done r => rwa [step_done ht]
      | call c next =>
        rw [step_call ht]
        exact hI c _ h
      | lock k next =>
        rw [step_lock ht]
        split <;> simpa [advance] using h
      | unlock k next =>
        rw [step_unlock ht]
        exact h

namespace World

variable {platform : PlatformSettings} {w w' : World} {k : AppKey}

/-- Whether containers are told apart by their ids and bear growing numbers. -/
structure Ordered (w : World) : Prop where
  sequenced : w.Sequenced
  numbered : Engine.Numbered w.engine.containers w.engine.made

theorem Ordered.answer (h : w.Ordered) (c : Call) : (w.answer c).2.Ordered :=
  ⟨h.sequenced.answer h.numbered c, (aged_answer h.numbered c).numbered h.numbered⟩

/-- What lifecycle operations lead to, as long as no clock that was set back lets a broker that
starts anew give numbers that were given before. Between them containers may be lost. -/
inductive Timely (platform : PlatformSettings) : World → Prop
  | new {w : World} : w.IsNew → Timely platform w
  | operated {w : World} {requests : List Request} (order : List Nat) : Timely platform w →
      (∀ r ∈ requests, '/' ∉ r.caller.tenant.toList) →
      Timely platform
        (Pool.run { world := w, tasks := requests.map (·.program platform) } order).world
  | lost {w : World} (kept : Container → Bool) : Timely platform w →
      Timely platform
        { w with engine := { w.engine with containers := w.engine.containers.filter kept } }
  | beside {w w' : World} : Timely platform w → w.Beside w' →
      (∀ c ∈ w'.engine.containers, ∀ n, Bears c.labels n → n < w'.nextSequence) →
      Timely platform w'

theorem Timely.dependable (h : w.Timely platform) : w.Dependable w.engine.lenient := by
  induction h with
  | new hw => exact hw.dependable
  | operated order _ hrequests ih =>
    have hsound := ih.operated platform order hrequests
    exact hsound.lenient_eq ▸ hsound
  | lost kept _ ih =>
    obtain ⟨⟨hid, hle, hincreasing⟩, htruthful, -, hstoring⟩ := ih
    refine ⟨⟨fun c hc => hid c (List.mem_filter.1 hc).1, fun c hc => hle c (List.mem_filter.1 hc).1,
      hincreasing.sublist List.filter_sublist⟩, htruthful, rfl, ?_⟩
    exact ⟨hstoring.faithful, hstoring.has, hstoring.holds, hstoring.real⟩
  | beside _ hbeside _ ih => exact hbeside.dependable ih.numbered

theorem Timely.sequenced (h : w.Timely platform) : w.Sequenced := by
  induction h with
  | @new w hw =>
    unfold Sequenced
    rw [hw.containers]
    exact ⟨by simp, by simp, .nil⟩
  | @operated w requests order hw _ ih =>
    exact (Pool.run_keeps (I := Ordered) (fun c _ h => h.answer c)
      ⟨ih, hw.dependable.numbered⟩ order).1
  | lost kept _ ih => exact InSequence.sublist ih (List.filter_sublist.map _) (Int.le_refl _)
  | @beside w w' hw hbeside hbelow ih =>
    have hlabels : w'.engine.containers.map (·.labels) = w.engine.containers.map (·.labels) := by
      simpa [Function.comp_def] using congrArg (List.map Prod.snd) hbeside.labels
    unfold Sequenced at ih ⊢
    rw [hlabels]
    refine ⟨ih.slotted, fun l hl => ?_, ih.increasing⟩
    obtain ⟨n, -, hn⟩ := ih.below l hl
    rw [← hlabels] at hl
    obtain ⟨c, hc, rfl⟩ := List.mem_map.1 hl
    exact ⟨n, hbelow c hc n hn, hn⟩

/-! ## Searches -/

/-- Sorting gives the one order in which sequence numbers grow. -/
theorem mergeSort_eq {all hs : List Handle}
    (hperm : (all.mergeSort fun a b => a.sequence ≤ b.sequence).Perm hs)
    (hgrow : hs.Pairwise fun a b => a.sequence < b.sequence) :
    all.mergeSort (fun a b => a.sequence ≤ b.sequence) = hs := by
  have hsorted : (all.mergeSort fun a b => a.sequence ≤ b.sequence).Pairwise
      fun a b => a.sequence ≤ b.sequence := by
    refine (List.pairwise_mergeSort ?_ ?_ _).imp fun h => of_decide_eq_true h
    · simp only [decide_eq_true_eq]
      omega
    · simp only [Bool.or_eq_true, decide_eq_true_eq]
      omega
  refine hperm.eq_of_pairwise (fun a b ha hb hab hba => ?_) hsorted (hgrow.imp Int.le_of_lt)
  rw [hperm.mem_iff] at ha
  obtain ⟨i, hi, rfl⟩ := List.mem_iff_getElem.1 ha
  obtain ⟨j, hj, rfl⟩ := List.mem_iff_getElem.1 hb
  rw [List.pairwise_iff_getElem] at hgrow
  rcases Nat.lt_trichotomy i j with hij | rfl | hij
  · have := hgrow i j hi hj hij
    omega
  · rfl
  · have := hgrow j i hj hi hij
    omega

/-- A search finds the containers of a slot in the order in which they were made. -/
theorem find_in_order {service : Option String} {hs : List Handle} (hk : Told w.engine.lenient k)
    (hw : w.Sequenced) (h : (w.answer (.find k.name k.tenant service)).1 = .ok hs) :
    List.Forall₂ (fun c h => Runtime.handleOf w.broker.runtime.settings.network c = .ok h)
      ((w.lineup k).filter fun c => service.all (c.slot = ·)) hs := by
  have hlabels (c : Container) (hc : c ∈ w.engine.containers) :
      c.labels ∈ w.engine.containers.map (·.labels) := List.mem_map_of_mem hc
  obtain ⟨handles, hread, hperm⟩ := find_handles hk
    (fun c hc => hw.slotted _ (hlabels c (mem_lineup.1 hc).1)) h
  obtain ⟨all, -, rfl⟩ := (w.answer_find _ _ _).2 hs h
  -- The handles tell the numbers that the containers bear, so they grow as well.
  have hnumber {c : Container} {h : Handle}
      (hc : c ∈ (w.lineup k).filter fun c => service.all (c.slot = ·))
      (hh : Runtime.handleOf w.broker.runtime.settings.network c = .ok h) :
      Bears c.labels h.sequence := by
    obtain ⟨n, -, hn⟩ := hw.below _ (hlabels c (mem_lineup.1 (List.mem_filter.1 hc).1).1)
    have hsequence := (Runtime.readFrom_of_handleOf hh).sequence
    rw [hn, Option.getD_some] at hsequence
    rwa [Text.integer?_toString hsequence]
  have hgrow : handles.Pairwise fun a b => a.sequence < b.sequence := by
    have hsorted : ((w.lineup k).filter fun c => service.all (c.slot = ·)).Pairwise fun c d =>
        ∀ m n, Bears c.labels m → Bears d.labels n → m < n :=
      (List.pairwise_map.1 hw.increasing).sublist (List.filter_sublist.trans List.filter_sublist)
    rw [List.pairwise_iff_getElem] at hsorted ⊢
    intro i j hi hj hij
    have hlen := hread.length_eq
    have hat (i : Nat) (hi : i < handles.length) := hread.get (by omega) hi
    exact hsorted i j (by omega) (by omega) hij _ _
      (hnumber (List.getElem_mem _) (hat i hi)) (hnumber (List.getElem_mem _) (hat j hj))
  rw [mergeSort_eq hperm hgrow]
  exact hread

/-- The framework containers of an application, oldest first. -/
def frameworks (w : World) (k : AppKey) : List Container := (w.lineup k).filter (·.slot = "")

/-- A search for the framework containers finds them in the order in which they were made. -/
theorem find_frameworks {hs : List Handle} (hk : Told w.engine.lenient k) (hw : w.Sequenced)
    (h : (w.answer (.find k.name k.tenant (some ""))).1 = .ok hs) :
    List.Forall₂ (fun c h => Runtime.handleOf w.broker.runtime.settings.network c = .ok h)
      (w.frameworks k) hs := by
  have hall := find_in_order hk hw h
  simp only [Option.all_some] at hall
  exact hall

/-- The answer to a call, where searches go by the order in which containers were made. -/
def answerInOrder (w : World) : (c : Call) → Outcome c.Value × World
  | .find app tenant service =>
    let (found, w') := w.answer (.find app tenant service)
    if found.isOk then
      (Runtime.handlesOf w.broker.runtime.settings.network
        ((w.lineup ⟨tenant, app⟩).filter fun c => service.all (c.slot = ·)), w')
    else (found, w')
  | c => w.answer c

/-- An exact engine finds containers in the order in which they were made. -/
theorem answerInOrder_eq (hl : w.engine.lenient = false) (hw : w.Sequenced) (c : Call) :
    w.answerInOrder c = w.answer c := by
  cases c with
  | find app tenant service =>
    rcases ha : w.answer (.find app tenant service) with ⟨e | hs, w'⟩ <;>
      simp only [answerInOrder, ha]
    · rfl
    · refine Prod.ext (Runtime.handlesOf_iff.2 ?_) rfl
      exact find_in_order (k := ⟨tenant, app⟩) (.inl hl) hw (by rw [ha])
  | _ => rfl

end World

/-- Runs a program by itself, where searches go by the order in which containers were made. -/
def Program.runInOrder {α : Type} : Program α → Action World α
  | .done result => fun w => (result, w)
  | .call c next => fun w =>
    let (answer, w) := w.answerInOrder c
    (next answer).runInOrder w
  | .lock _ next => next.runInOrder
  | .unlock _ next => next.runInOrder

/-- Whether every call that a program makes when it runs by itself is one of the allowed, where
searches go by the order in which containers were made. -/
def Program.alongInOrder {α : Type} (P : Call → World → Prop) [∀ c w, Decidable (P c w)] :
    Program α → World → Bool
  | .done _, _ => true
  | .call c next, w =>
    decide (P c w) && (next (w.answerInOrder c).1).alongInOrder P (w.answerInOrder c).2
  | .lock _ next, w | .unlock _ next, w => next.alongInOrder P w

theorem Program.runInOrder_eq {α : Type} (p : Program α) {w : World}
    (hl : w.engine.lenient = false) (hw : w.Sequenced)
    (hn : Engine.Numbered w.engine.containers w.engine.made) : p.runInOrder w = p.run w := by
  induction p generalizing w with
  | done r => rfl
  | call c next ih =>
    have haged := World.aged_answer hn c
    unfold runInOrder run
    rw [World.answerInOrder_eq hl hw]
    exact ih _ (haged.lenient.trans hl) (hw.answer hn c) (haged.numbered hn)
  | lock key next ih => exact ih hl hw hn
  | unlock key next ih => exact ih hl hw hn

theorem Program.along_of_inOrder {α : Type} {P : Call → World → Prop} [∀ c w, Decidable (P c w)]
    {p : Program α} {w : World} (hl : w.engine.lenient = false) (hw : w.Ordered)
    (h : p.alongInOrder P w = true) : p.Along P w := by
  induction p generalizing w with
  | done r => trivial
  | call c next ih =>
    rw [alongInOrder, Bool.and_eq_true, World.answerInOrder_eq hl hw.sequenced] at h
    have haged := World.aged_answer hw.numbered c
    exact ⟨of_decide_eq_true h.1, ih _ (haged.lenient.trans hl) (hw.answer c) h.2⟩
  | lock key next ih => exact ih hl hw h
  | unlock key next ih => exact ih hl hw h

end AppBroker
