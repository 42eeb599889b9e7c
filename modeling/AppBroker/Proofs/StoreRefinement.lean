import AppBroker.Proofs.CarefulCodec
import AppBroker.Proofs.DiskTree
import AppBroker.Proofs.RealMoments
import AppBroker.Proofs.RecordCalls
import Mathlib.Logic.Function.Basic

/-!
# The store is a map

Whatever is added to the store, replaced in it and removed from it, and however often it is opened
again, it answers as a plain map from applications to records would: a call fails just when the map
says so, and then changes nothing, and what is read is what the map holds. Every change writes the
records of a tenant anew, in a file of its own; what keeps tenants apart is that their files have
different names, none of which is the name of a draft.
-/

namespace AppBroker

namespace Text

theorem le_trans (a b c : String) (h : le a b = true) (h' : le b c = true) : le a c = true :=
  Std.TransCmp.isLE_trans h h'

theorem le_total (a b : String) : (le a b || le b a) = true := by
  unfold le
  rw [@Std.OrientedCmp.eq_swap String Ord.compare _ b a]
  cases Ord.compare a b <;> rfl

end Text

namespace Disk

variable {d : Disk} {dir : Path} {n : String}

/-- What could be there and is not is not found. -/
theorem exists?_absent_name (h : d.Has dir) (hn : IsName n) (hf : d.entry? (dir ++ [n]) = none) :
    d.exists? (dir ++ [n]) = .ok false := by
  have hstat : d.stat (dir ++ [n]) = .error .absent := by
    simp [stat, locate_child h true hn (by simp [hf]), hf]
  simp [exists?, test, hstat, DiskFault.meansAbsent]

theorem isDirectory_self (h : d.Has dir) : d.isDirectory dir = .ok true := by
  have hstat : d.stat dir = .ok .directory := by
    simp [stat, locate_self h, h.at, pure, Except.pure]
  simp [isDirectory, test, hstat]

/-- Directories that are there need not be made. -/
theorem makeDirectories_of_has (h : d.Has dir) : d.makeDirectories dir = .ok d := by
  have hall := makeDirectoriesFrom_names [] dir (by simpa using h) []
  rw [List.append_nil] at hall
  rw [makeDirectories, h.no_null, if_neg (by simp), hall]
  rfl

end Disk

namespace Store

/-- Whether a tenant has a visible file of its own, which can be drafted. -/
structure Housed (tenant : String) : Prop where
  ne_empty : tenant ≠ ""
  one_name : '/' ∉ tenant.toList
  visible : tenant.toList.head? ≠ some '.'
  no_null : '\x00' ∉ tenant.toList
  short : (draftName tenant).utf8ByteSize ≤ Disk.maxName

theorem housed_iff {tenant : String} : Housed tenant ↔ tenant ≠ "" ∧ '/' ∉ tenant.toList ∧
    tenant.toList.head? ≠ some '.' ∧ '\x00' ∉ tenant.toList ∧
    (draftName tenant).utf8ByteSize ≤ Disk.maxName :=
  ⟨fun h => ⟨h.1, h.2, h.3, h.4, h.5⟩, fun ⟨h₁, h₂, h₃, h₄, h₅⟩ => ⟨h₁, h₂, h₃, h₄, h₅⟩⟩

instance (tenant : String) : Decidable (Housed tenant) := decidable_of_iff _ housed_iff.symm

variable {tenant : String}

theorem Housed.isName_file (h : Housed tenant) : Disk.IsName (tenant ++ suffix) := by
  have hlen (s : String) (hs : s.toList.length < 5) : tenant ++ suffix ≠ s := by
    rintro rfl
    have hsuffix : suffix.toList.length = 5 := by decide
    rw [String.toList_append, List.length_append] at hs
    omega
  refine ⟨hlen _ (by decide), hlen _ (by decide), hlen _ (by decide), ?_, ?_⟩
  · have := h.short
    unfold draftName at this
    simp only [String.utf8ByteSize_append] at this ⊢
    have hsizes : suffix.utf8ByteSize ≤ "-xxxxxxxx.yaml".utf8ByteSize := by decide
    omega
  · simp [suffix, h.no_null]

theorem Housed.isName_draft (h : Housed tenant) : Disk.IsName (draftName tenant) := by
  have hlen (s : String) (hs : s.toList.length < 5) : draftName tenant ≠ s := by
    rintro rfl
    simp [draftName] at hs
    omega
  refine ⟨hlen _ (by decide), hlen _ (by decide), hlen _ (by decide), h.short, ?_⟩
  simp [draftName, h.no_null]

/-- What a tenant has in its file is loaded. -/
theorem load_of_housed {codec : Yaml.Codec} {d : Disk} {root : Path}
    {records : Table String Record} (hd : d.Has root) (hc : Faithful codec) (ht : Housed tenant)
    (h : Holds codec d root tenant records) (hp : Proper records) (clock : Clock) :
    load codec d root clock tenant = (.ok (arranged records), clock) := by
  rcases h with ⟨hnone, rfl⟩ | ⟨hfile, hname⟩
  · have habsent := Disk.exists?_absent_name hd ht.isName_file hnone
    unfold load
    rw [file_eq root ht.one_name]
    simp [habsent, pure, Except.pure, readRecords, arranged]
  · exact load_of_file hd hc ht.one_name hname hfile hp clock

/-- Records that are sorted after they were read. -/
theorem sorted_arranged (records : Table String Record) :
    ∃ entries : Table String Record, sorted (arranged records) = entries.map (·.2) ∧
      entries.Perm records ∧ entries.Pairwise fun e e' => Text.le e.1 e'.1 = true :=
  ⟨arranged (arranged records), rfl, (perm_arranged _).trans (perm_arranged _),
    @List.pairwise_mergeSort (String × Record) (fun e e' => Text.le e.1 e'.1)
      (fun e e' e'' => Text.le_trans e.1 e'.1 e''.1) (fun e e' => Text.le_total e.1 e'.1) _⟩

/-- A tenant's records can be saved if nothing but files lies in the store. -/
theorem save_of_housed {codec : Yaml.Codec} {d : Disk} {root : Path} (hd : d.Has root)
    (hplain : ∀ n, d.entry? (root ++ [n]) = none ∨ ∃ data, d.entry? (root ++ [n]) = some (.file data))
    (ht : Housed tenant) (records : Table String Record) :
    save codec d root tenant records = .ok (d.put (root ++ [tenant ++ suffix])
      (.file (Text.encode (codec.print (toDocument records))))) := by
  have hplace (n : String) (hn : Disk.IsName n) (follow : Bool) :
      d.locate (root ++ [n]) follow = .ok (root ++ [n]) :=
    Disk.locate_child hd follow hn fun target he => by
      rcases hplain n with h | ⟨data, h⟩ <;> rw [h] at he <;> cases he
  have hdraft : checkDraft d root tenant = .ok () := by
    have hsplit : (draftName tenant).toList.splitOn '/' = [(draftName tenant).toList] :=
      List.splitOn_eq_singleton (by simp [draftName, ht.one_name])
    unfold checkDraft
    rw [hsplit]
    simp only [List.map_cons, List.map_nil, String.ofList_toList, Disk.write,
      hplace _ ht.isName_draft, ok_bind]
    rcases hplain (draftName tenant) with h | ⟨data, h⟩ <;> rw [h] <;> rfl
  unfold save
  rw [hdraft, file_eq root ht.one_name, hplace _ ht.isName_file]
  rcases hplain (tenant ++ suffix) with h | ⟨data, h⟩ <;>
    simp [h, Disk.orBreak, pure, Except.pure]

end Store

/-- A change of the store. -/
inductive StoreChange where
  | add (tenant : String) (r : Record)
  | replace (tenant : String) (r : Record)
  | remove (tenant name : String)

namespace StoreChange

/-- Makes the change. -/
def perform : StoreChange → Action World Unit
  | add tenant r => World.answer (.addRecord tenant r)
  | replace tenant r => World.answer (.replaceRecord tenant r)
  | remove tenant name => World.answer (.removeRecord tenant name)

/-- Whether a change is of a tenant with a file of its own, and what it writes can be kept. -/
def Fits : StoreChange → Prop
  | add tenant r | replace tenant r => Store.Housed tenant ∧ Store.Fit r
  | remove tenant _ => Store.Housed tenant

/-- A map with another entry, unless the change is refused. -/
def amend (m : AppKey → Option Record) (k : AppKey) (isRefused : Bool) (e : Refusal)
    (entry : Option Record) : Outcome Unit × (AppKey → Option Record) :=
  if isRefused then (refuse e, m) else (.ok (), Function.update m k entry)

/-- What the change does to a map from applications to records. -/
def onMap (m : AppKey → Option Record) : StoreChange → Outcome Unit × (AppKey → Option Record)
  | add tenant r => amend m ⟨tenant, r.name⟩ (m ⟨tenant, r.name⟩).isSome
      (.applicationExists r.name tenant) (some r)
  | replace tenant r => amend m ⟨tenant, r.name⟩ (m ⟨tenant, r.name⟩).isNone
      (.applicationAbsent r.name tenant) (some r)
  | remove tenant name => amend m ⟨tenant, name⟩ (m ⟨tenant, name⟩).isNone
      (.applicationAbsent name tenant) none

end StoreChange

namespace World

variable {w w' : World} {m : AppKey → Option Record} {tenant : String}

/-- Whether the store holds a map: nothing but files lies in it, and the file of each tenant holds
the tenant's part of the map. -/
structure Shelves (w : World) (m : AppKey → Option Record) : Prop where
  faithful : Store.Faithful w.broker.codec
  has : w.disk.Has w.broker.store
  plain : ∀ n, w.disk.entry? (w.broker.store ++ [n]) = none ∨
    ∃ data, w.disk.entry? (w.broker.store ++ [n]) = some (.file data)
  holds : ∀ tenant, Store.Housed tenant → ∃ records,
    Store.Holds w.broker.codec w.disk w.broker.store tenant records ∧ Store.Proper records ∧
      ∀ name, records.get? name = m ⟨tenant, name⟩

/-- What is loaded for a tenant is the tenant's part of the map, in the order of the names. -/
theorem Shelves.load (h : w.Shelves m) (ht : Store.Housed tenant) : ∃ records,
    World.load tenant w = (.ok (Store.arranged records), w) ∧ Store.Proper records ∧
      ∀ name, records.get? name = m ⟨tenant, name⟩ := by
  obtain ⟨records, hh, hp, hm⟩ := h.holds tenant ht
  refine ⟨records, ?_, hp, hm⟩
  unfold World.load
  rw [Store.load_of_housed h.has h.faithful ht hh hp]

/-- The records of one tenant are written anew, and the parts of all others stay as they are. -/
theorem Shelves.put (h : w.Shelves m) (ht : Store.Housed tenant) {records : Table String Record}
    (hp : Store.Proper records) :
    let data := Text.encode (w.broker.codec.print (Store.toDocument records))
    let disk := w.disk.put (w.broker.store ++ [tenant ++ Store.suffix]) (.file data)
    Shelves { w with disk } fun k => if k.tenant = tenant then records.get? k.name else m k where
  faithful := h.faithful
  has := h.has.put _ _
  plain n := by
    dsimp only
    rw [Disk.entry?_put _ _ _ _ (by simp)]
    split
    · exact .inr ⟨_, rfl⟩
    · exact h.plain n
  holds other ho := by
    by_cases heq : other = tenant
    · subst heq
      exact ⟨records, .put ho.isName_file, hp, fun name => by rw [if_pos rfl]⟩
    · obtain ⟨rs, hrs, hprs, hm⟩ := h.holds other ho
      exact ⟨rs, hrs.put_other (Ne.symm heq), hprs, fun name => by rw [if_neg heq, hm]⟩

/-- A map with another part for a tenant, where one record differs. -/
theorem update_eq {records : Table String Record} {name : String} {r : Option Record}
    {records' : Table String Record} (hm : ∀ name, records.get? name = m ⟨tenant, name⟩)
    (hr : ∀ other, records'.get? other = if name = other then r else records.get? other) :
    (fun k : AppKey => if k.tenant = tenant then records'.get? k.name else m k) =
      Function.update m ⟨tenant, name⟩ r := by
  funext k
  obtain ⟨kt, kn⟩ := k
  by_cases htenant : kt = tenant
  · subst htenant
    rw [if_pos rfl, hr, hm]
    by_cases hname : name = kn
    · subst hname
      simp
    · rw [if_neg hname, Function.update_of_ne (by simpa using Ne.symm hname)]
  · rw [if_neg htenant, Function.update_of_ne (by simp [htenant])]

/-- Rewriting the file of a tenant amends the map, if that is what it does to the tenant's part. -/
theorem Shelves.amend (h : w.Shelves m) (ht : Store.Housed tenant) {name : String}
    {isRefused : Bool} {e : Refusal} {entry : Option Record}
    {f : Table String Record → Outcome (Table String Record)}
    (hrefused : isRefused = true → ∀ records, (∀ name, records.get? name = m ⟨tenant, name⟩) →
      f records = refuse e)
    (hdone : isRefused = false → ∀ records, Store.Proper records →
      (∀ name, records.get? name = m ⟨tenant, name⟩) → ∃ records', f records = .ok records' ∧
        Store.Proper records' ∧
        ∀ other, records'.get? other = if name = other then entry else records.get? other) :
    let amended := StoreChange.amend m ⟨tenant, name⟩ isRefused e entry
    (rewrite tenant f w).1 = amended.1 ∧ (rewrite tenant f w).2.Shelves amended.2 ∧
      ((rewrite tenant f w).1 ≠ .ok () → (rewrite tenant f w).2 = w) := by
  obtain ⟨records, hl, hp, hm⟩ := h.load ht
  have hp := hp.of_perm (Store.perm_arranged records)
  have hm (name : String) : (Store.arranged records).get? name = m ⟨tenant, name⟩ := by
    rw [Store.get?_arranged ‹_›, hm]
  unfold StoreChange.amend rewrite Action.bind
  simp only [hl]
  cases isRefused with
  | true =>
    rw [hrefused rfl _ hm]
    exact ⟨rfl, h, fun _ => rfl⟩
  | false =>
    obtain ⟨records', hf, hp', hentry⟩ := hdone rfl _ hp hm
    simp only [hf, ok_bind, Store.save_of_housed h.has h.plain ht]
    exact ⟨rfl, update_eq hm hentry ▸ h.put ht hp', fun hne => absurd rfl hne⟩

/-- A change of the store ends as it does on the map, and what is refused changes nothing. -/
theorem Shelves.change (h : w.Shelves m) {c : StoreChange} (hc : c.Fits) :
    (c.perform w).1 = (c.onMap m).1 ∧ (c.perform w).2.Shelves (c.onMap m).2 ∧
      ((c.perform w).1 ≠ .ok () → (c.perform w).2 = w) := by
  cases c with
  | add tenant r =>
    refine h.amend (f := Store.withNew tenant r) hc.1 (fun hr records hm => ?_) fun hr records hp hm =>
      ⟨_, ?_, hp.insert hc.2, fun _ => Table.get?_insert _ _ _ _⟩
    · exact if_pos (by rw [Table.contains, hm, hr])
    · exact if_neg (by rw [Table.contains, hm, hr]; simp)
  | replace tenant r =>
    refine h.amend (f := Store.withChanged tenant r) hc.1 (fun hr records hm => ?_) fun hr records hp hm =>
      ⟨_, ?_, hp.insert hc.2, fun _ => Table.get?_insert _ _ _ _⟩
    · exact if_neg (by rw [Table.contains, hm, Option.isNone_iff_eq_none.1 hr]; simp)
    · exact if_pos (by rw [Table.contains, hm]; simpa using hr)
  | remove tenant name =>
    refine h.amend (f := Store.without tenant name) hc (fun hr records hm => ?_) fun hr records hp hm =>
      ⟨_, ?_, hp.erase name, fun _ => Table.get?_erase _ _ _⟩
    · exact if_neg (by rw [Table.contains, hm, Option.isNone_iff_eq_none.1 hr]; simp)
    · exact if_pos (by rw [Table.contains, hm]; simpa using hr)

/-! ## What is read -/

theorem Shelves.answer_record (h : w.Shelves m) (ht : Store.Housed tenant) (name : String) :
    w.answer (.record tenant name) = (.ok (m ⟨tenant, name⟩), w) := by
  obtain ⟨records, hl, hp, hm⟩ := h.load ht
  show (World.load tenant).bind _ w = _
  simp only [Action.bind, hl, ← hm, ← Store.get?_arranged hp]
  rfl

/-- The records of a tenant are listed in the order of their names, each once. -/
theorem Shelves.answer_records (h : w.Shelves m) (ht : Store.Housed tenant) :
    ∃ rs, w.answer (.records tenant) = (.ok rs, w) ∧
      rs.Pairwise (fun r r' => Text.le r.name r'.name = true ∧ r.name ≠ r'.name) ∧
      ∀ r, r ∈ rs ↔ m ⟨tenant, r.name⟩ = some r := by
  obtain ⟨records, hl, hp, hm⟩ := h.load ht
  obtain ⟨entries, hsorted, hperm, horder⟩ := Store.sorted_arranged records
  have hproper := hp.of_perm hperm
  refine ⟨entries.map (·.2), ?_, List.pairwise_map.2 ?_, fun r => ?_⟩
  · show (World.load tenant).bind _ w = _
    simp only [Action.bind, hl, ← hsorted]
    rfl
  · refine (horder.and (List.pairwise_map.1 hproper.nodup)).imp_of_mem fun he he' hle => ?_
    rwa [hproper.named _ he, hproper.named _ he']
  · rw [← hm, Table.get?_eq_some_iff hp.nodup, ← hperm.mem_iff, List.mem_map]
    constructor
    · rintro ⟨e, he, rfl⟩
      rwa [hproper.named e he]
    · exact fun hmem => ⟨_, hmem, rfl⟩

/-- The names of visible files that end as the files of tenants do are such files. -/
theorem tenantOf?_eq_some {name : String} : Store.tenantOf? name = some tenant ↔
    name = tenant ++ Store.suffix ∧ name.toList.head? ≠ some '.' := by
  have hlength : Store.suffix.length = Store.suffix.toList.length := String.length_toList.symm
  unfold Store.tenantOf?
  dsimp only
  constructor
  · intro h
    split at h
    · rename_i hboth
      rw [Bool.and_eq_true, List.isSuffixOf_iff_suffix] at hboth
      obtain ⟨⟨front, hfront⟩, hhead⟩ := hboth
      obtain rfl := Option.some.inj h
      refine ⟨String.toList_inj.1 ?_, of_decide_eq_true hhead⟩
      rw [String.toList_append, String.toList_ofList, ← hfront, hlength]
      simp
    · cases h
  · rintro ⟨rfl, hhead⟩
    rw [if_pos]
    · rw [hlength, String.toList_append]
      simp
    · rw [Bool.and_eq_true, List.isSuffixOf_iff_suffix, String.toList_append]
      exact ⟨⟨tenant.toList, rfl⟩, decide_eq_true (by rwa [String.toList_append] at hhead)⟩

theorem tenantOf?_file (ht : Store.Housed tenant) :
    Store.tenantOf? (tenant ++ Store.suffix) = some tenant := by
  refine tenantOf?_eq_some.2 ⟨rfl, ?_⟩
  rw [String.toList_append]
  cases hcs : tenant.toList with
  | nil => exact absurd (String.toList_inj.1 hcs) ht.ne_empty
  | cons c cs =>
    have := ht.visible
    rw [hcs] at this
    simpa using this

/-- Every tenant that has a record is told of, and never a draft. -/
theorem Shelves.answer_tenants (h : w.Shelves m) :
    ∃ ts, w.answer .tenants = (.ok ts, w) ∧
      (∀ tenant name, Store.Housed tenant → (m ⟨tenant, name⟩).isSome → tenant ∈ ts) ∧
      ∀ t ∈ ts, ∀ tenant random, t ++ ".yaml" ≠ "." ++ tenant ++ "-" ++ random ++ ".yaml" := by
  refine ⟨((w.disk.names w.broker.store).filterMap Store.tenantOf?).mergeSort Text.le, ?_,
    fun tenant name ht hsome => ?_, fun t ht tenant random he => ?_⟩
  · show (Store.tenants w.disk w.broker.store, w) = _
    unfold Store.tenants
    rw [Disk.isDirectory_self h.has, Disk.list_self h.has]
    rfl
  · rw [(List.mergeSort_perm _ _).mem_iff, List.mem_filterMap]
    refine ⟨tenant ++ Store.suffix, Disk.mem_names.2 fun hnone => ?_, tenantOf?_file ht⟩
    obtain ⟨records, hh, -, hm⟩ := h.holds tenant ht
    rcases hh with ⟨-, rfl⟩ | ⟨hfile, -⟩
    · rw [← hm] at hsome
      cases hsome
    · rw [hnone] at hfile
      cases hfile
  · rw [(List.mergeSort_perm _ _).mem_iff, List.mem_filterMap] at ht
    obtain ⟨name, -, hname⟩ := ht
    obtain ⟨rfl, hvisible⟩ := tenantOf?_eq_some.1 hname
    exact hvisible (by rw [show Store.suffix = ".yaml" from rfl, he]; simp)

/-! ## Histories -/

/-- A store in which nothing is kept yet: only files lie there, none of which is a tenant's. -/
structure HasFreshStore (w : World) : Prop where
  faithful : Store.Faithful w.broker.codec
  has : w.disk.Has w.broker.store
  plain : ∀ n, w.disk.entry? (w.broker.store ++ [n]) = none ∨
    ∃ data, w.disk.entry? (w.broker.store ++ [n]) = some (.file data)
  bare : ∀ tenant, Store.Housed tenant →
    w.disk.entry? (w.broker.store ++ [tenant ++ Store.suffix]) = none

/-- Whether what happens in a world leaves the files of tenants alone, and puts no directories and
links next to them. -/
structure SparesStore (w w' : World) : Prop where
  codec : w'.broker.codec = w.broker.codec
  store : w'.broker.store = w.broker.store
  has : w'.disk.Has w'.broker.store
  plain : ∀ n, w'.disk.entry? (w'.broker.store ++ [n]) = none ∨
    ∃ data, w'.disk.entry? (w'.broker.store ++ [n]) = some (.file data)
  files : ∀ tenant, Store.Housed tenant →
    w'.disk.entry? (w'.broker.store ++ [tenant ++ Store.suffix]) =
      w.disk.entry? (w.broker.store ++ [tenant ++ Store.suffix])

/-- What a history of changes makes of a store, and of a map. The store may be opened again at any
time, and anything may happen outside of it. -/
inductive Keeps : World → (AppKey → Option Record) → Prop
  | fresh {w : World} : w.HasFreshStore → Keeps w fun _ => none
  | changed {w : World} {m : AppKey → Option Record} (c : StoreChange) : Keeps w m → c.Fits →
      Keeps (c.perform w).2 (c.onMap m).2
  | reopened {w : World} {m : AppKey → Option Record} {disk : Disk} : Keeps w m →
      w.disk.makeDirectories w.broker.store = .ok disk → Keeps { w with disk } m
  | elsewhere {w w' : World} {m : AppKey → Option Record} : Keeps w m → w.SparesStore w' →
      Keeps w' m

theorem Keeps.shelves (h : w.Keeps m) : w.Shelves m := by
  induction h with
  | fresh hw =>
    exact ⟨hw.faithful, hw.has, hw.plain,
      fun tenant ht => ⟨[], .inl ⟨hw.bare tenant ht, rfl⟩, Store.proper_nil, fun _ => rfl⟩⟩
  | changed c _ hc ih => exact (ih.change hc).2.1
  | reopened _ hd ih =>
    rw [Disk.makeDirectories_of_has ih.has] at hd
    obtain rfl := Except.ok.inj hd
    exact ih
  | elsewhere _ hspares ih =>
    refine ⟨hspares.codec ▸ ih.faithful, hspares.has, hspares.plain, fun tenant ht => ?_⟩
    obtain ⟨records, hh, hp, hm⟩ := ih.holds tenant ht
    refine ⟨records, ?_, hp, hm⟩
    unfold Store.Holds
    rw [hspares.files tenant ht, hspares.codec]
    exact hh

end World

/-! ## A record with a time to the microsecond -/

namespace KeptRecord

/-- The fields of a record, created at a time with microseconds and an offset. -/
def fields : List (Value × Value) :=
  [(.text "name", .text "web"), (.text "plugins", .list [.text "python:3.9"]),
    (.text "created_at", .text "2024-01-02T03:04:05.000678+05:30")]

def record : Record where
  name := "web"
  plugins := ["python:3.9"]
  createdAt := ⟨⟨2024, 1, 2⟩, 3, 4, 5, 678, some 19800⟩

theorem fit_record : Store.Fit record :=
  @Store.fit_of_ofFields fields record.createdAt record
    ⟨by decide, by decide, by decide, by decide, by decide, by decide⟩ nofun nofun (by rfl)

/-- An empty store. -/
noncomputable def world : World where
  disk := { entries := [(["users"], .directory)] }
  broker := { hub := ["plugins"], store := ["users"], codec := .careful }

theorem hasFreshStore_world : world.HasFreshStore where
  faithful := Yaml.Codec.faithful_careful
  has :=
    ⟨fun n hn => by rw [List.mem_singleton.1 hn]; decide, fun p hp => by
      rcases List.prefix_cons_iff.1 hp with rfl | ⟨q, rfl, hq⟩
      · rfl
      · rw [List.prefix_nil.1 hq]
        rfl⟩
  plain n := .inl (by simp [Disk.entry?, world, Table.get?])
  bare tenant _ := by simp [Disk.entry?, world, Table.get?]

end KeptRecord

end AppBroker
