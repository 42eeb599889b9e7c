import AppBroker.Proofs.PlainDisk
import AppBroker.Store

/-!
# Records in files

The file of a tenant holds its records in writing. What is loaded is what was saved, in the order
of the names, provided that the codec reads what it writes, that every record is kept under its own
name, and that the clock showed real times. Saving the records of one tenant leaves the files of
all others alone.
-/

namespace AppBroker

/-- What a document says when it is read. -/
def Yaml.Document.value : Yaml.Document → Value
  | .text s => .text s
  | .number n => .int n
  | .list items => .list (values items)
  | .map entries => .map (pairs entries)
where
  values : List Yaml.Document → List Value
    | [] => []
    | d :: ds => d.value :: values ds
  pairs : List (String × Yaml.Document) → List (Value × Value)
    | [] => []
    | (key, d) :: rest => (.text key, d.value) :: pairs rest

namespace Store

/-- Records that can be kept: each under its own name, at least one framework container, created at
a time that a clock can show. -/
structure Proper (records : Table String Record) : Prop where
  nodup : records.keys.Nodup
  named : ∀ e ∈ records, e.2.name = e.1
  scaling : ∀ e ∈ records, 1 ≤ e.2.scaling
  created : ∀ e ∈ records, e.2.createdAt.IsReal

/-- Whether a codec reads the records that it wrote. What it writes has no carriage returns. -/
def Faithful (codec : Yaml.Codec) : Prop :=
  ∀ records, Proper records →
    '\r' ∉ (codec.print (toDocument records)).toList ∧
      codec.load (codec.print (toDocument records)).toList = .ok (toDocument records).value

/-- The entry of a record as it is read. -/
def storedEntry (e : String × Record) : Value × Value :=
  (.text e.1, .map [(.text "plugins", .list (e.2.plugins.map .text)),
    (.text "scaling", .int e.2.scaling), (.text "created_at", .text e.2.createdAt.toText)])

theorem value_toDocument (records : Table String Record) :
    (toDocument records).value =
      .map [(.text "applications", .map ((records.mergeSort fun a b => Text.le a.1 b.1).map
        storedEntry))] := by
  have hvalues (texts : List String) :
      Yaml.Document.value.values (texts.map .text) = texts.map Value.text := by
    induction texts with
    | nil => rfl
    | cons t ts ih => simp [Yaml.Document.value.values, Yaml.Document.value, ih]
  have hpairs (sorted : Table String Record) :
      Yaml.Document.value.pairs (sorted.map entryDocument) = sorted.map storedEntry := by
    induction sorted with
    | nil => rfl
    | cons e es ih =>
      simp [Yaml.Document.value.pairs, Yaml.Document.value, ih, entryDocument, storedEntry, hvalues]
  simp only [toDocument, Yaml.Document.value, Yaml.Document.value.pairs, hpairs]

theorem items_text (texts : List String) (start : Nat) :
    Checked.items Field.text start (texts.map Value.text) = .fit texts := by
  induction texts generalizing start with
  | nil => rfl
  | cons t ts ih =>
    simp only [List.map_cons, Checked.items, ih]
    rfl

/-- A stored record is read as it was. -/
theorem ofFields_stored {name : String} {r : Record} {now : Moment} (hn : r.name = name)
    (hs : 1 ≤ r.scaling) (hc : r.createdAt.IsReal) :
    Record.ofFields now [(.text "name", .text name),
      (.text "plugins", .list (r.plugins.map .text)), (.text "scaling", .int r.scaling),
      (.text "created_at", .text r.createdAt.toText)] = .fit r := by
  have hmoment := Moment.momentOfText_toText hc
  have hscaling : Field.integerIn 1 none (.int r.scaling) = .fit r.scaling := by
    simp [Field.integerIn, Field.integer, Int.not_lt.2 hs]
  simp [Record.ofFields, Field.required, Field.optional, Value.get?, Field.list, Field.moment,
    items_text, hmoment, hscaling]
  subst hn
  rfl

theorem readRecords_stored {records : Table String Record} (clock : Clock)
    (hn : ∀ e ∈ records, e.2.name = e.1) (hs : ∀ e ∈ records, 1 ≤ e.2.scaling)
    (hc : ∀ e ∈ records, e.2.createdAt.IsReal) :
    readRecords clock (records.map storedEntry) = (.ok records, clock) := by
  induction records with
  | nil => rfl
  | cons e records ih =>
    obtain ⟨name, r⟩ := e
    have hr : Record.ofFields clock.moment _ = .fit r := ofFields_stored (hn _ List.mem_cons_self)
      (hs _ List.mem_cons_self) (hc _ List.mem_cons_self)
    have hrest := ih (fun e he => hn e (List.mem_cons_of_mem _ he))
      (fun e he => hs e (List.mem_cons_of_mem _ he)) fun e he => hc e (List.mem_cons_of_mem _ he)
    have hname : r.name = name := hn _ List.mem_cons_self
    simp [storedEntry, readRecords, fieldsOf, Value.hasTextKeys, Value.get?, Record.needsClock, hr,
      hrest, hname]

/-- Records in the order in which they are written. -/
def arranged (records : Table String Record) : Table String Record :=
  records.mergeSort fun a b => Text.le a.1 b.1

theorem perm_arranged (records : Table String Record) : (arranged records).Perm records :=
  List.mergeSort_perm _ _

theorem Proper.of_perm {records records' : Table String Record} (h : Proper records)
    (hp : records'.Perm records) : Proper records' where
  nodup := (hp.map Prod.fst).nodup_iff.2 h.nodup
  named e he := h.named e (hp.mem_iff.1 he)
  scaling e he := h.scaling e (hp.mem_iff.1 he)
  created e he := h.created e (hp.mem_iff.1 he)

/-- What the file of a tenant holds. Without records there may be no file. -/
def Holds (codec : Yaml.Codec) (d : Disk) (root : Path) (tenant : String)
    (records : Table String Record) : Prop :=
  (d.entry? (root ++ [tenant ++ suffix]) = none ∧ records = []) ∨
    (d.entry? (root ++ [tenant ++ suffix]) =
        some (.file (Text.encode (codec.print (toDocument records)))) ∧
      Disk.IsName (tenant ++ suffix))

theorem file_eq {tenant : String} (root : Path) (ht : '/' ∉ tenant.toList) :
    file root tenant = root ++ [tenant ++ suffix] := by
  have hname : '/' ∉ (tenant ++ suffix).toList := by
    simp [suffix, ht]
  have hhead : tenant.toList.head? ≠ some '/' := by
    intro h
    exact ht (List.mem_of_head? h)
  unfold file
  rw [show (".yaml" : String) = suffix from rfl, List.splitOn_eq_singleton hname]
  simp [hhead]

theorem applications_value (records : Table String Record) :
    applications (toDocument records).value = .ok ((arranged records).map storedEntry) := by
  rw [value_toDocument]
  simp [applications, Value.isTruthy, Value.get?, arranged]

theorem unifyLineEnds_eq {cs : List Char} (h : '\r' ∉ cs) : Text.unifyLineEnds cs = cs := by
  induction cs with
  | nil => rfl
  | cons c cs ih =>
    have hc : c ≠ '\r' := by
      rintro rfl
      simp at h
    have hcs : '\r' ∉ cs := fun hr => h (List.mem_cons_of_mem _ hr)
    rw [Text.unifyLineEnds.eq_def]
    split
    · rename_i heq
      cases heq
    · rename_i heq
      exact absurd (List.cons.inj heq).1 hc
    · rename_i heq
      exact absurd (List.cons.inj heq).1 hc
    · rename_i heq
      obtain ⟨rfl, rfl⟩ := List.cons.inj heq
      rw [ih hcs]

/-- What is written in the file of a tenant is loaded. -/
theorem load_of_file {codec : Yaml.Codec} {d : Disk} {root : Path} {tenant : String}
    {records : Table String Record} (hd : d.Has root) (hc : Faithful codec)
    (ht : '/' ∉ tenant.toList) (hname : Disk.IsName (tenant ++ suffix))
    (hfile : d.entry? (root ++ [tenant ++ suffix]) =
      some (.file (Text.encode (codec.print (toDocument records))))) (hp : Proper records)
    (clock : Clock) : load codec d root clock tenant = (.ok (arranged records), clock) := by
  obtain ⟨hexists, hread⟩ := Disk.readText_child hd hname hfile
  obtain ⟨hlines, hload⟩ := hc records hp
  have hp' := hp.of_perm (perm_arranged records)
  unfold load
  rw [file_eq root ht]
  simp [hexists, hread, unifyLineEnds_eq hlines, hload, applications_value,
    readRecords_stored clock hp'.named hp'.scaling hp'.created]

/-- What is loaded is what the file holds, and the clock stays as it is. -/
theorem load_of_holds {codec : Yaml.Codec} {d : Disk} {root : Path} {tenant : String}
    {records : Table String Record} (hd : d.Has root) (hc : Faithful codec)
    (ht : '/' ∉ tenant.toList) (h : Holds codec d root tenant records) (hp : Proper records) :
    (∀ clock, load codec d root clock tenant = (.ok (arranged records), clock)) ∨
      (records = [] ∧ ∃ e, ∀ clock, load codec d root clock tenant = (.error e, clock)) := by
  rcases h with ⟨hnone, rfl⟩ | ⟨hfile, hname⟩
  · have hne : tenant ++ suffix ≠ "" ∧ tenant ++ suffix ≠ "." ∧ tenant ++ suffix ≠ ".." := by
      refine ⟨fun he => ?_, fun he => ?_, fun he => ?_⟩ <;>
        · have := congrArg (fun s : String => s.toList.length) he
          simp [suffix] at this
    unfold load
    rw [file_eq root ht]
    rcases Disk.exists?_absent hd hne.1 hne.2.1 hne.2.2 hnone with he | ⟨e, he⟩
    · left
      intro clock
      simp [he, pure, Except.pure, readRecords, arranged]
    · right
      refine ⟨rfl, e, fun clock => ?_⟩
      simp [he]
  · exact .inl (load_of_file hd hc ht hname hfile hp)

theorem get?_arranged {records : Table String Record} (hp : Proper records) (name : String) :
    (arranged records).get? name = records.get? name := by
  refine Option.ext fun r => ?_
  rw [Table.get?_eq_some_iff (hp.of_perm (perm_arranged records)).nodup,
    Table.get?_eq_some_iff hp.nodup, (perm_arranged records).mem_iff]

/-- Saving either fails, or puts the records into the file of the tenant. -/
theorem save_cases {codec : Yaml.Codec} {d : Disk} {root : Path} {tenant : String}
    {records : Table String Record} (hd : d.Has root) (ht : '/' ∉ tenant.toList)
    (h : Holds codec d root tenant records) (records' : Table String Record) :
    (∃ e, save codec d root tenant records' = .error e) ∨
      (Disk.IsName (tenant ++ suffix) ∧ save codec d root tenant records' =
        .ok (d.put (root ++ [tenant ++ suffix])
          (.file (Text.encode (codec.print (toDocument records')))))) := by
  have hne : tenant ++ suffix ≠ "" ∧ tenant ++ suffix ≠ "." ∧ tenant ++ suffix ≠ ".." := by
    refine ⟨fun he => ?_, fun he => ?_, fun he => ?_⟩ <;>
      · have := congrArg (fun s : String => s.toList.length) he
        simp [suffix] at this
  have hentry : d.entry? (root ++ [tenant ++ suffix]) = none ∨
      ∃ data, d.entry? (root ++ [tenant ++ suffix]) = some (.file data) :=
    h.imp And.left fun h => ⟨_, h.1⟩
  unfold save
  rw [file_eq root ht]
  cases hdraft : checkDraft d root tenant with
  | error e => exact .inl ⟨e, rfl⟩
  | ok u =>
    by_cases hn : Disk.IsName (tenant ++ suffix)
    · right
      refine ⟨hn, ?_⟩
      have hplace := Disk.locate_child hd false hn (by rcases hentry with h | ⟨_, h⟩ <;> simp [h])
      rcases hentry with h | ⟨_, h⟩ <;>
        simp [hplace, h, Disk.orBreak, pure, Except.pure]
    · left
      rcases Disk.locate_unnamed hd false hne.1 hne.2.1 hne.2.2 hn with hl | hl
      · exact ⟨_, by simp [hl, Disk.orBreak, fail]; rfl⟩
      · exact ⟨_, by simp [hl, Disk.orBreak, fail]; rfl⟩

theorem Holds.put {codec : Yaml.Codec} {d : Disk} {root : Path} {tenant : String}
    {records : Table String Record} (hn : Disk.IsName (tenant ++ suffix)) :
    Holds codec (d.put (root ++ [tenant ++ suffix])
      (.file (Text.encode (codec.print (toDocument records))))) root tenant records :=
  .inr ⟨by rw [Disk.entry?_put _ _ _ _ (by simp), if_pos rfl], hn⟩

theorem Holds.put_other {codec : Yaml.Codec} {d : Disk} {root : Path} {tenant other : String}
    {records : Table String Record} {e : Entry} (hne : other ≠ tenant)
    (h : Holds codec d root tenant records) :
    Holds codec (d.put (root ++ [other ++ suffix]) e) root tenant records := by
  have hpath : root ++ [other ++ suffix] ≠ root ++ [tenant ++ suffix] := by
    simpa [suffix] using hne
  unfold Holds
  rw [Disk.entry?_put _ _ _ _ (by simp), if_neg hpath]
  exact h

end Store

end AppBroker
