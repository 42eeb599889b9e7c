import AppBroker.Proofs.StoredRecords
import AppBroker.Program

/-!
# Calls to the store

What the calls of the broker do to the store, seen as the record of each application: looking a
record up finds it, adding, replacing and removing one changes it and no other. A call that fails
changes nothing. Tenants whose names have a slash are left out, since they have no file of their
own.
-/

namespace AppBroker

namespace Store

variable {records : Table String Record} {r : Record} {tenant : String}

/-- Whether a record can be kept. -/
structure Fit (r : Record) : Prop where
  scaling : 1 ≤ r.scaling
  created : r.createdAt.IsReal

theorem proper_nil : Proper [] := ⟨by simp [Table.keys], by simp, by simp, by simp⟩

theorem Proper.insert (h : Proper records) (hr : Fit r) : Proper (records.insert r.name r) where
  nodup := Table.nodup_keys_insert h.nodup _ _
  named e he := by
    rcases Table.mem_of_mem_insert he with rfl | he
    · rfl
    · exact h.named e he
  scaling e he := by
    rcases Table.mem_of_mem_insert he with rfl | he
    · exact hr.scaling
    · exact h.scaling e he
  created e he := by
    rcases Table.mem_of_mem_insert he with rfl | he
    · exact hr.created
    · exact h.created e he

theorem Proper.erase (h : Proper records) (name : String) : Proper (records.erase name) where
  nodup := (List.Sublist.map _ List.filter_sublist).nodup h.nodup
  named e he := h.named e (List.mem_filter.1 he).1
  scaling e he := h.scaling e (List.mem_filter.1 he).1
  created e he := h.created e (List.mem_filter.1 he).1

end Store

namespace World

/-- The record of an application, as the store has it. -/
def recordAt (w : World) (k : AppKey) : Option Record :=
  match (Store.load w.broker.codec w.disk w.broker.store {} k.tenant).1 with
  | .ok records => records.get? k.name
  | .error _ => none

/-- Whether records can be kept and found again. -/
structure Storing (w : World) : Prop where
  faithful : Store.Faithful w.broker.codec
  has : w.disk.Has w.broker.store
  holds : ∀ tenant, '/' ∉ tenant.toList → ∃ records,
    Store.Holds w.broker.codec w.disk w.broker.store tenant records ∧ Store.Proper records
  real : w.clock.moment.IsReal

variable {w : World} {tenant : String}

theorem Storing.recordAt_eq (h : w.Storing) (ht : '/' ∉ tenant.toList)
    {records : Table String Record}
    (hh : Store.Holds w.broker.codec w.disk w.broker.store tenant records)
    (hp : Store.Proper records) (name : String) :
    w.recordAt ⟨tenant, name⟩ = records.get? name := by
  unfold recordAt
  rcases Store.load_of_holds h.has h.faithful ht hh hp with hl | ⟨rfl, e, hl⟩
  · simp only [hl]
    exact Store.get?_arranged hp name
  · simp only [hl]
    rfl

/-- What is loaded for a tenant, or that nothing can be. -/
theorem Storing.load_cases (h : w.Storing) (ht : '/' ∉ tenant.toList) :
    ∃ records, Store.Holds w.broker.codec w.disk w.broker.store tenant records ∧
      Store.Proper records ∧ (∀ name, w.recordAt ⟨tenant, name⟩ = records.get? name) ∧
      (load tenant w = (.ok (Store.arranged records), w) ∨
        (records = [] ∧ ∃ e, load tenant w = (.error e, w))) := by
  obtain ⟨records, hh, hp⟩ := h.holds tenant ht
  refine ⟨records, hh, hp, h.recordAt_eq ht hh hp, ?_⟩
  unfold load
  rcases Store.load_of_holds h.has h.faithful ht hh hp with hl | ⟨rfl, e, hl⟩
  · left
    simp only [hl]
  · right
    refine ⟨rfl, e, ?_⟩
    simp only [hl]

/-- A record that is looked up is the one that the store has. -/
theorem answer_record (h : w.Storing) (ht : '/' ∉ tenant.toList) (name : String) :
    w.answer (.record tenant name) = (.ok (w.recordAt ⟨tenant, name⟩), w) ∨
      ∃ e, w.answer (.record tenant name) = (.error e, w) := by
  obtain ⟨records, -, hp, hat, hl | ⟨-, e, hl⟩⟩ := h.load_cases ht
  · left
    show (load tenant).bind _ w = _
    simp only [Action.bind, hl, hat, ← Store.get?_arranged hp]
    rfl
  · right
    refine ⟨e, ?_⟩
    show (load tenant).bind _ w = _
    simp only [Action.bind, hl]

/-- A record that the store has is found, whatever else may fail. -/
theorem answer_record_of_some (h : w.Storing) {k : AppKey} (ht : '/' ∉ k.tenant.toList) {r : Record}
    (hr : w.recordAt k = some r) : w.answer (.record k.tenant k.name) = (.ok (some r), w) := by
  obtain ⟨records, -, hp, hat, hl | ⟨rfl, -⟩⟩ := h.load_cases ht
  · show (load k.tenant).bind _ w = _
    simp only [Action.bind, hl]
    rw [← hr, show w.recordAt k = records.get? k.name from hat k.name, ← Store.get?_arranged hp]
    rfl
  · cases (show w.recordAt k = none from hat k.name).symm.trans hr

/-- A record that the store has can be kept. -/
theorem Storing.fit (h : w.Storing) {k : AppKey} (ht : '/' ∉ k.tenant.toList) {r : Record}
    (hr : w.recordAt k = some r) : Store.Fit r ∧ r.name = k.name := by
  obtain ⟨records, -, hp, hat, -⟩ := h.load_cases ht
  have hmem := (Table.get?_eq_some_iff hp.nodup k.name r).1 (by rw [← hat]; exact hr)
  exact ⟨⟨hp.scaling _ hmem, hp.created _ hmem⟩, hp.named _ hmem⟩

/-- Changing the records of a tenant fails and changes nothing, or makes the change. -/
theorem rewrite_cases (h : w.Storing) (ht : '/' ∉ tenant.toList)
    (f : Table String Record → Outcome (Table String Record)) :
    (∃ e, rewrite tenant f w = (.error e, w)) ∨
      ∃ records records' data,
        Store.Proper records ∧ (∀ name, w.recordAt ⟨tenant, name⟩ = records.get? name) ∧
        f records = .ok records' ∧
        rewrite tenant f w = (.ok (),
          { w with disk := w.disk.put (w.broker.store ++ [tenant ++ Store.suffix]) (.file data) }) ∧
        Store.Holds w.broker.codec
          (w.disk.put (w.broker.store ++ [tenant ++ Store.suffix]) (.file data))
          w.broker.store tenant records' := by
  obtain ⟨records, hh, hp, hat, hl | ⟨-, e, hl⟩⟩ := h.load_cases ht
  · unfold rewrite
    simp only [Action.bind, hl]
    cases hf : f (Store.arranged records) with
    | error e => exact .inl ⟨e, by simp⟩
    | ok records' =>
      rcases Store.save_cases h.has ht hh records' with ⟨e, hs⟩ | ⟨hn, hs⟩
      · exact .inl ⟨e, by simp [hs]⟩
      · right
        refine ⟨Store.arranged records, records', _, hp.of_perm (Store.perm_arranged records),
          fun name => ?_, hf, by simp only [ok_bind, hs], .put hn⟩
        rw [Store.get?_arranged hp, hat]
  · left
    refine ⟨e, ?_⟩
    unfold rewrite
    simp only [Action.bind, hl]

/-- The store after the records of a tenant were changed. -/
theorem Storing.put {records' : Table String Record} {data : List UInt8} (h : w.Storing)
    (ht : '/' ∉ tenant.toList) (hp : Store.Proper records')
    (hh : Store.Holds w.broker.codec
      (w.disk.put (w.broker.store ++ [tenant ++ Store.suffix]) (.file data))
      w.broker.store tenant records') :
    let w' := { w with
      disk := w.disk.put (w.broker.store ++ [tenant ++ Store.suffix]) (.file data) }
    w'.Storing ∧ ∀ k, '/' ∉ k.tenant.toList →
      w'.recordAt k = if k.tenant = tenant then records'.get? k.name else w.recordAt k := by
  intro w'
  have hs : w'.Storing := by
    refine ⟨h.faithful, h.has.put _ _, fun other ho => ?_, h.real⟩
    by_cases heq : other = tenant
    · subst heq
      exact ⟨records', hh, hp⟩
    · obtain ⟨rs, hrs, hprs⟩ := h.holds other ho
      exact ⟨rs, hrs.put_other (Ne.symm heq), hprs⟩
  refine ⟨hs, fun k hk => ?_⟩
  split
  · rename_i heq
    subst heq
    exact hs.recordAt_eq hk hh hp k.name
  · rename_i hne
    obtain ⟨rs, hrs, hprs⟩ := h.holds k.tenant hk
    rw [show w'.recordAt k = rs.get? k.name from
        hs.recordAt_eq hk (hrs.put_other (Ne.symm hne)) hprs k.name,
      show w.recordAt k = rs.get? k.name from h.recordAt_eq hk hrs hprs k.name]

/-- The file of a tenant's records is written anew. -/
def Wrote (w : World) (tenant : String) (w' : World) : Prop :=
  ∃ data, w' = { w with
    disk := w.disk.put (w.broker.store ++ [tenant ++ Store.suffix]) (.file data) }

/-- Adding a record fails and changes nothing, or adds it where none was. -/
theorem answer_addRecord (h : w.Storing) (ht : '/' ∉ tenant.toList) {r : Record}
    (hr : Store.Fit r) :
    (∃ e, w.answer (.addRecord tenant r) = (.error e, w)) ∨
      ∃ w', w.answer (.addRecord tenant r) = (.ok (), w') ∧ w.Wrote tenant w' ∧ w'.Storing ∧
        w.recordAt ⟨tenant, r.name⟩ = none ∧ ∀ k, '/' ∉ k.tenant.toList →
          w'.recordAt k = if k = ⟨tenant, r.name⟩ then some r else w.recordAt k := by
  refine (rewrite_cases h ht (Store.withNew tenant r)).imp_right ?_
  rintro ⟨records, records', data, hp, hat, hf, hw, hh⟩
  unfold Store.withNew Table.contains at hf
  split at hf
  · cases hf
  · rename_i hnone
    obtain rfl := Except.ok.inj hf
    obtain ⟨hs, hrecords⟩ := h.put ht (hp.insert hr) hh
    refine ⟨_, hw, ⟨data, rfl⟩, hs, ?_, fun k hk => ?_⟩
    · rw [hat]
      simpa using hnone
    · rw [hrecords k hk, Table.get?_insert]
      obtain ⟨kt, kn⟩ := k
      simp only [AppKey.mk.injEq]
      by_cases htenant : kt = tenant
      · subst htenant
        simp only [if_true, true_and, hat, eq_comm]
      · simp [htenant]

/-- Replacing a record fails and changes nothing, or puts it in the place of another. -/
theorem answer_replaceRecord (h : w.Storing) (ht : '/' ∉ tenant.toList) {r : Record}
    (hr : Store.Fit r) :
    (∃ e, w.answer (.replaceRecord tenant r) = (.error e, w)) ∨
      ∃ w', w.answer (.replaceRecord tenant r) = (.ok (), w') ∧ w.Wrote tenant w' ∧ w'.Storing ∧
        ∀ k, '/' ∉ k.tenant.toList →
          w'.recordAt k = if k = ⟨tenant, r.name⟩ then some r else w.recordAt k := by
  refine (rewrite_cases h ht (Store.withChanged tenant r)).imp_right ?_
  rintro ⟨records, records', data, hp, hat, hf, hw, hh⟩
  unfold Store.withChanged at hf
  split at hf
  · obtain rfl := Except.ok.inj hf
    obtain ⟨hs, hrecords⟩ := h.put ht (hp.insert hr) hh
    refine ⟨_, hw, ⟨data, rfl⟩, hs, fun k hk => ?_⟩
    rw [hrecords k hk, Table.get?_insert]
    obtain ⟨kt, kn⟩ := k
    simp only [AppKey.mk.injEq]
    by_cases htenant : kt = tenant
    · subst htenant
      simp only [if_true, true_and, hat, eq_comm]
    · simp [htenant]
  · cases hf

/-- Removing a record fails and changes nothing, or takes it away. -/
theorem answer_removeRecord (h : w.Storing) (ht : '/' ∉ tenant.toList) (name : String) :
    (∃ e, w.answer (.removeRecord tenant name) = (.error e, w)) ∨
      ∃ w', w.answer (.removeRecord tenant name) = (.ok (), w') ∧ w.Wrote tenant w' ∧ w'.Storing ∧
        ∀ k, '/' ∉ k.tenant.toList →
          w'.recordAt k = if k = ⟨tenant, name⟩ then none else w.recordAt k := by
  refine (rewrite_cases h ht (Store.without tenant name)).imp_right ?_
  rintro ⟨records, records', data, hp, hat, hf, hw, hh⟩
  unfold Store.without at hf
  split at hf
  · obtain rfl := Except.ok.inj hf
    obtain ⟨hs, hrecords⟩ := h.put ht (hp.erase name) hh
    refine ⟨_, hw, ⟨data, rfl⟩, hs, fun k hk => ?_⟩
    rw [hrecords k hk, Table.get?_erase]
    obtain ⟨kt, kn⟩ := k
    simp only [AppKey.mk.injEq]
    by_cases htenant : kt = tenant
    · subst htenant
      simp only [if_true, true_and, hat, eq_comm]
    · simp [htenant]
  · cases hf

end World
end AppBroker
