import AppBroker.Proofs.StoredRecords
import Mathlib.Data.Set.Countable

/-!
# A codec that reads what it writes

The careful codec writes records as the standard one does, provided that this can be read back. All
others it numbers. So it reads back all that it writes, whatever the records are.
-/

namespace AppBroker.Yaml

namespace Document

/-- Whether a value is what a document says. -/
def isReadAs : Document → Value → Bool
  | .text s, .text s' => s = s'
  | .number n, .int n' => n = n'
  | .list ds, .list vs => valuesReadAs ds vs
  | .map es, .map vs => pairsReadAs es vs
  | _, _ => false
where
  valuesReadAs : List Document → List Value → Bool
    | [], [] => true
    | d :: ds, v :: vs => d.isReadAs v && valuesReadAs ds vs
    | _, _ => false
  pairsReadAs : List (String × Document) → List (Value × Value) → Bool
    | [], [] => true
    | (key, d) :: es, (.text key', v) :: vs => key = key' && d.isReadAs v && pairsReadAs es vs
    | _, _ => false

mutual

theorem eq_value : (d : Document) → (v : Value) → d.isReadAs v = true → v = d.value
  | .text s, v, h => by
    cases v <;> simp [isReadAs] at h
    rw [h, value]
  | .number n, v, h => by
    cases v <;> simp [isReadAs] at h
    rw [h, value]
  | .list ds, v, h => by
    cases v <;> simp [isReadAs] at h
    rw [eq_values ds _ h, value]
  | .map es, v, h => by
    cases v <;> simp [isReadAs] at h
    rw [eq_pairs es _ h, value]

theorem eq_values : (ds : List Document) → (vs : List Value) →
    isReadAs.valuesReadAs ds vs = true → vs = value.values ds
  | [], vs, h => by
    cases vs <;> simp [isReadAs.valuesReadAs] at h
    rfl
  | d :: ds, vs, h => by
    cases vs <;> simp [isReadAs.valuesReadAs] at h
    rw [eq_value d _ h.1, eq_values ds _ h.2, value.values]

theorem eq_pairs : (es : List (String × Document)) → (vs : List (Value × Value)) →
    isReadAs.pairsReadAs es vs = true → vs = value.pairs es
  | [], vs, h => by
    cases vs <;> simp [isReadAs.pairsReadAs] at h
    rfl
  | (key, d) :: es, vs, h => by
    obtain _ | ⟨⟨name, v⟩, vs⟩ := vs
    · simp [isReadAs.pairsReadAs] at h
    cases name <;> simp [isReadAs.pairsReadAs] at h
    rw [h.1.1, eq_value d _ h.1.2, eq_pairs es _ h.2, value.pairs]

end

end Document

namespace Codec

theorem countable_string : Countable String := by
  have hchar : Countable Char := Function.Injective.countable (f := Char.toNat) fun a b h =>
    Char.toNat_inj.1 h
  exact Function.Injective.countable (f := String.toList) fun a b h => String.toList_inj.1 h

theorem countable_record : Countable Record := by
  have := countable_string
  refine Function.Injective.countable (f := fun r : Record => (r.name, r.plugins, r.scaling,
    r.createdAt.date.year, r.createdAt.date.month, r.createdAt.date.day, r.createdAt.hour,
    r.createdAt.minute, r.createdAt.second, r.createdAt.micro, r.createdAt.offset)) ?_
  rintro ⟨n, p, s, ⟨⟨y, m, d⟩, h, i, j, u, o⟩⟩ ⟨n', p', s', ⟨⟨y', m', d'⟩, h', i', j', u', o'⟩⟩ he
  simpa [and_assoc] using he

/-- Documents of records can be numbered. -/
theorem exists_number : ∃ number : Document → Nat, Set.InjOn number (Set.range Store.toDocument) := by
  have := countable_string
  have := countable_record
  exact Set.countable_iff_exists_injOn.1 (Set.countable_range _)

/-- How the careful codec writes what the standard one cannot. -/
noncomputable def numbered (d : Document) : String :=
  String.ofList ('\x00' :: List.replicate (exists_number.choose d) '1')

theorem numbered_inj {d d' : Document} (h : d ∈ Set.range Store.toDocument)
    (h' : d' ∈ Set.range Store.toDocument) (he : (numbered d).toList = (numbered d').toList) :
    d = d' := by
  have hlen := congrArg List.length he
  simp only [numbered, String.toList_ofList, List.length_cons, List.length_replicate] at hlen
  exact exists_number.choose_spec h h' (by omega)

/-- Whether the standard codec reads back how it writes a document, with no mark in it of another
way to write. -/
def isPlain (d : Document) : Bool :=
  let cs := (standard.print d).toList
  '\r' ∉ cs && cs.head? ≠ some '\x00' &&
    match standard.load cs with
    | .ok v => d.isReadAs v
    | .error _ => false

/-- Writes records so that they can be read back. -/
noncomputable def careful : Codec where
  print d := if isPlain d then standard.print d else numbered d
  load cs :=
    open Classical in
    if cs.head? ≠ some '\x00' then standard.load cs
    else if h : ∃ records, cs = (numbered (Store.toDocument records)).toList then
      .ok (Store.toDocument h.choose).value
    else fail .wrongType

theorem faithful_careful : Store.Faithful careful := by
  intro records _
  unfold careful
  dsimp only
  by_cases hplain : isPlain (Store.toDocument records) = true
  · rw [if_pos hplain]
    unfold isPlain at hplain
    simp only [Bool.and_eq_true, decide_eq_true_eq] at hplain
    obtain ⟨⟨hlines, hhead⟩, hload⟩ := hplain
    rw [if_pos hhead]
    refine ⟨hlines, ?_⟩
    split at hload
    · rename_i v hv
      rw [hv, Document.eq_value _ _ hload]
    · cases hload
  · rw [if_neg hplain]
    have hhead : (numbered (Store.toDocument records)).toList.head? = some '\x00' := by
      simp [numbered]
    have hsome : ∃ records', (numbered (Store.toDocument records)).toList =
        (numbered (Store.toDocument records')).toList := ⟨records, rfl⟩
    rw [if_neg (by simpa using hhead), dif_pos hsome]
    refine ⟨by simp [numbered], ?_⟩
    have hsame : Store.toDocument records = Store.toDocument hsome.choose :=
      numbered_inj ⟨_, rfl⟩ ⟨_, rfl⟩ hsome.choose_spec
    exact congrArg (fun d : Document => (.ok d.value : Outcome Value)) hsame.symm

end Codec

end AppBroker.Yaml
