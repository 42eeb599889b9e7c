import AppBroker.Proofs.Effect

/-!
# Identity of containers

A container's id is made from its number, and numbers are given once: so ids are never used again,
and an id stands for at most one container. Whatever the broker does to containers keeps this.
-/

namespace AppBroker

namespace Engine

/-- Different numbers make different ids: the zeros in front do not change what the digits write. -/
theorem idOf_injective {m n : Nat} (h : idOf m = idOf n) : m = n := by
  have hread (k : Nat) : Nat.ofDigitChars 10 ((idOf k).toList.drop 1) 0 = k := by
    simp [idOf, Nat.ofDigitChars_append, Nat.ofDigitChars_replicate_zero,
      Nat.ofDigitChars_ten_toDigits]
  rw [← hread m, h, hread n]

/-- Containers whose ids are made from their numbers, in the order in which the numbers were given;
so many were given. -/
structure Numbered (cs : List Container) (made : Nat) : Prop where
  id_eq : ∀ c ∈ cs, c.id = idOf c.number
  le_made : ∀ c ∈ cs, c.number ≤ made
  increasing : cs.Pairwise fun a b => a.number < b.number

namespace Numbered

variable {cs : List Container} {made : Nat} {c d : Container} {id : String}

theorem eq_of_number (h : Numbered cs made) (hc : c ∈ cs) (hd : d ∈ cs)
    (hn : c.number = d.number) : c = d := by
  obtain ⟨i, hi, rfl⟩ := List.mem_iff_getElem.1 hc
  obtain ⟨j, hj, rfl⟩ := List.mem_iff_getElem.1 hd
  have hp := List.pairwise_iff_getElem.1 h.increasing
  rcases Nat.lt_trichotomy i j with hij | rfl | hij
  · have := hp i j hi hj hij; omega
  · rfl
  · have := hp j i hj hi hij; omega

theorem eq_of_id (h : Numbered cs made) (hc : c ∈ cs) (hd : d ∈ cs) (hid : c.id = d.id) :
    c = d := by
  rw [h.id_eq c hc, h.id_eq d hd] at hid
  exact h.eq_of_number hc hd (idOf_injective hid)

theorem fresh_id (h : Numbered cs made) (hc : c ∈ cs) {n : Nat} (hn : made < n) :
    c.id ≠ idOf n := by
  rw [h.id_eq c hc]
  intro he
  have := idOf_injective he
  have := h.le_made c hc
  omega

theorem replaceIn_fresh (hc : ∀ d ∈ cs, d.id ≠ c.id) : replaceIn c cs = cs ++ [c] := by
  induction cs with
  | nil => rfl
  | cons d cs ih =>
    simp only [replaceIn, hc d (by simp), if_false, List.cons_append,
      ih fun d hd => hc d (by simp [hd])]

theorem append (h : Numbered cs made) (hid : c.id = idOf c.number) (hn : c.number = made + 1) :
    Numbered (cs ++ [c]) (made + 1) where
  id_eq d hd := by
    rcases List.mem_append.1 hd with hd | hd
    · exact h.id_eq d hd
    · rw [List.mem_singleton.1 hd]; exact hid
  le_made d hd := by
    rcases List.mem_append.1 hd with hd | hd
    · have := h.le_made d hd; omega
    · rw [List.mem_singleton.1 hd]; omega
  increasing := List.pairwise_append.2 ⟨h.increasing, by simp, fun a ha b hb => by
    have := h.le_made a ha
    rw [List.mem_singleton.1 hb]
    omega⟩

theorem changed (h : Numbered cs made) {f : Container → Container} (hid : ∀ c, (f c).id = c.id)
    (hn : ∀ c, (f c).number = c.number) : Numbered (Engine.changed cs id f) made := by
  have hone (c : Container) : (if c.id = id then f c else c).id = c.id
      ∧ (if c.id = id then f c else c).number = c.number := by
    split
    · exact ⟨hid c, hn c⟩
    · exact ⟨rfl, rfl⟩
  refine ⟨fun d hd => ?_, fun d hd => ?_, ?_⟩
  · obtain ⟨c, hc, rfl⟩ := List.mem_map.1 hd
    rw [(hone c).1, (hone c).2]
    exact h.id_eq c hc
  · obtain ⟨c, hc, rfl⟩ := List.mem_map.1 hd
    rw [(hone c).2]
    exact h.le_made c hc
  · unfold Engine.changed
    rw [List.pairwise_map]
    exact h.increasing.imp fun hab => by rw [(hone _).2, (hone _).2]; exact hab

theorem without (h : Numbered cs made) : Numbered (Engine.without cs id) made where
  id_eq c hc := h.id_eq c (List.mem_filter.1 hc).1
  le_made c hc := h.le_made c (List.mem_filter.1 hc).1
  increasing := h.increasing.sublist List.filter_sublist

end Numbered

theorem find?_eq_some {e : Engine} {id : String} {c : Container} (h : e.find? id = some c) :
    c ∈ e.containers ∧ c.id = id := by
  unfold find? at h
  exact ⟨List.mem_of_find?_eq_some h, by simpa using List.find?_some h⟩

end Engine

namespace Container

@[simp] theorem started_id (c : Container) : c.started.id = c.id := rfl
@[simp] theorem started_number (c : Container) : c.started.number = c.number := rfl
@[simp] theorem started_labels (c : Container) : c.started.labels = c.labels := rfl
@[simp] theorem started_isRunning (c : Container) : c.started.isRunning = true := rfl
@[simp] theorem stopped_id (c : Container) : c.stopped.id = c.id := rfl
@[simp] theorem stopped_number (c : Container) : c.stopped.number = c.number := rfl
@[simp] theorem stopped_labels (c : Container) : c.stopped.labels = c.labels := rfl
@[simp] theorem stopped_isRunning (c : Container) : c.stopped.isRunning = false :=
  show decide ("exited" = runningStatus) = false by decide

/-- Whether a container carries the labels of an application. -/
def BelongsTo (c : Container) (k : AppKey) : Prop :=
  c.labels.get? Runtime.appLabel = some k.name ∧ c.labels.get? Runtime.tenantLabel = some k.tenant

instance (c : Container) (k : AppKey) : Decidable (c.BelongsTo k) :=
  inferInstanceAs (Decidable (_ ∧ _))

theorem BelongsTo.unique {c : Container} {k k' : AppKey} (h : c.BelongsTo k)
    (h' : c.BelongsTo k') : k = k' := by
  cases k
  cases k'
  simp only [AppKey.mk.injEq]
  exact ⟨Option.some.inj (h.2.symm.trans h'.2), Option.some.inj (h.1.symm.trans h'.1)⟩

end Container

theorem World.newcomer_belongsTo (w : World) (k : AppKey) (tag : Tag) :
    (w.newcomer k.name k.tenant tag).BelongsTo k := ⟨rfl, rfl⟩

end AppBroker
