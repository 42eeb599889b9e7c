import AppBroker.Proofs.Sharing

/-!
# What handling a container changes

A call about a container changes that container at most, whatever the engine answers, and be the
answer a lie: it is started, stopped or removed, or nothing happens to any container. So labels stay
what they are as the world gets older, and an id stands for the container that it was given to or
for none, whatever anybody calls.
-/

namespace AppBroker

namespace Engine

variable {scope : AppKey} {id : String}

/-- What an engine can be asked to do to a container: after the call its containers are as before
or as `f` makes them. -/
def Alters (m : Runtime.EngineCall Unit) (f : List Container → List Container) : Prop :=
  ∀ e, ∃ history, (m e).2 = e.withHistory history ∨ (m e).2 = e.having (f e.containers) history

theorem alters_start : Alters (·.start scope id) (changed · id .started) := by
  intro e
  unfold start
  rcases e.about_cases scope .start id with ⟨f, history, ha, -⟩ | ⟨c, history, -, ha⟩ <;>
    simp only [ha]
  · exact ⟨history, .inl rfl⟩
  · cases c.isRunning with
    | true => exact ⟨history, .inl rfl⟩
    | false => exact ⟨history, .inr rfl⟩

theorem alters_restart : Alters (·.restart scope id) (changed · id .started) := by
  intro e
  unfold restart
  rcases e.about_cases scope .restart id with ⟨f, history, ha, -⟩ | ⟨c, history, -, ha⟩ <;>
    simp only [ha]
  · exact ⟨history, .inl rfl⟩
  · exact ⟨history, .inr rfl⟩

theorem alters_stop : Alters (·.stop scope id) (changed · id .stopped) := by
  intro e
  unfold stop
  rcases e.about_cases scope .stop id with ⟨f, history, ha, -⟩ | ⟨c, history, -, ha⟩ <;>
    simp only [ha]
  · exact ⟨history, .inl rfl⟩
  · cases c.isRunning with
    | true => exact ⟨history, .inr rfl⟩
    | false => exact ⟨history, .inl rfl⟩

theorem alters_remove : Alters (·.remove scope id) (without · id) := by
  intro e
  unfold remove
  rcases e.about_cases scope .remove id with ⟨f, history, ha, -⟩ | ⟨c, history, -, ha⟩ <;>
    simp only [ha]
  · exact ⟨history, .inl rfl⟩
  · exact ⟨history, .inr rfl⟩

end Engine

namespace Runtime

/-- Counting an answer as done does not change what is done. -/
theorem settling_snd (m : EngineCall Unit) (e : Engine) : (settling m e).2 = (m e).2 := by
  unfold settling
  split
  · rename_i e' hm
    rw [hm]
  · rename_i fault e' hm
    rw [hm]
    split <;> rfl

theorem change_alters {operation : String} {h : Handle} {m : EngineCall Unit}
    {effect : EngineEffect} {f : List Container → List Container} (hm : Engine.Alters m f)
    (w : World) : w.Quiet (change operation h m effect w).2 ∨
      w.Became (f w.engine.containers) (change operation h m effect w).2 := by
  obtain ⟨w₁, hq, ⟨e, -, hc⟩ | ⟨trace, hc⟩⟩ := change_cases operation h m effect w
  · rw [hc]
    exact .inl hq
  · rw [hc, settling_snd]
    obtain ⟨history, he | he⟩ := hm w₁.engine <;> rw [he]
    · exact .inl (World.quiet_withHistory hq _ _)
    · rw [← hq.containers]
      exact .inr (World.became_having hq _ _ _)

end Runtime

namespace World

variable (w : World) (h : Handle)

theorem handled_start : w.Quiet (w.answer (.start h)).2 ∨
    w.Became (Engine.changed w.engine.containers h.id .started) (w.answer (.start h)).2 :=
  Runtime.change_alters Engine.alters_start w

theorem handled_restart : w.Quiet (w.answer (.restart h)).2 ∨
    w.Became (Engine.changed w.engine.containers h.id .started) (w.answer (.restart h)).2 :=
  Runtime.change_alters Engine.alters_restart w

theorem handled_stop : w.Quiet (w.answer (.stop h)).2 ∨
    w.Became (Engine.changed w.engine.containers h.id .stopped) (w.answer (.stop h)).2 :=
  Runtime.change_alters Engine.alters_stop w

theorem handled_destroy : w.Quiet (w.answer (.destroy h)).2 ∨
    w.Became (Engine.without w.engine.containers h.id) (w.answer (.destroy h)).2 := by
  have hchange : w.Quiet (Runtime.change "destroy" h (·.remove h.key h.id) (.remove h.id) w).2 ∨
      w.Became (Engine.without w.engine.containers h.id)
        (Runtime.change "destroy" h (·.remove h.key h.id) (.remove h.id) w).2 :=
    Runtime.change_alters Engine.alters_remove w
  show w.Quiet (Runtime.destroy h w).2 ∨ w.Became _ (Runtime.destroy h w).2
  unfold Runtime.destroy
  split
  · rename_i f w₁ hc
    rw [hc] at hchange
    split <;> exact hchange
  · exact hchange

variable {w w' w₁ w₂ w₃ : World}

/-- What a call does to containers and to the router, whatever the engine answers. -/
structure Aged (w w' : World) : Prop where
  ages : w.Ages w'
  numbered : Engine.Numbered w.engine.containers w.engine.made →
    Engine.Numbered w'.engine.containers w'.engine.made
  lenient : w'.engine.lenient = w.engine.lenient
  faults : w'.engine.faults = w.engine.faults

theorem Same.aged (h : Same w w') : w.Aged w' :=
  ⟨ages_of_eq h.containers h.made, fun hn => by rw [h.containers, h.made]; exact hn, h.lenient,
    h.faults⟩

theorem Became.aged_changed {id : String} {f : Container → Container}
    (h : w.Became (Engine.changed w.engine.containers id f) w') (hid : ∀ c, (f c).id = c.id)
    (hn : ∀ c, (f c).number = c.number) (hl : ∀ c, (f c).labels = c.labels) : w.Aged w' := by
  obtain ⟨_, _, _, rfl⟩ := h
  refine ⟨⟨Nat.le_refl _, fun c hc _ => ?_⟩, fun hw => hw.changed hid hn, rfl, rfl⟩
  obtain ⟨d, hd, rfl⟩ := List.mem_map.1 hc
  refine ⟨d, hd, ?_⟩
  split
  · exact ⟨(hid d).symm, (hn d).symm, (hl d).symm⟩
  · exact ⟨rfl, rfl, rfl⟩

theorem Became.aged_without {id : String}
    (h : w.Became (Engine.without w.engine.containers id) w') : w.Aged w' := by
  obtain ⟨_, _, _, rfl⟩ := h
  exact ⟨⟨Nat.le_refl _, fun c hc _ => ⟨c, (List.mem_filter.1 hc).1, rfl, rfl, rfl⟩⟩,
    fun hw => hw.without, rfl, rfl⟩

/-- A search for room fails, or there is one more container, with a new number. -/
theorem created_cases (hw : Engine.Numbered w.engine.containers w.engine.made) (app tenant : String)
    (tag : Tag) : Same w (w.answer (.create app tenant tag)).2 ∨
      ∃ w₁, w.counted.Became (w.engine.containers ++ [w.newcomer app tenant tag]) w₁ ∧
        (w.answer (.create app tenant tag)).2 =
          { w₁ with engine := { w₁.engine with made := w.engine.nextNumber } } := by
  rcases w.answer_create app tenant tag with ⟨-, hq⟩ | ⟨-, w₁, hb, hw'⟩
  · have : Same w w.counted := ⟨rfl, rfl, rfl, rfl, rfl⟩
    exact .inl (this.trans hq.same)
  · rw [Engine.Numbered.replaceIn_fresh fun d hd => hw.fresh_id hd (Nat.lt_succ_self _)] at hb
    exact .inr ⟨w₁, hb, hw'⟩

theorem aged_create (hw : Engine.Numbered w.engine.containers w.engine.made) (app tenant : String)
    (tag : Tag) : w.Aged (w.answer (.create app tenant tag)).2 := by
  rcases created_cases hw app tenant tag with h | ⟨w₁, hb, hw'⟩
  · exact h.aged
  · rw [hw']
    obtain ⟨_, _, _, rfl⟩ := hb
    refine ⟨⟨Nat.le_succ _, fun c hc hn => ?_⟩, fun _ => hw.append rfl rfl, rfl, rfl⟩
    rcases List.mem_append.1 hc with hc | hc
    · exact ⟨c, hc, rfl, rfl, rfl⟩
    · rw [List.mem_singleton.1 hc] at hn
      exact absurd hn (Nat.not_succ_le_self _)

/-- Whatever is called, the world just gets older. -/
theorem aged_answer (hw : Engine.Numbered w.engine.containers w.engine.made) (c : Call) :
    w.Aged (w.answer c).2 := by
  have hhandled {h : Handle} {f : Container → Container} {w' : World}
      (hcases : w.Quiet w' ∨ w.Became (Engine.changed w.engine.containers h.id f) w')
      (hid : ∀ c, (f c).id = c.id) (hn : ∀ c, (f c).number = c.number)
      (hl : ∀ c, (f c).labels = c.labels) : w.Aged w' :=
    hcases.elim (·.same.aged) (·.aged_changed hid hn hl)
  cases c with
  | create app tenant tag => exact aged_create hw app tenant tag
  | start h => exact hhandled (w.handled_start h) (fun _ => rfl) (fun _ => rfl) fun _ => rfl
  | restart h => exact hhandled (w.handled_restart h) (fun _ => rfl) (fun _ => rfl) fun _ => rfl
  | stop h => exact hhandled (w.handled_stop h) (fun _ => rfl) (fun _ => rfl) fun _ => rfl
  | destroy h => exact (w.handled_destroy h).elim (·.same.aged) (·.aged_without)
  | route change => exact ⟨ages_of_eq rfl rfl, id, rfl, rfl⟩
  | _ => exact (w.same_answer rfl).aged

/-- No call but those to the router changes it. -/
theorem router_answer (w : World) {c : Call} (hc : c.isUnrouted = true) :
    (w.answer c).2.broker.router = w.broker.router := by
  have hbecame {cs : List Container} {w' : World} (h : w.Became cs w') :
      w'.broker.router = w.broker.router := by
    obtain ⟨_, _, _, rfl⟩ := h
    rfl
  cases c with
  | create app tenant tag =>
    rcases w.answer_create app tenant tag with ⟨-, _, _, _, hw⟩ | ⟨-, w₁, ⟨_, _, _, rfl⟩, hw⟩ <;>
      rw [hw] <;> rfl
  | start h => exact (w.handled_start h).elim hbecame hbecame
  | restart h => exact (w.handled_restart h).elim hbecame hbecame
  | stop h => exact (w.handled_stop h).elim hbecame hbecame
  | destroy h => exact (w.handled_destroy h).elim hbecame hbecame
  | route => cases hc
  | _ => exact (w.same_answer rfl).router

end World

end AppBroker
