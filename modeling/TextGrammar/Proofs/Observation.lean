import TextGrammar.Proofs.Endings

/-!
# Runs that look alike

Two evaluations may do the same although their texts, their rules or their positions differ.
An observer who sees some of the events cannot tell two runs apart if the events that he
sees are the same and the runs end alike, with results that are related.

`Run.Alike.bind` puts runs that look alike together. So evaluations are compared rule by
rule, and what has to be said about each is only how the results are related.
-/

namespace TextGrammar

variable {α β γ δ ε : Type}

/-- The endings are of one kind: results that are related, the same fault, or none. -/
inductive Ending.Related (R : α → β → Prop) : Ending α → Ending β → Prop where
  | done {a : α} {b : β} : R a b → Related R (.done a) (.done b)
  | raised (f : Fault) : Related R (.raised f) (.raised f)
  | runaway : Related R .runaway .runaway

namespace Run

/-- To an observer who sees some of the events, the runs are the same up to related results. -/
structure Alike (see : Event → Option ε) (R : α → β → Prop) (x : Run α) (y : Run β) : Prop where
  events : x.events.filterMap see = y.events.filterMap see
  ending : x.ending.Related R y.ending

variable {see : Event → Option ε} {R : α → β → Prop} {S : γ → δ → Prop}

theorem Alike.pure {a : α} {b : β} (h : R a b) : Alike see R (Pure.pure a) (Pure.pure b) :=
  ⟨rfl, .done h⟩

theorem Alike.refl (x : Run α) : Alike see Eq x x := by
  obtain ⟨es, e⟩ := x
  refine ⟨rfl, ?_⟩
  cases e with
  | done a => exact .done rfl
  | raised f => exact .raised f
  | runaway => exact .runaway

/-- Runs that look alike, followed by runs that look alike for related results. -/
theorem Alike.bind {x : Run α} {y : Run β} {f : α → Run γ} {g : β → Run δ}
    (h : Alike see R x y) (hfg : ∀ a b, R a b → Alike see S (f a) (g b)) :
    Alike see S (x >>= f) (y >>= g) := by
  obtain ⟨es, e⟩ := x
  obtain ⟨es', e'⟩ := y
  obtain ⟨hevents, hending⟩ := h
  cases hending with
  | done hr =>
      have hrest := hfg _ _ hr
      refine ⟨?_, hrest.ending⟩
      simp only [bind_done, List.filterMap_append, hrest.events]
      exact congrArg (· ++ _) hevents
  | raised f => exact ⟨hevents, .raised f⟩
  | runaway => exact ⟨hevents, .runaway⟩

/-- An observer of all events can only be deceived by the results. -/
theorem Alike.eq_map {k : β → α} {x : Run α} {y : Run β}
    (h : Alike some R x y) (hk : ∀ a b, R a b → a = k b) : x = k <$> y := by
  obtain ⟨es, e⟩ := x
  obtain ⟨es', e'⟩ := y
  obtain ⟨hevents, hending⟩ := h
  simp only [List.filterMap_some] at hevents
  subst hevents
  rw [map_eq_pure_bind]
  cases hending with
  | done hr => simp [hk _ _ hr]
  | raised f => rfl
  | runaway => rfl

/-- An observer of all events cannot be deceived at all if the results are the same. -/
theorem Alike.eq {R : α → α → Prop} {x y : Run α} (h : Alike some R x y)
    (hR : ∀ a b, R a b → a = b) : x = y := by
  rw [h.eq_map (k := id) hR, id_map]

end Run

end TextGrammar
