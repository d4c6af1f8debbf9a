import TextGrammar.Proofs.Comparison
import TextGrammar.Proofs.Reentry

/-!
# Evaluations that come to the same

Two evaluations by name come to the same if either does what the other does at some depth
(`apply_alike`). The depths need not be the same, since one of the two may have more references
open than the other; so runs that are given up are left out of the comparison (`Run.Mirrored`).
-/

namespace TextGrammar

variable {α β ε : Type} {see : Event → Option ε} {R : α → β → Prop}

namespace Run

theorem Alike.flip {x : Run α} {y : Run β} (h : Alike see R x y) :
    Alike see (fun b a => R a b) y x := by
  obtain ⟨es, e⟩ := x
  obtain ⟨es', e'⟩ := y
  obtain ⟨hevents, hending⟩ := h
  refine ⟨hevents.symm, ?_⟩
  cases hending with
  | done hr => exact .done hr
  | raised f => exact .raised f
  | runaway => exact .runaway

/-- A run that looks the same may take the place of the first one. -/
theorem Alike.trans {x x' : Run α} {y : Run β} (h : Alike see Eq x x') (h' : Alike see R x' y) :
    Alike see R x y := by
  obtain ⟨es, e⟩ := x
  obtain ⟨es', e'⟩ := x'
  obtain ⟨hevents, hending⟩ := h
  refine ⟨hevents.trans h'.events, ?_⟩
  cases hending with
  | done heq => exact heq ▸ h'.ending
  | raised f => exact h'.ending
  | runaway => exact h'.ending

/-- An event that is not seen may come first. -/
theorem Alike.unseen_left {event : Event} (hevent : see event = none) {x : Run α} {y : Run β}
    (h : Alike see R x y) : Alike see R (do emit event; x) y :=
  ⟨h.events ▸ List.filterMap_cons_none hevent, h.ending⟩

theorem Alike.unseen_right {event : Event} (hevent : see event = none) {x : Run α} {y : Run β}
    (h : Alike see R x y) : Alike see R x (do emit event; y) :=
  ⟨h.events.trans (List.filterMap_cons_none hevent).symm, h.ending⟩

theorem Alike.runaway_iff {x : Run α} {y : Run β} (h : Alike see R x y) :
    x.ending = .runaway ↔ y.ending = .runaway := by
  obtain ⟨es, e⟩ := x
  obtain ⟨es', e'⟩ := y
  obtain ⟨-, hending⟩ := h
  cases hending with
  | done hr => simp
  | raised f => simp
  | runaway => simp

/-- Runs that look alike end in the same way if their results are the same. -/
theorem Alike.ending_eq {R : α → α → Prop} {x y : Run α} (h : Alike see R x y)
    (hR : ∀ a b, R a b → a = b) : x.ending = y.ending := by
  obtain ⟨es, e⟩ := x
  obtain ⟨es', e'⟩ := y
  obtain ⟨-, hending⟩ := h
  cases hending with
  | done hr => exact congrArg Ending.done (hR _ _ hr)
  | raised f => rfl
  | runaway => rfl

theorem Mirrored.alike {x : Run α} {y : Run β} (h : Mirrored see R x y)
    (hx : x.ending ≠ .runaway) : x.Alike see R y :=
  h.resolve_left hx

/-- A run that was not given up is mirrored by one that was not. -/
theorem Mirrored.ne_runaway {x : Run α} {y : Run β} (h : Mirrored see R x y)
    (hx : x.ending ≠ .runaway) : y.ending ≠ .runaway :=
  fun hy => hx ((h.alike hx).runaway_iff.mpr hy)

/-- An event that is not seen may come first. -/
theorem Mirrored.unseen_left {event : Event} (hevent : see event = none) {x : Run α} {y : Run β}
    (h : Mirrored see R x y) : Mirrored see R (do emit event; x) y :=
  h.imp (fun hx => by simpa using hx) (.unseen_left hevent)

theorem Mirrored.unseen_right {event : Event} (hevent : see event = none) {x : Run α} {y : Run β}
    (h : Mirrored see R x y) : Mirrored see R x (do emit event; y) :=
  h.imp_right (.unseen_right hevent)

end Run

/-! ## At the top -/

section Apply

variable {s s' : Setting} {name name' : String} {pos pos' : Int}

/-- An evaluation that ends does so at some depth, and is the evaluation at that depth. -/
theorem exists_depth (h : ¬s.NeverEnds (Call.first name pos)) :
    (enter s (s.depthBound pos) name pos true).ending ≠ .runaway := by
  rw [← apply_eq_runaway_iff] at h
  exact h

theorem neverEnds_of_mirrored {R : Verdict → Verdict → Prop}
    (h : ∀ depth, ∃ depth',
      (enter s depth name pos true).Mirrored see R (enter s' depth' name' pos' true))
    (hnever : s'.NeverEnds (Call.first name' pos')) : s.NeverEnds (Call.first name pos) := by
  intro depth
  rw [run_first_eq_runaway_iff]
  by_contra hends
  obtain ⟨depth', hmirror⟩ := h depth
  have hrun := hnever depth'
  rw [run_first_eq_runaway_iff] at hrun
  exact hmirror.ne_runaway hends hrun

/-- Evaluations that mirror each other end alike, and look alike if they end. -/
theorem apply_alike {R : Verdict → Verdict → Prop} {R' : Verdict → Verdict → Prop}
    (h : ∀ depth, ∃ depth',
      (enter s depth name pos true).Mirrored see R (enter s' depth' name' pos' true))
    (hback : ∀ depth, ∃ depth',
      (enter s' depth name' pos' true).Mirrored see R' (enter s depth' name pos true)) :
    (s.NeverEnds (Call.first name pos) ↔ s'.NeverEnds (Call.first name' pos'))
      ∧ (¬s.NeverEnds (Call.first name pos) →
          (s.apply name pos).Alike see R (s'.apply name' pos')) := by
  refine ⟨⟨neverEnds_of_mirrored hback, neverEnds_of_mirrored h⟩, fun hends => ?_⟩
  obtain ⟨depth', hmirror⟩ := h (s.depthBound pos)
  have hdone := exists_depth hends
  have hdone' := hmirror.ne_runaway hdone
  rw [← enter_eq_apply hdone, ← enter_eq_apply hdone']
  exact hmirror.alike hdone

/-- Evaluations that look alike at every depth look alike if they end. -/
theorem apply_alike_of_enter {R : Verdict → Verdict → Prop}
    (h : ∀ depth, (enter s depth name pos true).Alike see R (enter s' depth name' pos' true)) :
    (s.NeverEnds (Call.first name pos) ↔ s'.NeverEnds (Call.first name' pos'))
      ∧ (¬s.NeverEnds (Call.first name pos) →
          (s.apply name pos).Alike see R (s'.apply name' pos')) :=
  apply_alike (fun depth => ⟨depth, .inr (h depth)⟩) (fun depth => ⟨depth, .inr (h depth).flip⟩)

end Apply

end TextGrammar
