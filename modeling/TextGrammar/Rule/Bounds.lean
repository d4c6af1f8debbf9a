import TextGrammar.Rule.Fault

/-!
# Bounds of a repetition

A lower bound and an upper bound, either of which may be absent. Bounds that are
out of order cannot be built.
-/

namespace TextGrammar

/-- How often a rule may be repeated. -/
structure Bounds where
  min : Option Nat
  max : Option Nat
  /-- The lower bound does not exceed the upper one. -/
  ordered : ∀ a b, min = some a → max = some b → a ≤ b
  deriving DecidableEq

namespace Bounds

def ofNat? (min max : Option Nat) : Except RuleFault Bounds :=
  match min, max with
  | some a, some b =>
    if h : a ≤ b then .ok ⟨some a, some b, by rintro _ _ ⟨⟩ ⟨⟩; exact h⟩
    else .error (.boundsOutOfOrder a b)
  | some a, none => .ok ⟨some a, none, by rintro _ _ _ ⟨⟩⟩
  | none, max => .ok ⟨none, max, by rintro _ _ ⟨⟩⟩

/-- Bounds from integers. A negative lower bound is noticed first, then a negative upper one. -/
def ofInt? (min max : Option Int) : Except RuleFault Bounds :=
  match min.filter (· < 0), max.filter (· < 0) with
  | some bound, _ => .error (.negativeBound bound)
  | none, some bound => .error (.negativeBound bound)
  | none, none => ofNat? (min.map Int.toNat) (max.map Int.toNat)

def shownBound : Option Nat → String
  | some n => toString n
  | none => "None"

/-- Bounds that are in order are accepted as they are. -/
theorem ofNat?_eq (b : Bounds) : ofNat? b.min b.max = .ok b := by
  obtain ⟨min, max, h⟩ := b
  match min, max, h with
  | some a, some b, h => simp [ofNat?, h a b rfl rfl]
  | some a, none, h => rfl
  | none, max, h => rfl

theorem ofNat?_ok {low high : Option Nat} {b : Bounds} (h : ofNat? low high = .ok b) :
    b.min = low ∧ b.max = high := by
  unfold ofNat? at h
  split at h
  · split at h
    · cases h
      exact ⟨rfl, rfl⟩
    · cases h
  · cases h
    exact ⟨rfl, rfl⟩
  · cases h
    exact ⟨rfl, rfl⟩

end Bounds

end TextGrammar
