import TextGrammar.Proofs.Comparison
import TextGrammar.Proofs.Reentry

/-!
# Positions are relative

An evaluation only looks at the text from its position on. To start at a position of a text,
or at the front of what is left of the text there, comes to the same: the same decisions are
taken, and all positions differ by the number of characters that were left out
(`apply_eq_shift`).

Positions correspond if they are as far apart as characters are left out, and the positions that
are met in the rest of the text are never negative. Both evaluations then find the same text at
every token, so they agree on every rule.
-/

namespace TextGrammar

variable {s : Setting}

/-- The setting in which the first characters of the text are left out. -/
def Setting.after (s : Setting) (n : Nat) : Setting := { s with text := s.text.drop n }

/-- The verdict with its position moved. -/
def Verdict.shift (n : Nat) : Verdict → Verdict
  | .success value stop => .success value (n + stop)
  | .failure stop => .failure (n + stop)

/-- The second position is that of the first in the rest of the text. -/
def Moved (n : Nat) (pos pos' : Int) : Prop := pos = n + pos' ∧ 0 ≤ pos'

/-- Positions correspond if they have moved. -/
def Alignment.after (n : Nat) : Alignment where
  At := Moved n
  stays := by
    unfold Moved
    omega

/-- The same verdict but for its position. -/
abbrev Verdict.Moved (n : Nat) : Verdict → Verdict → Prop := Verdict.Aligned (.after n)

theorem Verdict.Moved.eq_shift {n : Nat} {v v' : Verdict} (h : v.Moved n v') : v = v'.shift n := by
  cases h with
  | success value hstop => rw [Verdict.shift, hstop.1]
  | failure hstop => rw [Verdict.shift, hstop.1]

theorem Setting.remaining_after {n : Nat} {pos pos' : Int} (h : Moved n pos pos') :
    s.remaining pos = (s.after n).remaining pos' := by
  obtain ⟨rfl, hpos⟩ := h
  have hsum : ((n : Int) + pos').toNat = n + pos'.toNat := by omega
  have hfront : 0 ≤ (n : Int) + pos' := by omega
  simp only [Setting.remaining, Setting.after, if_pos hpos, if_pos hfront, List.drop_drop, hsum]

/-- The room is the same. -/
theorem Setting.room_after {n : Nat} {pos pos' : Int} (h : Moved n pos pos') :
    s.room pos = (s.after n).room pos' := by
  obtain ⟨rfl, hpos⟩ := h
  simp only [Setting.room, Setting.after, List.length_drop]
  omega

/-- A token takes the same in the rest of the text. -/
theorem evalToken_moved {n depth : Nat} {t : Token} {pos pos' : Int} {skip : Bool}
    (h : Moved n pos pos')
    (hspace : Run.Alike some (Verdict.Moved n) (enter s depth spaceName pos false)
      (enter (s.after n) depth spaceName pos' false)) :
    Run.Alike some (Verdict.Moved n) (evalToken s (enter s depth) t pos skip)
      (evalToken (s.after n) (enter (s.after n) depth) t pos' skip) := by
  refine evalToken_agree (C := .alike some) (A := .after n) (x := s.evaluator depth)
    (y := (s.after n).evaluator depth) h (tokenStart_agree h hspace skip) ?_ ?_
  · exact fun start start' hstart => s.remaining_after hstart
  · intro start start' taken hstart htaken
    obtain ⟨hmoved, hfront⟩ := hstart
    constructor
    · omega
    · omega

/-- References come to the same at moved positions, however many may be followed. -/
theorem enter_moved (s : Setting) (n depth : Nat) (name : String) (pos pos' : Int) (skip : Bool)
    (h : Moved n pos pos') :
    Run.Alike some (Verdict.Moved n) (enter s depth name pos skip)
      (enter (s.after n) depth name pos' skip) := by
  have henters : EntersAgree (.alike some) (.after n) (s.evaluator depth)
      ((s.after n).evaluator depth) fun _ _ => True := by
    refine entersAgree ?_ ?_ ?_ ?_ depth
    · rfl
    · exact fun name skip _ => ⟨rfl, rfl⟩
    · exact fun name skip body other _ _ _ => trivial
    · intro name skip body t depth _ _ _ henters pos pos' hpos
      exact evalToken_moved hpos (henters spaceName false pos pos' trivial hpos)
  exact henters name skip pos pos' trivial h

/--
**An evaluation at a position is an evaluation of what is left of the text there.** Both take
the same decisions, so their logs and their calls of actions are the same; both match with the
same value or do not match, and stop at the same place, counted from where they start; both
raise the same fault; and both end or neither does.
-/
theorem apply_eq_shift (s : Setting) (name : String) (pos : Nat) :
    s.apply name pos = Verdict.shift pos <$> (s.after pos).apply name 0
      ∧ logLines (s.apply name pos).events = logLines ((s.after pos).apply name 0).events
      ∧ actionCalls (s.apply name pos).events = actionCalls ((s.after pos).apply name 0).events
      ∧ (s.NeverEnds (Call.first name pos) ↔ (s.after pos).NeverEnds (Call.first name 0)) := by
  have hmoved : Moved pos pos 0 := ⟨by omega, Int.le_refl 0⟩
  have hbound : s.depthBound pos = (s.after pos).depthBound 0 := by
    rw [Setting.depthBound, s.room_after hmoved]
    rfl
  have halike : Run.Alike some (Verdict.Moved pos) (s.apply name pos)
      ((s.after pos).apply name 0) := by
    rw [Setting.apply, hbound]
    exact enter_moved s pos _ name pos 0 true hmoved
  have heq := halike.eq_map fun _ _ => Verdict.Moved.eq_shift
  have hevents : (s.apply name pos).events = ((s.after pos).apply name 0).events := by
    simpa using halike.events
  refine ⟨heq, by rw [hevents], by rw [hevents], ?_⟩
  rw [← apply_eq_runaway_iff, ← apply_eq_runaway_iff, heq, map_eq_pure_bind, Run.ending_bind,
    Ending.andThen_eq_runaway_iff]
  simp

end TextGrammar
