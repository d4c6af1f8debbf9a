import TextGrammar.Pattern.Compile
import TextGrammar.Pattern.Escape

/-!
# An escaped text is a pattern

Whatever a text holds, its escaped form can be read as a pattern: it is the sequence of the
characters of the text, each of which matches itself (`compilePattern_escapePattern`).

The reader goes through an escaped text character by character. A character that has no
meaning in patterns stands for itself, and so does one with a backslash before it, since
letters and digits, which would make another escape of it, are never escaped.
-/

namespace TextGrammar

@[simp] theorem hasFlag_zero (bit : Nat) : hasFlag 0 bit = false := by simp [hasFlag]

/-- The characters that are escaped, and those that stop a literal in a pattern. -/
theorem ne_of_not_needsEscape {c d : Char} (hc : needsEscape c = false) (hd : d ∈ metaChars) :
    c ≠ d := by
  rintro rfl
  simp [needsEscape, hd] at hc

/-- What is escaped is neither an ASCII letter nor an ASCII digit. -/
theorem not_alphanumeric_of_needsEscape {c : Char} (h : needsEscape c = true) :
    ¬('0' ≤ c ∧ c ≤ '9') ∧ ¬('a' ≤ c ∧ c ≤ 'z') ∧ ¬('A' ≤ c ∧ c ≤ 'Z') := by
  have hrange : ∀ {low high : Char}, low ≤ c ∧ c ≤ high →
      low.toNat ≤ c.toNat ∧ c.toNat ≤ high.toNat := fun h => h
  rw [needsEscape, Bool.or_eq_true] at h
  rcases h with h | h
  · have hmem : c ∈ metaChars := by simpa using h
    have hall : metaChars.all (fun d => decide (¬('0' ≤ d ∧ d ≤ '9') ∧ ¬('a' ≤ d ∧ d ≤ 'z')
        ∧ ¬('A' ≤ d ∧ d ≤ 'Z'))) = true := by decide
    exact of_decide_eq_true (List.all_eq_true.mp hall c hmem)
  · -- blanks are control characters, the space, or lie beyond ASCII
    have hcode : c.toNat ≤ 0x20 ∨ 0x80 ≤ c.toNat := by
      simp [isBlank, isWhiteSpace, whiteSpaceRanges, CodeRanges.has] at h
      omega
    refine ⟨fun hd => ?_, fun hd => ?_, fun hd => ?_⟩
    all_goals
      have := hrange hd
      simp only [Char.reduceToNat] at this
      omega

/-- The state after some characters have been read. -/
def PatternState.moved (s : PatternState) (rest : List Char) (n : Nat) : PatternState :=
  { s with rest, position := s.position + n }

namespace PatternReader

section Steps

variable {s : PatternState} {c : Char} {rest : List Char} (hbits : s.bits = 0)

include hbits

theorem run_ahead (raw : Bool) : (ahead raw).run s = pure ((s.rest, s.position), s) := by
  simp [ahead, hbits]

theorem run_next_nil (hrest : s.rest = []) (raw : Bool) : (next raw).run s = pure (none, s) := by
  obtain ⟨_, position, bits, whole, groups, names, opened⟩ := s
  subst hrest
  simp [next, run_ahead hbits, moveTo]

theorem run_next_cons (hrest : s.rest = c :: rest) (raw : Bool) :
    (next raw).run s = pure (some c, s.moved rest 1) := by
  simp [next, run_ahead hbits, hrest, moveTo, PatternState.moved]

theorem run_accept_nil (hrest : s.rest = []) (wanted : Char) (raw : Bool) :
    (accept wanted raw).run s = pure (false, s) := by
  simp [accept, run_ahead hbits, hrest]

theorem run_caseRule : caseRule.run s = pure (.exact, s) := by
  simp [caseRule, hbits]

/-- An escape of a character that has to be escaped is that character. -/
theorem run_escape (hrest : s.rest = c :: rest) (hc : needsEscape c = true) :
    (escape false).run s = pure (.point c.toNat, s.moved rest 1) := by
  obtain ⟨hdigit, hlower, hupper⟩ := not_alphanumeric_of_needsEscape hc
  have hhex : hexLength c = none := by
    have hx : c ≠ 'x' := fun h => hlower (by subst h; decide)
    have hu : c ≠ 'u' := fun h => hlower (by subst h; decide)
    have hU : c ≠ 'U' := fun h => hupper (by subst h; decide)
    simp [hexLength, hx, hu, hU]
  have hbit : (hasBit asciiBit).run s = pure (false, s) := by simp [hasBit, hbits]
  simp only [escape, StateT.run_bind, hbit, pure_bind, run_next_cons hbits hrest]
  simp [hhex, isDigit, hdigit, hlower, hupper]

theorem run_sequence_nil (hrest : s.rest = []) (fuel : Nat)
    (parts : List (Option (Pattern GroupRef))) :
    (sequence (fuel + 1) parts).run s = pure (sequenceOf parts, s) := by
  simp only [sequence, StateT.run_bind, StateT.run_get, pure_bind, run_next_nil hbits hrest]
  rfl

/-- A character that has no meaning in patterns stands for itself. -/
theorem run_sequence_plain (hrest : s.rest = c :: rest) (hc : needsEscape c = false) (fuel : Nat)
    (parts : List (Option (Pattern GroupRef))) :
    (sequence (fuel + 1) parts).run s
      = (sequence fuel (some (.literal c.toNat .exact) :: parts)).run (s.moved rest 1) := by
  have hne : ∀ d ∈ metaChars, c ≠ d := fun d => ne_of_not_needsEscape hc
  simp only [sequence, StateT.run_bind, StateT.run_get, pure_bind, run_next_cons hbits hrest]
  split
  all_goals
    first
    | (rename_i heq; exact absurd (Option.some.inj heq) (hne _ (by decide)))
    | skip
  · rename_i heq
    cases heq
  · rename_i d _ _ _ _ _ _ _ _ heq
    obtain rfl := Option.some.inj heq
    have hquestion := hne '?' (by decide)
    have hstar := hne '*' (by decide)
    have hplus := hne '+' (by decide)
    have hbrace := hne '{' (by decide)
    have hmoved : (s.moved rest 1).bits = 0 := hbits
    simp [hquestion, hstar, hplus, hbrace, run_caseRule hmoved]

/-- A character after a backslash stands for itself as well. -/
theorem run_sequence_escaped (hrest : s.rest = '\\' :: c :: rest) (hc : needsEscape c = true)
    (fuel : Nat) (parts : List (Option (Pattern GroupRef))) :
    (sequence (fuel + 1) parts).run s
      = (sequence fuel (some (.literal c.toNat .exact) :: parts)).run (s.moved rest 2) := by
  have hmoved : (s.moved (c :: rest) 1).bits = 0 := hbits
  have hlater : ((s.moved (c :: rest) 1).moved rest 1).bits = 0 := hbits
  simp only [sequence, StateT.run_bind, StateT.run_get, pure_bind, run_next_cons hbits hrest]
  simp only [StateT.run_bind, run_escape hmoved rfl hc, pure_bind, ofEscaped,
    run_caseRule hlater]
  rfl

/-- At the end there are no more branches. -/
theorem run_moreBranches_nil (hrest : s.rest = []) (fuel : Nat) :
    (moreBranches fuel).run s = pure ([], s) := by
  cases fuel with
  | zero => rfl
  | succ fuel => simp [moreBranches, run_accept_nil hbits hrest]

end Steps

/-- The parts that the characters of a text become, in reverse order. -/
def literalParts (cs : List Char) : List (Option (Pattern GroupRef)) :=
  cs.reverse.map fun c => some (.literal c.toNat .exact)

/-- An escaped text is read to its end, each character as one part. -/
theorem run_sequence_escapePattern (cs : List Char) {fuel : Nat}
    (hfuel : cs.length < fuel) (parts : List (Option (Pattern GroupRef))) {s : PatternState}
    (hrest : s.rest = escapePattern cs) (hbits : s.bits = 0) :
    (sequence fuel parts).run s
      = pure (sequenceOf (literalParts cs ++ parts), s.moved [] (escapePattern cs).length) := by
  induction cs generalizing fuel parts s with
  | nil =>
      obtain ⟨fuel, rfl⟩ : ∃ n, fuel = n + 1 := ⟨fuel - 1, by omega⟩
      have hnil : s.rest = [] := hrest
      have hstay : s.moved [] (escapePattern []).length = s := by
        obtain ⟨_, position, bits, whole, groups, names, opened⟩ := s
        subst hnil
        rfl
      rw [run_sequence_nil hbits hnil, hstay]
      rfl
  | cons c cs ih =>
      obtain ⟨fuel, rfl⟩ : ∃ n, fuel = n + 1 := ⟨fuel - 1, by omega⟩
      have hparts : literalParts cs ++ some (.literal c.toNat .exact) :: parts
          = literalParts (c :: cs) ++ parts := by
        simp [literalParts]
      by_cases hc : needsEscape c
      · have htext : s.rest = '\\' :: c :: escapePattern cs := by
          simpa [escapePattern, hc] using hrest
        have hlength : (escapePattern (c :: cs)).length = 2 + (escapePattern cs).length := by
          simp [escapePattern, hc]
          omega
        have hmore := @ih fuel (Nat.lt_of_succ_lt_succ hfuel) (some (.literal c.toNat .exact) :: parts)
          (s.moved (escapePattern cs) 2) rfl hbits
        rw [run_sequence_escaped hbits htext hc, hmore, hparts, hlength]
        simp [PatternState.moved, Nat.add_assoc]
      · have hplain : needsEscape c = false := by simpa using hc
        have htext : s.rest = c :: escapePattern cs := by
          simpa [escapePattern, hc] using hrest
        have hlength : (escapePattern (c :: cs)).length = 1 + (escapePattern cs).length := by
          simp [escapePattern, hc]
          omega
        have hmore := @ih fuel (Nat.lt_of_succ_lt_succ hfuel) (some (.literal c.toNat .exact) :: parts)
          (s.moved (escapePattern cs) 1) rfl hbits
        rw [run_sequence_plain hbits htext hplain, hmore, hparts, hlength]
        simp [PatternState.moved, Nat.add_assoc]

end PatternReader

/-- The pattern that matches the characters of a text one after the other. -/
def Pattern.ofText (cs : List Char) : Pattern Nat :=
  .ofList (cs.map fun c => .literal c.toNat .exact)

theorem length_le_escapePattern (cs : List Char) : cs.length ≤ (escapePattern cs).length := by
  induction cs with
  | nil => exact Nat.le_refl 0
  | cons c cs ih =>
      have hone : 1 ≤ (if needsEscape c then ['\\', c] else [c]).length := by
        split <;> simp
      simp only [escapePattern, List.flatMap_cons, List.length_append, List.length_cons] at ih ⊢
      omega

theorem sequenceOf_literalParts (cs : List Char) :
    PatternReader.sequenceOf (PatternReader.literalParts cs ++ [none])
      = .ofList (cs.map fun c => .literal c.toNat .exact) := by
  have hparts : ((PatternReader.literalParts cs ++ [none]).reverse.filterMap id)
      = cs.map fun c => .literal c.toNat .exact := by
    simp [PatternReader.literalParts, List.filterMap_map]
  rw [PatternReader.sequenceOf, hparts]

/-- A pattern without back-references has none to settle. -/
theorem mapRefs_ofText (cs : List Char) (f : GroupRef → Except PatternFault Nat) :
    Pattern.mapRefs f (.ofList (cs.map fun c => .literal c.toNat .exact))
      = .ok (Pattern.ofText cs) := by
  induction cs with
  | nil => rfl
  | cons c cs ih =>
      simp only [Pattern.ofText, Pattern.ofList] at ih
      simp only [Pattern.ofText, Pattern.ofList, List.map_cons, List.foldr_cons, Pattern.mapRefs,
        ih]
      rfl

/-- The whole of an escaped text is read. -/
theorem readPattern_escapePattern (cs : List Char) (fuel : Nat) :
    readPattern (escapePattern cs) fuel 0 = .ok (.ofList (cs.map fun c => .literal c.toNat .exact),
      (PatternState.initial (escapePattern cs) 0).moved [] (escapePattern cs).length) := by
  have hfuel : cs.length < 2 * (escapePattern cs).length + 3 := by
    have hlength := length_le_escapePattern cs
    omega
  have hsequence := PatternReader.run_sequence_escapePattern cs hfuel [none]
    (s := .initial (escapePattern cs) 0) rfl rfl
  have halternatives : (PatternReader.alternatives (2 * (escapePattern cs).length + 4)).run
      (.initial (escapePattern cs) 0) = .ok (.ofList (cs.map fun c => .literal c.toNat .exact),
        (PatternState.initial (escapePattern cs) 0).moved [] (escapePattern cs).length) := by
    rw [PatternReader.alternatives]
    simp only [StateT.run_bind, hsequence, pure_bind, sequenceOf_literalParts]
    rw [PatternReader.run_moreBranches_nil rfl rfl]
    rfl
  cases fuel with
  | zero => rw [readPattern, halternatives]
  | succ fuel => rw [readPattern, halternatives]

/-- **An escaped text compiles to the pattern that matches this text.** -/
theorem compilePattern_escapePattern (cs : List Char) :
    compilePattern (escapePattern cs) 0 = .ok (.ofText cs, 0) := by
  have hleftover : ((PatternState.initial (escapePattern cs) 0).moved []
      (escapePattern cs).length).leftover = none := by
    simp [PatternState.leftover, PatternState.moved, PatternState.initial]
  have hconflict : hasFlag 0 asciiBit = false := hasFlag_zero _
  rw [compilePattern, readPattern_escapePattern]
  simp only [hleftover]
  simp only [PatternState.moved, PatternState.initial, hconflict, Bool.false_and,
    Bool.false_eq_true, if_false, mapRefs_ofText]
  rfl

end TextGrammar
