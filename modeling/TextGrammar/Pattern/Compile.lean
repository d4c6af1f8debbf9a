import TextGrammar.Pattern.Reader

/-!
# From the text of a pattern to a pattern that matches

Reading starts again whenever a flag turns up that holds for the whole pattern.
Then the checks follow in order: nothing may be left of the text, the flags must
agree with each other, and every back-reference must name a group of the pattern.
-/

namespace TextGrammar

def PatternState.initial (source : List Char) (bits : Nat) : PatternState :=
  { rest := source, position := 0, bits, wholeBits := bits, groups := 0, names := [], opened := [] }

/-- Reads a pattern, again for each flag that turns up; there are `fuel` flags at most. -/
def readPattern (source : List Char) :
    Nat → Nat → Except PatternFault (Pattern GroupRef × PatternState)
  | 0, bits =>
    match (PatternReader.alternatives (2 * source.length + 4)).run (.initial source bits) with
    | .ok result => .ok result
    | .error (.failed f) => .error f
    | .error (.restart _) => .ok (.empty, .initial [] bits)
  | fuel + 1, bits =>
    match (PatternReader.alternatives (2 * source.length + 4)).run (.initial source bits) with
    | .ok result => .ok result
    | .error (.failed f) => .error f
    | .error (.restart more) => readPattern source fuel more

/-- The number of the group that a back-reference means. -/
def GroupRef.resolve (s : PatternState) (r : GroupRef) : Except PatternFault Nat :=
  match r.target with
  | .inl n =>
    if 1 ≤ n ∧ n ≤ s.groups then .ok n else .error (.malformed ⟨.invalidGroup, r.position⟩)
  | .inr name =>
    match s.names.lookup name with
    | some n => .ok n
    | none => .error (.malformed ⟨.unknownGroup, r.position⟩)

/-- Where the text of the pattern goes on, if anything but ignored text is left. -/
def PatternState.leftover (s : PatternState) : Option Nat :=
  let ahead :=
    if hasFlag s.bits verboseBit then
      (PatternReader.skipIgnored s.rest s.position false).1
    else s.rest
  if ahead.isEmpty then none else some s.position

/-- Reads a pattern and settles its back-references. The flags hold for all of it. -/
def compilePattern (source : List Char) (bits : Nat) : Except PatternFault (Pattern Nat × Nat) :=
  match readPattern source 6 bits with
  | .error f => .error f
  | .ok (tree, s) =>
    match s.leftover with
    | some position => .error (.malformed ⟨.unbalancedParenthesis, position⟩)
    | none =>
      -- this conflict is noticed before a bad back-reference
      if hasFlag s.wholeBits asciiBit && hasFlag s.wholeBits unicodeBit then .error .flagConflict
      else do
        let pattern ← tree.mapRefs (GroupRef.resolve s)
        return (pattern, s.wholeBits)

/-- Equality of faults is not decidable; what a pattern compiles to is decided without them. -/
theorem compilePattern_of_toOption {source : List Char} {bits : Nat} {result : Pattern Nat × Nat}
    (h : (compilePattern source bits).toOption = some result) :
    compilePattern source bits = .ok result := by
  cases hresult : compilePattern source bits with
  | ok other =>
      rw [hresult] at h
      exact congrArg Except.ok (Option.some.inj h)
  | error f =>
      rw [hresult] at h
      cases h

end TextGrammar
