import TextGrammar.Proofs.Escaping
import TextGrammar.Proofs.UsualSpace

/-!
# The built-in engine

Patterns are read by `compilePattern` and matched by backtracking. An escaped text compiles to
the pattern of this text, and so does the usual white space to the pattern that takes it.
-/

namespace TextGrammar

/-- A pattern takes the front of a text unless it keeps a part of it only. -/
theorem Pattern.compiled_takesFront {p : Pattern Nat} (h : p.keeps = false) (bits : Nat) :
    (p.compiled bits).TakesFront :=
  fun _ _ => find?_eq_front h

/-- The engine of this library. -/
instance builtInEngine : PatternEngine where
  compile source bits := do
    let (pattern, wholeBits) ← compilePattern source bits
    return pattern.compiled wholeBits
  ofText text := (Pattern.ofText text).compiled 0
  compile_escapePattern text := by
    rw [Flags.none, compilePattern_escapePattern]
    rfl
  usualSpace := usualSpacePattern.compiled 0
  compile_usualSpace := by
    rw [compilePattern_usualSpace]
    rfl
  find?_usualSpace := find?_usualSpacePattern

end TextGrammar
