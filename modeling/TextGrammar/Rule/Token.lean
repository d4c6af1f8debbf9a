import TextGrammar.Fault
import TextGrammar.Pattern.Engine

/-!
# Tokens

A token is a pattern with its flags and its compiled form. An engine makes it, and makes none
of a pattern that it refuses. Two tokens are the same if their patterns and the bits of their
flags are.
-/

namespace TextGrammar

/-- A pattern that has been compiled. -/
structure Token where
  source : String
  flags : Flags
  compiled : CompiledPattern

namespace Token

/-- Whether two tokens have the same pattern and the same flags. -/
def same (a b : Token) : Bool := a.source == b.source && a.flags.bits == b.flags.bits

/-- What the token finds at the front of a text. -/
def find? (t : Token) (text : List Char) : Option Found := t.compiled.find? text

/-- What the token finds is what it has gone past. -/
def TakesFront (t : Token) : Prop := t.compiled.TakesFront

variable [PatternEngine]

def make (source : String) (flags : Flags) : Except Fault Token :=
  match PatternEngine.compile source.toList flags.bits with
  | .ok compiled => .ok ⟨source, flags, compiled⟩
  | .error e => .error (.ofPattern source.toList e)

/-- The compiled form is that of the pattern under its flags. -/
def Compiles (t : Token) : Prop :=
  PatternEngine.compile t.source.toList t.flags.bits = .ok t.compiled

/-- Making a token gives the parts that it is made of, with their compiled form. -/
theorem make_eq_ok_iff {source : String} {flags : Flags} {t : Token} :
    make source flags = .ok t ↔ t.source = source ∧ t.flags = flags ∧ t.Compiles := by
  unfold make
  constructor
  · intro h
    split at h
    · rename_i compiled hcompile
      obtain rfl := Except.ok.inj h
      exact ⟨rfl, rfl, hcompile⟩
    · cases h
  · rintro ⟨rfl, rfl, hcompiles⟩
    rw [hcompiles]

/-- A token cannot be made exactly of a pattern that does not compile. -/
theorem make_eq_error_iff {source : String} {flags : Flags} {f : Fault} :
    make source flags = .error f ↔
      ∃ e, PatternEngine.compile source.toList flags.bits = .error e
        ∧ f = .ofPattern source.toList e := by
  unfold make
  constructor
  · intro h
    split at h
    · cases h
    · rename_i e hcompile
      exact ⟨e, hcompile, (Except.error.inj h).symm⟩
  · rintro ⟨e, hcompile, rfl⟩
    rw [hcompile]

/-- Making a token again from its parts gives the token. -/
theorem Compiles.make {t : Token} (h : t.Compiles) : Token.make t.source t.flags = .ok t :=
  make_eq_ok_iff.mpr ⟨rfl, rfl, h⟩

/-- The token that matches exactly a text. -/
def ofText (text : List Char) : Token :=
  ⟨String.ofList (escapePattern text), Flags.none, PatternEngine.ofText text⟩

theorem ofText_compiles (text : List Char) : (ofText text).Compiles := by
  rw [Compiles, ofText, String.toList_ofList, PatternEngine.compile_escapePattern]

/-- The token of the white space that is skipped unless a caller says otherwise. -/
def usualSpace : Token := ⟨defaultSpaceSource, Flags.none, PatternEngine.usualSpace⟩

theorem usualSpace_compiles : usualSpace.Compiles := PatternEngine.compile_usualSpace

end Token

end TextGrammar
