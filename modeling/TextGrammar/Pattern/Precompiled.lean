import TextGrammar.Fault
import TextGrammar.Pattern.Engine

/-!
# Patterns compiled by the caller

A caller may hand over a pattern that is compiled already. There are two dialects of
such patterns. Both report the flags that were given together with those that the
pattern switches on itself; the extended dialect adds a bit for the dialect and one
for Unicode, unless the pattern is limited to ASCII.
-/

namespace TextGrammar

/-- Where a compiled pattern comes from. -/
inductive Dialect where
  | plain
  | extended
  deriving DecidableEq, Repr

/-- A pattern that was compiled before it became part of a rule. -/
structure Precompiled where
  dialect : Dialect
  source : String
  flags : Flags
  deriving DecidableEq, Repr

namespace Precompiled

def letterBits : Nat := flagLetters.foldl (fun bits e => bits ||| e.2) 0

/-- The flags that a compiled pattern reports. -/
def reportedFlags (dialect : Dialect) (bits : Nat) : Flags :=
  match dialect with
  | .plain => ⟨bits &&& letterBits, .letters⟩
  | .extended =>
    ⟨bits ||| dialectBit ||| (if hasFlag bits asciiBit then 0 else unicodeBit), .number⟩

def make [PatternEngine] (dialect : Dialect) (source : String) (bits : Nat) :
    Except Fault Precompiled :=
  match PatternEngine.compile source.toList bits with
  | .ok compiled => .ok ⟨dialect, source, reportedFlags dialect compiled.bits⟩
  | .error e => .error (.ofPattern source.toList e)

/-- The names of the flags of the plain dialect, in the order in which they are shown. -/
def plainFlagNames : List (String × Nat) :=
  [("re.IGNORECASE", ignoreCaseBit), ("re.MULTILINE", multilineBit), ("re.DOTALL", dotAllBit),
   ("re.VERBOSE", verboseBit), ("re.ASCII", asciiBit)]

/-- The names of the flags of the extended dialect, in the order in which they are shown. -/
def extendedFlagNames : List (String × Nat) :=
  [("regex.A", asciiBit), ("regex.S", dotAllBit), ("regex.I", ignoreCaseBit),
   ("regex.M", multilineBit), ("regex.X", verboseBit), ("regex.V0", dialectBit)]

def namesAmong (names : List (String × Nat)) (bits : Nat) : List String :=
  names.filterMap fun (name, bit) => if hasFlag bits bit then some name else none

/-- The most characters of a plain pattern that are shown. -/
def plainExcerpt : Nat := 200

def shown (p : Precompiled) : String :=
  match p.dialect with
  | .plain =>
    let source := String.ofList ((quotedChars p.source.toList).take plainExcerpt)
    match namesAmong plainFlagNames p.flags.bits with
    | [] => "re.compile(" ++ source ++ ")"
    | names => "re.compile(" ++ source ++ ", " ++ "|".intercalate names ++ ")"
  | .extended =>
    "regex.Regex(" ++ quoted p.source ++ ", flags="
      ++ " | ".intercalate (namesAmong extendedFlagNames p.flags.bits) ++ ")"

def typeName (p : Precompiled) : String :=
  match p.dialect with
  | .plain => "re.Pattern"
  | .extended => "_regex.Pattern"

end Precompiled

end TextGrammar
