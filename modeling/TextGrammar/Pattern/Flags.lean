/-!
# Pattern flags

Flags are bits of a number. Which bits a pattern has decides what it matches; how
they were written, as a number or as letters, decides only how they are shown.
-/

namespace TextGrammar

/-- Case is ignored. -/
def ignoreCaseBit : Nat := 0x2

/-- `^` and `$` match at every line. -/
def multilineBit : Nat := 0x8

/-- `.` matches a line feed too. -/
def dotAllBit : Nat := 0x10

/-- Classes and case are those of all scripts. -/
def unicodeBit : Nat := 0x20

/-- White space and comments in the pattern are skipped. -/
def verboseBit : Nat := 0x40

/-- Classes and case are those of ASCII. -/
def asciiBit : Nat := 0x80

/-- The dialect of patterns that this library reads. -/
def dialectBit : Nat := 0x2000

/-- The letter of each flag that has one, in the order in which letters are shown. -/
def flagLetters : List (Char × Nat) :=
  [('A', asciiBit), ('I', ignoreCaseBit), ('M', multilineBit), ('S', dotAllBit),
   ('X', verboseBit)]

def hasFlag (bits bit : Nat) : Bool := bits &&& bit != 0

/-- How a set of flags was written. -/
inductive FlagSpelling where
  | number
  | letters
  deriving DecidableEq, Repr

/-- A set of flags as a caller wrote it. -/
structure Flags where
  bits : Nat
  spelling : FlagSpelling
  deriving DecidableEq, Repr

def Flags.none : Flags := ⟨0, .number⟩

def flagNames (bits : Nat) : List String :=
  flagLetters.filterMap fun (letter, bit) =>
    if hasFlag bits bit then some (String.singleton letter) else .none

/-- Letters are joined by bars; a number, and the empty set, is shown as a number. -/
def Flags.shown (f : Flags) : String :=
  if f.spelling = .letters ∧ f.bits ≠ 0 then
    "regex." ++ "|".intercalate (flagNames f.bits)
  else toString f.bits

end TextGrammar
