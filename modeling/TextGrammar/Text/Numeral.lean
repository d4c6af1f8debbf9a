import TextGrammar.Text.Blank
import TextGrammar.Text.Digit

/-!
# Reading an integer

White space around the number is dropped. A sign may come first; then decimal
digits of any script, in which a single underscore may separate two digits. The
number of digits is limited, and the limit is noticed before anything that
follows the digits.
-/

namespace TextGrammar

inductive NumeralFault where
  /-- The text is not a number. -/
  | malformed
  /-- The number has more digits than are read. -/
  | tooLong (digits : Nat)
  deriving DecidableEq, Repr

def digitLimit : Nat := 4300

/--
Digits from the front of a text: their value, their number and what follows them.
`gap` says that an underscore has just been read; it must be followed by a digit.
-/
def readDigits : List Char → Bool → Nat → Nat → Option (Nat × Nat × List Char)
  | [], gap, value, count => if gap then none else some (value, count, [])
  | c :: rest, gap, value, count =>
    if c = '_' then
      if gap then none else readDigits rest true value count
    else
      match decimalValue? c with
      | some d => readDigits rest false (value * 10 + d) (count + 1)
      | none => if gap then none else some (value, count, c :: rest)

def readMagnitude (cs : List Char) : Except NumeralFault Nat :=
  if cs.head? = some '_' then .error .malformed
  else
    match readDigits cs false 0 0 with
    | none => .error .malformed
    | some (value, count, rest) =>
      -- the limit comes before what follows the digits
      if digitLimit < count then .error (.tooLong count)
      else if count = 0 ∨ rest.any (fun c => !isWhiteSpace c) then .error .malformed
      else .ok value

def readInteger (s : String) : Except NumeralFault Int :=
  match s.toList.dropWhile isWhiteSpace with
  | '+' :: rest => (readMagnitude rest).map Int.ofNat
  | '-' :: rest => (readMagnitude rest).map fun n => -Int.ofNat n
  | cs => (readMagnitude cs).map Int.ofNat

end TextGrammar
