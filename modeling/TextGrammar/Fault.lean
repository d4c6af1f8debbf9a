import TextGrammar.Grammar.Fault
import TextGrammar.Pattern.Error
import TextGrammar.Text.Utf8
import TextGrammar.Value.Fault

/-!
# Faults

Everything that can go wrong, by cause. `kind` names the family of a fault and
`message` words it. That a rule does not match is no fault.
-/

namespace TextGrammar

inductive FileFault where
  | notFound (path : String)
  | isDirectory (path : String)
  | notDirectory (path : String)
  /-- No path has a character with the code zero. -/
  | nullInPath
  | notUtf8 (f : Utf8Fault)
  deriving Repr

/-- What went wrong. -/
inductive Fault where
  | rule (f : RuleFault)
  | pattern (source : List Char) (e : PatternError)
  /-- A pattern with flags that exclude each other. -/
  | flagConflict
  | grammar (f : GrammarFault)
  | numeral (source : String) (f : NumeralFault)
  /-- A value that cannot answer. -/
  | value (f : ValueFault)
  /-- A set of rules that has no rule to start with. -/
  | noBegin
  /-- An action that is no function. -/
  | notAction (rule shown : String)
  /-- A count of items that does not fit a machine word. -/
  | countTooLarge
  /-- A text whose length would not fit a machine word. -/
  | textTooLong
  /-- A sequence that no memory has room for. -/
  | outOfMemory
  | file (f : FileFault)
  /-- A fault that an action raised of its own accord. -/
  | raised (kind text : String)
  /-- An evaluation or a reading that goes ever deeper. -/
  | runaway
  deriving Repr

def byteText (b : UInt8) : String := String.ofList (hexDigits 2 b.toNat)

/-- What is wrong with a sequence of bytes, in words. -/
def Utf8Problem.message : Utf8Problem → String
  | .startByte => "invalid start byte"
  | .continuation => "invalid continuation byte"
  | .truncated => "unexpected end of data"

/-- A single byte is named by its value, several bytes by where they lie. -/
def Utf8Fault.message (f : Utf8Fault) : String :=
  let place :=
    if f.width = 1 then "byte 0x" ++ byteText f.first ++ " in position " ++ toString f.start
    else
      "bytes in position " ++ toString f.start ++ "-" ++ toString (f.start + f.width - 1)
  "'utf-8' codec can't decode " ++ place ++ ": " ++ f.problem.message

namespace FileFault

def kind : FileFault → String
  | .notFound _ => "FileNotFoundError"
  | .isDirectory _ => "IsADirectoryError"
  | .notDirectory _ => "NotADirectoryError"
  | .nullInPath => "ValueError"
  | .notUtf8 _ => "UnicodeDecodeError"

def message : FileFault → String
  | .notFound path => "[Errno 2] No such file or directory: " ++ quoted path
  | .isDirectory path => "[Errno 21] Is a directory: " ++ quoted path
  | .notDirectory path => "[Errno 20] Not a directory: " ++ quoted path
  | .nullInPath => "embedded null byte"
  | .notUtf8 f => f.message

end FileFault

/-- The most characters of a text that are quoted when it is not a number. -/
def numeralExcerpt : Nat := 200

def NumeralFault.message (source : String) : NumeralFault → String
  | .malformed =>
    "invalid literal for int() with base 10: "
      ++ String.ofList ((quotedChars source.toList).take numeralExcerpt)
  | .tooLong digits =>
    "Exceeds the limit (" ++ toString digitLimit
      ++ " digits) for integer string conversion: value has " ++ toString digits
      ++ " digits; use sys.set_int_max_str_digits() to increase the limit"

namespace Fault

def kind : Fault → String
  | .rule f => f.kind
  | .pattern _ _ => "error"
  | .flagConflict | .numeral _ _ | .noBegin => "ValueError"
  | .grammar _ => "SyntaxError"
  | .value f => f.kind
  | .notAction _ _ => "TypeError"
  | .countTooLarge | .textTooLong => "OverflowError"
  | .outOfMemory => "MemoryError"
  | .file f => f.kind
  | .raised kind _ => kind
  | .runaway => "RecursionError"

/-- The wording of a fault. A text raised as a missing key is quoted. -/
def message : Fault → String
  | .rule f => f.message
  | .pattern source e => e.message source
  | .flagConflict => "ASCII, LOCALE and UNICODE flags are mutually incompatible"
  | .grammar f => f.message
  | .numeral source f => f.message source
  | .value f => f.message
  | .noBegin => "rule set has no '$begin' rule"
  | .notAction name shown => "action for '" ++ name ++ "' is not callable: " ++ shown
  | .countTooLarge => "cannot fit 'int' into an index-sized integer"
  | .textTooLong => "repeated string is too long"
  | .outOfMemory => ""
  | .file f => f.message
  | .raised kind text => if kind = "KeyError" then quoted text else text
  | .runaway => ""

/-- The bound, `2 ^ 63`, from which on a count does not fit a machine word. -/
def wordLimit : Int := 0x8000000000000000

/-- The most items that fit into the bytes that a machine word can count, `2 ^ 60 - 1`. -/
def listCapacity : Nat := 0xFFFFFFFFFFFFFFF

/-- Why there is no sequence of so many items, if there is only room for fewer. -/
def ofLength? (capacity length : Nat) : Option Fault :=
  if capacity < length then some .outOfMemory else none

/-- Why a text or a list of some size cannot be repeated so many times, if it cannot. -/
def ofRepetition? (capacity : Nat) (isText : Bool) (size : Nat) (count : Int) : Option Fault :=
  if count < -wordLimit ∨ wordLimit ≤ count then some .countTooLarge
  else if isText ∧ wordLimit ≤ size * count then some .textTooLong
  else ofLength? capacity (size * count).toNat

def ofPattern (source : List Char) : PatternFault → Fault
  | .malformed e => .pattern source e
  | .flagConflict => .flagConflict
  | .numeral digits f => .numeral (String.ofList digits) f

end Fault

end TextGrammar
