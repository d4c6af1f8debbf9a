/-!
# Text from bytes

UTF-8 is decoded strictly. A fault names the bytes that form the longest valid
beginning of a broken sequence, and says whether the sequence cannot start so,
cannot go on so, or stops short. Line breaks of other systems become line feeds.
-/

namespace TextGrammar

inductive Utf8Problem where
  | startByte
  | continuation
  | truncated
  deriving DecidableEq, Repr

/-- A broken sequence: where it starts, its first byte and how many bytes of it are valid. -/
structure Utf8Fault where
  start : Nat
  first : UInt8
  width : Nat
  problem : Utf8Problem
  deriving DecidableEq, Repr

/-- Whether the byte goes on with a sequence. -/
def isContinuation (b : UInt8) : Bool := 0x80 ≤ b && b ≤ 0xBF

/--
How many bytes a sequence has that starts with this byte, and between which bounds
the second one lies. Shorter forms and surrogates are shut out by these bounds.
-/
def sequenceShape (b : UInt8) : Option (Nat × UInt8 × UInt8) :=
  if b < 0xC2 then none
  else if b < 0xE0 then some (2, 0x80, 0xBF)
  else if b = 0xE0 then some (3, 0xA0, 0xBF)
  else if b = 0xED then some (3, 0x80, 0x9F)
  else if b < 0xF0 then some (3, 0x80, 0xBF)
  else if b = 0xF0 then some (4, 0x90, 0xBF)
  else if b < 0xF4 then some (4, 0x80, 0xBF)
  else if b = 0xF4 then some (4, 0x80, 0x8F)
  else none

/--
The bytes of a sequence after its second: `left` more are due and `seen` have been
read. The result is the value of the sequence and what follows it.
-/
def continueSequence : Nat → Nat → Nat → List UInt8 → Except (Nat × Utf8Problem) (Nat × List UInt8)
  | 0, _, value, rest => .ok (value, rest)
  | _ + 1, seen, _, [] => .error (seen, .truncated)
  | left + 1, seen, value, b :: rest =>
    if isContinuation b then
      continueSequence left (seen + 1) (value * 64 + (b.toNat - 0x80)) rest
    else .error (seen, .continuation)

/-- The first character of the bytes after `b`, as a code point, and the bytes after it. -/
def decodeUnit (b : UInt8) (rest : List UInt8) : Except (Nat × Utf8Problem) (Nat × List UInt8) :=
  if b < 0x80 then .ok (b.toNat, rest)
  else
    match sequenceShape b with
    | none => .error (1, .startByte)
    | some (size, low, high) =>
      match rest with
      | [] => .error (1, .truncated)
      | second :: more =>
        if second < low ∨ high < second then .error (1, .continuation)
        else
          -- what the first byte contributes
          let lead := b.toNat - (if size = 2 then 0xC0 else if size = 3 then 0xE0 else 0xF0)
          continueSequence (size - 2) 2 (lead * 64 + (second.toNat - 0x80)) more

def encodedSize (code : Nat) : Nat :=
  if code < 0x80 then 1 else if code < 0x800 then 2 else if code < 0x10000 then 3 else 4

/-- Decodes with at most `fuel` characters; the number of bytes is always enough. -/
def decodeWithin : Nat → Nat → List UInt8 → Except Utf8Fault (List Char)
  | _, _, [] => .ok []
  | 0, _, _ :: _ => .ok []
  | fuel + 1, start, b :: rest =>
    match decodeUnit b rest with
    | .error (width, problem) => .error ⟨start, b, width, problem⟩
    | .ok (code, more) => do
      let tail ← decodeWithin fuel (start + encodedSize code) more
      return Char.ofNat code :: tail

def decodeUtf8 (bytes : List UInt8) : Except Utf8Fault (List Char) :=
  decodeWithin bytes.length 0 bytes

/-- Every line break becomes a line feed. -/
def normalizeBreaks : List Char → List Char
  | '\r' :: '\n' :: rest => '\n' :: normalizeBreaks rest
  | '\r' :: rest => '\n' :: normalizeBreaks rest
  | c :: rest => c :: normalizeBreaks rest
  | [] => []

end TextGrammar
