import TextGrammar.Pattern.Syntax
import TextGrammar.Pattern.Flags
import TextGrammar.Pattern.Error

/-!
# Reading patterns

A pattern is read from left to right. The reader keeps what is left of the pattern,
the position, the flags in force and the groups met so far. A flag that is switched
on in the middle of a pattern holds for all of it: the reader then stops with
`Interrupt.restart` and the pattern is read again with the flag set. Back-references
are read as they are written and are settled at the end, when all groups are known.
-/

namespace TextGrammar

/-- A group as a back-reference writes it, with the position that is blamed. -/
structure GroupRef where
  /-- A number or a name. -/
  target : Nat ⊕ String
  position : Nat
  deriving DecidableEq, Repr

/-- What stops the reading of a pattern. -/
inductive Interrupt where
  | failed (f : PatternFault)
  /-- These flags hold for the whole pattern. -/
  | restart (bits : Nat)
  deriving Repr

structure PatternState where
  rest : List Char
  position : Nat
  /-- The flags in force here. -/
  bits : Nat
  /-- The flags of the whole pattern. -/
  wholeBits : Nat
  /-- How many groups have been opened. -/
  groups : Nat
  names : List (String × Nat)
  /-- The groups that have not been closed. -/
  opened : List Nat

abbrev PatternReader := StateT PatternState (Except Interrupt)

namespace PatternReader

def failAt {α : Type} (problem : PatternProblem) (position : Nat) : PatternReader α :=
  throw (.failed (.malformed ⟨problem, position⟩))

def fail {α : Type} (problem : PatternProblem) : PatternReader α := do
  failAt problem (← get).position

/--
Drops white space and comments from the front. `comment` says that the text starts
inside a comment, which a line feed ends.
-/
def skipIgnored : List Char → Nat → Bool → List Char × Nat
  | [], n, _ => ([], n)
  | c :: rest, n, true => skipIgnored rest (n + 1) (c != '\n')
  | c :: rest, n, false =>
    if isBlank c then skipIgnored rest (n + 1) false
    else if c = '#' then skipIgnored rest (n + 1) true
    else (c :: rest, n)

/-- Whether a flag is in force. -/
def hasBit (bit : Nat) : PatternReader Bool := return hasFlag (← get).bits bit

/-- The text ahead; in a verbose pattern without what is ignored, unless it is read `raw`. -/
def ahead (raw : Bool) : PatternReader (List Char × Nat) := do
  let s ← get
  if hasFlag s.bits verboseBit && !raw then return skipIgnored s.rest s.position false
  else return (s.rest, s.position)

def moveTo (rest : List Char) (position : Nat) : PatternReader Unit :=
  modify fun s => { s with rest, position }

def next (raw : Bool) : PatternReader (Option Char) := do
  match ← ahead raw with
  | ([], n) => moveTo [] n; return none
  | (c :: rest, n) => moveTo rest (n + 1); return some c

/-- Takes the next character if it is the given one. -/
def accept (wanted : Char) (raw : Bool) : PatternReader Bool := do
  match ← ahead raw with
  | ([], _) => return false
  | (c :: rest, n) =>
    if c = wanted then
      moveTo rest (n + 1)
      return true
    else return false

def expect (wanted : Char) : PatternReader Unit := do
  if ← accept wanted false then return () else fail (.missing wanted)

/-- Runs a step and goes back to where it started. -/
def peek (raw : Bool) : PatternReader (Option Char) := do
  return (← ahead raw).1.head?

/-- Takes characters as long as they pass the test; `fuel` is the length of the text. -/
def takeWhile (test : Char → Bool) : Nat → PatternReader (List Char)
  | 0 => return []
  | fuel + 1 => do
    match ← peek false with
    | some c =>
      if test c then
        let _ ← next false
        return c :: (← takeWhile test fuel)
      else
        let (rest, n) ← ahead false
        moveTo rest n
        return []
    | none =>
      let (rest, n) ← ahead false
      moveTo rest n
      return []

/-- Takes all characters ahead that pass the test. -/
def takeAll (test : Char → Bool) : PatternReader (List Char) := do
  takeWhile test (← get).rest.length

/--
How characters are compared. Whether case is ignored depends on the flags in force
here, and in which scripts it is ignored on those of the whole pattern.
-/
def caseRule : PatternReader CaseRule := do
  let s ← get
  if hasFlag s.bits ignoreCaseBit then
    return if hasFlag s.wholeBits asciiBit then .asciiFolded else .folded
  else return .exact

/-! ## Escapes -/

/-- What an escape stands for. -/
inductive Escaped where
  | point (n : Nat)
  | cls (name : CharClass) (ascii negated : Bool)
  | anchor (place : Anchor)
  | keep
  | ref (target : GroupRef)

/-- Whether the character is an ASCII decimal digit. -/
def isDigit (c : Char) : Bool := '0' ≤ c && c ≤ '9'

def isOctal (c : Char) : Bool := '0' ≤ c && c ≤ '7'

/-- Whether the character is a hexadecimal digit. -/
def isHex (c : Char) : Bool := isDigit c || ('a' ≤ c && c ≤ 'f') || ('A' ≤ c && c ≤ 'F')

/-- The value of a digit in any base up to sixteen. -/
def digitValue (c : Char) : Nat :=
  if isDigit c then c.toNat - 0x30
  else if 'a' ≤ c && c ≤ 'f' then c.toNat - 0x57
  else c.toNat - 0x37

def valueOf (base : Nat) (digits : List Char) : Nat :=
  digits.foldl (fun n c => n * base + digitValue c) 0

/-- How many digits follow each hexadecimal escape. -/
def hexLength (c : Char) : Option Nat :=
  if c = 'x' then some 2 else if c = 'u' then some 4 else if c = 'U' then some 8 else none

/-- The control characters that have a letter. -/
def controlOf (c : Char) : Option Nat :=
  match c with
  | 'a' => some 0x7
  | 'b' => some 0x8
  | 'f' => some 0xC
  | 'n' => some 0xA
  | 'r' => some 0xD
  | 't' => some 0x9
  | 'v' => some 0xB
  | _ => none

/-- The classes that have a letter; its capital stands for all other characters. -/
def classOf (c : Char) : Option (CharClass × Bool) :=
  match c with
  | 'd' => some (.digit, false)
  | 'D' => some (.digit, true)
  | 's' => some (.space, false)
  | 'S' => some (.space, true)
  | 'w' => some (.word, false)
  | 'W' => some (.word, true)
  | _ => none

def anchorOf (c : Char) (ascii : Bool) : Option Anchor :=
  match c with
  | 'A' => some .textStart
  | 'Z' => some .textEnd
  | 'b' => some (.wordEdge ascii)
  | 'B' => some (.noWordEdge ascii)
  | _ => none

/-- The digits of a hexadecimal escape; `start` is blamed if one is missing. -/
def hexTail (letter : Char) (inSet : Bool) (start : Nat) :
    Nat → List Char → PatternReader (List Char)
  | 0, digits => return digits
  | left + 1, digits => do
    match ← next inSet with
    | some c =>
      if isHex c then hexTail letter inSet start left (digits ++ [c])
      else failAt (.incompleteEscape (letter :: digits)) start
    | none => failAt (.incompleteEscape (letter :: digits)) start

def hexEscape (letter : Char) (size : Nat) (inSet : Bool) : PatternReader Escaped := do
  let start := (← get).position
  let digits ← hexTail letter inSet start size []
  let n := valueOf 16 digits
  if n < 0x110000 then return .point n else failAt (.badHexEscape (letter :: digits)) start

/-- Octal digits after the first, up to three in all. -/
def octalTail (inSet : Bool) : Nat → List Char → PatternReader (List Char)
  | 0, digits => return digits
  | left + 1, digits => do
    match ← peek inSet with
    | some c =>
      if isOctal c then
        let _ ← next inSet
        octalTail inSet left (digits ++ [c])
      else return digits
    | none => return digits

/-- An octal escape that starts with a digit already taken. -/
def octalEscape (first : Char) (inSet : Bool) : PatternReader Escaped := do
  let digits ← octalTail inSet 2 [first]
  if isOctal first then return .point (valueOf 8 digits) else fail (.badEscape first)

/-- A reference to a group by number; a group that is still open has no text yet. -/
def numberedRef (digits : List Char) : PatternReader Escaped := do
  let s ← get
  let n := valueOf 10 digits
  if s.opened.contains n then fail .openGroup
  else return .ref ⟨.inl n, s.position⟩

/-- A backslash and a digit: three octal digits are a character, anything else is a group. -/
def numericEscape (first : Char) : PatternReader Escaped := do
  let size := if ← hasBit asciiBit then 0x100 else 0x200
  match ← peek false with
  | some second =>
    if isDigit second then
      let _ ← next false
      match ← peek false with
      | some third =>
        if isOctal first && isOctal second && isOctal third then
          let _ ← next false
          return .point (valueOf 8 [first, second, third] % size)
        else numberedRef [first, second]
      | none => numberedRef [first, second]
    else numberedRef [first]
  | none => numberedRef [first]

def escape (inSet : Bool) : PatternReader Escaped := do
  let ascii ← hasBit asciiBit
  match ← next true with
  | none => fail .escapeAtEnd
  | some c =>
    match hexLength c with
    | some size => hexEscape c size inSet
    | none =>
      if isDigit c then
        if inSet || c = '0' then octalEscape c inSet else numericEscape c
      else if ('a' ≤ c && c ≤ 'z') || ('A' ≤ c && c ≤ 'Z') then
        match (if inSet then none else anchorOf c ascii) with
        | some place => return .anchor place
        | none =>
          if !inSet && c = 'K' then return .keep
          match classOf c with
          | some (name, negated) => return .cls name ascii negated
          | none =>
            match controlOf c with
            | some n => return .point n
            | none => fail (.badEscape c)
      else return .point c.toNat

/-! ## Sets of characters -/

/-- One member of a set: a character or a class. -/
inductive SetMember where
  | point (n : Nat)
  | cls (name : CharClass) (ascii negated : Bool)

def SetMember.items : SetMember → List SetItem
  | .point n => [.range n n]
  | .cls name ascii negated => [.cls name ascii negated]

def setMember : PatternReader SetMember := do
  match ← next true with
  | none => fail .unterminatedSet
  | some '\\' =>
    match ← escape true with
    | .point n => return .point n
    | .cls name ascii negated => return .cls name ascii negated
    | .anchor _ | .keep | .ref _ => fail .unterminatedSet
  | some c => return .point c.toNat

/-- A member, or a range of characters, or a member and a hyphen that is no range. -/
def setItems : PatternReader (List SetItem) := do
  match ← setMember with
  | .cls name ascii negated => return [.cls name ascii negated]
  | .point low =>
    if ← accept '-' true then
      -- a hyphen before the closing bracket is a member
      if (← peek true) = some ']' then return [.range low low, .range 0x2D 0x2D]
      else
        match ← setMember with
        | .cls name ascii negated =>
          return [.range low low, .range 0x2D 0x2D, .cls name ascii negated]
        | .point high =>
          if high < low then fail .badRange else return [.range low high]
    else return [.range low low]

/-- The items up to the closing bracket; `fuel` is the length of the text. -/
def setTail : Nat → List SetItem → PatternReader (List SetItem)
  | 0, items => return items
  | fuel + 1, items => do
    if ← accept ']' true then return items
    else setTail fuel (items ++ (← setItems))

/-- A set of characters, after its opening bracket. -/
def charSet : PatternReader CharSet := do
  let negated ← accept '^' true
  let first ← setItems
  let items ← setTail ((← get).rest.length + 1) first
  return ⟨items, negated, ← caseRule⟩

/-! ## Quantifiers -/

/-- The largest count is one less than this, `2 ^ 32 - 1`. -/
def countLimit : Nat := 0xFFFFFFFF

/-- The number that digits stand for. -/
def numberOf (digits : List Char) : PatternReader Nat :=
  match readInteger (String.ofList digits) with
  | .ok n => return n.toNat
  | .error f => throw (.failed (.numeral digits f))

/-- A bound in braces, if there are digits. -/
def countOf (digits : List Char) : PatternReader (Option Nat) := do
  if digits.isEmpty then return none else return some (← numberOf digits)

/-- Counts in braces, after the opening brace; `none` if the brace is an ordinary character. -/
def bracedCounts : PatternReader (Option (Nat × Option Nat)) := do
  let start ← get
  let low ← takeAll isDigit
  -- the numbers are read before it is known whether a brace follows
  let counts : Option (Nat × Option Nat) ←
    if ← accept ',' false then
      let high ← takeAll isDigit
      let min ← countOf low
      let max ← countOf high
      pure (some (min.getD 0, max))
    else
      let exact ← countOf low
      pure (exact.map fun n => (n, some n))
  match counts with
  | none => moveTo start.rest start.position; return none
  | some (min, max) =>
    if ← accept '}' false then
      if countLimit ≤ min || max.any (countLimit ≤ ·) then failAt .countTooBig start.position
      else if max.any (· < min) then failAt .minAboveMax start.position
      else return some (min, max)
    else
      moveTo start.rest start.position
      return none

/-- The counts of a quantifier that starts with the given character. -/
def quantifier (c : Char) : PatternReader (Option (Nat × Option Nat)) :=
  match c with
  | '?' => return some (0, some 1)
  | '*' => return some (0, none)
  | '+' => return some (1, none)
  | _ => bracedCounts

def repeatMode : PatternReader RepeatMode := do
  if ← accept '?' false then return .reluctant
  else if ← accept '+' false then return .possessive
  else return .greedy

/--
Puts a quantifier on the last of the parts, which are in reverse order. A `none`
among them marks a place where nothing can be repeated.
-/
def repeatLast (parts : List (Option (Pattern GroupRef))) (counts : Nat × Option Nat)
    (position : Nat) : PatternReader (List (Option (Pattern GroupRef))) := do
  match parts with
  | some body :: earlier =>
    let mode ← repeatMode
    if counts = (1, some 1) then return none :: some body :: earlier
    else return none :: some (.times body counts.1 counts.2 mode) :: earlier
  | [none] | [] => failAt .nothingToRepeat position
  | none :: _ => failAt .multipleRepeat position

/-! ## Groups -/

def isGroupName : List Char → Bool
  | [] => false
  | c :: rest => (c == '_' || isLetter c) && rest.all isWord

/-- The name of a group, up to a closing mark. -/
def groupName : PatternReader (List Char) := do
  let name ← takeAll fun c => c != ')' && c != '>'
  if name.isEmpty then fail .missingGroupName else return name

/-- Opens a group; a name that is already in use gives its group again. -/
def openGroup (name : Option String) : PatternReader Nat := do
  let s ← get
  match name.bind fun n => s.names.lookup n with
  | some index =>
    set { s with opened := index :: s.opened }
    return index
  | none =>
    let index := s.groups + 1
    let names := match name with
      | some n => (n, index) :: s.names
      | none => s.names
    set { s with groups := index, names, opened := index :: s.opened }
    return index

def closeGroup : PatternReader Unit := modify fun s => { s with opened := s.opened.tail }

/-- The flag letters that a pattern may hold. -/
def inlineFlag (c : Char) : Option Nat :=
  match c with
  | 'a' => some asciiBit
  | 'i' => some ignoreCaseBit
  | 'm' => some multilineBit
  | 's' => some dotAllBit
  | 'u' => some unicodeBit
  | 'x' => some verboseBit
  | _ => none

/-- The union of the flags whose letters come next; `fuel` is the length of the text. -/
def flagSet : Nat → Nat → PatternReader Nat
  | 0, bits => return bits
  | fuel + 1, bits => do
    match (← peek false).bind inlineFlag with
    | some bit =>
      let _ ← next false
      flagSet fuel (bits ||| bit)
    | none => return bits

def flagChanges : PatternReader (Nat × Nat) := do
  let on ← flagSet (← get).rest.length 0
  if ← accept '-' false then
    let off ← flagSet (← get).rest.length 0
    if off = 0 then fail .noFlagsOff
    if on &&& off ≠ 0 then fail .flagOnAndOff
    return (on, off)
  else return (on, 0)

/-- A flag that is switched on by itself holds for the whole pattern. -/
def positionalFlags (on off : Nat) : PatternReader Unit := do
  if off ≠ 0 then fail .cannotTurnOff
  let whole := (← get).wholeBits
  if on ||| whole ≠ whole then throw (.restart (on ||| whole))

/-- A comment, up to its closing parenthesis; `fuel` is the length of the text. -/
def comment : Nat → PatternReader Unit
  | 0 => expect ')'
  | fuel + 1 => do
    match ← peek true with
    | none | some ')' => expect ')'
    | some c =>
      let _ ← next true
      if c = '\\' then
        let _ ← next true
      comment fuel

/-- A leaf of the pattern that an escape stands for. -/
def ofEscaped : Escaped → PatternReader (Pattern GroupRef)
  | .point n => return .literal n (← caseRule)
  | .cls name ascii negated => return .one ⟨[.cls name ascii negated], false, .exact⟩
  | .anchor place => return .anchor place
  | .keep => return .keep
  | .ref target => return .sameAs target (← caseRule)

/--
A name is a number only where numbers are allowed, and then not zero. Digits of any script, and
styled ones, are taken for a number, even if they do not stand for one.
-/
def checkedName (allowNumber : Bool) : PatternReader (Nat ⊕ String) := do
  let name ← groupName
  if name.all TextGrammar.isDigit then
    if allowNumber then
      let n ← numberOf name
      if 0 < n then return .inl n else fail .badGroupName
    else fail .badGroupName
  else if isGroupName name then return .inr (String.ofList name)
  else fail .badGroupName

/-- A reference to a group by name, after `(?P=`; `position` is blamed for a bad one. -/
def namedRef (position : Nat) : PatternReader (Pattern GroupRef) := do
  let target ← checkedName true
  expect ')'
  let s ← get
  let index := match target with
    | .inl n => some n
    | .inr name => s.names.lookup name
  if index.any s.opened.contains then failAt .openGroup position
  return .sameAs ⟨target, position⟩ (← caseRule)

/-- What comes after an opening parenthesis. -/
inductive Opening where
  /-- A part that is complete; `none` if it matches nothing by itself. -/
  | complete (part : Option (Pattern GroupRef))
  /-- Branches follow; they are wrapped when the parenthesis closes. -/
  | scope (wrap : Pattern GroupRef → Pattern GroupRef) (bits : Nat) (capture : Bool)

def capture (name : Option String) : PatternReader Opening := do
  let index ← openGroup name
  if name.isSome then expect '>'
  return .scope (.group index) (← get).bits true

/-- The name of a group that is being opened. -/
def newName : PatternReader String := do
  match ← checkedName false with
  | .inl n => return toString n
  | .inr name => return name

/-- What follows `(?`; `start` is where flags begin. -/
def extension : PatternReader Opening := do
  let start ← get
  match ← next true with
  | some '<' =>
    let before ← get
    match ← next false with
    | some '=' => return .scope (.look false true) start.bits false
    | some '!' => return .scope (.look false false) start.bits false
    | _ =>
      set before
      capture (some (← newName))
  | some '=' => return .scope (.look true true) start.bits false
  | some '!' => return .scope (.look true false) start.bits false
  | some '>' => return .scope .atomic start.bits false
  | some '#' =>
    comment (← get).rest.length
    return .complete none
  | some 'P' =>
    let before ← get
    match ← next false with
    | some '<' => capture (some (← newName))
    | some '=' => return .complete (some (← namedRef before.position))
    | _ => failAt .unknownExtension before.position
  | _ =>
    set start
    let (on, off) ← flagChanges
    if ← accept ':' false then
      return .scope id ((start.bits ||| on) - ((start.bits ||| on) &&& off)) false
    else if ← accept ')' false then
      positionalFlags on off
      return .complete none
    else fail .unknownExtension

def opening : PatternReader Opening := do
  if ← accept '?' true then extension else capture none

/-! ## Sequences and branches -/

def sequenceOf (parts : List (Option (Pattern GroupRef))) : Pattern GroupRef :=
  .ofList (parts.reverse.filterMap id)

mutual

/-- Branches, up to a closing parenthesis or the end. -/
def alternatives : Nat → PatternReader (Pattern GroupRef)
  | 0 => return .empty
  | fuel + 1 => do
    let first ← sequence fuel [none]
    return .branches first (← moreBranches fuel)

def moreBranches : Nat → PatternReader (List (Pattern GroupRef))
  | 0 => return []
  | fuel + 1 => do
    if ← accept '|' false then
      let branch ← sequence fuel [none]
      return branch :: (← moreBranches fuel)
    else return []

/-- The parts of a sequence, in reverse order, and those that follow them. -/
def sequence : Nat → List (Option (Pattern GroupRef)) → PatternReader (Pattern GroupRef)
  | 0, parts => return sequenceOf parts
  | fuel + 1, parts => do
    let start ← get
    match ← next false with
    | none | some ')' | some '|' =>
      set start
      return sequenceOf parts
    | some '\\' => sequence fuel (some (← ofEscaped (← escape false)) :: parts)
    | some '(' =>
      match ← opening with
      | .complete none => sequence fuel parts
      | .complete (some part) => sequence fuel (some part :: parts)
      | .scope wrap bits captures =>
        let outer := (← get).bits
        -- flags that are set inside hold up to the closing parenthesis
        modify fun s => { s with bits }
        let body ← alternatives fuel
        expect ')'
        modify fun s => { s with bits := outer }
        if captures then closeGroup
        sequence fuel (some (wrap body) :: parts)
    | some '.' =>
      let set : CharSet :=
        if ← hasBit dotAllBit then ⟨[], true, .exact⟩ else ⟨[.range 0xA 0xA], true, .exact⟩
      sequence fuel (some (.one set) :: parts)
    | some '[' => sequence fuel (some (.one (← charSet)) :: parts)
    | some '^' =>
      let place : Anchor := if ← hasBit multilineBit then .lineStart else .textStart
      sequence fuel (some (.anchor place) :: parts)
    | some '$' =>
      let place : Anchor := if ← hasBit multilineBit then .lineEnd else .lastLineEnd
      sequence fuel (some (.anchor place) :: parts)
    | some c =>
      if c = '?' || c = '*' || c = '+' || c = '{' then
        match ← quantifier c with
        -- a brace that opens no counts is an ordinary character
        | some counts => sequence fuel (← repeatLast parts counts start.position)
        | none => sequence fuel (some (.literal c.toNat (← caseRule)) :: parts)
      else sequence fuel (some (.literal c.toNat (← caseRule)) :: parts)

end

end PatternReader

end TextGrammar
