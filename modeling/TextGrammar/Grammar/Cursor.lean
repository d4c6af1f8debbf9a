import TextGrammar.Fault

/-!
# Moving through a grammar text

A cursor is what is left of the text and how much of it has been read. Blanks and
comments stand between any two tokens: spaces, tabs, line breaks, and everything from
a `#` to the end of its line.
-/

namespace TextGrammar

/-- A place in a grammar text. -/
structure Cursor where
  rest : List Char
  offset : Nat
  deriving DecidableEq, Repr

namespace Cursor

def start (source : List Char) : Cursor := ⟨source, 0⟩

def fail {α : Type} (c : Cursor) (problem : GrammarProblem) : Except Fault α :=
  .error (.grammar ⟨c.offset, problem⟩)

def advance (c : Cursor) (n : Nat) : Cursor := ⟨c.rest.drop n, c.offset + n⟩

def isSeparator (c : Char) : Bool := c == ' ' || c == '\t' || c == '\r' || c == '\n'

/-- How many characters of blanks and comments come next; `comment` says that one is open. -/
def layoutLength : Bool → List Char → Nat
  | _, [] => 0
  | true, c :: rest => layoutLength (c != '\n') rest + 1
  | false, c :: rest =>
    if isSeparator c then layoutLength false rest + 1
    else if c = '#' then layoutLength true rest + 1
    else 0

def skip (c : Cursor) : Cursor := c.advance (layoutLength false c.rest)

/-- Takes a literal after blanks and comments, and says whether it was there. -/
def accept (literal : List Char) (c : Cursor) : Bool × Cursor :=
  let c := c.skip
  if literal.isPrefixOf c.rest then (true, c.advance literal.length) else (false, c)

/-- Takes a literal after blanks and comments, or fails. -/
def expect (literal : List Char) (c : Cursor) : Except Fault Cursor :=
  match c.accept literal with
  | (true, c) => .ok c
  | (false, c) => c.fail (.expected (String.ofList literal))

/-- Whether a name can start with the character. -/
def startsName (c : Char) : Bool := isLetter c || c == '_' || c == '$'

/-- Whether a name can go on with the character. -/
def continuesName (c : Char) : Bool := isAlphanumeric c || c == '_'

def atName (c : Cursor) : Bool := c.rest.head?.any startsName

/-- Takes a name after blanks and comments, or fails. -/
def name (c : Cursor) : Except Fault (String × Cursor) :=
  let c := c.skip
  match c.rest with
  | [] => c.fail .expectedName
  | first :: rest =>
    if startsName first then
      let tail := rest.takeWhile continuesName
      .ok (String.ofList (first :: tail), c.advance (tail.length + 1))
    else c.fail .expectedName

/-- Whether a name and then the literal follow. -/
def atNameBefore (literal : List Char) (c : Cursor) : Bool :=
  match c.name with
  | .ok (_, after) => (after.accept literal).1
  | .error _ => false

/-- Takes a number after blanks and comments, if there is one. -/
def number (c : Cursor) : Except Fault (Option Nat × Cursor) :=
  let c := c.skip
  let digits := c.rest.takeWhile isDigit
  if digits.isEmpty then .ok (none, c)
  else
    let source := String.ofList digits
    match readInteger source with
    | .ok n => .ok (some n.toNat, c.advance digits.length)
    | .error f => .error (.numeral source f)

end Cursor

end TextGrammar
