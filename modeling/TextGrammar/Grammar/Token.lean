import TextGrammar.Grammar.Cursor
import TextGrammar.Pattern.Escape
import TextGrammar.Rule.Token

/-!
# Tokens in grammar text

A pattern stands between slashes, with its flags after it; a slash inside it is
written with a backslash, and a line break must be. A literal stands between quotes
and matches itself; a backslash in it stands for the next character, or for a line
feed, a carriage return or a tab before `n`, `r` or `t`.
-/

namespace TextGrammar

/-- The text of a pattern up to the slash that ends it, and the place after that slash. -/
def patternText : List Char → Nat → Except Fault (List Char × Cursor)
  | [], n => (⟨[], n⟩ : Cursor).fail .unterminatedPattern
  | '\n' :: rest, n => (⟨'\n' :: rest, n⟩ : Cursor).fail .unterminatedPattern
  | '/' :: rest, n => .ok ([], ⟨rest, n + 1⟩)
  -- the escape is cut off, after its backslash has been read
  | ['\\'], n => (⟨[], n + 1⟩ : Cursor).fail .unterminatedPattern
  | '\\' :: '/' :: rest, n => do
    let (text, c) ← patternText rest (n + 2)
    return ('/' :: text, c)
  | '\\' :: next :: rest, n => do
    let (text, c) ← patternText rest (n + 2)
    return ('\\' :: next :: text, c)
  | first :: rest, n => do
    let (text, c) ← patternText rest (n + 1)
    return (first :: text, c)

/-- The flag that a letter after a pattern stands for. -/
def flagOfLetter : Char → Option Nat
  | 'i' => some ignoreCaseBit
  | 'm' => some multilineBit
  | 's' => some dotAllBit
  | 'x' => some verboseBit
  | _ => none

/-- The union of the flags whose letters come next, and how many letters there are. -/
def flagLettersOf : List Char → Nat × Nat
  | [] => (0, 0)
  | c :: rest =>
    match flagOfLetter c with
    | some bit =>
      let (bits, count) := flagLettersOf rest
      (bit ||| bits, count + 1)
    | none => (0, 0)

variable [PatternEngine]

/-- A pattern between slashes; the cursor is at the first slash. -/
def patternToken (c : Cursor) : Except Fault (Token × Cursor) := do
  let c ← c.expect ['/']
  let (text, c) ← patternText c.rest c.offset
  let (bits, count) := flagLettersOf c.rest
  let c := c.advance count
  match Token.make (String.ofList text) ⟨bits, .letters⟩ with
  | .ok token => return (token, c)
  | .error (.pattern source e) => c.fail (.badPattern source e)
  | .error f => throw f

/-- The character that a backslash and a letter stand for. -/
def unescape : Char → Char
  | 'n' => '\n'
  | 'r' => '\r'
  | 't' => '\t'
  | c => c

/-- The text of a literal up to the quote that ends it, and the place after that quote. -/
def literalText (quote : Char) : List Char → Nat → Except Fault (List Char × Cursor)
  | [], n => (⟨[], n⟩ : Cursor).fail .unterminatedText
  | first :: rest, n =>
    if first = quote then .ok ([], ⟨rest, n + 1⟩)
    else if first = '\\' then
      match rest with
      | [] => (⟨[], n + 1⟩ : Cursor).fail .unterminatedText
      | next :: more => do
        let (text, c) ← literalText quote more (n + 2)
        return (unescape next :: text, c)
    else do
      let (text, c) ← literalText quote rest (n + 1)
      return (first :: text, c)

/-- The token that matches exactly the given text. -/
def literalToken (text : List Char) : Except Fault Token :=
  Token.make (String.ofList (escapePattern text)) Flags.none

/-- **A literal always makes a token.** -/
theorem literalToken_eq (text : List Char) : literalToken text = .ok (.ofText text) :=
  (Token.ofText_compiles text).make

/-- A literal; the cursor is at the quote that opens it. -/
def quotedToken (quote : Char) (c : Cursor) : Except Fault (Token × Cursor) := do
  let (text, c) ← literalText quote (c.rest.drop 1) (c.offset + 1)
  return (← literalToken text, c)

end TextGrammar
