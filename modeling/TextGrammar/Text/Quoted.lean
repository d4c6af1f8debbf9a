import TextGrammar.Text.Printable

/-!
# Quoted text

How a text is shown inside quotes. Single quotes are used unless the text holds a
single quote and no double quote. The quote in use and the backslash are escaped;
so are line feed, carriage return and tab, by letter, and every other character
that is not printable, by its code point.
-/

namespace TextGrammar

/-- The quote that needs the fewest escapes, single quotes being preferred. -/
def quoteFor (cs : List Char) : Char :=
  if cs.contains '\'' && !cs.contains '"' then '"' else '\''

/-- Lower-case hexadecimal digits, with leading zeros up to the width. -/
def hexDigits (width n : Nat) : List Char :=
  let digits := Nat.toDigits 16 n
  List.replicate (width - digits.length) '0' ++ digits

/-- A code point written with the shortest of the three escapes that holds it. -/
def escapeCode (n : Nat) : List Char :=
  if n < 0x100 then '\\' :: 'x' :: hexDigits 2 n
  else if n < 0x10000 then '\\' :: 'u' :: hexDigits 4 n
  else '\\' :: 'U' :: hexDigits 8 n

def quoteChar (quote c : Char) : List Char :=
  if c = quote ∨ c = '\\' then ['\\', c]
  else if c = '\n' then ['\\', 'n']
  else if c = '\r' then ['\\', 'r']
  else if c = '\t' then ['\\', 't']
  else if isPrintable c then [c]
  else escapeCode c.toNat

def quotedChars (cs : List Char) : List Char :=
  let quote := quoteFor cs
  quote :: (cs.flatMap (quoteChar quote) ++ [quote])

def quoted (s : String) : String := String.ofList (quotedChars s.toList)

end TextGrammar
