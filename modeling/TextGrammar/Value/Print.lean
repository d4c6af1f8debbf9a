import TextGrammar.Value.Basic
import TextGrammar.Text.Quoted

/-!
# Showing values

A value is shown as it would be written down: texts in quotes, lists in brackets,
dictionaries in braces. As text, a text stands for itself and a matched value for
its raw value.
-/

namespace TextGrammar

/-- A truth value, written. -/
def shownBool (b : Bool) : String := if b then "True" else "False"

def Key.shown : Key → String
  | .null => "None"
  | .bool b => shownBool b
  | .int n => toString n
  | .text s => quoted s

def Key.asText : Key → String
  | .text s => s
  | k => k.shown

def shownList (items : List String) : String := "[" ++ ", ".intercalate items ++ "]"

/-- A dictionary, written, from its written entries. -/
def shownDict (entries : List String) : String := "\x7b" ++ ", ".intercalate entries ++ "\x7d"

namespace Value

mutual

def shown : Value → String
  | .null => "None"
  | .bool b => shownBool b
  | .int n => toString n
  | .text s => quoted s
  | .list items => shownList (shownItems items)
  | .dict entries => shownDict (shownEntries entries)
  | .matched raw tags => "Match(" ++ raw.shown ++ ", " ++ shownDict (shownTags tags) ++ ")"
termination_by structural v => v

def shownItems : List Value → List String
  | [] => []
  | v :: rest => v.shown :: shownItems rest
termination_by structural vs => vs

def shownEntries : List (Key × Value) → List String
  | [] => []
  | (k, v) :: rest => (k.shown ++ ": " ++ v.shown) :: shownEntries rest
termination_by structural es => es

def shownTags : List (String × Value) → List String
  | [] => []
  | (t, v) :: rest => (quoted t ++ ": " ++ v.shown) :: shownTags rest
termination_by structural ts => ts

end

def asText : Value → String
  | .text s => s
  | .matched raw _ => raw.asText
  | v => v.shown

end Value

end TextGrammar
