import TextGrammar.Pattern.Precompiled
import TextGrammar.Rule.Bounds
import TextGrammar.Rule.Token

/-!
# Declarations

A declaration is what a caller writes for a rule: plain data, nodes, or a mixture of
both. Nodes do not look at their children, so a declaration may hold anything at any
depth. `Declaration.shown` writes a declaration down.
-/

namespace TextGrammar

/-- A rule as a caller writes it. -/
inductive Declaration where
  | null
  | bool (b : Bool)
  | int (n : Int)
  /-- A text: the name of a rule. -/
  | text (s : String)
  | pattern (p : Precompiled)
  | list (items : List Declaration)
  | tuple (items : List Declaration)
  | dict (entries : List (Key × Declaration))
  | token (t : Token)
  | ref (name : String)
  | seq (items : List Declaration)
  | tagged (tag : String) (node : Declaration)
  | choice (alts : List Declaration)
  | repetition (node : Declaration) (bounds : Bounds)

/-- A tuple, written, from its written items. -/
def shownTuple : List String → String
  | [item] => "(" ++ item ++ ",)"
  | items => "(" ++ ", ".intercalate items ++ ")"

namespace Declaration

mutual

def shown : Declaration → String
  | .null => "None"
  | .bool b => shownBool b
  | .int n => toString n
  | .text s => quoted s
  | .pattern p => p.shown
  | .list items => shownList (shownItems items)
  | .tuple items => shownTuple (shownItems items)
  | .dict entries => shownDict (shownEntries entries)
  | .token t => "Token(pattern=" ++ quoted t.source ++ ", flags=" ++ t.flags.shown ++ ")"
  | .ref target => "Ref(name=" ++ quoted target ++ ")"
  | .seq items => "Seq(items=" ++ shownTuple (shownItems items) ++ ")"
  | .tagged tag node => "Tagged(tag=" ++ quoted tag ++ ", node=" ++ node.shown ++ ")"
  | .choice alts => "Choice(alts=" ++ shownTuple (shownItems alts) ++ ")"
  | .repetition node bounds =>
    "Repeat(node=" ++ node.shown ++ ", min=" ++ Bounds.shownBound bounds.min ++ ", max="
      ++ Bounds.shownBound bounds.max ++ ")"
termination_by structural d => d

def shownItems : List Declaration → List String
  | [] => []
  | d :: rest => d.shown :: shownItems rest
termination_by structural ds => ds

def shownEntries : List (Key × Declaration) → List String
  | [] => []
  | (k, d) :: rest => (k.shown ++ ": " ++ d.shown) :: shownEntries rest
termination_by structural es => es

end

def typeName : Declaration → String
  | .null => "NoneType"
  | .bool _ => "bool"
  | .int _ => "int"
  | .text _ => "str"
  | .pattern p => p.typeName
  | .list _ => "list"
  | .tuple _ => "tuple"
  | .dict _ => "dict"
  | .token _ => "Token"
  | .ref _ => "Ref"
  | .seq _ => "Seq"
  | .tagged _ _ => "Tagged"
  | .choice _ => "Choice"
  | .repetition _ _ => "Repeat"

end Declaration

end TextGrammar
