import TextGrammar.Evaluation.Basic
import TextGrammar.Rule.Coerce

/-!
# Parsers

A parser is a set of rules with their actions. It starts at the rule `$begin`, and a
`$space` that skips spaces, tabs and line breaks is added if there is none. Rules and
actions are the parser's own: what becomes of the caller's declarations afterwards
does not concern it.
-/

namespace TextGrammar

def beginName : String := "$begin"

abbrev Actions := Table String Action

/-- The action of a rule. A null is no action. -/
def Actions.find? (actions : Actions) (name : String) : Option Action :=
  match actions.get? name with
  | some (.value .null) => none
  | found => found

/-- The first action that is no function, with the rule that it belongs to. -/
def Actions.firstNonFunction? : Actions → Option (String × Value)
  | [] => none
  | (_, .function _) :: rest => Actions.firstNonFunction? rest
  | (name, .value v) :: _ => some (name, v)

/-- Rules and actions that are ready to run. -/
structure Parser where
  rules : Rules
  actions : Actions

namespace Parser

/-- The rules, with white space to skip. -/
def withSpace [PatternEngine] (rules : Rules) : Except Fault Rules :=
  if rules.has spaceName then .ok rules
  else do return rules ++ [(spaceName, .token (← Token.make defaultSpaceSource Flags.none))]

/--
Builds a parser. The declarations are looked at first, then the presence of `$begin`,
then the actions.
-/
def make [PatternEngine] (drafts : Drafts) (actions : Actions) : Except Fault Parser := do
  let rules ← drafts.coerce
  if !rules.has beginName then throw .noBegin
  let rules ← withSpace rules
  match actions.firstNonFunction? with
  | some (name, v) => throw (.notAction name v.shown)
  | none => return ⟨rules, actions⟩

/-- The setting in which a parser works on a text. -/
def setting (p : Parser) (text : List Char) : Setting :=
  ⟨p.rules, p.actions.find?, text, Fault.listCapacity⟩

end Parser

/-- What a parser makes of a text: the value of the part that matched and where that part ends. -/
structure ParseOutcome where
  text : List Char
  found : Option (Value × Nat)

namespace ParseOutcome

/-- Whether the text starts with something that matches. -/
def ok (o : ParseOutcome) : Bool := o.found.isSome

def value (o : ParseOutcome) : Value := (o.found.map (·.1)).getD .null

def stop (o : ParseOutcome) : Nat := (o.found.map (·.2)).getD 0

def rest (o : ParseOutcome) : List Char := o.text.drop o.stop

def complete (o : ParseOutcome) : Bool := o.ok && o.stop == o.text.length

end ParseOutcome

namespace Parser

def parse (p : Parser) (text : List Char) : Run ParseOutcome := do
  match ← (p.setting text).apply beginName 0 with
  | .success value stop => return ⟨text, some (value, stop.toNat)⟩
  | .failure _ => return ⟨text, none⟩

/-- The value of a text, or null if it does not match. -/
def run (p : Parser) (text : List Char) : Run Value := do return (← p.parse text).value

end Parser

end TextGrammar
