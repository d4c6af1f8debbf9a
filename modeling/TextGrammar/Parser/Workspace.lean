import TextGrammar.Parser.Basic

/-!
# Workspaces

A caller collects declarations and actions over time and builds parsers from them. A
parser that has been built keeps its own rules and actions, which can be replaced one
by one without touching what the caller has collected.
-/

namespace TextGrammar

/-- What a caller has collected and built. -/
structure Workspace where
  drafts : Drafts
  actions : Actions
  parsers : Table String Parser

namespace Workspace

def empty : Workspace := ⟨[], [], []⟩

def declare (w : Workspace) (key : Key) (d : Declaration) : Workspace :=
  { w with drafts := w.drafts.insert key d }

/-- The items of a declaration that is a list. -/
def listOf (w : Workspace) (key : Key) : Except Fault (List Declaration) :=
  match w.drafts.get? key with
  | none => .error (.value (.missingKey key))
  | some (.list items) => .ok items
  | some d => .error (.value (.noAttribute d.typeName "append"))

/-- Adds an item to a declaration that is a list. -/
def extend (w : Workspace) (key : Key) (d : Declaration) : Except Fault Workspace := do
  let items ← w.listOf key
  return w.declare key (.list (items ++ [d]))

def retract (w : Workspace) (key : Key) : Except Fault Workspace :=
  if w.drafts.has key then .ok { w with drafts := w.drafts.erase key }
  else .error (.value (.missingKey key))

def setAction (w : Workspace) (name : String) (a : Action) : Workspace :=
  { w with actions := w.actions.insert name a }

def dropAction (w : Workspace) (name : String) : Except Fault Workspace :=
  if w.actions.has name then .ok { w with actions := w.actions.erase name }
  else .error (.value (.missingKey (.text name)))

def parser (w : Workspace) (slot : String) : Except Fault Parser :=
  match w.parsers.get? slot with
  | some p => .ok p
  | none => .error (.value (.missingKey (.text slot)))

/-- Builds a parser, with or without the actions, and puts it into a slot. -/
def build [PatternEngine] (w : Workspace) (slot : String) (withActions : Bool) :
    Except Fault (Workspace × Parser) := do
  let p ← Parser.make w.drafts (if withActions then w.actions else [])
  return ({ w with parsers := w.parsers.insert slot p }, p)

def replaceRule [PatternEngine] (w : Workspace) (slot name : String) (d : Declaration) :
    Except Fault Workspace := do
  let rule ← d.coerce
  let p ← w.parser slot
  return { w with parsers := w.parsers.insert slot { p with rules := p.rules.insert name rule } }

def replaceAction (w : Workspace) (slot name : String) (a : Action) : Except Fault Workspace := do
  let p ← w.parser slot
  return { w with parsers := w.parsers.insert slot { p with actions := p.actions.insert name a } }

end Workspace

end TextGrammar
