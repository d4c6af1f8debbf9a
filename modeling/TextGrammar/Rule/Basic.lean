import TextGrammar.Rule.Declaration

/-!
# Rules

Six kinds of nodes. A seventh, `unknown`, stands for a declaration that is no node
and has not been turned into one; it never matches. `Rule.declaration` writes a rule
as the declaration made of nodes only.
-/

namespace TextGrammar

/-- What a rule matches. -/
inductive Rule where
  /-- A text that a pattern matches. -/
  | token (t : Token)
  /-- What the rule of this name matches. -/
  | ref (name : String)
  /-- All items, one after the other. -/
  | seq (items : List Rule)
  /-- What the node matches, filed under the tag as well. -/
  | tagged (tag : String) (node : Rule)
  /-- What the first alternative that matches does. -/
  | choice (alts : List Rule)
  /-- The node, as often as it matches within the bounds. -/
  | repetition (node : Rule) (bounds : Bounds)
  /-- Something that is no rule. -/
  | unknown (value : Declaration)

/-- Rules by name, in the order in which they were written. -/
abbrev Rules := Table String Rule

namespace Rule

mutual

def declaration : Rule → Declaration
  | .token t => .token t
  | .ref name => .ref name
  | .seq items => .seq (declarations items)
  | .tagged tag node => .tagged tag node.declaration
  | .choice alts => .choice (declarations alts)
  | .repetition node bounds => .repetition node.declaration bounds
  | .unknown value => value
termination_by structural r => r

def declarations : List Rule → List Declaration
  | [] => []
  | r :: rest => r.declaration :: declarations rest
termination_by structural rs => rs

end

def shown (r : Rule) : String := r.declaration.shown

mutual

/-- Whether two rules have the same structure. -/
def same : Rule → Rule → Bool
  | .token a, .token b => a.same b
  | .ref a, .ref b => a == b
  | .seq a, .seq b => sameAll a b
  | .tagged t a, .tagged u b => t == u && a.same b
  | .choice a, .choice b => sameAll a b
  | .repetition a m, .repetition b n => a.same b && decide (m = n)
  | _, _ => false
termination_by structural r => r

/-- Whether two lists have the same rules in the same order. -/
def sameAll : List Rule → List Rule → Bool
  | [], [] => true
  | a :: as, b :: bs => a.same b && sameAll as bs
  | _, _ => false
termination_by structural rs => rs

end

end Rule

end TextGrammar
