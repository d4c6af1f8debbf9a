import TextGrammar.Grammar.Token
import TextGrammar.Rule.Basic

/-!
# Reading grammar text

    grammar   = { name "<-" expression }
    expression = sequence { "|" sequence }
    sequence  = { item }
    item      = name ":" item | primary [ suffix ]
    suffix    = "?" | "*" | "+" | "{" [ number ] [ "," [ number ] ] "}"
    primary   = name | pattern | literal | "(" expression ")"

Line breaks mean nothing. A name before `<-` starts a rule and a name before `:` is a
tag, so both are recognised by looking ahead. One item is no sequence of its own, and
one sequence is no choice.

Every call goes at most three levels further down before a character is taken, which
bounds the depth by a multiple of the length of the text.
-/

namespace TextGrammar

/-- The sequence of some items; a single item stands for itself. -/
def sequenceOf : List Rule → Rule
  | [item] => item
  | items => .seq items

/-- The choice between some alternatives; a single one stands for itself. -/
def choiceOf : List Rule → Rule
  | [alt] => alt
  | alts => .choice alts

/-- The repetition of a rule, with bounds that a suffix gives. -/
def repeatedRule (node : Rule) (min max : Option Nat) (c : Cursor) : Except Fault (Rule × Cursor) :=
  match Bounds.ofNat? min max with
  | .ok bounds => .ok (.repetition node bounds, c)
  | .error f => c.fail (.badBounds f)

/-- Bounds in braces, after the opening brace. A lower bound alone is both bounds. -/
def bracedBounds (c : Cursor) : Except Fault ((Option Nat × Option Nat) × Cursor) := do
  let (low, c) ← c.number
  match c.accept [','] with
  | (true, c) =>
    let (high, c) ← c.number
    return ((low, high), ← c.expect ['}'])
  | (false, c) =>
    match low with
    | none => c.fail .expectedCount
    | some n => return ((some n, some n), ← c.expect ['}'])

/-- The rule with the suffix that comes next, if there is one. -/
def withSuffix (node : Rule) (c : Cursor) : Except Fault (Rule × Cursor) :=
  let c := c.skip
  match c.rest with
  | '?' :: _ => repeatedRule node (some 0) (some 1) (c.advance 1)
  | '*' :: _ => repeatedRule node (some 0) none (c.advance 1)
  | '+' :: _ => repeatedRule node (some 1) none (c.advance 1)
  | '{' :: _ => do
    let ((low, high), c) ← bracedBounds (c.advance 1)
    repeatedRule node low high c
  | _ => .ok (node, c)

/-- Whether the items of a sequence end here. -/
def Cursor.endsItems (c : Cursor) : Bool :=
  match c.rest with
  | [] => true
  | ch :: _ => ch == ')' || ch == '|' || (c.atName && c.atNameBefore ['<', '-'])

variable [PatternEngine]

mutual

def readExpression : Nat → Cursor → Except Fault (Rule × Cursor)
  | 0, _ => .error .runaway
  | fuel + 1, c => do
    let (first, c) ← readItems fuel c
    let (more, c) ← readAlternatives fuel c
    return (choiceOf (sequenceOf first :: more), c)

def readAlternatives : Nat → Cursor → Except Fault (List Rule × Cursor)
  | 0, _ => .error .runaway
  | fuel + 1, c =>
    match c.accept ['|'] with
    | (false, c) => .ok ([], c)
    | (true, c) => do
      let (items, c) ← readItems fuel c
      let (more, c) ← readAlternatives fuel c
      return (sequenceOf items :: more, c)

/-- Reads items up to a bar, a closing parenthesis, the head of a rule or the end. -/
def readItems : Nat → Cursor → Except Fault (List Rule × Cursor)
  | 0, _ => .error .runaway
  | fuel + 1, c =>
    let c := c.skip
    if c.endsItems then .ok ([], c)
    else do
      let (item, c) ← readItem fuel c
      let (more, c) ← readItems fuel c
      return (item :: more, c)

def readItem : Nat → Cursor → Except Fault (Rule × Cursor)
  | 0, _ => .error .runaway
  | fuel + 1, c =>
    let c := c.skip
    if c.atName && c.atNameBefore [':'] then do
      let (tag, c) ← c.name
      let c ← c.expect [':']
      let (node, c) ← readItem fuel c
      return (.tagged tag node, c)
    else do
      let (node, c) ← readPrimary fuel c
      withSuffix node c

def readPrimary : Nat → Cursor → Except Fault (Rule × Cursor)
  | 0, _ => .error .runaway
  | fuel + 1, c =>
    let c := c.skip
    match c.rest with
    | [] => c.fail .unexpectedEnd
    | '(' :: _ => do
      let (node, c) ← readExpression fuel (c.advance 1)
      return (node, ← c.expect [')'])
    | '/' :: _ => do
      let (token, c) ← patternToken c
      return (.token token, c)
    | ch :: _ =>
      if ch = '\'' ∨ ch = '"' then do
        let (token, c) ← quotedToken ch c
        return (.token token, c)
      else if Cursor.startsName ch then do
        let (name, c) ← c.name
        return (.ref name, c)
      else c.fail (.unexpected ch)

end

def readingDepth (source : List Char) : Nat := 4 * source.length + 4

/-- Reads rules to the end of the text and adds them to those read before. -/
def readRules (depth : Nat) : Nat → Rules → Cursor → Except Fault Rules
  | 0, _, _ => .error .runaway
  | fuel + 1, rules, c =>
    let c := c.skip
    if c.rest.isEmpty then
      if rules.isEmpty then c.fail .noRules else .ok rules
    else do
      let (name, c) ← c.name
      let c ← c.expect ['<', '-']
      let (rule, c) ← readExpression depth c
      -- the whole rule has been read when a second one of its name is noticed
      if rules.has name then c.fail (.duplicateRule name)
      else readRules depth fuel (rules ++ [(name, rule)]) c

def readGrammar (source : List Char) : Except Fault Rules :=
  readRules (readingDepth source) (source.length + 1) [] (.start source)

end TextGrammar
