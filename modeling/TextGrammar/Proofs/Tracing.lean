import TextGrammar.Grammar.Reader

/-!
# A reader that writes down where it stands

`traceGrammar` reads what `readGrammar` reads, and writes down a `Visit` whenever one of the
functions of the reader begins, whenever one of its loops goes round, and behind every token and
every suffix. Looking ahead is no visit: it answers yes or no, and the reader goes on from where
it stands.

Blanks and comments, names, numbers and flags are runs of characters of one kind. The reader
takes such a run as a whole, so that there is no visit within it.
-/

namespace TextGrammar

/-! ## Visits -/

/-- What the reader does where it stands. -/
inductive Stage where
  /-- It is in a pattern or in a literal. -/
  | text
  /-- It has taken a token. -/
  | token
  /-- It has looked for a suffix, and has taken it if there was one. -/
  | suffix
  | expression
  | items
  | item
  | primary
  | alternatives
  | rules
  deriving DecidableEq, Repr

/-- The reader stands at a place. -/
structure Visit where
  stage : Stage
  place : Cursor
  deriving DecidableEq, Repr

/-- What has been read, or why reading failed, and the visits until then. -/
structure Traced (α : Type) where
  visits : List Visit
  result : Except Fault α

namespace Traced

variable {α β : Type}

instance : Monad Traced where
  pure a := ⟨[], .ok a⟩
  bind x f :=
    match x.result with
    | .ok a => ⟨x.visits ++ (f a).visits, (f a).result⟩
    | .error f => ⟨x.visits, .error f⟩

/-- A result that no visit leads to. -/
def lift (x : Except Fault α) : Traced α := ⟨[], x⟩

/-- Stands at a place. -/
def visit (stage : Stage) (c : Cursor) : Traced Unit := ⟨[⟨stage, c⟩], .ok ()⟩

/-- Reads on, and stands behind what has been read. -/
def take (stage : Stage) (place : α → Cursor) (x : Except Fault α) : Traced α := do
  let a ← lift x
  visit stage (place a)
  return a

theorem bind_ok {x : Traced α} {a : α} (h : x.result = .ok a) (f : α → Traced β) :
    x >>= f = ⟨x.visits ++ (f a).visits, (f a).result⟩ := by
  show (match x.result with
    | .ok a => (⟨x.visits ++ (f a).visits, (f a).result⟩ : Traced β)
    | .error f => ⟨x.visits, .error f⟩) = _
  rw [h]

theorem bind_error {x : Traced α} {e : Fault} (h : x.result = .error e) (f : α → Traced β) :
    x >>= f = ⟨x.visits, .error e⟩ := by
  show (match x.result with
    | .ok a => (⟨x.visits ++ (f a).visits, (f a).result⟩ : Traced β)
    | .error f => ⟨x.visits, .error f⟩) = _
  rw [h]

theorem result_bind {x : Traced α} {f : α → Traced β} {y : Except Fault α}
    {g : α → Except Fault β} (hx : x.result = y) (hf : ∀ a, (f a).result = g a) :
    (x >>= f).result = y >>= g := by
  cases h : x.result with
  | ok a =>
      rw [bind_ok h, ← hx, h]
      exact hf a
  | error e =>
      rw [bind_error h, ← hx, h]
      rfl

theorem result_visit (stage : Stage) (c : Cursor) (f : Unit → Traced α) :
    (visit stage c >>= f).result = (f ()).result := rfl

theorem result_take (stage : Stage) (place : α → Cursor) (x : Except Fault α) :
    (take stage place x).result = x := by
  cases x <;> rfl

end Traced

open Traced (visit take result_bind result_visit result_take)

def tracePatternText (cs : List Char) (n : Nat) : Traced (List Char × Cursor) := do
  visit .text ⟨cs, n⟩
  match cs with
  | [] => .lift ((⟨[], n⟩ : Cursor).fail .unterminatedPattern)
  | '\n' :: rest => .lift ((⟨'\n' :: rest, n⟩ : Cursor).fail .unterminatedPattern)
  | '/' :: rest => return ([], ⟨rest, n + 1⟩)
  | ['\\'] => .lift ((⟨[], n + 1⟩ : Cursor).fail .unterminatedPattern)
  | '\\' :: '/' :: rest =>
    let (text, c) ← tracePatternText rest (n + 2)
    return ('/' :: text, c)
  | '\\' :: next :: rest =>
    let (text, c) ← tracePatternText rest (n + 2)
    return ('\\' :: next :: text, c)
  | first :: rest =>
    let (text, c) ← tracePatternText rest (n + 1)
    return (first :: text, c)

def traceLiteralText (quote : Char) (cs : List Char) (n : Nat) : Traced (List Char × Cursor) := do
  visit .text ⟨cs, n⟩
  match cs with
  | [] => .lift ((⟨[], n⟩ : Cursor).fail .unterminatedText)
  | first :: rest =>
    if first = quote then return ([], ⟨rest, n + 1⟩)
    else if first = '\\' then
      match rest with
      | [] => .lift ((⟨[], n + 1⟩ : Cursor).fail .unterminatedText)
      | next :: more =>
        let (text, c) ← traceLiteralText quote more (n + 2)
        return (unescape next :: text, c)
    else
      let (text, c) ← traceLiteralText quote rest (n + 1)
      return (first :: text, c)

section Definitions

variable [PatternEngine]

/-- The pattern with the flags that come next. -/
def flaggedToken (text : List Char) (c : Cursor) : Except Fault (Token × Cursor) :=
  let (bits, count) := flagLettersOf c.rest
  let c := c.advance count
  match Token.make (String.ofList text) ⟨bits, .letters⟩ with
  | .ok token => .ok (token, c)
  | .error (.pattern source e) => c.fail (.badPattern source e)
  | .error f => .error f

def tracePatternToken (c : Cursor) : Traced (Token × Cursor) := do
  let c ← .lift (c.expect ['/'])
  let (text, c) ← tracePatternText c.rest c.offset
  take .token Prod.snd (flaggedToken text c)

def traceQuotedToken (quote : Char) (c : Cursor) : Traced (Token × Cursor) := do
  let (text, c) ← traceLiteralText quote (c.rest.drop 1) (c.offset + 1)
  take .token Prod.snd (return (← literalToken text, c))

mutual

def traceExpression : Nat → Cursor → Traced (Rule × Cursor)
  | 0, _ => .lift (.error .runaway)
  | fuel + 1, c => do
    visit .expression c
    let (first, c) ← traceItems fuel c
    let (more, c) ← traceAlternatives fuel c
    return (choiceOf (sequenceOf first :: more), c)

def traceAlternatives : Nat → Cursor → Traced (List Rule × Cursor)
  | 0, _ => .lift (.error .runaway)
  | fuel + 1, c => do
    visit .alternatives c
    match c.accept ['|'] with
    | (false, c) => return ([], c)
    | (true, c) =>
      let (items, c) ← traceItems fuel c
      let (more, c) ← traceAlternatives fuel c
      return (sequenceOf items :: more, c)

def traceItems : Nat → Cursor → Traced (List Rule × Cursor)
  | 0, _ => .lift (.error .runaway)
  | fuel + 1, c => do
    let c := c.skip
    visit .items c
    if c.endsItems then return ([], c)
    else
      let (item, c) ← traceItem fuel c
      let (more, c) ← traceItems fuel c
      return (item :: more, c)

def traceItem : Nat → Cursor → Traced (Rule × Cursor)
  | 0, _ => .lift (.error .runaway)
  | fuel + 1, c => do
    let c := c.skip
    visit .item c
    if c.atName && c.atNameBefore [':'] then
      let (tag, c) ← take .token Prod.snd c.name
      let c ← take .token id (c.expect [':'])
      let (node, c) ← traceItem fuel c
      return (.tagged tag node, c)
    else
      let (node, c) ← tracePrimary fuel c
      take .suffix Prod.snd (withSuffix node c)

def tracePrimary : Nat → Cursor → Traced (Rule × Cursor)
  | 0, _ => .lift (.error .runaway)
  | fuel + 1, c => do
    let c := c.skip
    visit .primary c
    match c.rest with
    | [] => .lift (c.fail .unexpectedEnd)
    | '(' :: _ =>
      let (node, c) ← traceExpression fuel (c.advance 1)
      return (node, ← take .token id (c.expect [')']))
    | '/' :: _ =>
      let (token, c) ← tracePatternToken c
      return (.token token, c)
    | ch :: _ =>
      if ch = '\'' ∨ ch = '"' then
        let (token, c) ← traceQuotedToken ch c
        return (.token token, c)
      else if Cursor.startsName ch then
        let (name, c) ← take .token Prod.snd c.name
        return (.ref name, c)
      else .lift (c.fail (.unexpected ch))

end

def traceRules (depth : Nat) : Nat → Rules → Cursor → Traced Rules
  | 0, _, _ => .lift (.error .runaway)
  | fuel + 1, rules, c => do
    let c := c.skip
    visit .rules c
    if c.rest.isEmpty then
      if rules.isEmpty then .lift (c.fail .noRules) else return rules
    else
      let (name, c) ← take .token Prod.snd c.name
      let c ← take .token id (c.expect ['<', '-'])
      let (rule, c) ← traceExpression depth c
      if rules.has name then .lift (c.fail (.duplicateRule name))
      else traceRules depth fuel (rules ++ [(name, rule)]) c

/-- Reads a grammar text and writes down every place where the reader stands. -/
def traceGrammar (source : List Char) : Traced Rules :=
  traceRules (readingDepth source) (source.length + 1) [] (.start source)

end Definitions

/-! ## It reads the same -/

theorem tracePatternText_result (cs : List Char) (n : Nat) :
    (tracePatternText cs n).result = patternText cs n := by
  fun_induction patternText cs n with
  | case1 n => rfl
  | case2 rest n => rfl
  | case3 rest n => rfl
  | case4 n => rfl
  | case5 rest n ih =>
      rw [tracePatternText, result_visit]
      exact result_bind ih fun _ => rfl
  | case6 next rest n hnext ih =>
      rw [tracePatternText, result_visit]
      simp only
      · exact result_bind ih fun _ => rfl
      · exact hnext
  | case7 first rest n _ _ _ _ _ ih =>
      rw [tracePatternText, result_visit]
      simp only
      · exact result_bind ih fun _ => rfl
      all_goals assumption

theorem traceLiteralText_result (quote : Char) (cs : List Char) (n : Nat) :
    (traceLiteralText quote cs n).result = literalText quote cs n := by
  fun_induction literalText quote cs n with
  | case1 n => rfl
  | case2 rest n =>
      rw [traceLiteralText.eq_def, result_visit]
      dsimp only
      rw [if_pos rfl]
      rfl
  | case3 n h =>
      rw [traceLiteralText, result_visit, if_neg h, if_pos rfl]
      rfl
  | case4 n next more h ih =>
      rw [traceLiteralText, result_visit, if_neg h, if_pos rfl]
      exact result_bind ih fun _ => rfl
  | case5 first rest n h h' ih =>
      rw [traceLiteralText.eq_def, result_visit]
      dsimp only
      rw [if_neg h, if_neg h']
      exact result_bind ih fun _ => rfl

section Results

variable [PatternEngine]

theorem tracePatternToken_result (c : Cursor) : (tracePatternToken c).result = patternToken c := by
  refine result_bind rfl fun opened => ?_
  refine result_bind (tracePatternText_result opened.rest opened.offset) fun text => ?_
  exact result_take _ _ _

theorem traceQuotedToken_result (quote : Char) (c : Cursor) :
    (traceQuotedToken quote c).result = quotedToken quote c :=
  result_bind (traceLiteralText_result quote _ _) fun _ => result_take _ _ _

/-- With this fuel, every function of the reader is followed faithfully. -/
structure ReadersTraced (fuel : Nat) : Prop where
  expression : ∀ c, (traceExpression fuel c).result = readExpression fuel c
  alternatives : ∀ c, (traceAlternatives fuel c).result = readAlternatives fuel c
  items : ∀ c, (traceItems fuel c).result = readItems fuel c
  item : ∀ c, (traceItem fuel c).result = readItem fuel c
  primary : ∀ c, (tracePrimary fuel c).result = readPrimary fuel c

variable {fuel : Nat}

theorem ReadersTraced.readExpression (h : ReadersTraced fuel) (c : Cursor) :
    (traceExpression (fuel + 1) c).result = readExpression (fuel + 1) c := by
  rw [TextGrammar.readExpression, traceExpression, result_visit]
  refine result_bind (h.items c) fun first => ?_
  exact result_bind (h.alternatives first.2) fun _ => rfl

theorem ReadersTraced.readAlternatives (h : ReadersTraced fuel) (c : Cursor) :
    (traceAlternatives (fuel + 1) c).result = readAlternatives (fuel + 1) c := by
  rw [TextGrammar.readAlternatives, traceAlternatives, result_visit]
  rcases c.accept ['|'] with ⟨_ | _, after⟩
  · rfl
  · refine result_bind (h.items after) fun items => ?_
    exact result_bind (h.alternatives items.2) fun _ => rfl

theorem ReadersTraced.readItems (h : ReadersTraced fuel) (c : Cursor) :
    (traceItems (fuel + 1) c).result = readItems (fuel + 1) c := by
  rw [TextGrammar.readItems, traceItems, result_visit]
  dsimp only
  by_cases hends : c.skip.endsItems = true
  · rw [if_pos hends, if_pos hends]
    rfl
  · rw [if_neg hends, if_neg hends]
    refine result_bind (h.item c.skip) fun item => ?_
    exact result_bind (h.items item.2) fun _ => rfl

theorem ReadersTraced.readItem (h : ReadersTraced fuel) (c : Cursor) :
    (traceItem (fuel + 1) c).result = readItem (fuel + 1) c := by
  rw [TextGrammar.readItem, traceItem, result_visit]
  dsimp only
  by_cases htag : (c.skip.atName && c.skip.atNameBefore [':']) = true
  · rw [if_pos htag, if_pos htag]
    refine result_bind (result_take _ _ _) fun tag => ?_
    refine result_bind (result_take _ _ _) fun after => ?_
    exact result_bind (h.item after) fun _ => rfl
  · rw [if_neg htag, if_neg htag]
    exact result_bind (h.primary c.skip) fun _ => result_take _ _ _

theorem ReadersTraced.readPrimary (h : ReadersTraced fuel) (c : Cursor) :
    (tracePrimary (fuel + 1) c).result = readPrimary (fuel + 1) c := by
  rw [TextGrammar.readPrimary, tracePrimary, result_visit]
  dsimp only
  rcases c.skip.rest with _ | ⟨first, rest⟩
  · rfl
  by_cases hparen : first = '('
  · subst hparen
    refine result_bind (h.expression _) fun node => ?_
    exact result_bind (result_take _ _ _) fun _ => rfl
  by_cases hslash : first = '/'
  · subst hslash
    exact result_bind (tracePatternToken_result _) fun _ => rfl
  simp only
  by_cases hquote : first = '\'' ∨ first = '"'
  · rw [if_pos hquote, if_pos hquote]
    exact result_bind (traceQuotedToken_result _ _) fun _ => rfl
  · rw [if_neg hquote, if_neg hquote]
    by_cases hname : Cursor.startsName first = true
    · rw [if_pos hname, if_pos hname]
      exact result_bind (result_take _ _ _) fun _ => rfl
    · rw [if_neg hname, if_neg hname]
      rfl

theorem readersTraced (fuel : Nat) : ReadersTraced fuel := by
  induction fuel with
  | zero => constructor <;> intro c <;> rfl
  | succ fuel ih =>
      exact ⟨ih.readExpression, ih.readAlternatives, ih.readItems, ih.readItem, ih.readPrimary⟩

theorem traceRules_result (depth fuel : Nat) (rules : Rules) (c : Cursor) :
    (traceRules depth fuel rules c).result = readRules depth fuel rules c := by
  induction fuel generalizing rules c with
  | zero => rfl
  | succ fuel ih =>
      rw [readRules, traceRules, result_visit]
      dsimp only
      by_cases hend : c.skip.rest.isEmpty = true
      · rw [if_pos hend, if_pos hend]
        by_cases hnone : rules.isEmpty = true
        · rw [if_pos hnone, if_pos hnone]
          rfl
        · rw [if_neg hnone, if_neg hnone]
          rfl
      · rw [if_neg hend, if_neg hend]
        refine result_bind (result_take _ _ _) fun name => ?_
        refine result_bind (result_take _ _ _) fun arrow => ?_
        refine result_bind ((readersTraced depth).expression arrow) fun rule => ?_
        by_cases hhas : rules.has name.1 = true
        · simp only [hhas]
          rfl
        · simp only [hhas]
          exact ih _ rule.2

theorem traceGrammar_result (source : List Char) :
    (traceGrammar source).result = readGrammar source :=
  traceRules_result _ _ _ _

end Results

end TextGrammar
