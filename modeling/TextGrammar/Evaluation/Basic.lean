import TextGrammar.Evaluation.Run

/-!
# Evaluation

A rule is evaluated at a position of a text, with the tagged parts found so far. It
matches, with a value and the position where it stops, or it does not. A sequence
that does not match says how far its failing item got and keeps what it had tagged;
the other nodes put both back.

Before each token the rule `$space` is tried, and what it takes is skipped; inside
`$space` itself nothing is skipped. A rule that is referred to starts without tagged
parts, and its value goes through its action.

References are the only way down. `enter` follows at most `depth` of them at a time.
A position can be entered for each rule in two ways, with and without skipping, so
a run that has more references open than `depthBound` meets itself and never ends.
-/

namespace TextGrammar

/-- The rule that is skipped before each token. -/
def spaceName : String := "$space"

/-- What a rule's value goes through. -/
inductive Action where
  /-- A function, which may raise a fault. -/
  | function (f : Value → Except Fault Value)
  /-- Something that is no function. -/
  | value (v : Value)

/-- Calls an action. Only a function can be called, and only its calls are recorded. -/
def Action.invoke (rule : String) (argument : Value) : Action → Run Value
  | .function f => do
    Run.emit (.call rule argument)
    Run.ofExcept (f argument)
  | .value v => Run.raise (.value (.notCallable v.typeName))

/-- What an evaluation works with. -/
structure Setting where
  rules : Rules
  actions : String → Option Action
  text : List Char
  /-- How many items there is room for in a list. -/
  capacity : Nat

/-- Whether a rule matches and where it stops. -/
inductive Verdict where
  | success (value : Value) (stop : Int)
  | failure (stop : Int)

/-- A verdict with the tagged parts that the caller has from then on. -/
structure Outcome where
  verdict : Verdict
  tags : Tags

/-- The text from a position on; a negative position counts from the end. -/
def Setting.remaining (s : Setting) (pos : Int) : List Char :=
  if 0 ≤ pos then s.text.drop pos.toNat else s.text.drop (s.text.length - pos.natAbs)

/-- How far a position is from the furthest that can be reached from it. -/
def Setting.room (s : Setting) (pos : Int) : Nat := (max (s.text.length : Int) pos - pos).toNat

/-- Follows a reference: to a name, at a position, with or without skipping. -/
abbrev Enter := String → Int → Bool → Run Verdict

/-- Where a token starts: after `$space` if that is skipped and matches. -/
def tokenStart (enter : Enter) (pos : Int) (skip : Bool) : Run Int :=
  if skip then do
    match ← enter spaceName pos false with
    | .success _ stop => return stop
    | .failure _ => return pos
  else return pos

/-- Evaluates a token. If it does not match, nothing has been skipped. -/
def evalToken (s : Setting) (enter : Enter) (t : Token) (pos : Int) (skip : Bool) :
    Run Verdict := do
  Run.emit (.token t.source)
  let start ← tokenStart enter pos skip
  match t.find? (s.remaining start) with
  | none =>
    Run.emit .noMatch
    return .failure pos
  | some found =>
    Run.emit (.taken (String.ofList found.text))
    return .success (.text (String.ofList found.text)) (start + found.length)

/-- Where a sequence has got to; `values` is absent if an item did not match. -/
structure Progress where
  values : Option (List Value)
  stop : Int
  tags : Tags

/-- The rounds of a repetition, up to the first that does not match or takes nothing. -/
structure Rounds where
  values : List Value
  stop : Int
  tags : Tags
  /-- The value of the last round, if it took nothing. -/
  idle : Option Value

/--
Repeats a rule at most `left` times. `fuel` is one more than the room that is left,
since every round that is followed by another takes at least one character.
-/
def repeatRounds (body : Int → Tags → Run Outcome) :
    Nat → Option Nat → Int → Tags → Run Rounds
  | 0, _, pos, tags => return ⟨[], pos, tags, none⟩
  | fuel + 1, left, pos, tags =>
    if left = some 0 then return ⟨[], pos, tags, none⟩
    else do
      match ← body pos tags with
      | ⟨.failure _, _⟩ => return ⟨[], pos, tags, none⟩
      | ⟨.success value stop, after⟩ =>
        -- the next round would be the same again
        if stop = pos then return ⟨[value], stop, after, some value⟩
        else do
          let more ← repeatRounds body fuel (left.map (· - 1)) stop after
          return { more with values := value :: more.values }

/--
Why a list of `count` items cannot be filled up to `least`, if it cannot. The items that are
missing make a list of their own first, by repetition, and then the other list grows by them.
-/
def fillFault? (capacity count least : Nat) : Option Fault :=
  if least ≤ count then none
  else
    (Fault.ofRepetition? capacity false 1 (least - count : Nat)).or
      (Fault.ofLength? capacity least)

/-- A round that takes nothing would go on for ever; it counts as often as the bound asks for. -/
def fillRounds (capacity : Nat) (rounds : Rounds) (min : Option Nat) : Run (List Value) :=
  match rounds.idle, min with
  | some value, some least =>
    match fillFault? capacity rounds.values.length least with
    | some f => Run.raise f
    | none => return rounds.values ++ List.replicate (least - rounds.values.length) value
  | _, _ => return rounds.values

/-- The outcome of a repetition that started at a position with some tagged parts. -/
def finishRounds (capacity : Nat) (bounds : Bounds) (pos : Int) (tags : Tags) (rounds : Rounds) :
    Run Outcome := do
  let values ← fillRounds capacity rounds bounds.min
  match bounds.min with
  | some least =>
    if values.length < least then
      Run.emit (.tooFew values.length least)
      return ⟨.failure pos, tags⟩
    else return ⟨.success (.list values) rounds.stop, rounds.tags⟩
  | none => return ⟨.success (.list values) rounds.stop, rounds.tags⟩

mutual

/-- Evaluates a rule, following references by `enter`. -/
def eval (s : Setting) (enter : Enter) : Rule → Int → Tags → Bool → Run Outcome
  | .token t, pos, tags, skip => do
    return ⟨← evalToken s enter t pos skip, tags⟩
  | .ref name, pos, tags, skip => do
    return ⟨← enter name pos skip, tags⟩
  | .seq items, pos, tags, skip => do
    Run.emit (.sequence items.length)
    match ← evalItems s enter items pos tags skip with
    | ⟨some values, stop, after⟩ => return ⟨.success (.list values) stop, after⟩
    | ⟨none, stop, after⟩ => return ⟨.failure stop, after⟩
  | .tagged tag node, pos, tags, skip => do
    Run.emit (.tagged tag)
    match ← eval s enter node pos [] skip with
    | ⟨.failure _, _⟩ => return ⟨.failure pos, tags⟩
    | ⟨.success value stop, inner⟩ =>
      return ⟨.success value stop, (Table.update tags inner).insert tag (value.merge inner)⟩
  | .choice alts, pos, tags, skip => do
    Run.emit (.choice alts.length)
    evalChoice s enter 0 alts pos tags skip
  | .repetition node bounds, pos, tags, skip => do
    Run.emit (.repetition bounds.min bounds.max)
    let rounds ← repeatRounds (fun p t => eval s enter node p t skip) (s.room pos + 1)
      bounds.max pos tags
    finishRounds s.capacity bounds pos tags rounds
  | .unknown value, pos, tags, _ => do
    Run.emit (.unknownRule value.shown)
    return ⟨.failure pos, tags⟩
termination_by structural r => r

def evalItems (s : Setting) (enter : Enter) : List Rule → Int → Tags → Bool → Run Progress
  | [], pos, tags, _ => return ⟨some [], pos, tags⟩
  | item :: rest, pos, tags, skip => do
    match ← eval s enter item pos tags skip with
    | ⟨.failure stop, after⟩ => return ⟨none, stop, after⟩
    | ⟨.success value stop, after⟩ =>
      let more ← evalItems s enter rest stop after skip
      return { more with values := more.values.map (value :: ·) }
termination_by structural rs => rs

/-- Evaluates alternatives, the first of which has the given index, until one matches. -/
def evalChoice (s : Setting) (enter : Enter) (index : Nat) :
    List Rule → Int → Tags → Bool → Run Outcome
  | [], pos, tags, _ => return ⟨.failure pos, tags⟩
  | alt :: rest, pos, tags, skip => do
    match ← eval s enter alt pos tags skip with
    | ⟨.failure _, _⟩ => evalChoice s enter (index + 1) rest pos tags skip
    | ⟨.success value stop, after⟩ =>
      Run.emit (.alternative index)
      return ⟨.success value stop, after⟩
termination_by structural rs => rs

end

/-- What a rule yields once its body has been evaluated. -/
def Setting.finish (s : Setting) (name : String) (body : Outcome) : Run Verdict :=
  match body with
  | ⟨.failure stop, _⟩ => return .failure stop
  | ⟨.success value stop, inner⟩ =>
    match s.actions name with
    | none => return .success (value.merge inner) stop
    | some action => do
      return .success (← action.invoke name (value.merge inner)) stop

/-- Evaluates a rule by name, with at most `depth` references open at a time. -/
def enter (s : Setting) : Nat → Enter
  | 0, name, pos, _ => do
    Run.emit (.reference name)
    match s.rules.get? name with
    | none =>
      Run.emit (.undefinedRule name)
      return .failure pos
    -- one reference more is open than there are different ones
    | some _ => Run.diverge
  | depth + 1, name, pos, skip => do
    Run.emit (.reference name)
    match s.rules.get? name with
    | none =>
      Run.emit (.undefinedRule name)
      return .failure pos
    | some body => s.finish name (← eval s (enter s depth) body pos [] skip)

/-- As many references as can be open at a time before one of them meets itself. -/
def Setting.depthBound (s : Setting) (pos : Int) : Nat := 2 * s.rules.length * (s.room pos + 1)

/-- Evaluates a rule by name at a position of the text. -/
def Setting.apply (s : Setting) (name : String) (pos : Int) : Run Verdict :=
  enter s (s.depthBound pos) name pos true

end TextGrammar
