import TextGrammar.Rule.Basic

/-!
# From declarations to rules

A name becomes a reference, a compiled pattern a token, a list or a tuple a sequence,
a dictionary with one entry a tagged rule; nodes keep their shape and have their
children turned into rules. The first declaration that is no rule, from left to right
and from the outside in, is the one that is blamed.
-/

namespace TextGrammar

variable [PatternEngine]

namespace Declaration

def unusable (d : Declaration) : Except Fault Rule :=
  .error (.rule (.unusable d.typeName d.shown))

mutual

def coerce : Declaration → Except Fault Rule
  | .token t => .ok (.token t)
  | .ref name => .ok (.ref name)
  | .seq items => do return .seq (← coerceAll items)
  | .choice alts => do return .choice (← coerceAll alts)
  | .tagged tag node => do return .tagged tag (← node.coerce)
  | .repetition node bounds => do return .repetition (← node.coerce) bounds
  | .text s => .ok (.ref s)
  | .pattern p => do return .token (← Token.make p.source p.flags)
  | .list items => do return .seq (← coerceAll items)
  | .tuple items => do return .seq (← coerceAll items)
  | .dict entries => coerceTagged entries
  | .null => unusable .null
  | .bool b => unusable (.bool b)
  | .int n => unusable (.int n)
termination_by structural d => d

def coerceAll : List Declaration → Except Fault (List Rule)
  | [] => .ok []
  | d :: rest => do
    let r ← d.coerce
    return r :: (← coerceAll rest)
termination_by structural ds => ds

/-- The tagged rule that a dictionary with one entry stands for. -/
def coerceTagged : List (Key × Declaration) → Except Fault Rule
  | [] => .error (.rule (.tagCount (shownList [])))
  | (k, d) :: rest =>
    match rest with
    | [] => do return .tagged k.asText (← d.coerce)
    | more =>
      .error (.rule (.tagCount (shownList (k.shown :: more.map fun e => e.1.shown))))
termination_by structural es => es

end

mutual

/-- The declaration as it stands: nodes stay nodes and everything else is unknown. -/
def asIs : Declaration → Rule
  | .token t => .token t
  | .ref name => .ref name
  | .seq items => .seq (asIsAll items)
  | .choice alts => .choice (asIsAll alts)
  | .tagged tag node => .tagged tag node.asIs
  | .repetition node bounds => .repetition node.asIs bounds
  | .null => .unknown .null
  | .bool b => .unknown (.bool b)
  | .int n => .unknown (.int n)
  | .text s => .unknown (.text s)
  | .pattern p => .unknown (.pattern p)
  | .list items => .unknown (.list items)
  | .tuple items => .unknown (.tuple items)
  | .dict entries => .unknown (.dict entries)
termination_by structural d => d

def asIsAll : List Declaration → List Rule
  | [] => []
  | d :: rest => d.asIs :: asIsAll rest
termination_by structural ds => ds

end

def oneOf (alts : List Declaration) : Except Fault Declaration := do
  return (Rule.choice (← coerceAll alts)).declaration

/-- The repetition of a declaration, either exactly `count` times or within bounds. -/
def times (node : Declaration) (count min max : Option Int) : Except Fault Declaration := do
  if count.isSome && (min.isSome || max.isSome) then
    throw (.rule .countWithBounds)
  -- the node is looked at before the bounds
  let rule ← node.coerce
  let (low, high) := if count.isSome then (count, count) else (min, max)
  match Bounds.ofInt? low high with
  | .ok bounds => return (Rule.repetition rule bounds).declaration
  | .error f => throw (.rule f)

/-- The repetition of a declaration that is left as it is. -/
def repeated (node : Declaration) (min max : Option Int) : Except Fault Declaration :=
  match Bounds.ofInt? min max with
  | .ok bounds => .ok (.repetition node bounds)
  | .error f => .error (.rule f)

end Declaration

/-- Declarations by key, as a caller collects them. -/
abbrev Drafts := Table Key Declaration

/-- The rules that a caller's declarations stand for. Keys that read alike are one name. -/
def Drafts.coerce (drafts : Drafts) : Except Fault Rules :=
  drafts.foldlM (fun rules e => do return rules.insert e.1.asText (← e.2.coerce)) []

/-- The declarations as they stand. A null declares nothing, and only a text is a name. -/
def Drafts.asIs (drafts : Drafts) : Rules :=
  drafts.filterMap fun (k, d) =>
    match k, d with
    | .text _, .null => none
    | .text name, d => some (name, d.asIs)
    | _, _ => none

def Rules.drafts (rules : Rules) : Drafts := rules.map fun (name, r) => (.text name, r.declaration)

end TextGrammar
