import TextGrammar.Proofs.Replies

/-!
# What rules mean

A reference semantics: `Setting.Derives` says which reply there is to a task. A failure is
a bare fact in it, so nothing can be carried over from an alternative, an item or a round
that failed, and there is no depth and no fuel.

A repetition is the plain loop. It evaluates its node again until the upper bound is
reached, a round fails, or a round has taken nothing and enough rounds are there. The
evaluator does not make a round again that takes nothing; that this comes to the same is
`derives_idle`.
-/

namespace TextGrammar

variable {s : Setting}

/-! ## The reply to a task -/

/--
`s.Derives task pos tags skip reply`: at the position, with the parts tagged so far, with
or without skipping, the task comes to the reply.
-/
inductive Setting.Derives (s : Setting) : Task → Int → Tags → Bool → Reply → Prop where
  | token {t : Token} {pos : Int} {tags : Tags} :
      Derives s (.rule (.token t)) pos tags false (s.tokenReply t pos tags)
  /-- What `$space` takes is skipped; its value and its tagged parts are dropped. -/
  | tokenSpace {t : Token} {pos start : Int} {tags inner : Tags} {value : Value} :
      Derives s (.rule (.ref spaceName)) pos [] false (.success value start inner) →
      Derives s (.rule (.token t)) pos tags true (s.tokenReply t start tags)
  | tokenNoSpace {t : Token} {pos : Int} {tags : Tags} :
      Derives s (.rule (.ref spaceName)) pos [] false .fail →
      Derives s (.rule (.token t)) pos tags true (s.tokenReply t pos tags)
  | tokenRaised {t : Token} {pos : Int} {tags : Tags} {f : Fault} :
      Derives s (.rule (.ref spaceName)) pos [] false (.raised f) →
      Derives s (.rule (.token t)) pos tags true (.raised f)
  | undefined {name : String} {pos : Int} {tags : Tags} {skip : Bool} :
      s.rules.get? name = none →
      Derives s (.rule (.ref name)) pos tags skip .fail
  /-- A definition starts without tagged parts, and the caller keeps its own. -/
  | ref {name : String} {body : Rule} {pos stop : Int} {tags inner : Tags} {skip : Bool}
      {value : Value} :
      s.rules.get? name = some body →
      Derives s (.rule body) pos [] skip (.success value stop inner) →
      Derives s (.rule (.ref name)) pos tags skip (s.refReply name (value.merge inner) stop tags)
  | refFail {name : String} {body : Rule} {pos : Int} {tags : Tags} {skip : Bool} :
      s.rules.get? name = some body →
      Derives s (.rule body) pos [] skip .fail →
      Derives s (.rule (.ref name)) pos tags skip .fail
  | refRaised {name : String} {body : Rule} {pos : Int} {tags : Tags} {skip : Bool} {f : Fault} :
      s.rules.get? name = some body →
      Derives s (.rule body) pos [] skip (.raised f) →
      Derives s (.rule (.ref name)) pos tags skip (.raised f)
  | seq {items : List Rule} {pos : Int} {tags : Tags} {skip : Bool} {reply : Reply} :
      Derives s (.items [] items) pos tags skip reply →
      Derives s (.rule (.seq items)) pos tags skip reply
  | itemsDone {done : List Value} {pos : Int} {tags : Tags} {skip : Bool} :
      Derives s (.items done []) pos tags skip (.success (.list done) pos tags)
  | item {done : List Value} {r : Rule} {rest : List Rule} {pos mid : Int} {tags after : Tags}
      {skip : Bool} {value : Value} {reply : Reply} :
      Derives s (.rule r) pos tags skip (.success value mid after) →
      Derives s (.items (done ++ [value]) rest) mid after skip reply →
      Derives s (.items done (r :: rest)) pos tags skip reply
  | itemFail {done : List Value} {r : Rule} {rest : List Rule} {pos : Int} {tags : Tags}
      {skip : Bool} :
      Derives s (.rule r) pos tags skip .fail →
      Derives s (.items done (r :: rest)) pos tags skip .fail
  | itemRaised {done : List Value} {r : Rule} {rest : List Rule} {pos : Int} {tags : Tags}
      {skip : Bool} {f : Fault} :
      Derives s (.rule r) pos tags skip (.raised f) →
      Derives s (.items done (r :: rest)) pos tags skip (.raised f)
  /-- The parts tagged inside come first, then the rule's own tag. -/
  | tagged {tag : String} {node : Rule} {pos stop : Int} {tags inner : Tags} {skip : Bool}
      {value : Value} :
      Derives s (.rule node) pos [] skip (.success value stop inner) →
      Derives s (.rule (.tagged tag node)) pos tags skip
        (.success value stop ((Table.update tags inner).insert tag (value.merge inner)))
  | taggedFail {tag : String} {node : Rule} {pos : Int} {tags : Tags} {skip : Bool} :
      Derives s (.rule node) pos [] skip .fail →
      Derives s (.rule (.tagged tag node)) pos tags skip .fail
  | taggedRaised {tag : String} {node : Rule} {pos : Int} {tags : Tags} {skip : Bool}
      {f : Fault} :
      Derives s (.rule node) pos [] skip (.raised f) →
      Derives s (.rule (.tagged tag node)) pos tags skip (.raised f)
  | choice {alts : List Rule} {pos : Int} {tags : Tags} {skip : Bool} {reply : Reply} :
      Derives s (.alternatives alts) pos tags skip reply →
      Derives s (.rule (.choice alts)) pos tags skip reply
  | noAlternative {pos : Int} {tags : Tags} {skip : Bool} :
      Derives s (.alternatives []) pos tags skip .fail
  | alternative {r : Rule} {rest : List Rule} {pos stop : Int} {tags after : Tags} {skip : Bool}
      {value : Value} :
      Derives s (.rule r) pos tags skip (.success value stop after) →
      Derives s (.alternatives (r :: rest)) pos tags skip (.success value stop after)
  /-- The next alternative starts where the one that failed has started. -/
  | alternativeFail {r : Rule} {rest : List Rule} {pos : Int} {tags : Tags} {skip : Bool}
      {reply : Reply} :
      Derives s (.rule r) pos tags skip .fail →
      Derives s (.alternatives rest) pos tags skip reply →
      Derives s (.alternatives (r :: rest)) pos tags skip reply
  | alternativeRaised {r : Rule} {rest : List Rule} {pos : Int} {tags : Tags} {skip : Bool}
      {f : Fault} :
      Derives s (.rule r) pos tags skip (.raised f) →
      Derives s (.alternatives (r :: rest)) pos tags skip (.raised f)
  | repetition {node : Rule} {bounds : Bounds} {pos : Int} {tags : Tags} {skip : Bool}
      {reply : Reply} :
      Derives s (.rounds node bounds []) pos tags skip reply →
      Derives s (.rule (.repetition node bounds)) pos tags skip reply
  | roundsFull {node : Rule} {bounds : Bounds} {done : List Value} {pos : Int} {tags : Tags}
      {skip : Bool} :
      ¬bounds.Allows done.length →
      Derives s (.rounds node bounds done) pos tags skip (bounds.reply done pos tags)
  /-- The round that fails leaves nothing behind. -/
  | roundFail {node : Rule} {bounds : Bounds} {done : List Value} {pos : Int} {tags : Tags}
      {skip : Bool} :
      bounds.Allows done.length →
      Derives s (.rule node) pos tags skip .fail →
      Derives s (.rounds node bounds done) pos tags skip (bounds.reply done pos tags)
  /-- Enough rounds are there, and the last one has taken nothing. -/
  | roundIdle {node : Rule} {bounds : Bounds} {done : List Value} {pos : Int} {tags after : Tags}
      {skip : Bool} {value : Value} :
      bounds.Allows done.length →
      Derives s (.rule node) pos tags skip (.success value pos after) →
      bounds.least ≤ done.length + 1 →
      Derives s (.rounds node bounds done) pos tags skip
        (.success (.list (done ++ [value])) pos after)
  | round {node : Rule} {bounds : Bounds} {done : List Value} {pos mid : Int} {tags after : Tags}
      {skip : Bool} {value : Value} {reply : Reply} :
      bounds.Allows done.length →
      Derives s (.rule node) pos tags skip (.success value mid after) →
      mid ≠ pos ∨ done.length + 1 < bounds.least →
      Derives s (.rounds node bounds (done ++ [value])) mid after skip reply →
      Derives s (.rounds node bounds done) pos tags skip reply
  | roundRaised {node : Rule} {bounds : Bounds} {done : List Value} {pos : Int} {tags : Tags}
      {skip : Bool} {f : Fault} :
      bounds.Allows done.length →
      Derives s (.rule node) pos tags skip (.raised f) →
      Derives s (.rounds node bounds done) pos tags skip (.raised f)
  | unknown {value : Declaration} {pos : Int} {tags : Tags} {skip : Bool} :
      Derives s (.rule (.unknown value)) pos tags skip .fail

/-! ## Rounds that take nothing -/

/-- The bounds allow for rounds as long as there are not enough. -/
theorem Bounds.allows_of_lt_least {bounds : Bounds} {count : Nat} (h : count < bounds.least) :
    bounds.Allows count := by
  intro most hmost
  unfold Bounds.least at h
  cases hmin : bounds.min with
  | none => simp [hmin] at h
  | some least =>
      have hle : least ≤ most := bounds.ordered least most hmin hmost
      rw [hmin, Option.getD_some] at h
      exact Nat.lt_of_lt_of_le h hle

/-- The loop makes a round that takes nothing as often as rounds are missing. -/
theorem derives_idle {node : Rule} {bounds : Bounds} {pos : Int} {after : Tags} {skip : Bool}
    {value : Value} (hagain : s.Derives (.rule node) pos after skip (.success value pos after))
    (missing : Nat) {done : List Value} {tags : Tags} (hallows : bounds.Allows done.length)
    (hnode : s.Derives (.rule node) pos tags skip (.success value pos after))
    (hmissing : missing = bounds.least - (done.length + 1)) :
    s.Derives (.rounds node bounds done) pos tags skip
      (.success (.list (done ++ value :: List.replicate missing value)) pos after) := by
  induction missing generalizing done tags with
  | zero => exact .roundIdle hallows hnode (by omega)
  | succ missing ih =>
      have hlt : done.length + 1 < bounds.least := by omega
      have hlength : (done ++ [value]).length = done.length + 1 := by simp
      have hnext : bounds.Allows (done ++ [value]).length := by
        rw [hlength]
        exact Bounds.allows_of_lt_least hlt
      have hrest := ih hnext hagain (by omega)
      rw [← List.append_cons, ← List.replicate_succ] at hrest
      exact .round hallows hnode (Or.inr hlt) hrest

end TextGrammar
