import TextGrammar.Pattern.BuiltIn
import TextGrammar.Proofs.Reentry

/-!
# Rule sets whose evaluations end

A set of rules can be checked for left recursion without a text. A rule is *nullable*
if it may match without taking anything, and a call of a name is a *left call* if it
may be made before anything has been taken, that is behind nullable items only. With
skipping, a token makes a left call of `$space`, in which nothing is skipped.

The main statement is that every evaluation ends if no name leads back to itself by
left calls. Repetitions need no condition: a round that takes nothing is the last.

* What matches without taking anything is nullable (`nullable_of_gives`), so an item
  that is not nullable moves the position.
* A call that is started at the same position sits at the left (`Setting.Starts.atLeft`).
* An evaluation that does not end enters a reference that is open. Positions never go
  back, so all calls in between are at one position, and they make a cycle.
-/

namespace TextGrammar

variable {s : Setting}

/-! ## Rules that may match without taking anything -/

/-- The rule may match without taking anything. -/
inductive Nullable (rules : Rules) : Rule → Prop where
  /-- There is a text at whose front the token matches without going further. -/
  | token {t : Token} {text : List Char} {found : Found} :
      t.find? text = some found → found.length = 0 → Nullable rules (.token t)
  | ref {name : String} {body : Rule} :
      rules.get? name = some body → Nullable rules body → Nullable rules (.ref name)
  | seq {items : List Rule} :
      (∀ r ∈ items, Nullable rules r) → Nullable rules (.seq items)
  | tagged {tag : String} {node : Rule} :
      Nullable rules node → Nullable rules (.tagged tag node)
  | choice {alts : List Rule} {r : Rule} :
      r ∈ alts → Nullable rules r → Nullable rules (.choice alts)
  /-- No round has to be made. -/
  | optional {node : Rule} {bounds : Bounds} :
      bounds.min = none ∨ bounds.min = some 0 → Nullable rules (.repetition node bounds)
  | repetition {node : Rule} {bounds : Bounds} :
      Nullable rules node → Nullable rules (.repetition node bounds)

/-- A verdict on a token that takes nothing shows the token nullable. -/
theorem nullable_of_takeToken {t : Token} {pos start : Int} {value : Value}
    (hstart : pos ≤ start) (h : s.takeToken t pos start = .success value pos) :
    Nullable s.rules (.token t) := by
  unfold Setting.takeToken at h
  split at h
  · simp at h
  · rename_i found hfound
    obtain ⟨-, hstop⟩ := Verdict.success.inj h
    exact .token hfound (by omega)

theorem nullable_of_evalItems {e : Enter} (he : s.EntersWithin e) {skip : Bool} {items : List Rule}
    (hitems : ∀ r ∈ items, ∀ pos tags value after,
      (eval s e r pos tags skip).ending = .done ⟨.success value pos, after⟩ → Nullable s.rules r)
    {pos : Int} {tags after : Tags} {values : List Value}
    (h : (evalItems s e items pos tags skip).ending = .done ⟨some values, pos, after⟩) :
    ∀ r ∈ items, Nullable s.rules r := by
  induction items generalizing tags after values with
  | nil => simp
  | cons r rest ih =>
      obtain ⟨value, mid, inner, more, hdone, hmore, -⟩ := evalItems_cons_done h
      have hgo : s.Within pos mid := eval_within he r pos tags skip _ hdone
      have hback : s.Within mid pos :=
        evalItems_within (fun r' _ p t => eval_within he r' p t skip) mid inner _ hmore
      -- nothing was taken by the rest, so nothing was taken by the first item
      obtain rfl : mid = pos := hgo.antisymm hback
      intro q hq
      rcases List.mem_cons.mp hq with rfl | hq
      · exact hitems q List.mem_cons_self _ tags value inner hdone
      · exact ih (fun r' hr' => hitems r' (List.mem_cons_of_mem _ hr')) hmore q hq

theorem nullable_of_evalChoice {e : Enter} {skip : Bool} {alts : List Rule} {pos : Int}
    {tags after : Tags} {value : Value} {index : Nat}
    (halts : ∀ r ∈ alts,
      (eval s e r pos tags skip).ending = .done ⟨.success value pos, after⟩ → Nullable s.rules r)
    (h : (evalChoice s e index alts pos tags skip).ending = .done ⟨.success value pos, after⟩) :
    ∃ r ∈ alts, Nullable s.rules r := by
  induction alts generalizing index with
  | nil => simp [evalChoice] at h
  | cons r rest ih =>
      rcases evalChoice_cons_done h with hdone | ⟨-, hrest⟩
      · exact ⟨r, List.mem_cons_self, halts r List.mem_cons_self hdone⟩
      · obtain ⟨q, hq, hnull⟩ := ih (fun r' hr' => halts r' (List.mem_cons_of_mem _ hr')) hrest
        exact ⟨q, List.mem_cons_of_mem _ hq, hnull⟩

/-- A repetition that takes nothing makes no round, or its first round takes nothing. -/
theorem repeatRounds_stop_eq {body : Int → Tags → Run Outcome}
    (hbody : ∀ pos tags, (body pos tags).Yields fun o => s.Within pos o.verdict.stop)
    {fuel : Nat} {left : Option Nat} {pos : Int} {tags : Tags} {rounds : Rounds}
    (h : (repeatRounds body fuel left pos tags).ending = .done rounds)
    (hstop : rounds.stop = pos) :
    (rounds.values = [] ∧ rounds.idle = none)
      ∨ ∃ value after, (body pos tags).ending = .done ⟨.success value pos, after⟩ := by
  cases fuel with
  | zero =>
      obtain rfl : ⟨[], pos, tags, none⟩ = rounds := by simpa [repeatRounds] using h
      exact Or.inl ⟨rfl, rfl⟩
  | succ fuel =>
      rcases repeatRounds_succ_done h with ⟨rfl, -⟩ | ⟨-, value, after, hdone, -⟩
        | ⟨-, value, mid, after, more, hdone, hne, hmore, rfl⟩
      · exact Or.inl ⟨rfl, rfl⟩
      · exact Or.inr ⟨value, after, hdone⟩
      · have hgo : s.Within pos mid := hbody pos tags _ hdone
        have hback : s.Within mid more.stop := repeatRounds_within hbody _ _ _ _ more hmore
        dsimp only at hstop
        exact absurd (hgo.antisymm (hstop ▸ hback)) hne

/-- A rule is nullable if it takes nothing, provided that the rules referred to are. -/
theorem nullable_of_eval {e : Enter} (he : s.EntersWithin e)
    (hrefs : ∀ name pos skip value, (e name pos skip).ending = .done (.success value pos) →
      Nullable s.rules (.ref name))
    (r : Rule) {pos : Int} {tags after : Tags} {skip : Bool} {value : Value}
    (h : (eval s e r pos tags skip).ending = .done ⟨.success value pos, after⟩) :
    Nullable s.rules r := by
  induction r generalizing pos tags after value with
  | token t =>
      rw [eval_token_ending, Ending.andThen_eq_done_iff] at h
      obtain ⟨start, hstart, htaken⟩ := h
      have hgo : s.Within pos start := tokenStart_within he pos skip _ hstart
      exact nullable_of_takeToken hgo.1 (congrArg Outcome.verdict (Ending.done.inj htaken))
  | ref name =>
      rw [eval_ref_ending, Ending.andThen_eq_done_iff] at h
      obtain ⟨v, hv, hout⟩ := h
      obtain rfl : v = .success value pos := congrArg Outcome.verdict (Ending.done.inj hout)
      exact hrefs name pos skip value hv
  | seq items ih =>
      rw [eval_seq_ending, Ending.andThen_eq_done_iff] at h
      obtain ⟨⟨values, stop, inner⟩, hdone, hout⟩ := h
      cases values with
      | none => simp [Progress.outcome] at hout
      | some values =>
          obtain ⟨⟨-, rfl⟩, -⟩ := by simpa [Progress.outcome] using hout
          exact .seq (nullable_of_evalItems he (fun r hr _ _ _ _ hd => ih r hr hd) hdone)
  | tagged tag node ih =>
      rw [eval_tagged_ending, Ending.andThen_eq_done_iff] at h
      obtain ⟨⟨v, inner⟩, hdone, hout⟩ := h
      cases v with
      | failure stop => simp [Outcome.filed] at hout
      | success value' stop =>
          obtain ⟨⟨rfl, rfl⟩, -⟩ := by simpa [Outcome.filed] using hout
          exact .tagged (ih hdone)
  | choice alts ih =>
      rw [eval_choice_ending] at h
      obtain ⟨r, hr, hnull⟩ := nullable_of_evalChoice (fun r hr hd => ih r hr hd) h
      exact .choice hr hnull
  | repetition node bounds ih =>
      rw [eval_repetition_ending, Ending.andThen_eq_done_iff] at h
      obtain ⟨rounds, hrounds, hfinish⟩ := h
      rw [finishRounds_ending] at hfinish
      split at hfinish
      · simp at hfinish
      · unfold Bounds.outcome at hfinish
        split at hfinish
        · rename_i hleast
          obtain ⟨⟨-, hstop⟩, -⟩ := by simpa using hfinish
          rcases repeatRounds_stop_eq (fun p t => eval_within he node p t skip) hrounds hstop with
            ⟨hvalues, hidle⟩ | ⟨value, after, hdone⟩
          · have hzero : bounds.least = 0 := by
              simpa [Rounds.filled, Rounds.missing, hvalues, hidle] using hleast
            refine .optional ?_
            unfold Bounds.least at hzero
            cases hmin : bounds.min with
            | none => exact Or.inl rfl
            | some least =>
                rw [hmin] at hzero
                exact Or.inr (congrArg some hzero)
          · exact .repetition (ih hdone)
        · simp at hfinish
  | unknown value => simp [eval_unknown_ending] at h

/-- What matches without taking anything is nullable. -/
theorem nullable_of_gives {r : Rule} {pos : Int} {tags after : Tags} {skip : Bool} {value : Value}
    (h : s.Gives ⟨r, pos, tags, skip⟩ ⟨.success value pos, after⟩) : Nullable s.rules r := by
  obtain ⟨depth, hdone⟩ := h
  refine nullable_of_eval (enter_within s depth) ?_ r hdone
  -- what is left is about references, by induction on how many may be followed
  clear hdone
  induction depth with
  | zero =>
      intro name pos skip value hv
      cases hbody : s.rules.get? name with
      | none => simp [enter_undefined hbody] at hv
      | some body => simp [enter_zero hbody] at hv
  | succ depth ih =>
      intro name pos skip value hv
      cases hbody : s.rules.get? name with
      | none => simp [enter_undefined hbody] at hv
      | some body =>
          rw [enter_succ hbody, Ending.andThen_eq_done_iff] at hv
          obtain ⟨⟨v, inner⟩, hdone, hsettled⟩ := hv
          cases v with
          | failure stop => simp [Setting.settled] at hsettled
          | success value' stop =>
              unfold Setting.settled at hsettled
              dsimp only at hsettled
              split at hsettled
              · obtain ⟨-, rfl⟩ := by simpa using hsettled
                exact .ref hbody (nullable_of_eval (enter_within s depth) ih body hdone)
              · simp at hsettled

/-! ## Calls that are made before anything has been taken -/

/-- The second rule sits in the first one with nullable items only before it. -/
inductive AtLeft (rules : Rules) : Rule → Rule → Prop where
  | self {r : Rule} : AtLeft rules r r
  | seq {before rest : List Rule} {r leaf : Rule} :
      (∀ q ∈ before, Nullable rules q) → AtLeft rules r leaf →
      AtLeft rules (.seq (before ++ r :: rest)) leaf
  | tagged {tag : String} {node leaf : Rule} :
      AtLeft rules node leaf → AtLeft rules (.tagged tag node) leaf
  | choice {alts : List Rule} {r leaf : Rule} :
      r ∈ alts → AtLeft rules r leaf → AtLeft rules (.choice alts) leaf
  | repetition {node leaf : Rule} {bounds : Bounds} :
      AtLeft rules node leaf → AtLeft rules (.repetition node bounds) leaf

theorem AtLeft.trans {rules : Rules} {a b c : Rule} (hab : AtLeft rules a b)
    (hbc : AtLeft rules b c) : AtLeft rules a c := by
  induction hab with
  | self => exact hbc
  | seq hbefore _ ih => exact .seq hbefore (ih hbc)
  | tagged _ ih => exact .tagged (ih hbc)
  | choice hr _ ih => exact .choice hr (ih hbc)
  | repetition _ ih => exact .repetition (ih hbc)

/--
The rule of the first name calls the second one before it has taken anything. A name
comes with whether space is skipped.
-/
inductive LeftCall (rules : Rules) : String × Bool → String × Bool → Prop where
  | ref {name target : String} {body : Rule} {skip : Bool} :
      rules.get? name = some body → AtLeft rules body (.ref target) →
      LeftCall rules (name, skip) (target, skip)
  /-- A token calls `$space`, and nothing is skipped inside that. -/
  | space {name : String} {body : Rule} {t : Token} :
      rules.get? name = some body → AtLeft rules body (.token t) →
      LeftCall rules (name, true) (spaceName, false)

/-- No name leads back to itself by left calls. -/
def NoLeftRecursion (rules : Rules) : Prop := ∀ p, ¬Relation.TransGen (LeftCall rules) p p

theorem ItemStart.atLeft {skip : Bool} {items : List Rule} {pos : Int} {tags : Tags} {c : Call}
    (h : ItemStart s skip items pos tags c) (hpos : c.pos = pos) :
    c.skip = skip
      ∧ ∃ before rest, items = before ++ c.rule :: rest ∧ ∀ q ∈ before, Nullable s.rules q := by
  induction h with
  | @here r rest pos tags => exact ⟨rfl, [], rest, rfl, by simp⟩
  | @later r rest pos mid tags after value c hgives hrest ih =>
      have hgo : s.Within pos mid := hgives.within
      have hback : s.Within mid c.pos := hrest.within
      obtain rfl : mid = pos := hgo.antisymm (hpos ▸ hback)
      obtain ⟨hskip, before, rest, rfl, hbefore⟩ := ih hpos
      refine ⟨hskip, r :: before, rest, rfl, fun q hq => ?_⟩
      rcases List.mem_cons.mp hq with rfl | hq
      · exact nullable_of_gives hgives
      · exact hbefore q hq

theorem ItemStart.mem {skip : Bool} {items : List Rule} {pos : Int} {tags : Tags} {c : Call}
    (h : ItemStart s skip items pos tags c) : c.skip = skip ∧ c.rule ∈ items := by
  induction h with
  | here => exact ⟨rfl, List.mem_cons_self⟩
  | later _ _ ih => exact ⟨ih.1, List.mem_cons_of_mem _ ih.2⟩

theorem AltStart.mem {skip : Bool} {alts : List Rule} {pos : Int} {tags : Tags} {c : Call}
    (h : AltStart s skip alts pos tags c) : c.skip = skip ∧ c.rule ∈ alts := by
  induction h with
  | here => exact ⟨rfl, List.mem_cons_self⟩
  | later _ _ ih => exact ⟨ih.1, List.mem_cons_of_mem _ ih.2⟩

theorem RoundStart.rule_eq {node : Rule} {skip : Bool} {left : Option Nat} {pos : Int} {tags : Tags}
    {c : Call} (h : RoundStart s node skip left pos tags c) : c.skip = skip ∧ c.rule = node := by
  induction h with
  | here _ => exact ⟨rfl, rfl⟩
  | later _ _ _ _ ih => exact ih

/--
How a call is started at the position of another one: as `$space` by a token, as the
definition of a name, or as a part at the left.
-/
theorem Setting.Starts.atLeft {c d : Call} (h : s.Starts c d) (hpos : d.pos = c.pos) :
    (∃ t, c.rule = .token t ∧ c.skip = true ∧ d.rule = .ref spaceName ∧ d.skip = false)
      ∨ (∃ name, c.rule = .ref name ∧ s.rules.get? name = some d.rule ∧ d.skip = c.skip)
      ∨ ((∀ name, c.rule ≠ .ref name) ∧ AtLeft s.rules c.rule d.rule ∧ d.skip = c.skip) := by
  cases h with
  | @space t _ _ => exact Or.inl ⟨t, rfl, rfl, rfl, rfl⟩
  | @body name _ _ _ _ hbody => exact Or.inr (Or.inl ⟨name, rfl, hbody, rfl⟩)
  | item hitem =>
      obtain ⟨hskip, before, rest, rfl, hbefore⟩ := hitem.atLeft hpos
      exact Or.inr (Or.inr ⟨by simp, .seq hbefore .self, hskip⟩)
  | inner => exact Or.inr (Or.inr ⟨by simp, .tagged .self, rfl⟩)
  | alternative halt => exact Or.inr (Or.inr ⟨by simp, .choice halt.mem.2 .self, halt.mem.1⟩)
  | round hround =>
      obtain ⟨hskip, hnode⟩ := hround.rule_eq
      exact Or.inr (Or.inr ⟨by simp, .repetition (hnode ▸ .self), hskip⟩)

/--
The call sits where left calls from a name lead: at the left of the definition of a name
that is reached, or as a reference that has been followed so far.
-/
def Call.LeftFrom (rules : Rules) (p : String × Bool) (c : Call) : Prop :=
  (∃ q body, Relation.ReflTransGen (LeftCall rules) p q ∧ rules.get? q.1 = some body
      ∧ AtLeft rules body c.rule ∧ c.skip = q.2)
    ∨ ∃ name, c.rule = .ref name ∧ Relation.TransGen (LeftCall rules) p (name, c.skip)

/-- Where left calls lead to a reference, they lead to the name. -/
theorem Call.LeftFrom.ref {rules : Rules} {p : String × Bool} {c : Call} {name : String}
    (h : c.LeftFrom rules p) (hc : c.rule = .ref name) :
    Relation.TransGen (LeftCall rules) p (name, c.skip) := by
  rcases h with ⟨⟨m, k⟩, body, hpath, hbody, hleft, hskip⟩ | ⟨name', hname, hpath⟩
  · rw [hc] at hleft
    rw [hskip]
    exact Relation.TransGen.tail' hpath (.ref hbody hleft)
  · obtain rfl : name = name' := Rule.ref.inj (hc ▸ hname)
    exact hpath

theorem Call.LeftFrom.next {p : String × Bool} {c d : Call} (h : c.LeftFrom s.rules p)
    (hstarts : s.Starts c d) (hpos : d.pos = c.pos) : d.LeftFrom s.rules p := by
  rcases hstarts.atLeft hpos with ⟨t, hc, hskip, hd, hskip'⟩ | ⟨name, hc, hbody, hskip'⟩
    | ⟨hpart, hleft', hskip'⟩
  · rcases h with ⟨⟨m, k⟩, body, hpath, hbody, hleft, hk⟩ | ⟨name, hname, -⟩
    · refine Or.inr ⟨spaceName, hd, ?_⟩
      obtain rfl : k = true := hk.symm.trans hskip
      rw [hskip']
      exact Relation.TransGen.tail' hpath (.space hbody (hc ▸ hleft))
    · rw [hc] at hname
      simp at hname
  · exact Or.inl ⟨(name, c.skip), d.rule, (h.ref hc).to_reflTransGen, hbody, .self, hskip'⟩
  · rcases h with ⟨q, body, hpath, hbody, hleft, hk⟩ | ⟨name, hname, hpath⟩
    · exact Or.inl ⟨q, body, hpath, hbody, hleft.trans hleft', hskip'.trans hk⟩
    · exact absurd hname (hpart name)

/-- Calls that a reference leads to at its own position are reached by left calls. -/
theorem leftFrom_of_transGen {c d : Call} {e : Entry} (hc : e ∈ c.entries s)
    (h : Relation.TransGen s.Starts c d) (hpos : d.pos = c.pos) :
    d.LeftFrom s.rules (e.name, e.skip) := by
  obtain ⟨-, hcall⟩ := Call.mem_entries hc
  have hrule : c.rule = .ref e.name := by rw [hcall]
  have hskip : c.skip = e.skip := by rw [hcall]
  induction h with
  | single hstarts =>
      rcases hstarts.atLeft hpos with ⟨t, ht, -⟩ | ⟨name, hname, hbody, hd⟩ | ⟨hpart, -⟩
      · rw [hrule] at ht
        simp at ht
      · obtain rfl : e.name = name := Rule.ref.inj (hrule ▸ hname)
        exact Or.inl ⟨(e.name, e.skip), _, .refl, hbody, .self, hd.trans hskip⟩
      · exact absurd hrule (hpart e.name)
  | @tail m d hpath hstarts ih =>
      have hgo : s.Within c.pos m.pos := within_of_transGen hpath
      have hback : s.Within m.pos d.pos := hstarts.within
      have hmid : m.pos = c.pos := hgo.antisymm (hpos ▸ hback)
      exact (ih hmid).next hstarts (by rw [hpos, hmid])

/-- Without left recursion no reference is entered while it is open. -/
theorem not_reenters {start : Call} (h : NoLeftRecursion s.rules) : ¬s.Reenters start := by
  rintro ⟨c, es, e, hopens, hc, hes⟩
  obtain ⟨d, ds, -, hd, hpath⟩ := hopens.of_mem hes
  obtain ⟨-, hceq⟩ := Call.mem_entries hc
  obtain ⟨-, hdeq⟩ := Call.mem_entries hd
  have hpos : c.pos = d.pos := by rw [hceq, hdeq]
  have hrule : c.rule = .ref e.name := by rw [hceq]
  have hskip : c.skip = e.skip := by rw [hceq]
  -- the two calls are at one position, so the way between them is one of left calls
  have hcycle := (leftFrom_of_transGen hd hpath hpos).ref hrule
  rw [hskip] at hcycle
  exact h _ hcycle

/--
**Without left recursion every evaluation ends**, from any rule, at any position of any
text, whatever the actions do: it has a result, or an action raises a fault. That holds with
no bound on the references that may be open, and no repetition in it is cut short: any
amount of fuel above the room that is left makes the same rounds.
-/
theorem apply_ends (s : Setting) (h : NoLeftRecursion s.rules) (name : String) (pos : Int) :
    ((∃ v, (s.apply name pos).ending = .done v) ∨ ∃ f, (s.apply name pos).ending = .raised f)
      ∧ ¬s.NeverEnds (Call.first name pos)
      ∧ ∀ depth node skip start tags left fuel, s.room start < fuel →
          repeatRounds (fun p t => eval s (enter s depth) node p t skip) fuel left start tags =
            repeatRounds (fun p t => eval s (enter s depth) node p t skip) (s.room start + 1) left
              start tags := by
  have hnever : ¬s.NeverEnds (Call.first name pos) := fun hrun =>
    not_reenters h (reenters_of_runaway (hrun _))
  refine ⟨?_, hnever, ?_⟩
  · cases hend : (s.apply name pos).ending with
    | done v => exact Or.inl ⟨v, rfl⟩
    | raised f => exact Or.inr ⟨f, rfl⟩
    | runaway => exact absurd (apply_eq_runaway_iff.mp hend) hnever
  · intro depth node skip start tags left fuel hfuel
    exact repeatRounds_fuel (fun p t => eval_within (enter_within s depth) node p t skip) hfuel
      (Nat.lt_succ_self _) left tags

/-- Left calls that lower a rank never lead back. -/
theorem noLeftRecursion_of_rank {rules : Rules} (rank : String × Bool → Nat)
    (h : ∀ p q, LeftCall rules p q → rank q < rank p) : NoLeftRecursion rules := by
  intro p hp
  have hlower : ∀ q, Relation.TransGen (LeftCall rules) p q → rank q < rank p := by
    intro q hq
    induction hq with
    | single hcall => exact h _ _ hcall
    | tail _ hcall ih => exact Nat.lt_trans (h _ _ hcall) ih
  exact Nat.lt_irrefl _ (hlower p hp)

/-- The pattern `x`. -/
def letterToken : Token :=
  ⟨"x", Flags.none, Pattern.compiled (.seq (.literal 120 .exact) .empty) 0⟩

/-- The pattern `x*`. -/
def lettersToken : Token :=
  ⟨"x*", Flags.none, Pattern.compiled (.seq (.times (.literal 120 .exact) 0 none .greedy) .empty) 0⟩

example : letterToken.Compiles ∧ lettersToken.Compiles := ⟨rfl, rfl⟩

/--
Rules that repeat without bounds what may match without taking anything, and that are
recursive behind a letter.
-/
def letterRules : Rules :=
  [("$begin", .repetition (.ref "nest") ⟨none, none, by simp⟩),
   ("nest", .choice [.seq [.token letterToken, .ref "nest"], .ref spaceName]),
   (spaceName, .token lettersToken)]

theorem not_nullable_letterToken : ¬Nullable letterRules (.token letterToken) := by
  intro h
  cases h with
  | @token _ text found hfound hempty =>
      cases text with
      | nil => cases hfound
      | cons c rest =>
          have hset : letterToken.find? (c :: rest) =
              if (CharSet.single 120 .exact).has c then some ⟨[c], 1⟩ else none := by
            by_cases hc : (CharSet.single 120 .exact).has c <;>
              simp [Token.find?, letterToken, Pattern.compiled, Pattern.find?, Pattern.run,
                Pattern.literal, Scan.start, Scan.take?, hc]
          rw [hset] at hfound
          split at hfound
          · obtain rfl := Option.some.inj hfound
            cases hempty
          · cases hfound

theorem letterRules_get? {name : String} {body : Rule} (h : letterRules.get? name = some body) :
    (name = "$begin" ∧ body = .repetition (.ref "nest") ⟨none, none, by simp⟩)
      ∨ (name = "nest" ∧ body = .choice [.seq [.token letterToken, .ref "nest"], .ref spaceName])
      ∨ (name = spaceName ∧ body = .token lettersToken) := by
  have hmem : (name, body) ∈ letterRules := Table.mem_of_get? h
  simpa [letterRules] using hmem

/-- The recursion is not at the left: a letter comes before it. -/
theorem atLeft_letterToken {leaf : Rule}
    (h : AtLeft letterRules (.seq [.token letterToken, .ref "nest"]) leaf) :
    (∀ target, leaf ≠ .ref target) := by
  generalize hseq : [Rule.token letterToken, .ref "nest"] = items at h
  cases h with
  | self => simp
  | @seq before rest r _ hbefore hr =>
      cases before with
      | nil =>
          obtain ⟨rfl, -⟩ := List.cons.inj hseq
          cases hr
          simp
      | cons q before =>
          obtain ⟨rfl, -⟩ := List.cons.inj hseq
          exact absurd (hbefore _ List.mem_cons_self) not_nullable_letterToken

/-- The order in which the rules call each other at the left. -/
def letterRank (p : String × Bool) : Nat :=
  (if p.1 = "$begin" then 4 else if p.1 = "nest" then 2 else 0) + p.2.toNat

/-- References at the left of the rules lower the rank. -/
theorem letterRank_ref {name target : String} {body : Rule}
    (hbody : letterRules.get? name = some body) (hleft : AtLeft letterRules body (.ref target))
    (skip : Bool) : letterRank (target, skip) < letterRank (name, skip) := by
  rcases letterRules_get? hbody with ⟨rfl, rfl⟩ | ⟨rfl, rfl⟩ | ⟨rfl, rfl⟩
  · cases hleft with
    | repetition hnode =>
        cases hnode
        cases skip <;> decide
  · cases hleft with
    | choice hr halt =>
        rcases List.mem_cons.mp hr with rfl | hr
        · exact absurd rfl (atLeft_letterToken halt target)
        · obtain rfl := List.mem_singleton.mp hr
          cases halt
          cases skip <;> decide
  · cases hleft

theorem noLeftRecursion_letterRules : NoLeftRecursion letterRules := by
  refine noLeftRecursion_of_rank letterRank fun p q h => ?_
  cases h with
  | ref hbody hleft => exact letterRank_ref hbody hleft _
  | space hbody _ =>
      rcases letterRules_get? hbody with ⟨rfl, -⟩ | ⟨rfl, -⟩ | ⟨rfl, -⟩ <;> decide

/-- With these rules evaluations end, also where a round takes nothing. -/
theorem apply_letterRules_ends :
    NoLeftRecursion letterRules
      ∧ ¬(⟨letterRules, fun _ => none, "xxy".toList, Fault.listCapacity⟩ : Setting).NeverEnds
        (Call.first "$begin" 0) :=
  ⟨noLeftRecursion_letterRules,
    (apply_ends ⟨letterRules, fun _ => none, "xxy".toList, Fault.listCapacity⟩
      noLeftRecursion_letterRules "$begin" 0).2.1⟩

end TextGrammar
