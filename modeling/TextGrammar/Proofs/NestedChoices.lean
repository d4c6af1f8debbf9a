import TextGrammar.Grammar.Reader
import TextGrammar.Pattern.BuiltIn
import TextGrammar.Proofs.Contexts
import TextGrammar.Proofs.Equivalence
import TextGrammar.Proofs.Replay
import Mathlib

/-!
# A choice inside a choice

The alternatives of a choice that is itself an alternative may be put in its place
(`Setting.splice`). Wherever the outer choice stands, evaluations come to the same as before: they
have the same verdict and call the same actions (`apply_splice`).

At one position the two choices do the same, step by step (`eval_spliced`). After an alternative
that does not match, the next one starts from the same place with the same tagged parts, so it makes
no difference whether an inner choice ends between the two. What differs is how alternatives are
counted, which shows in the log only. Since both follow the same references, the rest is a
comparison along the rules at every depth.
-/

namespace TextGrammar

variable {s : Setting} {e : Enter} {skip : Bool}

/-! ## Alternatives in a row -/

/-- After alternatives that do not match, the others are tried from the same place. -/
theorem evalChoice_append (index : Nat) (front back : List Rule) (pos : Int) (tags : Tags) :
    evalChoice s e index (front ++ back) pos tags skip = (do
      match ← evalChoice s e index front pos tags skip with
      | ⟨.failure _, _⟩ => evalChoice s e (index + front.length) back pos tags skip
      | ⟨.success value stop, after⟩ => return ⟨.success value stop, after⟩) := by
  induction front generalizing index with
  | nil => rfl
  | cons r rest ih =>
      rw [List.cons_append, evalChoice, evalChoice, bind_assoc]
      congr 1
      funext o
      obtain ⟨v, after⟩ := o
      cases v with
      | failure stop =>
          dsimp only
          rw [ih, List.length_cons, Nat.add_right_comm, Nat.add_assoc]
      | success value stop => rfl

/-- How alternatives are counted is not seen by those who see the calls of actions. -/
theorem evalChoice_counted (index index' : Nat) (alts : List Rule) (pos : Int) (tags : Tags) :
    Run.Alike Event.call? Eq (evalChoice s e index alts pos tags skip)
      (evalChoice s e index' alts pos tags skip) := by
  induction alts generalizing index index' with
  | nil => exact .refl _
  | cons r rest ih =>
      rw [evalChoice, evalChoice]
      refine Run.Alike.bind (.refl _) ?_
      rintro ⟨v, after⟩ _ rfl
      cases v with
      | failure stop => exact ih (index + 1) (index' + 1)
      | success value stop => exact .unseen_left rfl (.unseen_right rfl (.refl _))

/-- A choice among alternatives does what its own alternatives do in its place. -/
theorem evalChoice_spliced (index index' : Nat) (inner back : List Rule) (pos : Int)
    (tags : Tags) :
    Run.Alike Event.call? Eq (evalChoice s e index (.choice inner :: back) pos tags skip)
      (evalChoice s e index' (inner ++ back) pos tags skip) := by
  rw [evalChoice, eval, bind_assoc, evalChoice_append]
  refine .unseen_left rfl (Run.Alike.bind (evalChoice_counted 0 index' inner pos tags) ?_)
  rintro ⟨v, after⟩ _ rfl
  cases v with
  | failure stop => exact evalChoice_counted _ _ back pos tags
  | success value stop => exact .unseen_left rfl (.refl _)

/-- A choice inside a choice, and the choice with the inner alternatives in its place. -/
theorem eval_spliced (before inner after : List Rule) (pos : Int) (tags : Tags) :
    Run.Alike Event.call? Eq
      (eval s e (.choice (before ++ .choice inner :: after)) pos tags skip)
      (eval s e (.choice (before ++ inner ++ after)) pos tags skip) := by
  rw [eval, eval, List.append_assoc, evalChoice_append, evalChoice_append]
  refine .unseen_left rfl (.unseen_right rfl (Run.Alike.bind (.refl _) ?_))
  rintro ⟨v, left⟩ _ rfl
  cases v with
  | failure stop => exact evalChoice_spliced _ _ inner after pos tags
  | success value stop => exact .refl _

/-! ## In any place of any rule -/

/-- The setting in which the alternatives of an inner choice have taken its place in the outer. -/
def Setting.splice (s : Setting) (name : String) (place : Rule.Context)
    (before inner after : List Rule) : Setting :=
  { s with rules := s.rules.insert name (place.fill (.choice (before ++ inner ++ after))) }

section Splicing

variable {name start : String} {place : Rule.Context} {before inner after : List Rule}

/-- References come to the same at every depth. -/
theorem splice_agrees
    (hoccurs : s.rules.get? name = some (place.fill (.choice (before ++ .choice inner :: after))))
    (depth : Nat) :
    EntersAgree (.alike Event.call?) .same (s.evaluator depth)
      ((s.splice name place before inner after).evaluator depth) fun _ _ => True := by
  have hspliced : (s.splice name place before inner after).rules.get? name
      = some (place.fill (.choice (before ++ inner ++ after))) := Table.get?_insert_self _ _ _
  have hother : ∀ other, other ≠ name →
      (s.splice name place before inner after).rules.get? other = s.rules.get? other :=
    fun other hne => Table.get?_insert_of_ne _ _ hne.symm
  have hdefined : ∀ other, s.rules.get? other = none
      ↔ (s.splice name place before inner after).rules.get? other = none := by
    intro other
    by_cases hname : other = name
    · subst hname
      rw [hoccurs, hspliced]
      simp
    · rw [hother other hname]
  refine @entersAgree_of_bodies _ _ s (s.splice name place before inner after) _
    (fun other _ _ => ⟨hdefined other, rfl⟩) ?_ depth
  intro other skip body body' depth _ hbody hbody' henters
  -- what is the same in both settings comes to the same where references do
  have hagree : ∀ r : Rule, Agree (.alike Event.call?) .same (s.evaluator depth)
      ((s.splice name place before inner after).evaluator depth) skip r r :=
    fun r => .of_enters rfl rfl henters trivial fun _ _ => trivial
  by_cases hname : other = name
  · subst hname
    rw [hoccurs] at hbody
    rw [hspliced] at hbody'
    cases hbody
    cases hbody'
    refine .fill (fun pos pos' tags hpos => ?_) rfl fun side _ => hagree side
    exact (eval_spliced before inner after pos tags).trans
      (hagree (.choice (before ++ inner ++ after)) pos pos' tags hpos)
  · rw [hother other hname, hbody] at hbody'
    cases hbody'
    exact hagree body

/--
**Choices are associative, wherever they stand.** If a choice has a choice among its alternatives,
the inner alternatives may be put in its place. For every name to start with, and at every
position, an evaluation ends if it did before; it matches or not as before, with the same value,
and stops at the same position, or raises the same fault; and it calls the same actions with the
same arguments, in the same order. Also what is called before an evaluation is given up is the same
at every depth.
-/
theorem apply_splice
    (hoccurs : s.rules.get? name = some (place.fill (.choice (before ++ .choice inner :: after))))
    (start : String) (pos : Int) :
    (s.NeverEnds (Call.first start pos)
        ↔ (s.splice name place before inner after).NeverEnds (Call.first start pos))
      ∧ (¬s.NeverEnds (Call.first start pos) →
          (s.apply start pos).ending
              = ((s.splice name place before inner after).apply start pos).ending
            ∧ actionCalls (s.apply start pos).events
              = actionCalls ((s.splice name place before inner after).apply start pos).events)
      ∧ ∀ depth, actionCalls (enter s depth start pos true).events
          = actionCalls (enter (s.splice name place before inner after) depth start pos true).events
        := by
  have halike : ∀ depth, Run.Alike Event.call? (Verdict.Aligned .same)
      (enter s depth start pos true)
      (enter (s.splice name place before inner after) depth start pos true) :=
    fun depth => splice_agrees hoccurs depth start true pos pos trivial rfl
  obtain ⟨hnever, happly⟩ := apply_alike_of_enter halike
  refine ⟨hnever, fun hends => ?_, fun depth => (halike depth).events⟩
  exact ⟨(happly hends).ending_eq fun _ _ hv => hv.eq, (happly hends).events⟩

end Splicing

/-- A word of `x` and then perhaps a `y`, with a choice in parentheses. -/
def nestedText : List Char := "$begin <- n: ('y' | ('x' $begin | ))".toList

/-- The same without the parentheses. -/
def flatText : List Char := "$begin <- n: ('y' | 'x' $begin | )".toList

/-- The alternatives of the inner choice. -/
def innerAlts : List Rule := [.seq [.token (.ofText ['x']), .ref "$begin"], .seq []]

def nestedRules : Rules :=
  [("$begin", .tagged "n" (.choice [.token (.ofText ['y']), .choice innerAlts]))]

def flatRules : Rules :=
  [("$begin", .tagged "n" (.choice (.token (.ofText ['y']) :: innerAlts)))]

/-- Rules on a word of two letters. -/
def nestedSetting (rules : Rules) : Setting :=
  ⟨rules, fun _ => none, ['x', 'y'], Fault.listCapacity⟩

/-- Both letters are read, the second one by way of a reference. -/
def nestedEnding : Ending Verdict :=
  .done (.success (.matched (.list [.text "x", .matched (.text "y") [("n", .text "y")]])
    [("n", .list [.text "x", .matched (.text "y") [("n", .text "y")]])]) 2)

/-- The parentheses make no difference. -/
theorem apply_nestedRules_splice :
    readGrammar nestedText = .ok nestedRules ∧ readGrammar flatText = .ok flatRules
      ∧ nestedRules.get? "$begin" = some (Rule.Context.fill (.tagged "n" .here)
        (.choice ([.token (.ofText ['y'])] ++ .choice innerAlts :: [])))
      ∧ ((nestedSetting nestedRules).apply "$begin" 0).ending = nestedEnding
      ∧ ((nestedSetting flatRules).apply "$begin" 0).ending = nestedEnding := by
  have hoccurs : (nestedSetting nestedRules).rules.get? "$begin"
      = some (Rule.Context.fill (.tagged "n" .here)
        (.choice ([.token (.ofText ['y'])] ++ .choice innerAlts :: []))) := rfl
  have hdone : ((nestedSetting nestedRules).apply "$begin" 0).ending = nestedEnding := by cbv
  have hends : ¬(nestedSetting nestedRules).NeverEnds (Call.first "$begin" 0) := by
    rw [← apply_eq_runaway_iff, hdone]
    intro h
    cases h
  exact ⟨by cbv, by cbv, hoccurs, hdone,
    ((apply_splice hoccurs "$begin" 0).2.1 hends).1.symm.trans hdone⟩

end TextGrammar
