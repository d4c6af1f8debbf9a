import TextGrammar.Evaluation.Basic

/-!
# How runs end

Most properties of an evaluation are about how it ends and not about the events on
the way. The ending of a run that consists of two is determined by the endings of the
two, so events drop out at once.

Two relations between runs carry the proofs about evaluations:

* a run **yields** a property if its result, should there be one, has it;
* a run **approximates** another if it is the other one, or was given up on the way.
  Evaluations that may follow more references approximate less and less.

`Rule.induct` is structural induction on rules, with the hypothesis for all items of
a list.
-/

namespace TextGrammar

/-! ## Induction on rules -/

/-- What holds of a rule if it holds of its parts holds of every rule. -/
@[elab_as_elim, induction_eliminator]
theorem Rule.induct {motive : Rule → Prop}
    (token : ∀ t, motive (.token t))
    (ref : ∀ name, motive (.ref name))
    (seq : ∀ items, (∀ r ∈ items, motive r) → motive (.seq items))
    (tagged : ∀ tag node, motive node → motive (.tagged tag node))
    (choice : ∀ alts, (∀ r ∈ alts, motive r) → motive (.choice alts))
    (repetition : ∀ node bounds, motive node → motive (.repetition node bounds))
    (unknown : ∀ value, motive (.unknown value)) (r : Rule) : motive r :=
  @Rule.rec motive (fun rs => ∀ r ∈ rs, motive r) token ref seq tagged choice repetition unknown
    (fun _ h => absurd h List.not_mem_nil)
    (fun _ _ hhead htail r h => by
      rcases List.mem_cons.mp h with rfl | h
      · exact hhead
      · exact htail r h)
    r

/-! ## Endings -/

/-- How a run and its continuation end together. -/
def Ending.andThen {α β : Type} (x : Ending α) (f : α → Ending β) : Ending β :=
  match x with
  | .done a => f a
  | .raised e => .raised e
  | .runaway => .runaway

namespace Ending

variable {α β : Type}

@[simp] theorem andThen_done (a : α) (f : α → Ending β) : (Ending.done a).andThen f = f a := rfl

@[simp] theorem andThen_raised (e : Fault) (f : α → Ending β) :
    (Ending.raised e : Ending α).andThen f = .raised e := rfl

@[simp] theorem andThen_runaway (f : α → Ending β) :
    (Ending.runaway : Ending α).andThen f = .runaway := rfl

theorem andThen_eq_done_iff {x : Ending α} {f : α → Ending β} {b : β} :
    x.andThen f = .done b ↔ ∃ a, x = .done a ∧ f a = .done b := by
  cases x <;> simp

end Ending

/-- How a run ends that has no result. -/
inductive Abort where
  | raised (f : Fault)
  | runaway

def Abort.ending {α : Type} : Abort → Ending α
  | .raised f => .raised f
  | .runaway => .runaway

theorem Abort.done_ne_ending {α : Type} (a : α) (w : Abort) : Ending.done a ≠ w.ending := by
  cases w <;> simp [ending]

namespace Ending

variable {α β : Type} {x : Ending α} {f : α → Ending β}

/-- Two runs in a row have no result because of the first or, after it, of the second. -/
theorem andThen_eq_abort_iff {w : Abort} :
    x.andThen f = w.ending ↔ x = w.ending ∨ ∃ a, x = .done a ∧ f a = w.ending := by
  cases x <;> cases w <;> simp [Abort.ending]

theorem andThen_eq_raised_iff {e : Fault} :
    x.andThen f = .raised e ↔ x = .raised e ∨ ∃ a, x = .done a ∧ f a = .raised e :=
  andThen_eq_abort_iff (w := .raised e)

theorem andThen_eq_runaway_iff :
    x.andThen f = .runaway ↔ x = .runaway ∨ ∃ a, x = .done a ∧ f a = .runaway :=
  andThen_eq_abort_iff (w := .runaway)

end Ending

namespace Run

variable {α β : Type}

/-- Two runs in a row end as their endings do. -/
@[simp] theorem ending_bind (x : Run α) (f : α → Run β) :
    (x >>= f).ending = x.ending.andThen fun a => (f a).ending := by
  obtain ⟨es, e⟩ := x
  cases e <;> rfl

theorem events_map (f : α → β) (x : Run α) : (f <$> x).events = x.events := by
  obtain ⟨es, e⟩ := x
  rw [map_eq_pure_bind]
  cases e with
  | done a => exact List.append_nil es
  | raised f => rfl
  | runaway => rfl

theorem ending_map (f : α → β) (x : Run α) :
    (f <$> x).ending = x.ending.andThen fun a => .done (f a) := by
  rw [map_eq_pure_bind, ending_bind]
  rfl

@[simp] theorem ending_emit (e : Event) : (emit e).ending = .done () := rfl

@[simp] theorem ending_diverge : (diverge : Run α).ending = .runaway := rfl

/-! ## What a run yields -/

/-- If the run has a result, the result has the property. -/
def Yields (x : Run α) (P : α → Prop) : Prop := ∀ a, x.ending = .done a → P a

theorem yields_pure {P : α → Prop} {a : α} (h : P a) : (pure a : Run α).Yields P := by
  intro b hb
  obtain rfl : a = b := by simpa using hb
  exact h

theorem yields_bind {P : α → Prop} {Q : β → Prop} {x : Run α} {f : α → Run β}
    (hx : x.Yields P) (hf : ∀ a, P a → (f a).Yields Q) : (x >>= f).Yields Q := by
  intro b hb
  rw [ending_bind, Ending.andThen_eq_done_iff] at hb
  obtain ⟨a, ha, hfa⟩ := hb
  exact hf a (hx a ha) b hfa

/-- A run that is followed by one that yields the property whatever comes first. -/
theorem yields_then {Q : β → Prop} {x : Run α} {f : α → Run β} (hf : ∀ a, (f a).Yields Q) :
    (x >>= f).Yields Q :=
  yields_bind (P := fun _ => True) (fun _ _ => trivial) (fun a _ => hf a)

/-! ## Runs that were given up -/

/-- The first run is the second one, or it was given up on the way. -/
def Approximates (x y : Run α) : Prop := x.ending = .runaway ∨ x = y

theorem Approximates.refl (x : Run α) : x.Approximates x := Or.inr rfl

theorem Approximates.bind {x y : Run α} {f g : α → Run β} (hxy : x.Approximates y)
    (hfg : ∀ a, (f a).Approximates (g a)) : (x >>= f).Approximates (y >>= g) := by
  rcases hxy with h | rfl
  · exact Or.inl (by simp [h])
  · obtain ⟨es, e⟩ := x
    cases e with
    | raised e => exact Or.inr rfl
    | runaway => exact Or.inr rfl
    | done a =>
      rcases hfg a with h | h
      · exact Or.inl (by simpa using h)
      · exact Or.inr (by simp [h])

/-- A run that was not given up is the run that it approximates. -/
theorem Approximates.eq_of_ne {x y : Run α} (h : x.Approximates y) (hx : x.ending ≠ .runaway) :
    x = y := h.resolve_left hx

end Run

/-! ## Endings of evaluations

The equations of the evaluator without its events. What follows the evaluation of a part
is named, so that it can be reasoned about without looking into a `match`. -/

/-- Where a token starts after the verdict on `$space`. -/
def Verdict.skipped (pos : Int) : Verdict → Int
  | .success _ stop => stop
  | .failure _ => pos

/-- The verdict on a token that starts at one position after space from another one. -/
def Setting.takeToken (s : Setting) (t : Token) (pos start : Int) : Verdict :=
  match t.find? (s.remaining start) with
  | none => .failure pos
  | some found => .success (.text (String.ofList found.text)) (start + found.length)

/-- The outcome of a sequence. -/
def Progress.outcome (p : Progress) : Outcome :=
  match p.values with
  | some values => ⟨.success (.list values) p.stop, p.tags⟩
  | none => ⟨.failure p.stop, p.tags⟩

/-- The outcome of a tagged rule. -/
def Outcome.filed (tag : String) (pos : Int) (tags : Tags) : Outcome → Outcome
  | ⟨.failure _, _⟩ => ⟨.failure pos, tags⟩
  | ⟨.success value stop, inner⟩ =>
    ⟨.success value stop, (Table.update tags inner).insert tag (value.merge inner)⟩

/-- How many rounds have to be there; an absent bound asks for none. -/
def Bounds.least (bounds : Bounds) : Nat := bounds.min.getD 0

/-- How many rounds a round that takes nothing has to stand for, besides itself. -/
def Rounds.missing (rounds : Rounds) (least : Nat) : Nat :=
  if rounds.idle.isSome then least - rounds.values.length else 0

/-- The values of the rounds, with those that the last one stands for. -/
def Rounds.filled (rounds : Rounds) (least : Nat) : List Value :=
  rounds.values ++ List.replicate (rounds.missing least) (rounds.idle.getD .null)

/-- Why the rounds that the last one stands for cannot be filled in, if they cannot. -/
def Rounds.fault? (rounds : Rounds) (capacity least : Nat) : Option Fault :=
  if rounds.idle.isSome then fillFault? capacity rounds.values.length least else none

/-- The outcome of a repetition with the given values that started at `pos` with `tags`. -/
def Bounds.outcome (bounds : Bounds) (pos : Int) (tags : Tags) (values : List Value) (stop : Int)
    (after : Tags) : Outcome :=
  if bounds.least ≤ values.length then ⟨.success (.list values) stop, after⟩
  else ⟨.failure pos, tags⟩

/-- What becomes of the value of a rule: the action's answer, or the value if there is no action. -/
def Setting.answer (s : Setting) (name : String) (argument : Value) : Except Fault Value :=
  match s.actions name with
  | none => .ok argument
  | some (.function f) => f argument
  | some (.value v) => .error (.value (.notCallable v.typeName))

/-- How a rule ends whose body had the given outcome. -/
def Setting.settled (s : Setting) (name : String) (body : Outcome) : Ending Verdict :=
  match body.verdict with
  | .failure stop => .done (.failure stop)
  | .success value stop =>
    match s.answer name (value.merge body.tags) with
    | .ok result => .done (.success result stop)
    | .error f => .raised f

/-! ## When a list cannot be filled up -/

/-- Why one item cannot be repeated so many times, if it cannot. -/
theorem Fault.ofRepetition?_single (capacity count : Nat) :
    ofRepetition? capacity false 1 count =
      if wordLimit ≤ count then some .countTooLarge else ofLength? capacity count := by
  have hpos : 0 < wordLimit := by decide
  have hnatural : ¬((count : Int) < -wordLimit) := by omega
  simp [ofRepetition?, hnatural]

/-- Where enough items are there already, nothing is filled in. -/
theorem fillFault?_of_le {capacity count least : Nat} (h : least ≤ count) :
    fillFault? capacity count least = none := if_pos h

/-- What is missing is counted first; then the list as a whole has to have room. -/
theorem fillFault?_eq (capacity count least : Nat) :
    fillFault? capacity count least =
      if least ≤ count then none
      else if Fault.wordLimit ≤ (least - count : Nat) then some .countTooLarge
      else Fault.ofLength? capacity least := by
  unfold fillFault?
  rw [Fault.ofRepetition?_single]
  split
  · rfl
  · split
    · rfl
    · unfold Fault.ofLength?
      by_cases hroom : capacity < least - count
      · have hwhole : capacity < least := by omega
        simp [hroom, hwhole]
      · simp [hroom]

/-- A list can be filled up if nothing is missing, or if it can be counted and there is room. -/
theorem fillFault?_eq_none_iff {capacity count least : Nat} :
    fillFault? capacity count least = none ↔
      least ≤ count ∨ ((least - count : Nat) < Fault.wordLimit ∧ least ≤ capacity) := by
  rw [fillFault?_eq]
  unfold Fault.ofLength?
  generalize Fault.wordLimit = limit
  grind

/-- With one more item there, a list can be filled up if it can without. -/
theorem fillFault?_succ {capacity count least : Nat}
    (h : fillFault? capacity count least = none) :
    fillFault? capacity (count + 1) least = none := by
  rw [fillFault?_eq_none_iff] at h ⊢
  omega

/-- There are two ways in which a list can be too long. -/
theorem fault_of_fillFault? {capacity count least : Nat} {f : Fault}
    (h : fillFault? capacity count least = some f) : f = .countTooLarge ∨ f = .outOfMemory := by
  rw [fillFault?_eq] at h
  unfold Fault.ofLength? at h
  generalize Fault.wordLimit = limit at h
  grind

section Evaluation

variable {s : Setting} {e : Enter}

theorem tokenStart_false (pos : Int) : (tokenStart e pos false).ending = .done pos := rfl

theorem tokenStart_true (pos : Int) :
    (tokenStart e pos true).ending =
      (e spaceName pos false).ending.andThen fun v => .done (v.skipped pos) := by
  rw [tokenStart, if_pos rfl, Run.ending_bind]
  congr 1
  funext v
  cases v <;> rfl

theorem evalToken_ending (t : Token) (pos : Int) (skip : Bool) :
    (evalToken s e t pos skip).ending =
      (tokenStart e pos skip).ending.andThen fun start => .done (s.takeToken t pos start) := by
  unfold evalToken
  rw [Run.ending_bind, Run.ending_emit, Ending.andThen_done, Run.ending_bind]
  congr 1
  funext start
  unfold Setting.takeToken
  cases t.find? (s.remaining start) <;> rfl

theorem eval_token_ending (t : Token) (pos : Int) (tags : Tags) (skip : Bool) :
    (eval s e (.token t) pos tags skip).ending =
      (tokenStart e pos skip).ending.andThen fun start =>
        .done ⟨s.takeToken t pos start, tags⟩ := by
  rw [eval, Run.ending_bind, evalToken_ending]
  cases (tokenStart e pos skip).ending <;> rfl

theorem eval_ref_ending (name : String) (pos : Int) (tags : Tags) (skip : Bool) :
    (eval s e (.ref name) pos tags skip).ending =
      (e name pos skip).ending.andThen fun v => .done ⟨v, tags⟩ := by
  rw [eval, Run.ending_bind]
  rfl

theorem eval_seq_ending (items : List Rule) (pos : Int) (tags : Tags) (skip : Bool) :
    (eval s e (.seq items) pos tags skip).ending =
      (evalItems s e items pos tags skip).ending.andThen fun p => .done p.outcome := by
  rw [eval, Run.ending_bind, Run.ending_emit, Ending.andThen_done, Run.ending_bind]
  congr 1
  funext p
  obtain ⟨values, stop, after⟩ := p
  cases values <;> rfl

theorem eval_tagged_ending (tag : String) (node : Rule) (pos : Int) (tags : Tags) (skip : Bool) :
    (eval s e (.tagged tag node) pos tags skip).ending =
      (eval s e node pos [] skip).ending.andThen fun o => .done (o.filed tag pos tags) := by
  rw [eval, Run.ending_bind, Run.ending_emit, Ending.andThen_done, Run.ending_bind]
  congr 1
  funext o
  obtain ⟨v, inner⟩ := o
  cases v <;> rfl

theorem eval_choice_ending (alts : List Rule) (pos : Int) (tags : Tags) (skip : Bool) :
    (eval s e (.choice alts) pos tags skip).ending =
      (evalChoice s e 0 alts pos tags skip).ending := by
  rw [eval, Run.ending_bind, Run.ending_emit, Ending.andThen_done]

theorem eval_repetition_ending (node : Rule) (bounds : Bounds) (pos : Int) (tags : Tags)
    (skip : Bool) :
    (eval s e (.repetition node bounds) pos tags skip).ending =
      (repeatRounds (fun p t => eval s e node p t skip) (s.room pos + 1) bounds.max pos
        tags).ending.andThen fun rounds =>
          (finishRounds s.capacity bounds pos tags rounds).ending := by
  rw [eval, Run.ending_bind, Run.ending_emit, Ending.andThen_done, Run.ending_bind]

theorem eval_unknown_ending (value : Declaration) (pos : Int) (tags : Tags) (skip : Bool) :
    (eval s e (.unknown value) pos tags skip).ending = .done ⟨.failure pos, tags⟩ := by
  rw [eval, Run.ending_bind, Run.ending_emit, Ending.andThen_done]
  rfl

/-- A sequence that matches is an item that matches, followed by a sequence that does. -/
theorem evalItems_cons_done {r : Rule} {rest : List Rule} {pos stop : Int} {tags after : Tags}
    {skip : Bool} {values : List Value}
    (h : (evalItems s e (r :: rest) pos tags skip).ending = .done ⟨some values, stop, after⟩) :
    ∃ value mid inner more, (eval s e r pos tags skip).ending = .done ⟨.success value mid, inner⟩
      ∧ (evalItems s e rest mid inner skip).ending = .done ⟨some more, stop, after⟩
      ∧ values = value :: more := by
  rw [evalItems, Run.ending_bind, Ending.andThen_eq_done_iff] at h
  obtain ⟨⟨v, inner⟩, hdone, hrest⟩ := h
  cases v with
  | failure stop => simp at hrest
  | success value mid =>
      simp only [Run.ending_bind, Ending.andThen_eq_done_iff] at hrest
      obtain ⟨⟨more, stop', after'⟩, hmore, hall⟩ := hrest
      simp only [Run.pure_eq, Ending.done.injEq, Progress.mk.injEq] at hall
      obtain ⟨hvalues, rfl, rfl⟩ := hall
      obtain ⟨vs, rfl, rfl⟩ := Option.map_eq_some_iff.mp hvalues
      exact ⟨value, mid, inner, vs, hdone, hmore, rfl⟩

/-- What a choice matches is what its first alternative does, or the others if it fails. -/
theorem evalChoice_cons_done {index : Nat} {r : Rule} {rest : List Rule} {pos stop : Int}
    {tags after : Tags} {skip : Bool} {value : Value}
    (h : (evalChoice s e index (r :: rest) pos tags skip).ending
      = .done ⟨.success value stop, after⟩) :
    (eval s e r pos tags skip).ending = .done ⟨.success value stop, after⟩
      ∨ (∃ stop' after', (eval s e r pos tags skip).ending = .done ⟨.failure stop', after'⟩)
        ∧ (evalChoice s e (index + 1) rest pos tags skip).ending
          = .done ⟨.success value stop, after⟩ := by
  rw [evalChoice, Run.ending_bind, Ending.andThen_eq_done_iff] at h
  obtain ⟨⟨v, inner⟩, hdone, hrest⟩ := h
  cases v with
  | failure stop' => exact Or.inr ⟨⟨stop', inner, hdone⟩, hrest⟩
  | success value' stop' =>
      refine Or.inl ?_
      simpa [hdone] using hrest

/--
How rounds come about: there are none, because no more are allowed or the first does not
match; or there is one, which takes nothing; or one that takes something comes first.
-/
theorem repeatRounds_succ_done {body : Int → Tags → Run Outcome} {fuel : Nat} {left : Option Nat}
    {pos : Int} {tags : Tags} {rounds : Rounds}
    (h : (repeatRounds body (fuel + 1) left pos tags).ending = .done rounds) :
    (rounds = ⟨[], pos, tags, none⟩ ∧ (left ≠ some 0 →
        ∃ stop after, (body pos tags).ending = .done ⟨.failure stop, after⟩))
      ∨ (left ≠ some 0 ∧ ∃ value after, (body pos tags).ending = .done ⟨.success value pos, after⟩
        ∧ rounds = ⟨[value], pos, after, some value⟩)
      ∨ (left ≠ some 0 ∧ ∃ value mid after more,
        (body pos tags).ending = .done ⟨.success value mid, after⟩ ∧ mid ≠ pos
        ∧ (repeatRounds body fuel (left.map (· - 1)) mid after).ending = .done more
        ∧ rounds = ⟨value :: more.values, more.stop, more.tags, more.idle⟩) := by
  rw [repeatRounds] at h
  split at h
  · rename_i hleft
    refine Or.inl ⟨?_, fun hne => absurd hleft hne⟩
    simpa using h.symm
  · rename_i hleft
    rw [Run.ending_bind, Ending.andThen_eq_done_iff] at h
    obtain ⟨⟨v, after⟩, hdone, hrest⟩ := h
    cases v with
    | failure stop =>
        refine Or.inl ⟨?_, fun _ => ⟨stop, after, hdone⟩⟩
        simpa using hrest.symm
    | success value mid =>
        dsimp only at hrest
        split at hrest
        · rename_i heq
          subst heq
          refine Or.inr (Or.inl ⟨hleft, value, after, hdone, ?_⟩)
          simpa using hrest.symm
        · rename_i hne
          rw [Run.ending_bind, Ending.andThen_eq_done_iff] at hrest
          obtain ⟨more, hmore, hall⟩ := hrest
          refine Or.inr (Or.inr ⟨hleft, value, mid, after, more, hdone, hne, hmore, ?_⟩)
          simpa using hall.symm

theorem fillRounds_ending (capacity : Nat) (rounds : Rounds) (min : Option Nat) :
    (fillRounds capacity rounds min).ending =
      match rounds.fault? capacity (min.getD 0) with
      | some f => .raised f
      | none => .done (rounds.filled (min.getD 0)) := by
  obtain ⟨values, stop, after, idle⟩ := rounds
  cases idle with
  | none => simp [fillRounds, Rounds.fault?, Rounds.missing, Rounds.filled]
  | some value =>
      cases min with
      | none =>
          simp [fillRounds, Rounds.fault?, fillFault?_of_le, Rounds.missing, Rounds.filled]
      | some least =>
          simp only [fillRounds, Rounds.fault?, Rounds.missing, Rounds.filled, Option.isSome_some,
            if_true, Option.getD_some]
          cases fillFault? capacity values.length least <;> rfl

/-- A repetition ends by its bounds, unless there is no list of the rounds to be filled in. -/
theorem finishRounds_ending (capacity : Nat) (bounds : Bounds) (pos : Int) (tags : Tags)
    (rounds : Rounds) :
    (finishRounds capacity bounds pos tags rounds).ending =
      match rounds.fault? capacity bounds.least with
      | some f => .raised f
      | none => .done (bounds.outcome pos tags (rounds.filled bounds.least) rounds.stop
          rounds.tags) := by
  unfold finishRounds Bounds.least
  rw [Run.ending_bind, fillRounds_ending]
  cases rounds.fault? capacity (bounds.min.getD 0) with
  | some f => rfl
  | none =>
      rw [Ending.andThen_done]
      unfold Bounds.outcome Bounds.least
      cases bounds.min with
      | none => simp
      | some least =>
          simp only [Option.getD_some]
          by_cases h : least ≤ (rounds.filled least).length
          · simp [h, Nat.not_lt.mpr h]
          · simp [h, Nat.not_le.mp h]

theorem finish_ending (name : String) (body : Outcome) :
    (s.finish name body).ending = s.settled name body := by
  obtain ⟨v, inner⟩ := body
  cases v with
  | failure stop => rfl
  | success value stop =>
      unfold Setting.finish Setting.settled Setting.answer
      dsimp only
      cases s.actions name with
      | none => rfl
      | some action =>
          cases action with
          | value v => rfl
          | function f =>
              simp only [Action.invoke, Run.ending_bind, Run.ending_emit, Ending.andThen_done]
              cases f (value.merge inner) <;> rfl

theorem settled_ne_runaway (name : String) (body : Outcome) :
    s.settled name body ≠ .runaway := by
  unfold Setting.settled
  split
  · simp
  · split <;> simp

theorem enter_undefined {name : String} (h : s.rules.get? name = none) (depth : Nat) (pos : Int)
    (skip : Bool) : (enter s depth name pos skip).ending = .done (.failure pos) := by
  cases depth <;> simp [enter, h]

theorem enter_zero {name : String} {body : Rule} (h : s.rules.get? name = some body) (pos : Int)
    (skip : Bool) : (enter s 0 name pos skip).ending = .runaway := by
  simp [enter, h]

theorem enter_succ {name : String} {body : Rule} (h : s.rules.get? name = some body) (depth : Nat)
    (pos : Int) (skip : Bool) :
    (enter s (depth + 1) name pos skip).ending =
      (eval s (enter s depth) body pos [] skip).ending.andThen fun o => s.settled name o := by
  simp [enter, h, finish_ending]

end Evaluation

end TextGrammar
