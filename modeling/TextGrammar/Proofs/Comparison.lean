import TextGrammar.Proofs.Nodes
import TextGrammar.Proofs.Observation
import TextGrammar.Proofs.Positions
import Mathlib.Data.List.Forall2

/-!
# Evaluations compared rule by rule

That two evaluations do the same is shown along the rules: if they do the same at tokens and at
references, they do so at every node above. Three things differ from one comparison to another.

* When two runs count as the same. `Run.Comparison` is any relation that passes on to runs in
  a row. To look alike to some observer is one (`Run.Comparison.alike`), and so is to look alike
  unless the first run was given up (`Run.Comparison.mirrored`).
* Which positions correspond. An `Alignment` is any relation under which both evaluations move
  on or neither does, so that repetitions stop after the same rounds.
* The rules themselves. `Agree` compares one rule with another, and there is a lemma for each
  kind of node; `Agree.rule` puts them together for a rule that is compared with itself.
-/

namespace TextGrammar

/-! ## Runs -/

/-- A way to compare runs, given how their results are related, that passes on to runs in a row. -/
structure Run.Comparison where
  Rel {α β : Type} : (α → β → Prop) → Run α → Run β → Prop
  refl {α : Type} (x : Run α) : Rel Eq x x
  pure {α β : Type} {R : α → β → Prop} {a : α} {b : β} :
    R a b → Rel R (Pure.pure a) (Pure.pure b)
  bind {α β γ δ : Type} {R : α → β → Prop} {S : γ → δ → Prop} {x : Run α} {y : Run β}
    {f : α → Run γ} {g : β → Run δ} :
    Rel R x y → (∀ a b, R a b → Rel S (f a) (g b)) → Rel S (x >>= f) (y >>= g)

namespace Run.Comparison

variable {C : Comparison} {α β γ δ : Type} {R : α → β → Prop} {S : γ → δ → Prop}

/-- The same run first. -/
theorem after (x : Run α) {f : α → Run γ} {g : α → Run δ} (h : ∀ a, C.Rel S (f a) (g a)) :
    C.Rel S (x >>= f) (x >>= g) := by
  refine C.bind (C.refl x) fun a b hab => ?_
  subst hab
  exact h a

/-- Two runs that are given up at once have no results to compare. -/
theorem diverge : C.Rel R (Run.diverge : Run α) (Run.diverge : Run β) :=
  C.bind (f := Empty.elim) (g := Empty.elim) (C.refl Run.diverge) fun a => a.elim

/-- Runs that look alike to an observer. -/
def alike {ε : Type} (see : Event → Option ε) : Comparison where
  Rel := Alike see
  refl := Alike.refl
  pure := Alike.pure
  bind := Alike.bind

end Run.Comparison

/-- The second run looks like the first one, unless the first was given up. -/
def Run.Mirrored {α β ε : Type} (see : Event → Option ε) (R : α → β → Prop) (x : Run α)
    (y : Run β) : Prop :=
  x.ending = .runaway ∨ x.Alike see R y

/-- Runs that are mirrored. -/
def Run.Comparison.mirrored {ε : Type} (see : Event → Option ε) : Comparison where
  Rel := Mirrored see
  refl x := .inr (.refl x)
  pure h := .inr (.pure h)
  bind := by
    intro α β γ δ R S x y f g hxy hfg
    rcases hxy with hx | ⟨hevents, hending⟩
    · exact .inl (by simp [hx])
    · obtain ⟨es, e⟩ := x
      obtain ⟨es', e'⟩ := y
      cases hending with
      | raised f => exact .inr ⟨hevents, .raised f⟩
      | runaway => exact .inl rfl
      | done hr =>
          rcases hfg _ _ hr with hf | ⟨hrest, hend⟩
          · exact .inl hf
          · refine .inr ⟨?_, hend⟩
            rw [bind_done, bind_done, List.filterMap_append, List.filterMap_append, hrest]
            exact congrArg (· ++ _) hevents

/-! ## Positions -/

/-- Which positions of two evaluations correspond. -/
structure Alignment where
  At : Int → Int → Prop
  /-- From corresponding positions both evaluations move on, or neither does. -/
  stays {pos pos' stop stop' : Int} : At pos pos' → At stop stop' → (stop = pos ↔ stop' = pos')

/-- Every position corresponds to itself. -/
def Alignment.same : Alignment where
  At := Eq
  stays := by
    rintro _ _ _ _ rfl rfl
    exact Iff.rfl

section Aligned

variable (A : Alignment)

/-- The same verdict but for its position. -/
inductive Verdict.Aligned : Verdict → Verdict → Prop where
  | success (value : Value) {stop stop' : Int} :
      A.At stop stop' → Aligned (.success value stop) (.success value stop')
  | failure {stop stop' : Int} : A.At stop stop' → Aligned (.failure stop) (.failure stop')

def Outcome.Aligned (o o' : Outcome) : Prop :=
  Verdict.Aligned A o.verdict o'.verdict ∧ o.tags = o'.tags

def Progress.Aligned (p p' : Progress) : Prop :=
  p.values = p'.values ∧ A.At p.stop p'.stop ∧ p.tags = p'.tags

def Rounds.Aligned (x x' : Rounds) : Prop :=
  x.values = x'.values ∧ A.At x.stop x'.stop ∧ x.tags = x'.tags ∧ x.idle = x'.idle

end Aligned

theorem Verdict.Aligned.eq {v v' : Verdict} (h : Verdict.Aligned .same v v') : v = v' := by
  cases h with
  | success value hstop => exact congrArg _ hstop
  | failure hstop => exact congrArg _ hstop

theorem Outcome.Aligned.eq {o o' : Outcome} (h : Outcome.Aligned .same o o') : o = o' := by
  obtain ⟨v, tags⟩ := o
  obtain ⟨v', tags'⟩ := o'
  obtain ⟨hv, htags⟩ := h
  dsimp only at hv htags
  rw [hv.eq, htags]

theorem Progress.Aligned.eq {p p' : Progress} (h : Progress.Aligned .same p p') : p = p' := by
  obtain ⟨values, stop, tags⟩ := p
  obtain ⟨values', stop', tags'⟩ := p'
  obtain ⟨hvalues, hstop, htags⟩ := h
  dsimp only at hvalues hstop htags
  obtain rfl : stop = stop' := hstop
  rw [hvalues, htags]

theorem Rounds.Aligned.eq {x x' : Rounds} (h : Rounds.Aligned .same x x') : x = x' := by
  obtain ⟨values, stop, tags, idle⟩ := x
  obtain ⟨values', stop', tags', idle'⟩ := x'
  obtain ⟨hvalues, hstop, htags, hidle⟩ := h
  dsimp only at hvalues hstop htags hidle
  obtain rfl : stop = stop' := hstop
  rw [hvalues, htags, hidle]

/-! ## Evaluators -/

/-- What evaluates rules: a setting, and a way to follow references that stays within the text. -/
structure Evaluator where
  setting : Setting
  enter : Enter
  within : setting.EntersWithin enter

/-- The evaluator that follows so many references at a time. -/
abbrev Setting.evaluator (s : Setting) (depth : Nat) : Evaluator :=
  ⟨s, enter s depth, enter_within s depth⟩

abbrev Evaluator.eval (x : Evaluator) (r : Rule) (pos : Int) (tags : Tags) (skip : Bool) :
    Run Outcome :=
  TextGrammar.eval x.setting x.enter r pos tags skip

/-- From corresponding positions the evaluators make the same of the two rules. -/
def Agree (C : Run.Comparison) (A : Alignment) (x y : Evaluator) (skip : Bool) (r r' : Rule) :
    Prop :=
  ∀ pos pos' tags, A.At pos pos' →
    C.Rel (Outcome.Aligned A) (x.eval r pos tags skip) (y.eval r' pos' tags skip)

variable {C : Run.Comparison} {A : Alignment} {x y : Evaluator} {skip : Bool}

/-! ## Tokens and references -/

/-- Tokens start at corresponding positions if `$space` is the same. -/
theorem tokenStart_agree {pos pos' : Int} (hpos : A.At pos pos')
    (hspace : C.Rel (Verdict.Aligned A) (x.enter spaceName pos false)
      (y.enter spaceName pos' false)) (skip : Bool) :
    C.Rel A.At (tokenStart x.enter pos skip) (tokenStart y.enter pos' skip) := by
  cases skip with
  | false => exact C.pure hpos
  | true =>
      refine C.bind hspace fun v v' hv => ?_
      cases hv with
      | success value hstop => exact C.pure hstop
      | failure _ => exact C.pure hpos

/--
A token takes the same if it finds the same text where it starts. The places where it starts need
not correspond, as long as those where it ends do.
-/
theorem evalToken_agree {t : Token} {pos pos' : Int} {Start : Int → Int → Prop}
    (hpos : A.At pos pos')
    (hstart : C.Rel Start (tokenStart x.enter pos skip) (tokenStart y.enter pos' skip))
    (htext : ∀ start start', Start start start' →
      x.setting.remaining start = y.setting.remaining start')
    (hstop : ∀ start start' found, Start start start' →
      t.find? (y.setting.remaining start') = some found →
        A.At (start + found.length) (start' + found.length)) :
    C.Rel (Verdict.Aligned A) (evalToken x.setting x.enter t pos skip)
      (evalToken y.setting y.enter t pos' skip) := by
  unfold evalToken
  refine Run.Comparison.after _ fun _ => C.bind hstart fun start start' hs => ?_
  rw [htext start start' hs]
  cases hfound : t.find? (y.setting.remaining start') with
  | none => exact Run.Comparison.after _ fun _ => C.pure (.failure hpos)
  | some found =>
      exact Run.Comparison.after _ fun _ => C.pure (.success _ (hstop _ _ _ hs hfound))

/-- At the same position of the same text a token takes the same, if `$space` does. -/
theorem evalToken_same (htext : x.setting.text = y.setting.text) {t : Token} {pos : Int}
    (hspace : C.Rel (Verdict.Aligned .same) (x.enter spaceName pos false)
      (y.enter spaceName pos false)) :
    C.Rel (Verdict.Aligned .same) (evalToken x.setting x.enter t pos skip)
      (evalToken y.setting y.enter t pos skip) := by
  refine evalToken_agree rfl (tokenStart_agree rfl hspace skip) ?_ ?_
  · rintro start _ rfl
    simp only [Setting.remaining, htext]
  · rintro start _ found rfl -
    rfl

theorem Agree.token {t : Token}
    (h : ∀ pos pos', A.At pos pos' →
      C.Rel (Verdict.Aligned A) (evalToken x.setting x.enter t pos skip)
        (evalToken y.setting y.enter t pos' skip)) :
    Agree C A x y skip (.token t) (.token t) := by
  intro pos pos' tags hpos
  unfold Evaluator.eval
  rw [eval, eval]
  exact C.bind (h pos pos' hpos) fun _ _ hv => C.pure ⟨hv, rfl⟩

theorem Agree.ref {name : String}
    (h : ∀ pos pos', A.At pos pos' →
      C.Rel (Verdict.Aligned A) (x.enter name pos skip) (y.enter name pos' skip)) :
    Agree C A x y skip (.ref name) (.ref name) := by
  intro pos pos' tags hpos
  unfold Evaluator.eval
  rw [eval, eval]
  exact C.bind (h pos pos' hpos) fun _ _ hv => C.pure ⟨hv, rfl⟩

/-! ## Sequences and choices -/

theorem evalItems_agree {items items' : List Rule}
    (h : List.Forall₂ (Agree C A x y skip) items items') {pos pos' : Int} (hpos : A.At pos pos')
    (tags : Tags) :
    C.Rel (Progress.Aligned A) (evalItems x.setting x.enter items pos tags skip)
      (evalItems y.setting y.enter items' pos' tags skip) := by
  induction h generalizing pos pos' tags with
  | nil =>
      rw [evalItems, evalItems]
      exact C.pure ⟨rfl, hpos, rfl⟩
  | cons hr _ ih =>
      rw [evalItems, evalItems]
      refine C.bind (hr pos pos' tags hpos) fun o o' ho => ?_
      obtain ⟨v, after⟩ := o
      obtain ⟨v', after'⟩ := o'
      obtain ⟨hv, htags⟩ := ho
      dsimp only at hv htags
      subst htags
      cases hv with
      | failure hstop => exact C.pure ⟨rfl, hstop, rfl⟩
      | success value hstop =>
          refine C.bind (ih hstop after) fun p p' hp => C.pure ?_
          obtain ⟨hvalues, hmore, htags⟩ := hp
          exact ⟨by rw [hvalues], hmore, htags⟩

theorem Agree.seq {items items' : List Rule}
    (h : List.Forall₂ (Agree C A x y skip) items items') :
    Agree C A x y skip (.seq items) (.seq items') := by
  intro pos pos' tags hpos
  unfold Evaluator.eval
  rw [eval, eval, h.length_eq]
  refine Run.Comparison.after _ fun _ => C.bind (evalItems_agree h hpos tags) fun p p' hp => ?_
  obtain ⟨values, stop, after⟩ := p
  obtain ⟨values', stop', after'⟩ := p'
  obtain ⟨hvalues, hstop, htags⟩ := hp
  dsimp only at hvalues hstop htags
  subst hvalues htags
  cases values with
  | none => exact C.pure ⟨.failure hstop, rfl⟩
  | some values => exact C.pure ⟨.success _ hstop, rfl⟩

theorem evalChoice_agree {alts alts' : List Rule}
    (h : List.Forall₂ (Agree C A x y skip) alts alts') {pos pos' : Int} (hpos : A.At pos pos')
    (index : Nat) (tags : Tags) :
    C.Rel (Outcome.Aligned A) (evalChoice x.setting x.enter index alts pos tags skip)
      (evalChoice y.setting y.enter index alts' pos' tags skip) := by
  induction h generalizing index with
  | nil =>
      rw [evalChoice, evalChoice]
      exact C.pure ⟨.failure hpos, rfl⟩
  | cons hr _ ih =>
      rw [evalChoice, evalChoice]
      refine C.bind (hr pos pos' tags hpos) fun o o' ho => ?_
      obtain ⟨v, after⟩ := o
      obtain ⟨v', after'⟩ := o'
      obtain ⟨hv, htags⟩ := ho
      dsimp only at hv htags
      subst htags
      cases hv with
      | failure _ => exact ih (index + 1)
      | success value hstop =>
          exact Run.Comparison.after _ fun _ => C.pure ⟨.success value hstop, rfl⟩

theorem Agree.choice {alts alts' : List Rule}
    (h : List.Forall₂ (Agree C A x y skip) alts alts') :
    Agree C A x y skip (.choice alts) (.choice alts') := by
  intro pos pos' tags hpos
  unfold Evaluator.eval
  rw [eval, eval, h.length_eq]
  exact Run.Comparison.after _ fun _ => evalChoice_agree h hpos 0 tags

/-! ## Tagged rules and repetitions -/

theorem Agree.tagged {node node' : Rule} (h : Agree C A x y skip node node') (tag : String) :
    Agree C A x y skip (.tagged tag node) (.tagged tag node') := by
  intro pos pos' tags hpos
  unfold Evaluator.eval
  rw [eval, eval]
  refine Run.Comparison.after _ fun _ => C.bind (h pos pos' [] hpos) fun o o' ho => ?_
  obtain ⟨v, inner⟩ := o
  obtain ⟨v', inner'⟩ := o'
  obtain ⟨hv, htags⟩ := ho
  dsimp only at hv htags
  subst htags
  cases hv with
  | failure _ => exact C.pure ⟨.failure hpos, rfl⟩
  | success value hstop => exact C.pure ⟨.success value hstop, rfl⟩

theorem repeatRounds_agree {body body' : Int → Tags → Run Outcome}
    (hbody : ∀ pos pos' tags, A.At pos pos' →
      C.Rel (Outcome.Aligned A) (body pos tags) (body' pos' tags))
    (fuel : Nat) (left : Option Nat) {pos pos' : Int} (hpos : A.At pos pos') (tags : Tags) :
    C.Rel (Rounds.Aligned A) (repeatRounds body fuel left pos tags)
      (repeatRounds body' fuel left pos' tags) := by
  induction fuel generalizing left pos pos' tags with
  | zero =>
      rw [repeatRounds, repeatRounds]
      exact C.pure ⟨rfl, hpos, rfl, rfl⟩
  | succ fuel ih =>
      rw [repeatRounds, repeatRounds]
      split
      · exact C.pure ⟨rfl, hpos, rfl, rfl⟩
      · refine C.bind (hbody pos pos' tags hpos) fun o o' ho => ?_
        obtain ⟨v, after⟩ := o
        obtain ⟨v', after'⟩ := o'
        obtain ⟨hv, htags⟩ := ho
        dsimp only at hv htags
        subst htags
        cases hv with
        | failure _ => exact C.pure ⟨rfl, hpos, rfl, rfl⟩
        | @success value stop stop' hstop =>
            -- both rounds take something, or neither does
            have hidle : stop = pos ↔ stop' = pos' := A.stays hpos hstop
            dsimp only
            by_cases heq : stop' = pos'
            · rw [if_pos (hidle.mpr heq), if_pos heq]
              exact C.pure ⟨rfl, hstop, rfl, rfl⟩
            · rw [if_neg (fun hne => heq (hidle.mp hne)), if_neg heq]
              refine C.bind (ih (left.map (· - 1)) hstop after) fun more more' hmore => C.pure ?_
              obtain ⟨hvalues, hmoved, hrest⟩ := hmore
              exact ⟨by rw [hvalues], hmoved, hrest⟩

theorem finishRounds_agree (capacity : Nat) (bounds : Bounds) {pos pos' : Int}
    (hpos : A.At pos pos') (tags : Tags) {rounds rounds' : Rounds}
    (h : Rounds.Aligned A rounds rounds') :
    C.Rel (Outcome.Aligned A) (finishRounds capacity bounds pos tags rounds)
      (finishRounds capacity bounds pos' tags rounds') := by
  obtain ⟨values, stop, after, idle⟩ := rounds
  obtain ⟨values', stop', after', idle'⟩ := rounds'
  obtain ⟨hvalues, hstop, htags, hidle⟩ := h
  dsimp only at hvalues hstop htags hidle
  subst hvalues htags hidle
  unfold finishRounds
  have hfill : fillRounds capacity ⟨values, stop, after, idle⟩ bounds.min
      = fillRounds capacity ⟨values, stop', after, idle⟩ bounds.min := rfl
  rw [hfill]
  refine Run.Comparison.after _ fun filled => ?_
  split
  · split
    · exact Run.Comparison.after _ fun _ => C.pure ⟨.failure hpos, rfl⟩
    · exact C.pure ⟨.success _ hstop, rfl⟩
  · exact C.pure ⟨.success _ hstop, rfl⟩

/-- A round that is followed by another takes something, so the rooms need not be the same. -/
theorem Agree.repetition {node node' : Rule} (h : Agree C A x y skip node node')
    (hcapacity : x.setting.capacity = y.setting.capacity) (bounds : Bounds) :
    Agree C A x y skip (.repetition node bounds) (.repetition node' bounds) := by
  intro pos pos' tags hpos
  have hfuel := repeatRounds_fuel (fun p t => eval_within x.within node p t skip)
    (Nat.lt_succ_self (x.setting.room pos))
    (Nat.lt_succ_of_le (Nat.le_max_left (x.setting.room pos) (y.setting.room pos')))
    bounds.max tags
  have hfuel' := repeatRounds_fuel (fun p t => eval_within y.within node' p t skip)
    (Nat.lt_succ_self (y.setting.room pos'))
    (Nat.lt_succ_of_le (Nat.le_max_right (x.setting.room pos) (y.setting.room pos')))
    bounds.max tags
  unfold Evaluator.eval
  rw [eval, eval, hfuel, hfuel', hcapacity]
  refine Run.Comparison.after _ fun _ => ?_
  exact C.bind (repeatRounds_agree h _ bounds.max hpos tags)
    fun _ _ => finishRounds_agree _ bounds hpos tags

/-! ## Rules -/

/-- Evaluators agree on a rule if they agree on its tokens and on its references. -/
theorem Agree.rule {r : Rule} (hcapacity : x.setting.capacity = y.setting.capacity)
    (htokens : ∀ t, .token t ∈ r.nodes → Agree C A x y skip (.token t) (.token t))
    (hrefs : ∀ name, .ref name ∈ r.nodes → Agree C A x y skip (.ref name) (.ref name)) :
    Agree C A x y skip r r := by
  induction r with
  | token t => exact htokens t (Rule.mem_nodes_self _)
  | ref name => exact hrefs name (Rule.mem_nodes_self _)
  | seq items ih =>
      refine .seq (List.forall₂_same.mpr fun r hr => ih r hr ?_ ?_)
      · exact fun t ht => htokens t (Rule.mem_nodes_of_part hr ht)
      · exact fun name hname => hrefs name (Rule.mem_nodes_of_part hr hname)
  | tagged tag node ih =>
      refine .tagged (ih ?_ ?_) tag
      · exact fun t ht => htokens t (Rule.mem_nodes_of_part List.mem_cons_self ht)
      · exact fun name hname => hrefs name (Rule.mem_nodes_of_part List.mem_cons_self hname)
  | choice alts ih =>
      refine .choice (List.forall₂_same.mpr fun r hr => ih r hr ?_ ?_)
      · exact fun t ht => htokens t (Rule.mem_nodes_of_part hr ht)
      · exact fun name hname => hrefs name (Rule.mem_nodes_of_part hr hname)
  | repetition node bounds ih =>
      refine .repetition (ih ?_ ?_) hcapacity bounds
      · exact fun t ht => htokens t (Rule.mem_nodes_of_part List.mem_cons_self ht)
      · exact fun name hname => hrefs name (Rule.mem_nodes_of_part List.mem_cons_self hname)
  | unknown value =>
      intro pos pos' tags hpos
      unfold Evaluator.eval
      rw [eval, eval]
      exact Run.Comparison.after _ fun _ => C.pure ⟨.failure hpos, rfl⟩

/-! ## Calls by name -/

/-- The evaluators do the same when they follow a reference to one of the names. -/
def EntersAgree (C : Run.Comparison) (A : Alignment) (x y : Evaluator)
    (names : String → Bool → Prop) : Prop :=
  ∀ name skip pos pos', names name skip → A.At pos pos' →
    C.Rel (Verdict.Aligned A) (x.enter name pos skip) (y.enter name pos' skip)

/-- At the same positions of the same text, evaluators agree on a rule that refers to such names. -/
theorem Agree.of_enters {names : String → Bool → Prop} {r : Rule}
    (htext : x.setting.text = y.setting.text)
    (hcapacity : x.setting.capacity = y.setting.capacity)
    (henters : EntersAgree C .same x y names) (hspace : names spaceName false)
    (hrefs : ∀ name, .ref name ∈ r.nodes → names name skip) :
    Agree C .same x y skip r r := by
  refine .rule hcapacity (fun t _ => .token ?_) fun name hname => .ref ?_
  · rintro pos _ rfl
    exact evalToken_same htext (henters spaceName false pos pos hspace rfl)
  · intro pos pos' hpos
    exact henters name skip pos pos' (hrefs name hname) hpos

section Calls

variable {s s' : Setting} {name : String} {pos pos' : Int}

theorem finish_agree (hactions : s.actions name = s'.actions name) {o o' : Outcome}
    (h : Outcome.Aligned A o o') :
    C.Rel (Verdict.Aligned A) (s.finish name o) (s'.finish name o') := by
  obtain ⟨v, inner⟩ := o
  obtain ⟨v', inner'⟩ := o'
  obtain ⟨hv, htags⟩ := h
  dsimp only at hv htags
  subst htags
  cases hv with
  | failure hstop => exact C.pure (.failure hstop)
  | success value hstop =>
      unfold Setting.finish
      dsimp only
      rw [hactions]
      cases s'.actions name with
      | none => exact C.pure (.success _ hstop)
      | some action => exact Run.Comparison.after _ fun _ => C.pure (.success _ hstop)

/-- A reference to no rule is the same run at any depth. -/
theorem enter_eq_of_undefined (h : s.rules.get? name = none) (depth : Nat) (pos : Int)
    (skip : Bool) :
    enter s depth name pos skip = (do
      Run.emit (.reference name)
      Run.emit (.undefinedRule name)
      return .failure pos) := by
  cases depth <;> rw [enter, h]

theorem enter_undefined_agree (h : s.rules.get? name = none) (h' : s'.rules.get? name = none)
    (hpos : A.At pos pos') (skip : Bool) (depth depth' : Nat) :
    C.Rel (Verdict.Aligned A) (enter s depth name pos skip) (enter s' depth' name pos' skip) := by
  rw [enter_eq_of_undefined h, enter_eq_of_undefined h']
  exact Run.Comparison.after _ fun _ => Run.Comparison.after _ fun _ => C.pure (.failure hpos)

/-- A name stands for what the two rules make of it, one reference deeper. -/
theorem enter_succ_agree {body body' : Rule} (hbody : s.rules.get? name = some body)
    (hbody' : s'.rules.get? name = some body') (hactions : s.actions name = s'.actions name)
    {depth depth' : Nat}
    (h : Agree C A (s.evaluator depth) (s'.evaluator depth') skip body body')
    (hpos : A.At pos pos') :
    C.Rel (Verdict.Aligned A) (enter s (depth + 1) name pos skip)
      (enter s' (depth' + 1) name pos' skip) := by
  rw [enter, enter, hbody, hbody']
  refine Run.Comparison.after _ fun _ => ?_
  exact C.bind (h pos pos' [] hpos) fun _ _ => finish_agree hactions

/--
References come to the same at every depth if the same names have rules and these have the same
actions, and if the two rules of a name come to the same wherever references do.
-/
theorem entersAgree_of_bodies {names : String → Bool → Prop}
    (hsame : ∀ name skip, names name skip →
      (s.rules.get? name = none ↔ s'.rules.get? name = none) ∧ s.actions name = s'.actions name)
    (hbodies : ∀ name skip body body' depth, names name skip → s.rules.get? name = some body →
      s'.rules.get? name = some body' →
      EntersAgree C A (s.evaluator depth) (s'.evaluator depth) names →
        Agree C A (s.evaluator depth) (s'.evaluator depth) skip body body')
    (depth : Nat) :
    EntersAgree C A (s.evaluator depth) (s'.evaluator depth) names := by
  have hdefined : ∀ name skip body, names name skip → s.rules.get? name = some body →
      ∃ body', s'.rules.get? name = some body' := by
    intro name skip body hname hbody
    refine Option.ne_none_iff_exists'.mp fun hnone => ?_
    rw [(hsame name skip hname).1.mpr hnone] at hbody
    cases hbody
  induction depth with
  | zero =>
      intro name skip pos pos' hname hpos
      obtain ⟨hundefined, -⟩ := hsame name skip hname
      cases hbody : s.rules.get? name with
      | none => exact enter_undefined_agree hbody (hundefined.mp hbody) hpos skip 0 0
      | some body =>
          obtain ⟨body', hbody'⟩ := hdefined name skip body hname hbody
          show C.Rel _ (enter s 0 name pos skip) (enter s' 0 name pos' skip)
          rw [enter, enter, hbody, hbody']
          exact Run.Comparison.after _ fun _ => Run.Comparison.diverge
  | succ depth ih =>
      intro name skip pos pos' hname hpos
      obtain ⟨hundefined, hactions⟩ := hsame name skip hname
      cases hbody : s.rules.get? name with
      | none => exact enter_undefined_agree hbody (hundefined.mp hbody) hpos skip _ _
      | some body =>
          obtain ⟨body', hbody'⟩ := hdefined name skip body hname hbody
          have hagree := hbodies name skip body body' depth hname hbody hbody' ih
          exact enter_succ_agree hbody hbody' hactions hagree hpos

/--
Where rules and actions are the same, and refer to nothing else, references come to the same at
every depth if tokens do.
-/
theorem entersAgree {names : String → Bool → Prop} (hcapacity : s.capacity = s'.capacity)
    (hsame : ∀ name skip, names name skip →
      s.rules.get? name = s'.rules.get? name ∧ s.actions name = s'.actions name)
    (hrefs : ∀ name skip body other, names name skip → s.rules.get? name = some body →
      .ref other ∈ body.nodes → names other skip)
    (htokens : ∀ name skip body t depth, names name skip → s.rules.get? name = some body →
      .token t ∈ body.nodes → EntersAgree C A (s.evaluator depth) (s'.evaluator depth) names →
        ∀ pos pos', A.At pos pos' → C.Rel (Verdict.Aligned A)
          (evalToken s (enter s depth) t pos skip) (evalToken s' (enter s' depth) t pos' skip))
    (depth : Nat) :
    EntersAgree C A (s.evaluator depth) (s'.evaluator depth) names := by
  refine entersAgree_of_bodies (fun name skip hname => ?_) ?_ depth
  · obtain ⟨hrules, hactions⟩ := hsame name skip hname
    exact ⟨by rw [hrules], hactions⟩
  · intro name skip body body' depth hname hbody hbody' henters
    obtain rfl : body = body' := by
      rw [(hsame name skip hname).1, hbody'] at hbody
      exact (Option.some.inj hbody).symm
    refine .rule hcapacity (fun t ht => .token ?_) fun other hother => .ref fun pos pos' => ?_
    · exact htokens name skip body t depth hname hbody ht henters
    · exact henters other skip pos pos' (hrefs name skip body other hname hbody hother)

end Calls

end TextGrammar
