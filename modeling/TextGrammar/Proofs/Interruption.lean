import TextGrammar.Proofs.Log

/-!
# Actions that raise surface at once

Let some calls of actions raise a fault where they had an answer before. Nothing catches the
fault, so the evaluation is the one without faults, replayed up to the first of these calls and
ended there (`enter_cut`). It makes no difference where the call comes from: what a choice
or a repetition gives up, and what `$space` takes, is replayed with the rest.

`Run.cut` is the replay. It goes through runs in a row (`Run.cut_bind`), so each function of the
evaluator has one equation about it, and only the call of an action has to look at what fails.
-/

namespace TextGrammar

/-- Which calls raise, by the rule and the argument, and what they raise. -/
abbrev Failing := String → Value → Option Fault

/-- The action, but calls with some arguments raise. -/
def Action.failing (fails : Value → Option Fault) : Action → Action
  | .function g => .function fun argument =>
    match fails argument with
    | some f => .error f
    | none => g argument
  | .value v => .value v

/-- The same rules on the same text, but some calls of actions raise. -/
def Setting.failing (s : Setting) (fails : Failing) : Setting :=
  { s with actions := fun name => (s.actions name).map (Action.failing (fails name)) }

/-! ## The replay -/

/-- What the event raises, if it is a call that fails. -/
def Event.fault? (fails : Failing) : Event → Option Fault
  | .call rule argument => fails rule argument
  | _ => none

/-- The event, and the fault if it raises one. -/
def Event.replay (fails : Failing) (e : Event) : Run Unit := do
  Run.emit e
  match e.fault? fails with
  | some f => Run.raise f
  | none => return ()

namespace Run

variable {α β : Type} {fails : Failing}

/-- The run up to the first call that fails, if there is one. -/
def cut (fails : Failing) (x : Run α) : Run α := do
  forM x.events (Event.replay fails)
  ⟨[], x.ending⟩

theorem cut_ofExcept (x : Except Fault α) : (ofExcept x).cut fails = ofExcept x := by
  cases x <;> rfl

theorem cut_emit (e : Event) : (emit e).cut fails = e.replay fails := by
  show ((e.replay fails >>= fun _ => pure ()) >>= fun _ => pure ()) = e.replay fails
  rw [bind_assoc_run]
  exact bind_pure_unit

/-- Runs in a row are replayed in a row. -/
theorem cut_bind (x : Run α) (f : α → Run β) :
    (x >>= f).cut fails = x.cut fails >>= fun a => (f a).cut fails := by
  obtain ⟨es, e⟩ := x
  unfold cut
  rw [bind_assoc_run]
  cases e with
  | done a =>
      -- the events of the second run are replayed unless those of the first raise
      rw [bind_done, List.forM_append, bind_assoc_run]
      rfl
  | raised f => rfl
  | runaway => rfl

theorem cut_bind_congr {x y : Run α} {f g : α → Run β} (hxy : x.cut fails = y)
    (hfg : ∀ a, (f a).cut fails = g a) : (x >>= f).cut fails = y >>= g := by
  rw [cut_bind, hxy]
  congr 1
  funext a
  exact hfg a

/-- Where no call fails, the replay is the run itself. -/
theorem cut_of_clean {x : Run α} (h : ∀ e ∈ x.events, e.fault? fails = none) :
    x.cut fails = x := by
  obtain ⟨es, ending⟩ := x
  unfold cut
  induction es with
  | nil => rfl
  | cons e es ih =>
      have hhead : e.replay fails = emit e := by
        rw [Event.replay, h e List.mem_cons_self]
        rfl
      have htail : (forM es (Event.replay fails) >>= fun _ => ⟨[], ending⟩) = ⟨es, ending⟩ :=
        ih fun e' he' => h e' (List.mem_cons_of_mem _ he')
      rw [List.forM_cons, hhead, bind_assoc_run, htail]
      rfl

/-- The replay ends with the first call that fails. -/
theorem cut_of_failing {x : Run α} {before after : List Event} {e : Event} {f : Fault}
    (hevents : x.events = before ++ e :: after) (hbefore : ∀ e' ∈ before, e'.fault? fails = none)
    (hfault : e.fault? fails = some f) : x.cut fails = ⟨before ++ [e], .raised f⟩ := by
  have hfirst : forM before (Event.replay fails) = ⟨before, .done ()⟩ := by
    have hclean := cut_of_clean (x := (⟨before, .done ()⟩ : Run Unit)) hbefore
    rwa [cut, show (⟨[], .done ()⟩ : Run Unit) = pure () from rfl, bind_pure_unit] at hclean
  have hcall : e.replay fails = ⟨[e], .raised f⟩ := by
    rw [Event.replay, hfault]
    rfl
  rw [cut, hevents, List.forM_append, List.forM_cons, hfirst, hcall]
  rfl

end Run

/-! ## The evaluator function by function -/

/-- References that are followed up to the first call that fails. -/
def Enter.cut (fails : Failing) (e : Enter) : Enter :=
  fun name pos skip => (e name pos skip).cut fails

section Evaluation

variable {s : Setting} {fails : Failing} {e : Enter}

theorem tokenStart_cut (pos : Int) (skip : Bool) :
    (tokenStart e pos skip).cut fails = tokenStart (e.cut fails) pos skip := by
  unfold tokenStart
  cases skip with
  | false => rfl
  | true =>
      refine Run.cut_bind_congr rfl fun v => ?_
      cases v <;> rfl

theorem evalToken_cut (t : Token) (pos : Int) (skip : Bool) :
    (evalToken s e t pos skip).cut fails
      = evalToken (s.failing fails) (e.cut fails) t pos skip := by
  unfold evalToken
  refine Run.cut_bind_congr rfl fun _ => ?_
  refine Run.cut_bind_congr (tokenStart_cut pos skip) fun start => ?_
  -- the token calls nothing itself, and it finds the same text
  have hremaining : (s.failing fails).remaining start = s.remaining start := rfl
  rw [hremaining]
  cases t.find? (s.remaining start) <;> rfl

theorem evalItems_cut {items : List Rule} {skip : Bool}
    (hitems : ∀ r ∈ items, ∀ pos tags, (eval s e r pos tags skip).cut fails
      = eval (s.failing fails) (e.cut fails) r pos tags skip) (pos : Int) (tags : Tags) :
    (evalItems s e items pos tags skip).cut fails
      = evalItems (s.failing fails) (e.cut fails) items pos tags skip := by
  induction items generalizing pos tags with
  | nil => rfl
  | cons r rest ih =>
      rw [evalItems, evalItems]
      refine Run.cut_bind_congr (hitems r List.mem_cons_self pos tags) fun o => ?_
      obtain ⟨v, after⟩ := o
      cases v with
      | failure stop => rfl
      | success value stop =>
          have hrest := ih (fun r' hr' => hitems r' (List.mem_cons_of_mem r hr')) stop after
          exact Run.cut_bind_congr hrest fun _ => rfl

theorem evalChoice_cut {alts : List Rule} {skip : Bool}
    (halts : ∀ r ∈ alts, ∀ pos tags, (eval s e r pos tags skip).cut fails
      = eval (s.failing fails) (e.cut fails) r pos tags skip) (index : Nat) (pos : Int)
    (tags : Tags) :
    (evalChoice s e index alts pos tags skip).cut fails
      = evalChoice (s.failing fails) (e.cut fails) index alts pos tags skip := by
  induction alts generalizing index with
  | nil => rfl
  | cons r rest ih =>
      rw [evalChoice, evalChoice]
      refine Run.cut_bind_congr (halts r List.mem_cons_self pos tags) fun o => ?_
      obtain ⟨v, after⟩ := o
      cases v with
      | failure stop =>
          -- the calls of the alternative that did not match stay
          exact ih (fun r' hr' => halts r' (List.mem_cons_of_mem r hr')) (index + 1)
      | success value stop => rfl

theorem repeatRounds_cut {body body' : Int → Tags → Run Outcome}
    (hbody : ∀ pos tags, (body pos tags).cut fails = body' pos tags) (fuel : Nat)
    (left : Option Nat) (pos : Int) (tags : Tags) :
    (repeatRounds body fuel left pos tags).cut fails = repeatRounds body' fuel left pos tags := by
  induction fuel generalizing left pos tags with
  | zero => rfl
  | succ fuel ih =>
      rw [repeatRounds, repeatRounds]
      split
      · rfl
      · refine Run.cut_bind_congr (hbody pos tags) fun o => ?_
        obtain ⟨v, after⟩ := o
        cases v with
        | failure stop => rfl
        | success value stop =>
            dsimp only
            split
            · rfl
            · exact Run.cut_bind_congr (ih (left.map (· - 1)) stop after) fun _ => rfl

/-- The end of a repetition calls no action. -/
theorem finishRounds_cut (capacity : Nat) (bounds : Bounds) (pos : Int) (tags : Tags)
    (rounds : Rounds) :
    (finishRounds capacity bounds pos tags rounds).cut fails
      = finishRounds capacity bounds pos tags rounds := by
  have hfill : (fillRounds capacity rounds bounds.min).cut fails
      = fillRounds capacity rounds bounds.min := by
    unfold fillRounds
    split
    · split <;> rfl
    · rfl
  unfold finishRounds
  refine Run.cut_bind_congr hfill fun values => ?_
  cases bounds.min with
  | none => rfl
  | some least =>
      dsimp only
      split <;> rfl

/-- A rule is evaluated up to the first call that fails if the references in it are. -/
theorem eval_cut (r : Rule) (pos : Int) (tags : Tags) (skip : Bool) :
    (eval s e r pos tags skip).cut fails
      = eval (s.failing fails) (e.cut fails) r pos tags skip := by
  induction r generalizing pos tags with
  | token t =>
      rw [eval, eval]
      exact Run.cut_bind_congr (evalToken_cut t pos skip) fun _ => rfl
  | ref name =>
      rw [eval, eval]
      exact Run.cut_bind_congr rfl fun _ => rfl
  | seq items ih =>
      rw [eval, eval]
      refine Run.cut_bind_congr rfl fun _ => ?_
      refine Run.cut_bind_congr (evalItems_cut ih pos tags) fun p => ?_
      obtain ⟨values, stop, after⟩ := p
      cases values <;> rfl
  | tagged tag node ih =>
      rw [eval, eval]
      refine Run.cut_bind_congr rfl fun _ => ?_
      refine Run.cut_bind_congr (ih pos []) fun o => ?_
      obtain ⟨v, inner⟩ := o
      cases v <;> rfl
  | choice alts ih =>
      rw [eval, eval]
      exact Run.cut_bind_congr rfl fun _ => evalChoice_cut ih 0 pos tags
  | repetition node bounds ih =>
      rw [eval, eval]
      refine Run.cut_bind_congr rfl fun _ => ?_
      refine Run.cut_bind_congr (repeatRounds_cut ih _ bounds.max pos tags) fun rounds => ?_
      exact finishRounds_cut s.capacity bounds pos tags rounds
  | unknown value => rfl

/-- The call of an action is where a fault may come in. -/
theorem invoke_cut (action : Action) (rule : String) (argument : Value) :
    (action.invoke rule argument).cut fails
      = (action.failing (fails rule)).invoke rule argument := by
  cases action with
  | value v => rfl
  | function g =>
      unfold Action.failing Action.invoke
      dsimp only
      rw [Run.cut_bind, Run.cut_emit, Event.replay, Event.fault?, Run.bind_assoc_run]
      -- the call is an event before its answer is known, so it stays when it fails
      cases fails rule argument with
      | some f => rfl
      | none => exact congrArg _ (funext fun _ => Run.cut_ofExcept (g argument))

theorem finish_cut (name : String) (body : Outcome) :
    (s.finish name body).cut fails = (s.failing fails).finish name body := by
  obtain ⟨v, inner⟩ := body
  cases v with
  | failure stop => rfl
  | success value stop =>
      have hactions : (s.failing fails).actions name
          = (s.actions name).map (Action.failing (fails name)) := rfl
      unfold Setting.finish
      dsimp only
      rw [hactions]
      cases s.actions name with
      | none => rfl
      | some action =>
          exact Run.cut_bind_congr (invoke_cut action name (value.merge inner)) fun _ => rfl

end Evaluation

/-- If calls fail, references are followed as before up to the first of them. -/
theorem enter_cut (s : Setting) (fails : Failing) (depth : Nat) :
    (enter s depth).cut fails = enter (s.failing fails) depth := by
  induction depth with
  | zero =>
      funext name pos skip
      have hrules : (s.failing fails).rules.get? name = s.rules.get? name := rfl
      unfold Enter.cut
      rw [enter, enter, hrules]
      refine Run.cut_bind_congr rfl fun _ => ?_
      cases s.rules.get? name <;> rfl
  | succ depth ih =>
      funext name pos skip
      have hrules : (s.failing fails).rules.get? name = s.rules.get? name := rfl
      unfold Enter.cut
      rw [enter, enter, hrules]
      refine Run.cut_bind_congr rfl fun _ => ?_
      cases s.rules.get? name with
      | none => rfl
      | some body =>
          -- the definition is evaluated by references of the depth before
          dsimp only
          rw [← ih]
          exact Run.cut_bind_congr (eval_cut body pos [] skip) fun o => finish_cut name o

theorem apply_cut (s : Setting) (fails : Failing) (name : String) (pos : Int) :
    (s.apply name pos).cut fails = (s.failing fails).apply name pos :=
  congrFun (congrFun (congrFun (enter_cut s fails (s.depthBound pos)) name) pos) true

/-! ## Calls among the events -/

section Calls

variable {fails : Failing}

/-- Only a call fails, and it is the call that says with what. -/
theorem Event.fault?_eq_some {e : Event} {f : Fault} (h : e.fault? fails = some f) :
    ∃ rule argument, e.call? = some (rule, argument) ∧ fails rule argument = some f := by
  cases e with
  | call rule argument => exact ⟨rule, argument, rfl, h⟩
  | _ => cases h

theorem Event.fault?_of_call? {e : Event} {rule : String} {argument : Value}
    (h : e.call? = some (rule, argument)) : e.fault? fails = fails rule argument := by
  cases e with
  | call rule' argument' =>
      obtain ⟨rfl, rfl⟩ := Prod.mk.inj (Option.some.inj h)
      rfl
  | _ => cases h

theorem fault?_eq_none_of_calls {events : List Event}
    (h : ∀ call ∈ actionCalls events, fails call.1 call.2 = none) :
    ∀ e ∈ events, e.fault? fails = none := by
  intro e he
  cases hfault : e.fault? fails with
  | none => rfl
  | some f =>
      obtain ⟨rule, argument, hcall, hfails⟩ := Event.fault?_eq_some hfault
      have hmem : (rule, argument) ∈ actionCalls events :=
        List.mem_filterMap.mpr ⟨e, he, hcall⟩
      rw [h _ hmem] at hfails
      cases hfails

/-- The events split where the calls do. -/
theorem events_of_actionCalls {events : List Event} {before after : List (String × Value)}
    {rule : String} {argument : Value}
    (h : actionCalls events = before ++ (rule, argument) :: after) :
    ∃ front e rest, events = front ++ e :: rest ∧ actionCalls front = before
      ∧ e.call? = some (rule, argument) := by
  obtain ⟨front, tail, rfl, hfront, htail⟩ := List.filterMap_eq_append_iff.mp h
  obtain ⟨idle, e, rest, rfl, hidle, he, -⟩ := List.filterMap_eq_cons_iff.mp htail
  refine ⟨front ++ idle, e, rest, (List.append_assoc front idle (e :: rest)).symm, ?_, he⟩
  -- between the two calls there is none
  have hnone : List.filterMap Event.call? idle = [] := List.filterMap_eq_nil_iff.mpr hidle
  rw [actionCalls, List.filterMap_append, hfront, hnone, List.append_nil]

/-- One of the calls that fail is the first. -/
theorem exists_first_failing {calls : List (String × Value)}
    (h : ∃ call ∈ calls, fails call.1 call.2 ≠ none) :
    ∃ before rule argument after f, calls = before ++ (rule, argument) :: after
      ∧ (∀ call ∈ before, fails call.1 call.2 = none) ∧ fails rule argument = some f := by
  obtain ⟨call, hcall, hfails⟩ := h
  have hsome : (calls.find? fun call => (fails call.1 call.2).isSome).isSome := by
    rw [List.find?_isSome]
    exact ⟨call, hcall, Option.isSome_iff_ne_none.mpr hfails⟩
  obtain ⟨⟨rule, argument⟩, hfirst⟩ := Option.isSome_iff_exists.mp hsome
  obtain ⟨hthis, before, after, hsplit, hbefore⟩ := List.find?_eq_some_iff_append.mp hfirst
  obtain ⟨f, hf⟩ := Option.isSome_iff_exists.mp hthis
  refine ⟨before, rule, argument, after, f, hsplit, fun call hmem => ?_, hf⟩
  simpa using hbefore call hmem

end Calls

/--
**Faults of actions surface at once and unchanged.** Let some of the calls of actions raise,
by the rule and the argument. If the evaluation calls no action in such a way, it stays as it
is: the verdict, the calls and the log are the same. Otherwise it ends with the fault of the
first call that raises, this is its last call, and what happened up to there is what happened
before. This includes the calls for `$space`, and those in alternatives and rounds that come
to nothing.
-/
theorem first_failing_call_surfaces (s : Setting) (fails : Failing) (name : String) (pos : Int) :
    ((∀ call ∈ actionCalls (s.apply name pos).events, fails call.1 call.2 = none) →
        (s.failing fails).apply name pos = s.apply name pos)
      ∧ ((∃ call ∈ actionCalls (s.apply name pos).events, fails call.1 call.2 ≠ none) →
        ∃ before rule argument after f,
          actionCalls (s.apply name pos).events = before ++ (rule, argument) :: after
            ∧ (∀ call ∈ before, fails call.1 call.2 = none) ∧ fails rule argument = some f
            ∧ ((s.failing fails).apply name pos).ending = .raised f
            ∧ actionCalls ((s.failing fails).apply name pos).events = before ++ [(rule, argument)]
            ∧ ((s.failing fails).apply name pos).events <+: (s.apply name pos).events) := by
  rw [← apply_cut]
  refine ⟨fun hclean => Run.cut_of_clean (fault?_eq_none_of_calls hclean), fun hfails => ?_⟩
  obtain ⟨before, rule, argument, after, f, hcalls, hbefore, hf⟩ := exists_first_failing hfails
  obtain ⟨front, e, rest, hevents, rfl, hcall⟩ := events_of_actionCalls hcalls
  have hfault : e.fault? fails = some f := (Event.fault?_of_call? hcall).trans hf
  have hcut : (s.apply name pos).cut fails = ⟨front ++ [e], .raised f⟩ :=
    Run.cut_of_failing hevents (fault?_eq_none_of_calls hbefore) hfault
  refine ⟨actionCalls front, rule, argument, after, f, hcalls, hbefore, hf, ?_, ?_, rest, ?_⟩
  · rw [hcut]
  · have hlast : List.filterMap Event.call? [e] = [(rule, argument)] := by
      rw [List.filterMap_cons_some hcall, List.filterMap_nil]
    rw [hcut, actionCalls, List.filterMap_append, hlast]
    rfl
  · rw [hcut, hevents, List.append_assoc]
    rfl

/-- All calls of one rule's action raise. -/
def refusing (rule : String) : Failing :=
  fun name _ => if name = rule then some (.raised "RuntimeError" "boom") else none

theorem refusing_eq_some {rule name : String} {argument : Value} {f : Fault}
    (h : refusing rule name argument = some f) : f = .raised "RuntimeError" "boom" := by
  unfold refusing at h
  split at h
  · exact (Option.some.inj h).symm
  · cases h

/--
The space before a letter is taken in an alternative that does not match. Its action is called
all the same, so the fault comes out; what is not called does not raise.
-/
theorem first_space_surfaces :
    (∀ call ∈ actionCalls ((echoSetting.on "xxy".toList).apply "$begin" 0).events,
        refusing "word" call.1 call.2 = none)
      ∧ ((echoSetting.on "xxy".toList).failing (refusing "word")).apply "$begin" 0
        = (echoSetting.on "xxy".toList).apply "$begin" 0
      ∧ (∃ call ∈ actionCalls ((echoSetting.on "xxy".toList).apply "$begin" 0).events,
        refusing spaceName call.1 call.2 ≠ none)
      ∧ (((echoSetting.on "xxy".toList).failing (refusing spaceName)).apply "$begin" 0).ending
        = .raised (.raised "RuntimeError" "boom") := by
  have hcalls : actionCalls ((echoSetting.on "xxy".toList).apply "$begin" 0).events
      = [(spaceName, .text "xx"), (spaceName, .text "xx"), (spaceName, .text ""),
        ("nest", .text ""), (spaceName, .text ""), (spaceName, .text ""), (spaceName, .text ""),
        ("nest", .text ""), ("$begin", .list [.text "", .text ""])] := rfl
  have hclean : ∀ call ∈ actionCalls ((echoSetting.on "xxy".toList).apply "$begin" 0).events,
      refusing "word" call.1 call.2 = none := by
    rw [hcalls]
    simp [refusing, spaceName]
  have hfails : ∃ call ∈ actionCalls ((echoSetting.on "xxy".toList).apply "$begin" 0).events,
      refusing spaceName call.1 call.2 ≠ none := by
    rw [hcalls]
    exact ⟨_, List.mem_cons_self, nofun⟩
  have hsame := (first_failing_call_surfaces (echoSetting.on "xxy".toList) (refusing "word")
    "$begin" 0).1 hclean
  obtain ⟨before, rule, argument, after, f, -, -, hf, hending, -, -⟩ :=
    (first_failing_call_surfaces (echoSetting.on "xxy".toList) (refusing spaceName)
      "$begin" 0).2 hfails
  rw [refusing_eq_some hf] at hending
  exact ⟨hclean, hsame, hfails, hending⟩

end TextGrammar
