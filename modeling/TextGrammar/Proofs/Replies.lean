import TextGrammar.Proofs.Depth

/-!
# What an evaluation replies

An evaluation comes to a reply: a value with the position behind it and the tagged parts,
a failure, or a fault. The evaluator says more of a failure, namely where it stopped and
what had been tagged until then, but whoever asked puts both back or drops them. So how
the evaluator replies to a task follows from how it replies to the tasks that this one
consists of, and these equations do not mention what is left of a failure.

A task that has a reply at some depth has it at any greater depth (`Task.reply?_mono`).
-/

namespace TextGrammar

variable {s : Setting}

/-! ## Tasks and replies -/

/-- What there is to do. -/
inductive Task where
  | rule (r : Rule)
  /-- The rest of a sequence, behind items with these values. -/
  | items (done : List Value) (rest : List Rule)
  /-- The alternatives that are left. -/
  | alternatives (rest : List Rule)
  /-- More rounds of a repetition, behind rounds with these values. -/
  | rounds (node : Rule) (bounds : Bounds) (done : List Value)

/-- What comes of a task. -/
inductive Reply where
  | success (value : Value) (stop : Int) (tags : Tags)
  | fail
  | raised (f : Fault)

/-- The reply to a task that needs the reply to another one; a fault is passed on. -/
def Reply.next (onFail : Option Reply) (onSuccess : Value → Int → Tags → Option Reply) :
    Reply → Option Reply
  | .success value stop tags => onSuccess value stop tags
  | .fail => onFail
  | .raised f => some (.raised f)

/-- An outcome as a reply. -/
def Outcome.reply : Outcome → Reply
  | ⟨.success value stop, after⟩ => .success value stop after
  | ⟨.failure _, _⟩ => .fail

/-- How far a sequence has got as a reply; the items before had the given values. -/
def Progress.reply (done : List Value) (p : Progress) : Reply :=
  match p.values with
  | some values => .success (.list (done ++ values)) p.stop p.tags
  | none => .fail

/-- A token gives what its pattern finds at the front of what is left of the text. -/
def Setting.tokenReply (s : Setting) (t : Token) (start : Int) (tags : Tags) : Reply :=
  match t.find? (s.remaining start) with
  | none => .fail
  | some found => .success (.text (String.ofList found.text)) (start + found.length) tags

/-- What becomes of the value of a rule; the caller's tagged parts are kept. -/
def Setting.refReply (s : Setting) (name : String) (argument : Value) (stop : Int)
    (tags : Tags) : Reply :=
  match s.answer name argument with
  | .ok result => .success result stop tags
  | .error f => .raised f

/-- A repetition that has stopped matches if enough rounds are there. -/
def Bounds.reply (bounds : Bounds) (done : List Value) (stop : Int) (tags : Tags) : Reply :=
  if bounds.least ≤ done.length then .success (.list done) stop tags else .fail

/-- What becomes of rounds: those that the last one stands for are filled in, if they can be. -/
def Setting.roundsReply (s : Setting) (bounds : Bounds) (rounds : Rounds) : Reply :=
  match rounds.fault? s.capacity bounds.least with
  | some f => .raised f
  | none => bounds.reply (rounds.filled bounds.least) rounds.stop rounds.tags

/-- The bounds allow for another round after so many. -/
def Bounds.Allows (bounds : Bounds) (count : Nat) : Prop :=
  ∀ most, bounds.max = some most → count < most

theorem Bounds.reply_of_le {bounds : Bounds} {done : List Value} (h : bounds.least ≤ done.length)
    (stop : Int) (tags : Tags) : bounds.reply done stop tags = .success (.list done) stop tags :=
  if_pos h

theorem Bounds.reply_eq_success {bounds : Bounds} {done : List Value} {pos stop : Int}
    {tags after : Tags} {value : Value}
    (h : bounds.reply done pos tags = .success value stop after) :
    bounds.least ≤ done.length ∧ value = .list done ∧ stop = pos ∧ after = tags := by
  unfold Bounds.reply at h
  split at h
  · rename_i hleast
    obtain ⟨rfl, rfl, rfl⟩ := Reply.success.inj h
    exact ⟨hleast, rfl, rfl, rfl⟩
  · cases h

/-- The reply of a run, unless it was given up. -/
def Ending.reply? {α : Type} (f : α → Reply) : Ending α → Option Reply
  | .done a => some (f a)
  | .raised f => some (.raised f)
  | .runaway => none

/-- The same rounds behind others with the given values. -/
def Rounds.behind (rounds : Rounds) (done : List Value) : Rounds :=
  { rounds with values := done ++ rounds.values }

/-- The rounds of a repetition behind others, with what becomes of all of them. -/
def Setting.roundsRun (s : Setting) (depth : Nat) (node : Rule) (bounds : Bounds)
    (done : List Value) (pos : Int) (tags : Tags) (skip : Bool) : Run Outcome := do
  let rounds ← repeatRounds (fun p t => eval s (enter s depth) node p t skip) (s.room pos + 1)
    (bounds.max.map (· - done.length)) pos tags
  finishRounds s.capacity bounds pos tags (rounds.behind done)

/-- How the evaluator replies to a task with at most `depth` references open at a time. -/
def Task.reply? (s : Setting) (depth : Nat) : Task → Int → Tags → Bool → Option Reply
  | .rule r, pos, tags, skip =>
    (eval s (enter s depth) r pos tags skip).ending.reply? Outcome.reply
  | .items done rest, pos, tags, skip =>
    (evalItems s (enter s depth) rest pos tags skip).ending.reply? (Progress.reply done)
  | .alternatives rest, pos, tags, skip =>
    (evalChoice s (enter s depth) 0 rest pos tags skip).ending.reply? Outcome.reply
  | .rounds node bounds done, pos, tags, skip =>
    (s.roundsRun depth node bounds done pos tags skip).ending.reply? Outcome.reply

theorem Ending.reply?_eq_success_iff {x : Ending Outcome} {value : Value} {stop : Int}
    {after : Tags} :
    x.reply? Outcome.reply = some (.success value stop after) ↔
      x = .done ⟨.success value stop, after⟩ := by
  rcases x with ⟨⟨v | v, inner⟩⟩ | f | _ <;> simp [Ending.reply?, Outcome.reply, and_assoc]

theorem Ending.reply?_eq_fail_iff {x : Ending Outcome} :
    x.reply? Outcome.reply = some .fail ↔ ∃ stop after, x = .done ⟨.failure stop, after⟩ := by
  rcases x with ⟨⟨v | v, inner⟩⟩ | f | _ <;> simp [Ending.reply?, Outcome.reply]

/-! ## Depth -/

theorem Run.Approximates.reply? {α : Type} {x y : Run α} {f : α → Reply} {reply : Reply}
    (h : x.Approximates y) (hx : x.ending.reply? f = some reply) :
    y.ending.reply? f = some reply := by
  rcases h with hrun | rfl
  · simp [hrun, Ending.reply?] at hx
  · exact hx

/-- A reply stays the same at any greater depth. -/
theorem Task.reply?_mono {depth depth' : Nat} (h : depth ≤ depth') {task : Task} {pos : Int}
    {tags : Tags} {skip : Bool} {reply : Reply}
    (hreply : task.reply? s depth pos tags skip = some reply) :
    task.reply? s depth' pos tags skip = some reply := by
  have hagree : ∀ r, Agree (.mirrored some) .same (s.evaluator depth) (s.evaluator depth') skip r r :=
    fun r => agree_deeper h r skip
  have hall : ∀ rs : List Rule, List.Forall₂
      (Agree (.mirrored some) .same (s.evaluator depth) (s.evaluator depth') skip) rs rs :=
    fun rs => List.forall₂_same.mpr fun r _ => hagree r
  have hpos : Alignment.same.At pos pos := rfl
  cases task with
  | rule r =>
      have hrule := hagree r pos pos tags hpos
      exact (hrule.approximates fun _ _ ho => ho.eq).reply? hreply
  | items done rest =>
      have hitems := evalItems_agree (hall rest) hpos tags
      exact (hitems.approximates fun _ _ hp => hp.eq).reply? hreply
  | alternatives rest =>
      have halts := evalChoice_agree (hall rest) hpos 0 tags
      exact (halts.approximates fun _ _ ho => ho.eq).reply? hreply
  | rounds node bounds done =>
      have hrounds := repeatRounds_agree (hagree node) (s.room pos + 1)
        (bounds.max.map (· - done.length)) hpos tags
      refine Run.Approximates.reply? ?_ hreply
      exact (hrounds.approximates fun _ _ hx => hx.eq).bind fun _ => Run.Approximates.refl _

/-! ## The reply to a task by the replies to its parts -/

/-- The reply of a run that goes on with the outcome of another one. -/
theorem Ending.reply?_andThen {β : Type} {x : Ending Outcome} {f : Outcome → Ending β}
    {g : β → Reply} {onFail : Option Reply} {onSuccess : Value → Int → Tags → Option Reply}
    (hfail : ∀ stop after, (f ⟨.failure stop, after⟩).reply? g = onFail)
    (hsuccess : ∀ value stop after,
      (f ⟨.success value stop, after⟩).reply? g = onSuccess value stop after) :
    (x.andThen f).reply? g = (x.reply? Outcome.reply).bind (Reply.next onFail onSuccess) := by
  cases x with
  | done o =>
      obtain ⟨v, after⟩ := o
      cases v with
      | failure stop => exact hfail stop after
      | success value stop => exact hsuccess value stop after
  | raised f => rfl
  | runaway => rfl

/-- What the replies say of a reference is what they say of the rule that refers to it. -/
theorem reply?_ref_enter (depth : Nat) (name : String) (pos : Int) (tags : Tags) (skip : Bool) :
    Task.reply? s depth (.rule (.ref name)) pos tags skip =
      (enter s depth name pos skip).ending.reply? fun v => Outcome.reply ⟨v, tags⟩ := by
  rw [Task.reply?, eval_ref_ending]
  cases (enter s depth name pos skip).ending <;> rfl

theorem takeToken_reply (t : Token) (pos start : Int) (tags : Tags) :
    Outcome.reply ⟨s.takeToken t pos start, tags⟩ = s.tokenReply t start tags := by
  unfold Setting.takeToken Setting.tokenReply
  cases t.find? (s.remaining start) <;> rfl

theorem reply?_token_false (depth : Nat) (t : Token) (pos : Int) (tags : Tags) :
    Task.reply? s depth (.rule (.token t)) pos tags false = some (s.tokenReply t pos tags) := by
  rw [Task.reply?, eval_token_ending, tokenStart_false, Ending.andThen_done, Ending.reply?,
    takeToken_reply]

theorem reply?_token_true (depth : Nat) (t : Token) (pos : Int) (tags : Tags) :
    Task.reply? s depth (.rule (.token t)) pos tags true =
      (Task.reply? s depth (.rule (.ref spaceName)) pos [] false).bind
        (Reply.next (some (s.tokenReply t pos tags)) fun _ start _ =>
          some (s.tokenReply t start tags)) := by
  rw [Task.reply?, eval_token_ending, tokenStart_true, reply?_ref_enter]
  cases (enter s depth spaceName pos false).ending with
  | done v =>
      cases v with
      | success value start => exact congrArg some (takeToken_reply t pos start tags)
      | failure stop => exact congrArg some (takeToken_reply t pos pos tags)
  | raised f => rfl
  | runaway => rfl

theorem reply?_undefined {name : String} (h : s.rules.get? name = none) (depth : Nat) (pos : Int)
    (tags : Tags) (skip : Bool) :
    Task.reply? s depth (.rule (.ref name)) pos tags skip = some .fail := by
  rw [reply?_ref_enter, enter_undefined h]
  rfl

theorem reply?_ref_zero {name : String} {body : Rule} (h : s.rules.get? name = some body)
    (pos : Int) (tags : Tags) (skip : Bool) :
    Task.reply? s 0 (.rule (.ref name)) pos tags skip = none := by
  rw [reply?_ref_enter, enter_zero h]
  rfl

theorem reply?_ref_succ {name : String} {body : Rule} (h : s.rules.get? name = some body)
    (depth : Nat) (pos : Int) (tags : Tags) (skip : Bool) :
    Task.reply? s (depth + 1) (.rule (.ref name)) pos tags skip =
      (Task.reply? s depth (.rule body) pos [] skip).bind
        (Reply.next (some .fail) fun value stop inner =>
          some (s.refReply name (value.merge inner) stop tags)) := by
  rw [reply?_ref_enter, enter_succ h, Task.reply?]
  refine Ending.reply?_andThen (fun _ _ => rfl) fun value stop inner => ?_
  simp only [Setting.settled, Setting.refReply]
  cases s.answer name (value.merge inner) <;> rfl

theorem reply?_seq (depth : Nat) (items : List Rule) (pos : Int) (tags : Tags) (skip : Bool) :
    Task.reply? s depth (.rule (.seq items)) pos tags skip =
      Task.reply? s depth (.items [] items) pos tags skip := by
  simp only [Task.reply?, eval_seq_ending]
  cases (evalItems s (enter s depth) items pos tags skip).ending with
  | done p =>
      obtain ⟨values, stop, after⟩ := p
      cases values <;> rfl
  | raised f => rfl
  | runaway => rfl

theorem reply?_items_nil (depth : Nat) (done : List Value) (pos : Int) (tags : Tags)
    (skip : Bool) :
    Task.reply? s depth (.items done []) pos tags skip = some (.success (.list done) pos tags) := by
  simp [Task.reply?, evalItems, Ending.reply?, Progress.reply]

theorem reply?_items_cons (depth : Nat) (done : List Value) (r : Rule) (rest : List Rule)
    (pos : Int) (tags : Tags) (skip : Bool) :
    Task.reply? s depth (.items done (r :: rest)) pos tags skip =
      (Task.reply? s depth (.rule r) pos tags skip).bind
        (Reply.next (some .fail) fun value mid after =>
          Task.reply? s depth (.items (done ++ [value]) rest) mid after skip) := by
  simp only [Task.reply?, evalItems, Run.ending_bind]
  refine Ending.reply?_andThen (fun _ _ => rfl) fun value mid after => ?_
  rw [Run.ending_bind]
  cases (evalItems s (enter s depth) rest mid after skip).ending with
  | done p =>
      obtain ⟨values, stop, after⟩ := p
      cases values <;> simp [Ending.reply?, Progress.reply]
  | raised f => rfl
  | runaway => rfl

theorem reply?_tagged (depth : Nat) (tag : String) (node : Rule) (pos : Int) (tags : Tags)
    (skip : Bool) :
    Task.reply? s depth (.rule (.tagged tag node)) pos tags skip =
      (Task.reply? s depth (.rule node) pos [] skip).bind
        (Reply.next (some .fail) fun value stop inner =>
          some (.success value stop ((Table.update tags inner).insert tag (value.merge inner)))) := by
  simp only [Task.reply?, eval_tagged_ending]
  exact Ending.reply?_andThen (fun _ _ => rfl) fun _ _ _ => rfl

theorem reply?_choice (depth : Nat) (alts : List Rule) (pos : Int) (tags : Tags) (skip : Bool) :
    Task.reply? s depth (.rule (.choice alts)) pos tags skip =
      Task.reply? s depth (.alternatives alts) pos tags skip := by
  simp only [Task.reply?, eval_choice_ending]

/-- The number of an alternative is only recorded. -/
theorem evalChoice_index {e : Enter} (index index' : Nat) (alts : List Rule) (pos : Int)
    (tags : Tags) (skip : Bool) :
    (evalChoice s e index alts pos tags skip).ending =
      (evalChoice s e index' alts pos tags skip).ending := by
  induction alts generalizing index index' with
  | nil => rfl
  | cons r rest ih =>
      rw [evalChoice, evalChoice, Run.ending_bind, Run.ending_bind]
      congr 1
      funext o
      obtain ⟨v, after⟩ := o
      cases v with
      | failure stop => exact ih (index + 1) (index' + 1)
      | success value stop => rfl

theorem reply?_alternatives_nil (depth : Nat) (pos : Int) (tags : Tags) (skip : Bool) :
    Task.reply? s depth (.alternatives []) pos tags skip = some .fail := by
  simp [Task.reply?, evalChoice, Ending.reply?, Outcome.reply]

theorem reply?_alternatives_cons (depth : Nat) (r : Rule) (rest : List Rule) (pos : Int)
    (tags : Tags) (skip : Bool) :
    Task.reply? s depth (.alternatives (r :: rest)) pos tags skip =
      (Task.reply? s depth (.rule r) pos tags skip).bind
        (Reply.next (Task.reply? s depth (.alternatives rest) pos tags skip)
          fun value stop after => some (.success value stop after)) := by
  simp only [Task.reply?, evalChoice, Run.ending_bind]
  refine Ending.reply?_andThen (fun _ _ => ?_) fun _ _ _ => rfl
  rw [evalChoice_index]

theorem finishRounds_reply? (bounds : Bounds) (pos : Int) (tags : Tags) (rounds : Rounds) :
    (finishRounds s.capacity bounds pos tags rounds).ending.reply? Outcome.reply =
      some (s.roundsReply bounds rounds) := by
  rw [finishRounds_ending]
  unfold Setting.roundsReply
  cases rounds.fault? s.capacity bounds.least with
  | some f => rfl
  | none =>
      simp only [Ending.reply?, Bounds.outcome, Bounds.reply]
      split <;> rfl

theorem reply?_rounds (depth : Nat) (node : Rule) (bounds : Bounds) (done : List Value) (pos : Int)
    (tags : Tags) (skip : Bool) :
    Task.reply? s depth (.rounds node bounds done) pos tags skip =
      (repeatRounds (fun p t => eval s (enter s depth) node p t skip) (s.room pos + 1)
        (bounds.max.map (· - done.length)) pos tags).ending.reply? fun rounds =>
          s.roundsReply bounds (rounds.behind done) := by
  rw [Task.reply?, Setting.roundsRun, Run.ending_bind]
  cases (repeatRounds (fun p t => eval s (enter s depth) node p t skip) (s.room pos + 1)
    (bounds.max.map (· - done.length)) pos tags).ending with
  | done rounds => exact finishRounds_reply? bounds pos tags (rounds.behind done)
  | raised f => rfl
  | runaway => rfl

theorem reply?_repetition (depth : Nat) (node : Rule) (bounds : Bounds) (pos : Int) (tags : Tags)
    (skip : Bool) :
    Task.reply? s depth (.rule (.repetition node bounds)) pos tags skip =
      Task.reply? s depth (.rounds node bounds []) pos tags skip := by
  simp [Task.reply?, Setting.roundsRun, eval_repetition_ending, Rounds.behind]

theorem Bounds.left_ne_zero_iff (bounds : Bounds) (count : Nat) :
    bounds.max.map (· - count) ≠ some 0 ↔ bounds.Allows count := by
  unfold Bounds.Allows
  cases bounds.max with
  | none => simp
  | some most =>
      simp only [Option.map_some, ne_eq, Option.some.injEq, forall_eq']
      omega

theorem Bounds.left_succ (bounds : Bounds) (count : Nat) :
    (bounds.max.map (· - count)).map (· - 1) = bounds.max.map (· - (count + 1)) := by
  cases bounds.max with
  | none => rfl
  | some most => rfl

/-- Without a last round that takes nothing no rounds are filled in. -/
theorem Setting.roundsReply_stopped (s : Setting) (bounds : Bounds) (done : List Value)
    (stop : Int) (tags : Tags) :
    s.roundsReply bounds ⟨done, stop, tags, none⟩ = bounds.reply done stop tags := by
  simp [Setting.roundsReply, Rounds.fault?, Rounds.missing, Rounds.filled]

theorem reply?_rounds_full {bounds : Bounds} {done : List Value}
    (h : ¬bounds.Allows done.length) (depth : Nat) (node : Rule) (pos : Int) (tags : Tags)
    (skip : Bool) :
    Task.reply? s depth (.rounds node bounds done) pos tags skip =
      some (bounds.reply done pos tags) := by
  have hleft : bounds.max.map (· - done.length) = some 0 :=
    Classical.byContradiction fun hne => h ((bounds.left_ne_zero_iff _).mp hne)
  rw [reply?_rounds, repeatRounds, if_pos hleft, ← s.roundsReply_stopped bounds done pos tags]
  simp [Ending.reply?, Rounds.behind]

/-- Rounds behind one more are the rounds behind the others with that one in front. -/
theorem reply?_behind_cons (bounds : Bounds) (done : List Value) (value : Value)
    (x : Ending Rounds) :
    (x.andThen fun more => .done { more with values := value :: more.values }).reply?
        (fun rounds => s.roundsReply bounds (rounds.behind done)) =
      x.reply? fun rounds => s.roundsReply bounds (rounds.behind (done ++ [value])) := by
  cases x with
  | done more => simp [Ending.reply?, Rounds.behind]
  | raised f => simp [Ending.reply?]
  | runaway => simp [Ending.reply?]

theorem reply?_rounds_next {bounds : Bounds} {done : List Value} (h : bounds.Allows done.length)
    (depth : Nat) (node : Rule) (pos : Int) (tags : Tags) (skip : Bool) :
    Task.reply? s depth (.rounds node bounds done) pos tags skip =
      (Task.reply? s depth (.rule node) pos tags skip).bind
        (Reply.next (some (bounds.reply done pos tags)) fun value mid after =>
          if mid = pos then some (s.roundsReply bounds ⟨done ++ [value], mid, after, some value⟩)
          else Task.reply? s depth (.rounds node bounds (done ++ [value])) mid after skip) := by
  have hwithin := fun p t => eval_within (enter_within s depth) node p t skip
  rw [← bounds.left_ne_zero_iff] at h
  rw [reply?_rounds, repeatRounds_loop hwithin, if_neg h, Run.ending_bind]
  refine Ending.reply?_andThen (fun _ _ => ?_) fun value mid after => ?_
  · show some (s.roundsReply bounds (Rounds.behind ⟨[], pos, tags, none⟩ done)) = _
    rw [Rounds.behind, List.append_nil, s.roundsReply_stopped]
  · by_cases heq : mid = pos
    · simp only [if_pos heq]
      rfl
    · simp only [if_neg heq]
      rw [Run.ending_bind, bounds.left_succ, reply?_rounds, List.length_append,
        List.length_singleton]
      exact reply?_behind_cons bounds done value _

theorem reply?_unknown (depth : Nat) (value : Declaration) (pos : Int) (tags : Tags)
    (skip : Bool) :
    Task.reply? s depth (.rule (.unknown value)) pos tags skip = some .fail := by
  rw [Task.reply?, eval_unknown_ending]
  rfl

/-! ## Replies at some depth -/

/-- The evaluator replies to the task, at some depth. -/
def Setting.Replies (s : Setting) (task : Task) (pos : Int) (tags : Tags) (skip : Bool)
    (reply : Reply) : Prop :=
  ∃ depth, task.reply? s depth pos tags skip = some reply

/-- Two tasks that have replies have them at a common depth. -/
theorem Setting.Replies.both {task task' : Task} {pos pos' : Int} {tags tags' : Tags}
    {skip skip' : Bool} {reply reply' : Reply} (h : s.Replies task pos tags skip reply)
    (h' : s.Replies task' pos' tags' skip' reply') :
    ∃ depth, task.reply? s depth pos tags skip = some reply
      ∧ task'.reply? s depth pos' tags' skip' = some reply' := by
  obtain ⟨n, hn⟩ := h
  obtain ⟨m, hm⟩ := h'
  exact ⟨max n m, Task.reply?_mono (Nat.le_max_left n m) hn,
    Task.reply?_mono (Nat.le_max_right n m) hm⟩

theorem Setting.Replies.unique {task : Task} {pos : Int} {tags : Tags} {skip : Bool}
    {reply reply' : Reply} (h : s.Replies task pos tags skip reply)
    (h' : s.Replies task pos tags skip reply') : reply = reply' := by
  obtain ⟨depth, hn, hm⟩ := h.both h'
  rw [hn] at hm
  exact Option.some.inj hm

/-- A call that has an outcome replies with it. -/
theorem Setting.Gives.replies {c : Call} {o : Outcome} (h : s.Gives c o) :
    s.Replies (.rule c.rule) c.pos c.tags c.skip o.reply := by
  obtain ⟨depth, hdone⟩ := h
  refine ⟨depth, ?_⟩
  simp only [Call.run] at hdone
  rw [Task.reply?, hdone]
  rfl

/-- A rule that replies with a value has the outcome. -/
theorem Setting.Replies.gives {r : Rule} {pos stop : Int} {tags after : Tags} {skip : Bool}
    {value : Value} (h : s.Replies (.rule r) pos tags skip (.success value stop after)) :
    s.Gives ⟨r, pos, tags, skip⟩ ⟨.success value stop, after⟩ := by
  obtain ⟨depth, hreply⟩ := h
  exact ⟨depth, Ending.reply?_eq_success_iff.mp hreply⟩

/-- A rule that fails has an outcome that says where it stopped. -/
theorem Setting.Replies.gives_failure {r : Rule} {pos : Int} {tags : Tags} {skip : Bool}
    (h : s.Replies (.rule r) pos tags skip .fail) :
    ∃ stop after, s.Gives ⟨r, pos, tags, skip⟩ ⟨.failure stop, after⟩ := by
  obtain ⟨depth, hreply⟩ := h
  obtain ⟨stop, after, hdone⟩ := Ending.reply?_eq_fail_iff.mp hreply
  exact ⟨stop, after, depth, hdone⟩

end TextGrammar
