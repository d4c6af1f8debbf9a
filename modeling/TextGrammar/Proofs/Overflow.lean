import TextGrammar.Proofs.OpenCalls
import TextGrammar.Proofs.Replies

/-!
# Repetitions that no list has room for

A round that takes nothing is not made again. It stands for as many rounds as the lower
bound still asks for. If these are more than a machine word can count, or than a list has
room for, the evaluator has no list for them and raises a fault, although no action did and
no rule failed (`fillFault?`). An evaluation knows no other faults of its own.

`Setting.Overflows` says where that happens: a repetition comes to such a round, and it is
started by the evaluation (`RoundsOverflow`, `Setting.Starts`). From there the fault is
passed on to the start (`raises_of_overflows`).
-/

namespace TextGrammar

variable {s : Setting} {f : Fault}

/-! ## Where an evaluation overflows -/

/--
Behind so many rounds, the rounds of a repetition come to one that takes nothing, and
there is no list of as many as the lower bound asks for.
-/
inductive RoundsOverflow (s : Setting) (node : Rule) (bounds : Bounds) (skip : Bool)
    (f : Fault) : Nat → Int → Tags → Prop where
  | idle {count : Nat} {pos : Int} {tags after : Tags} {value : Value} :
      bounds.Allows count →
      s.Gives ⟨node, pos, tags, skip⟩ ⟨.success value pos, after⟩ →
      fillFault? s.capacity (count + 1) bounds.least = some f →
      RoundsOverflow s node bounds skip f count pos tags
  | round {count : Nat} {pos mid : Int} {tags after : Tags} {value : Value} :
      bounds.Allows count →
      s.Gives ⟨node, pos, tags, skip⟩ ⟨.success value mid, after⟩ →
      mid ≠ pos →
      RoundsOverflow s node bounds skip f (count + 1) mid after →
      RoundsOverflow s node bounds skip f count pos tags

/-- The call is a repetition whose rounds overflow, or it comes to start one. -/
inductive Setting.Overflows (s : Setting) (f : Fault) : Call → Prop where
  | here {node : Rule} {bounds : Bounds} {pos : Int} {tags : Tags} {skip : Bool} :
      RoundsOverflow s node bounds skip f 0 pos tags →
      Overflows s f ⟨.repetition node bounds, pos, tags, skip⟩
  | inside {c d : Call} : s.Starts c d → Overflows s f d → Overflows s f c

/-- The evaluation of the call comes to no repetition that overflows. -/
def Setting.NeverOverflows (s : Setting) (c : Call) : Prop := ∀ f, ¬s.Overflows f c

/-- The evaluator comes to start a call that overflows when it does the task. -/
def Task.Overflows (s : Setting) (f : Fault) : Task → Int → Tags → Bool → Prop
  | .rule r, pos, tags, skip => s.Overflows f ⟨r, pos, tags, skip⟩
  | .items _ rest, pos, tags, skip => ∃ c, ItemStart s skip rest pos tags c ∧ s.Overflows f c
  | .alternatives rest, pos, tags, skip => ∃ c, AltStart s skip rest pos tags c ∧ s.Overflows f c
  | .rounds node bounds done, pos, tags, skip =>
    RoundsOverflow s node bounds skip f done.length pos tags
      ∨ ∃ c, RoundStart s node skip (bounds.max.map (· - done.length)) pos tags c ∧ s.Overflows f c

/-! ## The fault is passed on -/

section LastRound

variable {bounds : Bounds} {done : List Value} {stop : Int} {tags : Tags} {value : Value}

theorem missing_idle (bounds : Bounds) (done : List Value) (stop : Int) (tags : Tags)
    (value : Value) :
    (⟨done ++ [value], stop, tags, some value⟩ : Rounds).missing bounds.least =
      bounds.least - (done.length + 1) := by
  simp [Rounds.missing]

theorem fault?_idle (capacity : Nat) (bounds : Bounds) (done : List Value) (stop : Int)
    (tags : Tags) (value : Value) :
    (⟨done ++ [value], stop, tags, some value⟩ : Rounds).fault? capacity bounds.least =
      fillFault? capacity (done.length + 1) bounds.least := by
  simp [Rounds.fault?]

/-- The reply to rounds the last of which takes nothing, if there is no list of so many. -/
theorem Setting.roundsReply_overflow
    (h : fillFault? s.capacity (done.length + 1) bounds.least = some f) :
    s.roundsReply bounds ⟨done ++ [value], stop, tags, some value⟩ = .raised f := by
  rw [Setting.roundsReply, fault?_idle, h]

/-- The reply to rounds the last of which takes nothing, if the missing ones can be filled in. -/
theorem Setting.roundsReply_idle
    (h : fillFault? s.capacity (done.length + 1) bounds.least = none) :
    s.roundsReply bounds ⟨done ++ [value], stop, tags, some value⟩ =
      .success (.list (done ++ value :: List.replicate (bounds.least - (done.length + 1)) value))
        stop tags := by
  rw [Setting.roundsReply, fault?_idle, h, Rounds.filled, missing_idle, Option.getD_some,
    ← List.append_cons, Bounds.reply, if_pos]
  simp only [List.length_append, List.length_cons, List.length_replicate]
  omega

end LastRound

theorem raises_of_roundsOverflow {node : Rule} {bounds : Bounds} {skip : Bool} {count : Nat}
    {pos : Int} {tags : Tags} (h : RoundsOverflow s node bounds skip f count pos tags)
    (done : List Value) (hdone : done.length = count) :
    s.Replies (.rounds node bounds done) pos tags skip (.raised f) := by
  induction h generalizing done with
  | @idle count pos tags after value hallows hgives hlimit =>
      subst hdone
      obtain ⟨depth, hnode⟩ := hgives.replies
      refine ⟨depth, ?_⟩
      rw [reply?_rounds_next hallows, hnode]
      simp only [Option.bind_some, Outcome.reply, Reply.next, if_true]
      rw [Setting.roundsReply_overflow hlimit]
  | @round count pos mid tags after value hallows hgives hne _ ih =>
      subst hdone
      obtain ⟨depth, hnode, hmore⟩ := hgives.replies.both (ih (done ++ [value]) (by simp))
      refine ⟨depth, ?_⟩
      rw [reply?_rounds_next hallows, hnode]
      simp only [Option.bind_some, Outcome.reply, Reply.next, if_neg hne]
      exact hmore

theorem raises_items {skip : Bool} {items : List Rule} {pos : Int} {tags : Tags} {c : Call}
    {f : Fault} (h : ItemStart s skip items pos tags c)
    (hc : s.Replies (.rule c.rule) c.pos c.tags c.skip (.raised f)) (done : List Value) :
    s.Replies (.items done items) pos tags skip (.raised f) := by
  induction h generalizing done with
  | here =>
      obtain ⟨depth, hitem⟩ := hc
      exact ⟨depth, by rw [reply?_items_cons, hitem]; rfl⟩
  | @later r rest pos mid tags after value c hgives _ ih =>
      -- at a depth where the item has matched already
      obtain ⟨depth, hitem, hrest⟩ := hgives.replies.both (ih hc (done ++ [value]))
      exact ⟨depth, by rw [reply?_items_cons, hitem]; exact hrest⟩

theorem raises_alternatives {skip : Bool} {alts : List Rule} {pos : Int} {tags : Tags} {c : Call}
    {f : Fault} (h : AltStart s skip alts pos tags c)
    (hc : s.Replies (.rule c.rule) c.pos c.tags c.skip (.raised f)) :
    s.Replies (.alternatives alts) pos tags skip (.raised f) := by
  induction h with
  | here =>
      obtain ⟨depth, halt⟩ := hc
      exact ⟨depth, by rw [reply?_alternatives_cons, halt]; rfl⟩
  | later hgives _ ih =>
      obtain ⟨depth, halt, hrest⟩ := hgives.replies.both (ih hc)
      exact ⟨depth, by rw [reply?_alternatives_cons, halt]; exact hrest⟩

theorem raises_rounds {node : Rule} (bounds : Bounds) {skip : Bool} {left : Option Nat} {pos : Int}
    {tags : Tags} {c : Call} {f : Fault} (h : RoundStart s node skip left pos tags c)
    (hc : s.Replies (.rule c.rule) c.pos c.tags c.skip (.raised f)) (done : List Value)
    (hleft : left = bounds.max.map (· - done.length)) :
    s.Replies (.rounds node bounds done) pos tags skip (.raised f) := by
  induction h generalizing done with
  | here hne =>
      rw [hleft, bounds.left_ne_zero_iff] at hne
      obtain ⟨depth, hround⟩ := hc
      exact ⟨depth, by rw [reply?_rounds_next hne, hround]; rfl⟩
  | @later left pos mid tags after value c hne hgives hmoved _ ih =>
      rw [hleft, bounds.left_ne_zero_iff] at hne
      have hnext : left.map (· - 1) = bounds.max.map (· - (done ++ [value]).length) := by
        rw [hleft, bounds.left_succ, List.length_append, List.length_singleton]
      obtain ⟨depth, hround, hmore⟩ := hgives.replies.both (ih hc (done ++ [value]) hnext)
      refine ⟨depth, ?_⟩
      rw [reply?_rounds_next hne, hround]
      simp only [Option.bind_some, Outcome.reply, Reply.next, if_neg hmoved]
      exact hmore

/-- A fault of a call is one of the call that started it. -/
theorem raises_of_starts {c d : Call} {f : Fault} (h : s.Starts c d)
    (hd : s.Replies (.rule d.rule) d.pos d.tags d.skip (.raised f)) :
    s.Replies (.rule c.rule) c.pos c.tags c.skip (.raised f) := by
  cases h with
  | space =>
      obtain ⟨depth, hspace⟩ := hd
      exact ⟨depth, by rw [reply?_token_true, hspace]; rfl⟩
  | body hbody =>
      obtain ⟨depth, hd⟩ := hd
      exact ⟨depth + 1, by rw [reply?_ref_succ hbody, hd]; rfl⟩
  | item hitem =>
      obtain ⟨depth, hitems⟩ := raises_items hitem hd []
      exact ⟨depth, by rw [reply?_seq, hitems]⟩
  | inner =>
      obtain ⟨depth, hd⟩ := hd
      exact ⟨depth, by rw [reply?_tagged, hd]; rfl⟩
  | alternative halt =>
      obtain ⟨depth, halts⟩ := raises_alternatives halt hd
      exact ⟨depth, by rw [reply?_choice, halts]⟩
  | @round node bounds pos tags skip c hround =>
      obtain ⟨depth, hrounds⟩ := raises_rounds bounds hround hd [] (by simp)
      exact ⟨depth, by rw [reply?_repetition, hrounds]⟩

/-- What overflows raises the fault that says so. -/
theorem raises_of_overflows {c : Call} (h : s.Overflows f c) :
    s.Replies (.rule c.rule) c.pos c.tags c.skip (.raised f) := by
  induction h with
  | @here node bounds pos tags skip hrounds =>
      obtain ⟨depth, hreply⟩ := raises_of_roundsOverflow hrounds [] rfl
      exact ⟨depth, by rw [reply?_repetition, hreply]⟩
  | inside hstarts _ ih => exact raises_of_starts hstarts ih

theorem RoundsOverflow.fault_eq {node : Rule} {bounds : Bounds} {skip : Bool} {count : Nat}
    {pos : Int} {tags : Tags} (h : RoundsOverflow s node bounds skip f count pos tags) :
    f = .countTooLarge ∨ f = .outOfMemory := by
  induction h with
  | idle _ _ hfill => exact fault_of_fillFault? hfill
  | round _ _ _ _ ih => exact ih

theorem Setting.Overflows.fault_eq {c : Call} (h : s.Overflows f c) :
    f = .countTooLarge ∨ f = .outOfMemory := by
  induction h with
  | here hrounds => exact hrounds.fault_eq
  | inside _ _ ih => exact ih

/-- A task that overflows has no other reply. -/
theorem Task.Overflows.raises {task : Task} {pos : Int} {tags : Tags} {skip : Bool}
    (h : task.Overflows s f pos tags skip) :
    s.Replies task pos tags skip (.raised f) := by
  cases task with
  | rule r => exact raises_of_overflows h
  | items done rest =>
      obtain ⟨c, hstart, hc⟩ := h
      exact raises_items hstart (raises_of_overflows hc) done
  | alternatives rest =>
      obtain ⟨c, hstart, hc⟩ := h
      exact raises_alternatives hstart (raises_of_overflows hc)
  | rounds node bounds done =>
      rcases h with hrounds | ⟨c, hstart, hc⟩
      · exact raises_of_roundsOverflow hrounds done rfl
      · exact raises_rounds bounds hstart (raises_of_overflows hc) done rfl

/-! ## A task overflows if a part of it does -/

theorem Task.Overflows.item {done : List Value} {r : Rule} {rest : List Rule} {pos : Int}
    {tags : Tags} {skip : Bool} (h : (Task.rule r).Overflows s f pos tags skip) :
    (Task.items done (r :: rest)).Overflows s f pos tags skip :=
  ⟨_, .here, h⟩

theorem Task.Overflows.laterItem {done done' : List Value} {r : Rule} {rest : List Rule}
    {pos mid : Int} {tags after : Tags} {skip : Bool} {value : Value}
    (hgives : s.Gives ⟨r, pos, tags, skip⟩ ⟨.success value mid, after⟩)
    (h : (Task.items done' rest).Overflows s f mid after skip) :
    (Task.items done (r :: rest)).Overflows s f pos tags skip := by
  obtain ⟨c, hstart, hc⟩ := h
  exact ⟨c, .later hgives hstart, hc⟩

theorem Task.Overflows.alternative {r : Rule} {rest : List Rule} {pos : Int} {tags : Tags}
    {skip : Bool} (h : (Task.rule r).Overflows s f pos tags skip) :
    (Task.alternatives (r :: rest)).Overflows s f pos tags skip :=
  ⟨_, .here, h⟩

theorem Task.Overflows.laterAlternative {r : Rule} {rest : List Rule} {pos : Int} {tags : Tags}
    {skip : Bool} (hfail : s.Replies (.rule r) pos tags skip .fail)
    (h : (Task.alternatives rest).Overflows s f pos tags skip) :
    (Task.alternatives (r :: rest)).Overflows s f pos tags skip := by
  obtain ⟨c, hstart, hc⟩ := h
  obtain ⟨stop, after, hgives⟩ := hfail.gives_failure
  exact ⟨c, .later hgives hstart, hc⟩

theorem Task.Overflows.round {node : Rule} {bounds : Bounds} {done : List Value} {pos : Int}
    {tags : Tags} {skip : Bool} (hallows : bounds.Allows done.length)
    (h : (Task.rule node).Overflows s f pos tags skip) :
    (Task.rounds node bounds done).Overflows s f pos tags skip :=
  Or.inr ⟨_, .here ((bounds.left_ne_zero_iff _).mpr hallows), h⟩

theorem Task.Overflows.laterRound {node : Rule} {bounds : Bounds} {done : List Value}
    {pos mid : Int} {tags after : Tags} {skip : Bool} {value : Value}
    (hallows : bounds.Allows done.length)
    (hgives : s.Gives ⟨node, pos, tags, skip⟩ ⟨.success value mid, after⟩) (hne : mid ≠ pos)
    (h : (Task.rounds node bounds (done ++ [value])).Overflows s f mid after skip) :
    (Task.rounds node bounds done).Overflows s f pos tags skip := by
  have hlength : (done ++ [value]).length = done.length + 1 := by simp
  rcases h with hrounds | ⟨c, hstart, hc⟩
  · rw [hlength] at hrounds
    exact Or.inl (.round hallows hgives hne hrounds)
  · rw [hlength, ← bounds.left_succ] at hstart
    exact Or.inr ⟨c, .later ((bounds.left_ne_zero_iff _).mpr hallows) hgives hne hstart, hc⟩

theorem Task.Overflows.repetition {node : Rule} {bounds : Bounds} {pos : Int} {tags : Tags}
    {skip : Bool} (h : (Task.rounds node bounds []).Overflows s f pos tags skip) :
    (Task.rule (.repetition node bounds)).Overflows s f pos tags skip := by
  rcases h with hrounds | ⟨c, hstart, hc⟩
  · exact .here hrounds
  · exact .inside (.round (by simpa using hstart)) hc

end TextGrammar
