import TextGrammar.Proofs.Agreement
import TextGrammar.Proofs.Log
import TextGrammar.Proofs.Nodes

/-!
# What an evaluation raises

That a rule does not match is a result, not a fault. So an evaluation raises a fault for one of
two reasons only (`apply_raised_iff`): an action raises it (`Setting.ActionRaises`), or a
repetition has to fill in more rounds than can be counted or than there is room for
(`Setting.Overflows`). The first is up to the actions. The second is up to the rules, and a look
at the lower bounds in them excludes it (`neverOverflows`).

The origin of a fault is found from the call down: a call that has no result has started one
without, and references lose a level of depth each (`abort_of_refs`). From the origin the fault
is passed on to the start (`raises_of_starts`).
-/

namespace TextGrammar

variable {s : Setting} {f : Fault}

/-! ## Where faults come from -/

/-- The action of the rule that the call refers to raises, or that of one that it comes to start. -/
inductive Setting.ActionRaises (s : Setting) (f : Fault) : Call → Prop where
  | here {name : String} {body : Rule} {pos stop : Int} {tags inner : Tags} {skip : Bool}
      {value : Value} :
      s.rules.get? name = some body →
      s.Gives ⟨body, pos, [], skip⟩ ⟨.success value stop, inner⟩ →
      s.answer name (value.merge inner) = .error f →
      ActionRaises s f ⟨.ref name, pos, tags, skip⟩
  | inside {c d : Call} : s.Starts c d → ActionRaises s f d → ActionRaises s f c

/-- The fault is that of an action, or that of a list which cannot be filled up. -/
def Setting.Raises (s : Setting) (f : Fault) (c : Call) : Prop :=
  s.ActionRaises f c ∨ s.Overflows f c

/-- A call raises what a call raises that it starts. -/
theorem Setting.Raises.of_starts {c d : Call} (hstarts : s.Starts c d) (h : s.Raises f d) :
    s.Raises f c := by
  rcases h with haction | hover
  · exact Or.inl (.inside hstarts haction)
  · exact Or.inr (.inside hstarts hover)

/-! ## From the fault to its origin -/

/-- Only what a round that takes nothing stands for has to be filled in. -/
theorem Rounds.fillFault?_of_fault? {rounds : Rounds} {capacity least : Nat}
    (h : rounds.fault? capacity least = some f) :
    rounds.idle.isSome ∧ fillFault? capacity rounds.values.length least = some f := by
  unfold Rounds.fault? at h
  split at h
  · rename_i hidle
    exact ⟨hidle, h⟩
  · cases h

/-- Rounds that cannot be filled up have come to a round that overflows. -/
theorem roundsOverflow_of_done {node : Rule} {bounds : Bounds} {skip : Bool} {depth fuel : Nat}
    {count : Nat} {pos : Int} {tags : Tags} {rounds : Rounds}
    (hdone : (repeatRounds (fun p t => eval s (enter s depth) node p t skip) fuel
      (bounds.max.map (· - count)) pos tags).ending = .done rounds)
    (hidle : rounds.idle.isSome)
    (hfill : fillFault? s.capacity (count + rounds.values.length) bounds.least = some f) :
    RoundsOverflow s node bounds skip f count pos tags := by
  induction fuel generalizing count pos tags rounds with
  | zero =>
      rw [repeatRounds, Run.pure_eq, Ending.done.injEq] at hdone
      subst hdone
      cases hidle
  | succ fuel ih =>
      rcases repeatRounds_succ_done hdone with ⟨rfl, -⟩ | ⟨hleft, value, after, hround, rfl⟩
        | ⟨hleft, value, mid, after, more, hround, hne, hmore, rfl⟩
      · cases hidle
      · have hallows := (bounds.left_ne_zero_iff count).mp hleft
        exact .idle hallows ⟨depth, hround⟩ hfill
      · have hallows := (bounds.left_ne_zero_iff count).mp hleft
        rw [bounds.left_succ] at hmore
        refine .round hallows ⟨depth, hround⟩ hne (ih hmore hidle ?_)
        rwa [List.length_cons, Nat.add_comm more.values.length, ← Nat.add_assoc] at hfill

/-- If the end of a repetition raises, its rounds overflow. -/
theorem raises_of_finishRounds {node : Rule} {bounds : Bounds} {skip : Bool} {depth fuel : Nat}
    {pos : Int} {tags : Tags} {rounds : Rounds}
    (hdone : (repeatRounds (fun p t => eval s (enter s depth) node p t skip) fuel bounds.max pos
      tags).ending = .done rounds)
    (hraised : (finishRounds s.capacity bounds pos tags rounds).ending = .raised f) :
    s.Raises f ⟨.repetition node bounds, pos, tags, skip⟩ := by
  rw [finishRounds_ending] at hraised
  cases hfault : rounds.fault? s.capacity bounds.least with
  | none =>
      rw [hfault] at hraised
      cases hraised
  | some f' =>
      rw [hfault] at hraised
      obtain rfl : f' = f := Ending.raised.inj hraised
      obtain ⟨hidle, hfill⟩ := Rounds.fillFault?_of_fault? hfault
      have hleft : bounds.max = bounds.max.map (· - 0) := by simp
      rw [hleft] at hdone
      exact Or.inr (.here (roundsOverflow_of_done hdone hidle (by rwa [Nat.zero_add])))

/-- If the settling of a rule's value raises, its action does. -/
theorem raises_of_settled {name : String} {body : Rule} {pos : Int} {tags : Tags} {skip : Bool}
    {o : Outcome} (hbody : s.rules.get? name = some body) (hgives : s.Gives ⟨body, pos, [], skip⟩ o)
    (hraised : s.settled name o = .raised f) : s.Raises f ⟨.ref name, pos, tags, skip⟩ := by
  obtain ⟨v, inner⟩ := o
  cases v with
  | failure stop => cases hraised
  | success value stop =>
      unfold Setting.settled at hraised
      dsimp only at hraised
      cases hanswer : s.answer name (value.merge inner) with
      | ok result =>
          rw [hanswer] at hraised
          cases hraised
      | error f' =>
          rw [hanswer] at hraised
          obtain rfl : f' = f := Ending.raised.inj hraised
          exact Or.inl (.here hbody hgives hanswer)

/-- Inside a rule a fault has an origin if those of references have. -/
theorem raises_of_refs {depth : Nat}
    (hrefs : ∀ name pos tags skip,
      ((⟨.ref name, pos, tags, skip⟩ : Call).run s depth).ending = .raised f →
      s.Raises f ⟨.ref name, pos, tags, skip⟩)
    {c : Call} (h : (c.run s depth).ending = .raised f) : s.Raises f c := by
  refine abort_of_refs (w := .raised f) hrefs ?_ ?_ c.rule h
  · intro node bounds pos tags skip rounds hdone hraised
    exact raises_of_finishRounds hdone hraised
  · intro c d _ hstarts hd
    exact hd.of_starts hstarts

/-- Every fault of a call has an origin. -/
theorem raises_of_run (depth : Nat) {c : Call} (h : (c.run s depth).ending = .raised f) :
    s.Raises f c := by
  induction depth generalizing c with
  | zero =>
      -- a reference is undefined or given up here, and neither is a fault
      refine raises_of_refs ?_ h
      intro name pos tags skip hrun
      rw [Call.run_ref] at hrun
      cases hbody : s.rules.get? name with
      | none => simp [enter_undefined hbody] at hrun
      | some body => simp [enter_zero hbody] at hrun
  | succ depth ih =>
      refine raises_of_refs ?_ h
      intro name pos tags skip hrun
      rw [Call.run_ref] at hrun
      cases hbody : s.rules.get? name with
      | none => simp [enter_undefined hbody] at hrun
      | some body =>
          -- the definition raises, with one level less, or the settling of its value does
          have henter : (enter s (depth + 1) name pos skip).ending = .raised f := by
            simpa [Ending.andThen_eq_raised_iff] using hrun
          rw [enter_succ hbody, Ending.andThen_eq_raised_iff] at henter
          rcases henter with hdefinition | ⟨o, hdone, hsettled⟩
          · exact (ih (c := ⟨body, pos, [], skip⟩) hdefinition).of_starts (.body hbody)
          · exact raises_of_settled hbody ⟨depth, hdone⟩ hsettled

/-! ## From the origin to the fault -/

/-- What an action raises is what the evaluation replies that comes to call it. -/
theorem Setting.ActionRaises.replies {c : Call} (h : s.ActionRaises f c) :
    s.Replies (.rule c.rule) c.pos c.tags c.skip (.raised f) := by
  induction h with
  | @here name body pos stop tags inner skip value hbody hgives hanswer =>
      obtain ⟨depth, hreply⟩ := hgives.replies
      refine ⟨depth + 1, ?_⟩
      rw [reply?_ref_succ hbody, hreply]
      show some (s.refReply name (value.merge inner) stop tags) = some (.raised f)
      rw [Setting.refReply, hanswer]
  | inside hstarts _ ih => exact raises_of_starts hstarts ih

theorem Setting.Raises.replies {c : Call} (h : s.Raises f c) :
    s.Replies (.rule c.rule) c.pos c.tags c.skip (.raised f) := by
  rcases h with haction | hover
  · exact haction.replies
  · exact raises_of_overflows hover

theorem apply_raised_iff {name : String} {pos : Int} :
    (s.apply name pos).ending = .raised f ↔ s.Raises f (Call.first name pos) := by
  constructor
  · intro hraised
    refine raises_of_run (s.depthBound pos) ?_
    rw [Setting.apply] at hraised
    rw [Call.first, Call.run_ref, hraised, Ending.andThen_raised]
  · intro hraises
    exact reply?_verdict_raised_iff.mp (replies_first_iff.mp hraises.replies)

/-! ## Actions that never raise -/

/-- Whatever value they are called with, the actions have an answer. -/
def Setting.NeverRaises (s : Setting) : Prop :=
  ∀ name argument, ∃ value, s.answer name argument = .ok value

theorem Setting.NeverRaises.not_actionRaises (h : s.NeverRaises) {c : Call} :
    ¬s.ActionRaises f c := by
  intro hraises
  induction hraises with
  | @here name body pos stop tags inner skip value _ _ hanswer =>
      obtain ⟨result, hok⟩ := h name (value.merge inner)
      rw [hok] at hanswer
      cases hanswer
  | inside _ _ ih => exact ih

/-! ## Lower bounds that there is room for -/

/-- If the rule is a repetition, so many rounds can be counted, and there is room for them. -/
def Rule.Counted (capacity : Nat) : Rule → Prop
  | .repetition _ bounds => bounds.least ≤ Fault.wordLimit ∧ bounds.least ≤ capacity
  | _ => True

/-- What holds of all nodes of the rules, and of a reference, holds of what calls start. -/
theorem Setting.Starts.all {P : Rule → Prop}
    (hrules : ∀ name body, s.rules.get? name = some body → body.All P) (hspace : P (.ref spaceName))
    {c d : Call} (h : s.Starts c d) (hc : c.rule.All P) : d.rule.All P := by
  have hpart : ∀ part ∈ c.rule.parts, part.All P := (Rule.all_iff.mp hc).2
  cases h with
  | space => exact (Rule.all_leaf rfl).mpr hspace
  | @body name body pos tags skip hbody => exact hrules name body hbody
  | item hitem => exact hpart _ hitem.mem.2
  | inner => exact hpart _ (List.mem_singleton.mpr rfl)
  | alternative halt => exact hpart _ halt.mem.2
  | round hround => exact hpart _ (List.mem_singleton.mpr hround.rule_eq.2)

/-- Rounds overflow only if more of them are asked for than that. -/
theorem RoundsOverflow.not_counted {node : Rule} {bounds : Bounds} {skip : Bool} {count : Nat}
    {pos : Int} {tags : Tags} (h : RoundsOverflow s node bounds skip f count pos tags) :
    ¬(Rule.repetition node bounds).Counted s.capacity := by
  induction h with
  | @idle count pos tags after value _ _ hfill =>
      rintro ⟨hcount, hroom⟩
      have hpos : 0 < Fault.wordLimit := by decide
      have hnone : fillFault? s.capacity (count + 1) bounds.least = none :=
        fillFault?_eq_none_iff.mpr (Or.inr ⟨by omega, hroom⟩)
      rw [hnone] at hfill
      cases hfill
  | round _ _ _ _ ih => exact ih

theorem neverOverflows
    (hrules : ∀ name body, s.rules.get? name = some body → body.All (Rule.Counted s.capacity))
    {c : Call} (hc : c.rule.All (Rule.Counted s.capacity)) : s.NeverOverflows c := by
  intro f hover
  induction hover with
  | here hrounds => exact hrounds.not_counted (Rule.all_iff.mp hc).1
  | inside hstarts _ ih => exact ih (hstarts.all hrules trivial hc)

theorem echoSetting_neverRaises (text : List Char) : (echoSetting.on text).NeverRaises :=
  fun _ argument => ⟨argument, rfl⟩

/-- A choice whose first alternative repeats what takes nothing more often than can be counted. -/
def extremeSetting : Setting :=
  ⟨[("$begin", .choice [.repetition (.seq []) countlessBounds, .seq []])],
    fun name => if name = "$begin" then some (.function fun _ => .ok (.int 1)) else none, [],
    Fault.listCapacity⟩

end TextGrammar
