import TextGrammar.Proofs.Equivalence
import TextGrammar.Proofs.Termination

/-!
# Rules that are out of reach

An evaluation looks up the name that it starts with, `$space`, and what is referred to in the
rules that it finds there. Rules and actions of other names make no difference to it: two sets of
rules that agree on the names within reach are evaluated in the same way, decision by decision
(`apply_eq_of_agree_within_reach`).

The names within reach are closed under references at any place of a rule, and under the `$space`
that every token looks up.
-/

namespace TextGrammar

/-- The names that an evaluation by name may come to look up. -/
inductive Rules.Reaches (rules : Rules) (start : String) : String → Prop where
  | start : Reaches rules start start
  /-- Any token may have space skipped before it. -/
  | space : Reaches rules start spaceName
  | next {name other : String} {body : Rule} :
      Reaches rules start name → rules.get? name = some body → .ref other ∈ body.nodes →
      Reaches rules start other

variable {s s' : Setting} {start : String}

/-- References within reach come to the same at every depth. -/
theorem entersAgree_within_reach (htext : s.text = s'.text)
    (hcapacity : s.capacity = s'.capacity)
    (hagree : ∀ name, s.rules.Reaches start name →
      s.rules.get? name = s'.rules.get? name ∧ s.actions name = s'.actions name) (depth : Nat) :
    EntersAgree (.alike some) .same (s.evaluator depth) (s'.evaluator depth)
      fun name _ => s.rules.Reaches start name := by
  refine entersAgree hcapacity (fun name _ hname => hagree name hname) ?_ ?_ depth
  · intro name skip body other hname hbody hother
    exact .next hname hbody hother
  · rintro name skip body t depth - - - henters pos _ rfl
    exact evalToken_same htext (henters spaceName false pos pos .space rfl)

/--
**Rules that are out of reach are irrelevant.** If two sets of rules and actions agree on every
name that can be reached by references from a start name or from `$space`, then an evaluation of
that name takes the same decisions with either: both end or neither does; they match or not alike,
with the same value and the same position where they stop, or raise the same fault; and they have
the same log and call the same actions with the same arguments, in the same order. Also what was
recorded before an evaluation is given up is the same at every depth.
-/
theorem apply_eq_of_agree_within_reach (s s' : Setting) (htext : s.text = s'.text)
    (hcapacity : s.capacity = s'.capacity) (start : String)
    (hagree : ∀ name, s.rules.Reaches start name →
      s.rules.get? name = s'.rules.get? name ∧ s.actions name = s'.actions name) (pos : Int) :
    (s.NeverEnds (Call.first start pos) ↔ s'.NeverEnds (Call.first start pos))
      ∧ (¬s.NeverEnds (Call.first start pos) → s.apply start pos = s'.apply start pos)
      ∧ ∀ depth, enter s depth start pos true = enter s' depth start pos true := by
  have halike : ∀ depth, Run.Alike some (Verdict.Aligned .same) (enter s depth start pos true)
      (enter s' depth start pos true) :=
    fun depth =>
      entersAgree_within_reach htext hcapacity hagree depth start true pos pos .start rfl
  obtain ⟨hnever, happly⟩ := apply_alike_of_enter halike
  exact ⟨hnever, fun hends => (happly hends).eq fun _ _ hv => hv.eq,
    fun depth => (halike depth).eq fun _ _ hv => hv.eq⟩

def letterSetting : Setting := ⟨letterRules, fun _ => none, "xxy".toList, Fault.listCapacity⟩

/-- A rule that leads to itself and an action that cannot be called, both out of reach. -/
def spareSetting : Setting :=
  ⟨letterRules ++ [("spare", .ref "spare")],
    fun name => if name = "spare" then some (.value .null) else none, "xxy".toList,
    Fault.listCapacity⟩

theorem letterRules_reaches {name : String} (h : letterRules.Reaches "$begin" name) :
    name = "$begin" ∨ name = "nest" ∨ name = spaceName := by
  induction h with
  | start => exact .inl rfl
  | space => exact .inr (.inr rfl)
  | next _ hbody hother _ =>
      rcases letterRules_get? hbody with ⟨-, rfl⟩ | ⟨-, rfl⟩ | ⟨-, rfl⟩
      · refine .inr (.inl ?_)
        simpa [Rule.nodes, Rule.nodesAll] using hother
      · refine .inr ?_
        simpa [Rule.nodes, Rule.nodesAll] using hother
      · simp [Rule.nodes] at hother

/-- What is out of reach of `$begin` may be added. -/
theorem apply_letterSetting_eq :
    letterSetting.text = spareSetting.text
      ∧ letterSetting.capacity = spareSetting.capacity
      ∧ (∀ name, letterSetting.rules.Reaches "$begin" name →
          letterSetting.rules.get? name = spareSetting.rules.get? name
            ∧ letterSetting.actions name = spareSetting.actions name)
      ∧ ¬letterSetting.NeverEnds (Call.first "$begin" 0)
      ∧ letterSetting.apply "$begin" 0 = spareSetting.apply "$begin" 0 := by
  have hagree : ∀ name, letterSetting.rules.Reaches "$begin" name →
      letterSetting.rules.get? name = spareSetting.rules.get? name
        ∧ letterSetting.actions name = spareSetting.actions name := by
    intro name hname
    rcases letterRules_reaches hname with rfl | rfl | rfl <;> exact ⟨rfl, rfl⟩
  have hends : ¬letterSetting.NeverEnds (Call.first "$begin" 0) := by
    rw [← apply_eq_runaway_iff]
    nofun
  exact ⟨rfl, rfl, hagree, hends,
    (apply_eq_of_agree_within_reach letterSetting spareSetting rfl rfl "$begin" hagree 0).2.1 hends⟩

end TextGrammar
