import TextGrammar.Proofs.Comparison

/-!
# How deep references may go

`enter` gives a run up when too many references are open. One that was not given up
is the same at any greater depth, so depth is only a way to write down evaluations
that may not end:

* `Setting.Gives` is the result of an evaluation at any depth, the same at all depths
  that suffice (`Setting.Gives.eq_at`);
* a call that is given up at every depth never ends (`Setting.NeverEnds`).
-/

namespace TextGrammar

variable {s : Setting} {depth depth' : Nat}

/-! ## More depth, less given up -/

/-- A run that mirrors another one with the same results is approximated by it. -/
theorem Run.Mirrored.approximates {α : Type} {R : α → α → Prop} {x y : Run α}
    (h : Mirrored some R x y) (hR : ∀ a b, R a b → a = b) : x.Approximates y :=
  h.imp_right fun halike => halike.eq hR

/-- References that are not given up come to the same at any greater depth. -/
theorem entersAgree_deeper (h : depth ≤ depth') :
    EntersAgree (.mirrored some) .same (s.evaluator depth) (s.evaluator depth')
      fun _ _ => True := by
  induction depth generalizing depth' with
  | zero =>
      intro name skip pos pos' _ hpos
      cases hbody : s.rules.get? name with
      | none => exact enter_undefined_agree hbody hbody hpos skip _ _
      | some body => exact .inl (enter_zero hbody pos skip)
  | succ depth ih =>
      obtain ⟨depth', rfl⟩ : ∃ n, depth' = n + 1 := ⟨depth' - 1, by omega⟩
      intro name skip pos pos' _ hpos
      cases hbody : s.rules.get? name with
      | none => exact enter_undefined_agree hbody hbody hpos skip _ _
      | some body =>
          have hagree := ih (Nat.le_of_succ_le_succ h)
          exact enter_succ_agree hbody hbody rfl
            (.of_enters rfl rfl hagree trivial fun _ _ => trivial) hpos

/-- A rule comes to the same at any greater depth, unless it is given up. -/
theorem agree_deeper (h : depth ≤ depth') (r : Rule) (skip : Bool) :
    Agree (.mirrored some) .same (s.evaluator depth) (s.evaluator depth') skip r r :=
  .of_enters rfl rfl (entersAgree_deeper h) trivial fun _ _ => trivial

/-- A reference that was not given up is the same at any greater depth. -/
theorem enter_approximates (h : depth ≤ depth') (name : String) (pos : Int) (skip : Bool) :
    (enter s depth name pos skip).Approximates (enter s depth' name pos skip) :=
  (entersAgree_deeper h name skip pos pos trivial rfl).approximates fun _ _ hv => hv.eq

/-! ## Calls -/

/-- The evaluation of a rule: at a position, with some tagged parts, with or without skipping. -/
structure Call where
  rule : Rule
  pos : Int
  tags : Tags
  skip : Bool

/-- The run of a call with at most `depth` references open at a time. -/
def Call.run (s : Setting) (depth : Nat) (c : Call) : Run Outcome :=
  eval s (enter s depth) c.rule c.pos c.tags c.skip

theorem Call.run_ref (s : Setting) (depth : Nat) (name : String) (pos : Int) (tags : Tags)
    (skip : Bool) :
    ((⟨.ref name, pos, tags, skip⟩ : Call).run s depth).ending =
      (enter s depth name pos skip).ending.andThen fun v => .done ⟨v, tags⟩ :=
  eval_ref_ending name pos tags skip

theorem Call.run_approximates {depth depth' : Nat} (h : depth ≤ depth') (c : Call) :
    (c.run s depth).Approximates (c.run s depth') :=
  (agree_deeper h c.rule c.skip c.pos c.pos c.tags rfl).approximates fun _ _ ho => ho.eq

theorem Call.run_within (s : Setting) (depth : Nat) (c : Call) :
    (c.run s depth).Yields fun o => s.Within c.pos o.verdict.stop :=
  eval_within (enter_within s depth) c.rule c.pos c.tags c.skip

/-- A call has an outcome, at some depth. -/
def Setting.Gives (s : Setting) (c : Call) (o : Outcome) : Prop :=
  ∃ depth, (c.run s depth).ending = .done o

/-- At any depth a call is given up or has the outcome that it has at another depth. -/
theorem Setting.Gives.eq_at {c : Call} {o : Outcome} (h : s.Gives c o) (depth : Nat) :
    (c.run s depth).ending = .runaway ∨ (c.run s depth).ending = .done o := by
  obtain ⟨depth', hdone⟩ := h
  rcases Nat.le_total depth depth' with hle | hle
  · rcases Call.run_approximates hle c with hrun | heq
    · exact Or.inl hrun
    · exact Or.inr (by rw [heq, hdone])
  · rcases Call.run_approximates hle c with hrun | heq
    · rw [hdone] at hrun
      exact absurd hrun (by simp)
    · exact Or.inr (by rw [← heq, hdone])

theorem Setting.Gives.within {c : Call} {o : Outcome} (h : s.Gives c o) :
    s.Within c.pos o.verdict.stop := by
  obtain ⟨depth, hdone⟩ := h
  exact c.run_within s depth o hdone

/-- A call does not end: however many references may be open, there would be more. -/
def Setting.NeverEnds (s : Setting) (c : Call) : Prop :=
  ∀ depth, (c.run s depth).ending = .runaway

/-- The call that an evaluation by name starts with. -/
def Call.first (name : String) (pos : Int) : Call := ⟨.ref name, pos, [], true⟩

end TextGrammar
