import TextGrammar.Proofs.PlainLoop
import TextGrammar.Proofs.Reading
import TextGrammar.Rule.Coerce

/-!
# Exact repetitions

A repetition of exactly `n` rounds is the sequence of `n` copies of its rule: both match with the
same values, at the same place and with the same tagged parts, raise the same fault, or go on for
ever (`repetition_eq_copies`). Where there is room for the values, there is a difference only if
they do not match, since the repetition puts back the position and the tagged parts, and the
sequence does not (`Outcome.restored`).

The evaluator does not make all `n` rounds, but the plain loop does, which ends as the evaluator
does. So it is the loop that is followed item by item along the copies (`loops_copies`), and it
does not matter whether a round has taken anything: before the last round the loop goes on, and
after it there is no other (`loops_round`).
-/

namespace TextGrammar

/-- Neither more nor fewer than so many rounds. -/
def Bounds.exactly (n : Nat) : Bounds :=
  ⟨some n, some n, by rintro _ _ ⟨⟩ ⟨⟩; exact Nat.le_refl n⟩

/-- The outcome after which a rule that does not match has put back what it was given. -/
def Outcome.restored (pos : Int) (tags : Tags) : Outcome → Outcome
  | ⟨.success value stop, after⟩ => ⟨.success value stop, after⟩
  | ⟨.failure _, _⟩ => ⟨.failure pos, tags⟩

/-- The items of a sequence that has got so far behind others that have matched. -/
def Progress.behind (p : Progress) (values : List Value) : Progress :=
  { p with values := p.values.map (values ++ ·) }

@[simp] theorem Progress.behind_nil (p : Progress) : p.behind [] = p := by
  simp [Progress.behind]

/-- An item that has matched is behind those before it. -/
theorem Progress.behind_cons (p : Progress) (values : List Value) (value : Value) :
    Progress.behind { p with values := p.values.map (value :: ·) } values
      = p.behind (values ++ [value]) := by
  simp [Progress.behind, Function.comp_def]

section Loop

variable {s : Setting} {body : Int → Tags → Ending Outcome} {bounds : Bounds} {pos : Int}
  {tags : Tags}

/-- With all rounds made, the loop is over. -/
theorem loops_full {u : LoopState} {n : Nat} (h : n ≤ u.values.length) :
    (Bounds.exactly n).Loops body u (.done u) := by
  have hfull : ¬(Bounds.exactly n).Allows u.values.length :=
    fun hallows => absurd (hallows n rfl) (Nat.not_lt.mpr h)
  exact .ends (if_neg hfull)

/-- Before all rounds are made, one more is allowed. -/
theorem exactly_allows {made n : Nat} (h : made < n) : (Bounds.exactly n).Allows made := by
  rintro _ ⟨⟩
  exact h

/--
Whether or not a round takes anything, the loop comes to where it does behind the round: one that
takes nothing ends the loop only if it is the last one anyway.
-/
theorem loops_round {u : LoopState} {n : Nat} {value : Value} {stop : Int} {after : Tags}
    {ending : Ending LoopState} (hless : u.values.length < n)
    (hbody : body u.stop u.tags = .done ⟨.success value stop, after⟩)
    (hloops : (Bounds.exactly n).Loops body ⟨u.values ++ [value], stop, after⟩ ending) :
    (Bounds.exactly n).Loops body u ending := by
  have hallows := exactly_allows hless
  by_cases hlast : stop = u.stop ∧ n ≤ u.values.length + 1
  · obtain ⟨rfl, hleast⟩ := hlast
    have hfull : n ≤ (u.values ++ [value]).length := by
      rwa [List.length_append, List.length_singleton]
    rw [hloops.unique (loops_full hfull)]
    exact .ends (Bounds.turn_idle hallows hbody hleast)
  · have hmore : stop ≠ u.stop ∨ u.values.length + 1 < (Bounds.exactly n).least := by
      rcases not_and_or.mp hlast with hne | hlt
      · exact .inl hne
      · exact .inr (Nat.not_le.mp hlt)
    exact .next (Bounds.turn_next hallows hbody hmore) hloops

/-- With so many copies left, the loop comes to where the sequence of them does. -/
theorem loops_copies {e : Enter} {node : Rule} {skip : Bool} {n : Nat} (copies : Nat)
    (u : LoopState) (hcopies : u.values.length + copies = n) :
    ∃ ending, (Bounds.exactly n).Loops (fun p t => (eval s e node p t skip).ending) u ending
      ∧ (evalItems s e (List.replicate copies node) u.stop u.tags skip).ending.andThen
          (fun p => .done ((p.behind u.values).outcome.restored pos tags))
        = ending.andThen fun v =>
          .done ((Bounds.exactly n).outcome pos tags v.values v.stop v.tags) := by
  induction copies generalizing u with
  | zero =>
      have hfull : n ≤ u.values.length := by omega
      have henough : (Bounds.exactly n).least ≤ u.values.length := hfull
      refine ⟨.done u, loops_full hfull, ?_⟩
      simp [evalItems, Progress.behind, Progress.outcome, Outcome.restored, Bounds.outcome, henough]
  | succ copies ih =>
      have hless : u.values.length < n := by omega
      have hallows := exactly_allows hless
      rw [List.replicate_succ, evalItems, Run.ending_bind]
      cases hbody : (eval s e node u.stop u.tags skip).ending with
      | raised f => exact ⟨.raised f, .ends (by simp [Bounds.turn, hallows, hbody]), rfl⟩
      | runaway => exact ⟨.runaway, .ends (by simp [Bounds.turn, hallows, hbody]), rfl⟩
      | done o =>
          obtain ⟨v, after⟩ := o
          cases v with
          | failure stop =>
              have hfew : ¬(Bounds.exactly n).least ≤ u.values.length := Nat.not_le.mpr hless
              refine ⟨.done u, .ends (by simp [Bounds.turn, hallows, hbody]), ?_⟩
              simp [Progress.behind, Progress.outcome, Outcome.restored, Bounds.outcome, hfew]
          | success value stop =>
              have hlength : (u.values ++ [value]).length + copies = n := by
                rw [List.length_append, List.length_singleton]
                omega
              obtain ⟨ending, hloops, hending⟩ := ih ⟨u.values ++ [value], stop, after⟩ hlength
              refine ⟨ending, loops_round hless hbody hloops, ?_⟩
              dsimp only at hending
              rw [← hending]
              simp only [Ending.andThen_done, Run.ending_bind]
              cases (evalItems s e (List.replicate copies node) stop after skip).ending with
              | done p => simp [Progress.behind_cons]
              | raised f => rfl
              | runaway => rfl

/--
The rounds of a repetition of exactly `n` end as the sequence of `n` copies does, with the position
and the tagged parts put back if it does not match.
-/
theorem filledRounds_exactly (depth : Nat) (node : Rule) (n : Nat) (pos : Int) (tags : Tags)
    (skip : Bool) :
    s.filledRounds (enter s depth) node (.exactly n) pos tags skip =
      ((⟨.seq (List.replicate n node), pos, tags, skip⟩ : Call).run s depth).ending.andThen
        fun o => .done (o.restored pos tags) := by
  obtain ⟨ending, hloops, hending⟩ :=
    @loops_copies s pos tags (enter s depth) node skip n n ⟨[], pos, tags⟩ (Nat.zero_add n)
  refine (@loopEnds_filledRounds s depth node (.exactly n) pos tags skip).unique
    ⟨ending, hloops, ?_⟩
  simp only [Progress.behind_nil] at hending
  unfold Call.run
  rw [eval_seq_ending, ← hending]
  cases (evalItems s (enter s depth) (List.replicate n node) pos tags skip).ending with
  | done p => rfl
  | raised f => rfl
  | runaway => rfl

/-- What is put back is not looked at if the rule matches. -/
theorem Setting.OutOfRoom.of_restored {x ending : Ending Outcome}
    (h : s.OutOfRoom (x.andThen fun o => .done (o.restored pos tags)) ending) :
    s.OutOfRoom x ending := by
  obtain ⟨hending, values, stop, after, hdone, hroom⟩ := h
  obtain ⟨⟨v, left⟩, rfl, ho⟩ := Ending.andThen_eq_done_iff.mp hdone
  cases v with
  | failure _ => cases ho
  | success _ _ =>
      cases ho
      exact ⟨hending, values, stop, after, rfl, hroom⟩

end Loop

/-! ## What asks for exactly so many rounds -/

/-- A count asks for exactly so many rounds. -/
theorem times_exactly [PatternEngine] {d : Declaration} {node : Rule} (h : d.coerce = .ok node)
    (n : Nat) :
    d.times (some n) none none = .ok (Rule.repetition node (.exactly n)).declaration := by
  have hnatural : (some (n : Int)).filter (· < 0) = none := by simp [Option.filter]
  have hbounds : Bounds.ofInt? (some n) (some n) = .ok (.exactly n) := by
    simp [Bounds.ofInt?, hnatural, Bounds.ofNat?, Bounds.exactly]
  simp [Declaration.times, h, hbounds, bind, Except.bind, pure, Except.pure]

/-- So does a number in braces. -/
theorem withSuffix_exactly {node : Rule} {n : Nat} {c : Cursor} {more : List Lexeme}
    (hc : Arranged (.mark .openBrace :: .number n :: .mark .closeBrace :: more) c.rest) :
    ∃ after, withSuffix node c = .ok (.repetition node (.exactly n), after)
      ∧ Arranged more after.rest :=
  Suffix.reads (b := .exactly n) (.braced (.exactly n)) hc

end TextGrammar
