import TextGrammar.Proofs.Accumulator
import TextGrammar.Proofs.Reference
import TextGrammar.Proofs.Termination

/-!
# A repetition is the plain loop

The evaluator never makes a round again that has taken nothing. Such a round stands for as
many rounds as the lower bound still asks for, with its value repeated. The plain loop makes
all of them: it goes on until the upper bound is reached, a round fails, or a round has taken
nothing and enough rounds are there (`Bounds.turn`).

The two agree because nothing can change from one such round to the next (`eval_again`): it
starts at the same position, and it writes the same tagged parts over themselves. So the loop
comes out of the rounds that are missing with the value and the tagged parts of the first of
them (`loops_idle`). Until then both make the same rounds (`loops_repeatRounds`).

What is missing is filled in at once, and that takes room for a list of all the values. The plain
loop is not concerned with room, so the two may differ where the values of the loop are more than a
list has room for (`Setting.OutOfRoom`).
-/

namespace TextGrammar

variable {s : Setting} {bounds : Bounds}

/-! ## The loop -/

/-- The rounds that have been made: their values, and where they have got to. -/
structure LoopState where
  values : List Value
  stop : Int
  tags : Tags

instance Bounds.decidableAllows (bounds : Bounds) (count : Nat) :
    Decidable (bounds.Allows count) :=
  decidable_of_iff (bounds.max.all fun most => count < most) (by
    unfold Bounds.Allows
    cases bounds.max <;> simp)

/--
One turn of the loop. It is over if no more rounds are allowed, if the round fails, or if the
round has taken nothing and enough of them are there. Otherwise it goes on behind the round.
-/
def Bounds.turn (bounds : Bounds) (body : Int → Tags → Ending Outcome) (u : LoopState) :
    LoopState ⊕ Ending LoopState :=
  if bounds.Allows u.values.length then
    match body u.stop u.tags with
    | .done ⟨.failure _, _⟩ => .inr (.done u)
    | .done ⟨.success value stop, after⟩ =>
      let next : LoopState := ⟨u.values ++ [value], stop, after⟩
      if stop = u.stop ∧ bounds.least ≤ next.values.length then .inr (.done next) else .inl next
    | .raised f => .inr (.raised f)
    | .runaway => .inr .runaway
  else .inr (.done u)

/-- The loop, from the rounds that have been made to its end. -/
inductive Bounds.Loops (bounds : Bounds) (body : Int → Tags → Ending Outcome) :
    LoopState → Ending LoopState → Prop where
  | ends {u : LoopState} {e : Ending LoopState} :
      bounds.turn body u = .inr e → Loops bounds body u e
  | next {u v : LoopState} {e : Ending LoopState} :
      bounds.turn body u = .inl v → Loops bounds body v e → Loops bounds body u e

/-- The whole loop has the ending: it matches with its rounds if enough are there. -/
def Bounds.LoopEnds (bounds : Bounds) (body : Int → Tags → Ending Outcome) (pos : Int)
    (tags : Tags) (ending : Ending Outcome) : Prop :=
  ∃ e, bounds.Loops body ⟨[], pos, tags⟩ e
    ∧ ending = e.andThen fun u => .done (bounds.outcome pos tags u.values u.stop u.tags)

section Loop

variable {body : Int → Tags → Ending Outcome} {u v : LoopState} {e e' : Ending LoopState}

/-- The loop has one end. -/
theorem Bounds.Loops.unique (h : bounds.Loops body u e) (h' : bounds.Loops body u e') :
    e = e' := by
  induction h with
  | ends hturn =>
      cases h' with
      | ends hturn' =>
          rw [hturn] at hturn'
          exact Sum.inr.inj hturn'
      | next hturn' _ =>
          rw [hturn] at hturn'
          cases hturn'
  | next hturn _ ih =>
      cases h' with
      | ends hturn' =>
          rw [hturn] at hturn'
          cases hturn'
      | next hturn' hrest =>
          rw [hturn] at hturn'
          cases hturn'
          exact ih hrest

/-- How the loop ends decides how the whole does. -/
theorem Bounds.LoopEnds.unique {pos : Int} {tags : Tags} {x y : Ending Outcome}
    (h : bounds.LoopEnds body pos tags x) (h' : bounds.LoopEnds body pos tags y) : x = y := by
  obtain ⟨e, hloops, rfl⟩ := h
  obtain ⟨e', hloops', rfl⟩ := h'
  rw [hloops.unique hloops']

/-- A round after which the loop goes on. -/
theorem Bounds.turn_next {value : Value} {stop : Int} {after : Tags}
    (hallows : bounds.Allows u.values.length)
    (hbody : body u.stop u.tags = .done ⟨.success value stop, after⟩)
    (hmore : stop ≠ u.stop ∨ u.values.length + 1 < bounds.least) :
    bounds.turn body u = .inl ⟨u.values ++ [value], stop, after⟩ := by
  unfold Bounds.turn
  rw [if_pos hallows, hbody]
  dsimp only
  rw [if_neg]
  rintro ⟨hstop, hleast⟩
  rw [List.length_append, List.length_singleton] at hleast
  rcases hmore with hne | hlt
  · exact hne hstop
  · omega

/-- A round that takes nothing, after which enough rounds are there. -/
theorem Bounds.turn_idle {value : Value} {after : Tags} (hallows : bounds.Allows u.values.length)
    (hbody : body u.stop u.tags = .done ⟨.success value u.stop, after⟩)
    (hleast : bounds.least ≤ u.values.length + 1) :
    bounds.turn body u = .inr (.done ⟨u.values ++ [value], u.stop, after⟩) := by
  unfold Bounds.turn
  rw [if_pos hallows, hbody]
  dsimp only
  rw [if_pos]
  rw [List.length_append, List.length_singleton]
  exact ⟨rfl, hleast⟩

/-- The loop makes a round that takes nothing as often as rounds are missing. -/
theorem loops_idle {value : Value} {after : Tags} (missing : Nat)
    (hallows : bounds.Allows u.values.length)
    (hbody : body u.stop u.tags = .done ⟨.success value u.stop, after⟩)
    (hagain : body u.stop after = .done ⟨.success value u.stop, after⟩)
    (hmissing : missing = bounds.least - (u.values.length + 1)) :
    bounds.Loops body u
      (.done ⟨u.values ++ value :: List.replicate missing value, u.stop, after⟩) := by
  induction missing generalizing u with
  | zero => exact .ends (Bounds.turn_idle hallows hbody (by omega))
  | succ missing ih =>
      have hlt : u.values.length + 1 < bounds.least := by omega
      have hlength : (u.values ++ [value]).length = u.values.length + 1 := by simp
      have hnext : bounds.Allows (u.values ++ [value]).length := by
        rw [hlength]
        exact Bounds.allows_of_lt_least hlt
      have hless : missing = bounds.least - ((u.values ++ [value]).length + 1) := by omega
      have hrest := ih (u := ⟨u.values ++ [value], u.stop, after⟩) hnext hagain hagain hless
      rw [← List.append_cons, ← List.replicate_succ] at hrest
      exact .next (Bounds.turn_next hallows hbody (Or.inr hlt)) hrest

/-! ## What stops the loop -/

/-- Why there is no further round: there may be none, the last one took nothing, or one fails. -/
def Bounds.Settled (bounds : Bounds) (body : Int → Tags → Ending Outcome) (u : LoopState) : Prop :=
  bounds.max = some u.values.length
    ∨ (∃ front last before, u.values = front ++ [last]
        ∧ body u.stop before = .done ⟨.success last u.stop, u.tags⟩)
    ∨ ∃ stop after, body u.stop u.tags = .done ⟨.failure stop, after⟩

/-- The upper bound holds of a number of rounds. -/
def Bounds.Permits (bounds : Bounds) (count : Nat) : Prop :=
  ∀ most, bounds.max = some most → count ≤ most

/-- The upper bound is what keeps the loop from going on. -/
theorem Bounds.max_eq_of_not_allows {count : Nat} (hnot : ¬bounds.Allows count)
    (hbound : bounds.Permits count) : bounds.max = some count := by
  cases hmax : bounds.max with
  | none =>
      exfalso
      apply hnot
      intro most hmost
      rw [hmax] at hmost
      cases hmost
  | some most =>
      have hle : count ≤ most := hbound most hmax
      have hge : ¬count < most := by
        intro hlt
        apply hnot
        intro most' hmost'
        rw [hmax] at hmost'
        cases hmost'
        exact hlt
      rw [Nat.le_antisymm hle (Nat.not_lt.mp hge)]

/-- A turn that ends the loop leaves no reason for another one. -/
theorem Bounds.settled_of_turn (h : bounds.turn body u = .inr (.done v))
    (hbound : bounds.Permits u.values.length) :
    bounds.Permits v.values.length ∧ bounds.Settled body v := by
  unfold Bounds.turn at h
  split at h
  · rename_i hallows
    split at h
    · rename_i stop after hfails
      cases h
      exact ⟨hbound, Or.inr (Or.inr ⟨stop, after, hfails⟩)⟩
    · rename_i value stop after hround
      dsimp only at h
      split at h
      · rename_i hover
        cases h
        obtain ⟨rfl, -⟩ := hover
        refine ⟨?_, Or.inr (Or.inl ⟨u.values, value, u.tags, rfl, hround⟩)⟩
        intro most hmost
        rw [List.length_append, List.length_singleton]
        exact hallows most hmost
      · cases h
    · cases h
    · cases h
  · rename_i hnot
    cases h
    exact ⟨hbound, Or.inl (Bounds.max_eq_of_not_allows hnot hbound)⟩

/-- A turn that goes on keeps to the upper bound. -/
theorem Bounds.permits_of_turn (h : bounds.turn body u = .inl v) :
    bounds.Permits v.values.length := by
  unfold Bounds.turn at h
  split at h
  · rename_i hallows
    split at h
    · cases h
    · dsimp only at h
      split at h
      · cases h
      · cases h
        intro most hmost
        rw [List.length_append, List.length_singleton]
        exact hallows most hmost
    · cases h
    · cases h
  · cases h

theorem Bounds.Loops.settled (h : bounds.Loops body u e) (hbound : bounds.Permits u.values.length)
    (hv : e = .done v) : bounds.Permits v.values.length ∧ bounds.Settled body v := by
  induction h with
  | ends hturn =>
      subst hv
      exact Bounds.settled_of_turn hturn hbound
  | next hturn _ ih => exact ih (Bounds.permits_of_turn hturn) hv

end Loop

/-! ## The rounds of the evaluator -/

/-- The rounds that the evaluator makes behind others, with those that the last one stands for. -/
def LoopState.followed (u : LoopState) (least : Nat) (rounds : Rounds) : LoopState :=
  ⟨(rounds.behind u.values).filled least, rounds.stop, rounds.tags⟩

/-- Without a last round that takes nothing there are just the rounds made. -/
theorem LoopState.followed_stopped (u : LoopState) (least : Nat) :
    u.followed least ⟨[], u.stop, u.tags, none⟩ = u := by
  simp [LoopState.followed, Rounds.behind, Rounds.filled, Rounds.missing]

theorem LoopState.followed_idle (u : LoopState) (least : Nat) (value : Value) (after : Tags) :
    u.followed least ⟨[value], u.stop, after, some value⟩ =
      ⟨u.values ++ value :: List.replicate (least - (u.values.length + 1)) value, u.stop,
        after⟩ := by
  simp [LoopState.followed, Rounds.behind, Rounds.filled, Rounds.missing]

theorem LoopState.followed_cons (u : LoopState) (least : Nat) (value : Value) (mid : Int)
    (after : Tags) (more : Rounds) :
    u.followed least { more with values := value :: more.values } =
      (⟨u.values ++ [value], mid, after⟩ : LoopState).followed least more := by
  simp [LoopState.followed, Rounds.behind, Rounds.filled, Rounds.missing]

/--
The loop comes to where the rounds of the evaluator do, with the missing ones filled in. All that
is asked of a round is that it stays within the text and does the same again if it starts with
what it leaves behind.
-/
theorem loops_repeatRounds (bounds : Bounds) {body : Int → Tags → Run Outcome}
    (hwithin : ∀ pos tags, (body pos tags).Yields fun o => s.Within pos o.verdict.stop)
    (hagain : ∀ {pos : Int} {tags after : Tags} {v : Verdict},
      (body pos tags).ending = .done ⟨v, after⟩ → (body pos after).ending = .done ⟨v, after⟩)
    (fuel : Nat) (u : LoopState) (hfuel : s.room u.stop < fuel) :
    bounds.Loops (fun pos tags => (body pos tags).ending) u
      ((repeatRounds body fuel (bounds.max.map (· - u.values.length)) u.stop u.tags).ending.andThen
        fun rounds => .done (u.followed bounds.least rounds)) := by
  induction fuel generalizing u with
  | zero => exact absurd hfuel (Nat.not_lt_zero _)
  | succ fuel ih =>
      by_cases hallows : bounds.Allows u.values.length
      · have hleft := (bounds.left_ne_zero_iff u.values.length).mpr hallows
        rw [repeatRounds, if_neg hleft, Run.ending_bind]
        cases hbody : (body u.stop u.tags).ending with
        | raised f => exact .ends (by simp [Bounds.turn, hallows, hbody])
        | runaway => exact .ends (by simp [Bounds.turn, hallows, hbody])
        | done o =>
            obtain ⟨v, after⟩ := o
            cases v with
            | failure stop =>
                have hstopped := u.followed_stopped bounds.least
                exact .ends (by simp [Bounds.turn, hallows, hbody, hstopped])
            | success value stop =>
                by_cases hstop : stop = u.stop
                · subst hstop
                  have hidle := u.followed_idle bounds.least value after
                  simp only [Ending.andThen_done, if_true, Run.pure_eq, hidle]
                  exact loops_idle _ hallows hbody (hagain hbody) rfl
                · have hroom : s.room stop < s.room u.stop :=
                    (hwithin u.stop u.tags _ hbody).room_lt hstop
                  have hmore := ih ⟨u.values ++ [value], stop, after⟩ (by dsimp only; omega)
                  refine .next (Bounds.turn_next hallows hbody (Or.inl hstop)) ?_
                  simp only [Ending.andThen_done, if_neg hstop, Run.ending_bind, bounds.left_succ]
                  rw [List.length_append, List.length_singleton] at hmore
                  cases hrest : (repeatRounds body fuel
                      (bounds.max.map (· - (u.values.length + 1))) stop after).ending with
                  | done more =>
                      rw [hrest] at hmore
                      have hcons := u.followed_cons bounds.least value stop after more
                      simpa [hcons] using hmore
                  | raised f => simpa [hrest] using hmore
                  | runaway => simpa [hrest] using hmore
      · have hleft : bounds.max.map (· - u.values.length) = some 0 := by
          by_contra hne
          exact hallows ((bounds.left_ne_zero_iff _).mp hne)
        have hstopped := u.followed_stopped bounds.least
        rw [repeatRounds, if_pos hleft]
        exact .ends (by simp [Bounds.turn, hallows, hstopped])

/-! ## Room for the values -/

/-- What would end with more values than a list has room for ends with that fault instead. -/
def Setting.OutOfRoom (s : Setting) (ideal ending : Ending Outcome) : Prop :=
  ending = .raised .outOfMemory ∧ ∃ values stop after,
    ideal = .done ⟨.success (.list values) stop, after⟩ ∧ s.capacity < values.length

/-- How the rounds of a repetition end with the missing ones filled in, whatever room there is. -/
def Setting.filledRounds (s : Setting) (e : Enter) (node : Rule) (bounds : Bounds) (pos : Int)
    (tags : Tags) (skip : Bool) : Ending Outcome :=
  (repeatRounds (fun p t => eval s e node p t skip) (s.room pos + 1) bounds.max pos
    tags).ending.andThen fun rounds =>
      .done (bounds.outcome pos tags (rounds.filled bounds.least) rounds.stop rounds.tags)

/-- A lower bound that can be counted is filled up, or there is no room for so many values. -/
theorem Rounds.fault?_counted (rounds : Rounds) (capacity : Nat) {least : Nat}
    (h : least < 2 ^ 63) :
    rounds.fault? capacity least = none
      ∨ rounds.fault? capacity least = some .outOfMemory
        ∧ capacity < least ∧ least ≤ (rounds.filled least).length := by
  have hcounted : (least - rounds.values.length : Nat) < Fault.wordLimit := by
    unfold Fault.wordLimit
    omega
  by_cases hidle : rounds.idle.isSome
  · have hlength : least ≤ (rounds.filled least).length := by
      rw [Rounds.filled, Rounds.missing, if_pos hidle, List.length_append, List.length_replicate]
      omega
    rw [Rounds.fault?, if_pos hidle, fillFault?_eq, if_neg (not_le.mpr hcounted), Fault.ofLength?]
    by_cases hroom : capacity < least
    · rw [if_pos hroom]
      split_ifs
      · exact Or.inl rfl
      · exact Or.inr ⟨rfl, hroom, hlength⟩
    · exact Or.inl (by rw [if_neg hroom, ite_self])
  · exact Or.inl (if_neg hidle)

/-- With a lower bound that can be counted, a repetition ends by its rounds, if there is room. -/
theorem run_repetition_counted (h : bounds.least < 2 ^ 63) (depth : Nat) (node : Rule) (pos : Int)
    (tags : Tags) (skip : Bool) :
    ((⟨.repetition node bounds, pos, tags, skip⟩ : Call).run s depth).ending
        = s.filledRounds (enter s depth) node bounds pos tags skip
      ∨ s.OutOfRoom (s.filledRounds (enter s depth) node bounds pos tags skip)
          ((⟨.repetition node bounds, pos, tags, skip⟩ : Call).run s depth).ending := by
  rw [Call.run, eval_repetition_ending, Setting.filledRounds]
  cases (repeatRounds (fun p t => eval s (enter s depth) node p t skip) (s.room pos + 1) bounds.max
    pos tags).ending with
  | raised f => exact Or.inl rfl
  | runaway => exact Or.inl rfl
  | done rounds =>
      rw [Ending.andThen_done, Ending.andThen_done, finishRounds_ending]
      rcases rounds.fault?_counted s.capacity h with hfault | ⟨hfault, hroom, hlength⟩
      · rw [hfault]
        exact Or.inl rfl
      · rw [hfault, Bounds.outcome, if_pos hlength]
        exact Or.inr ⟨rfl, _, _, _, rfl, Nat.lt_of_lt_of_le hroom hlength⟩

/-- The loop ends as the rounds of the evaluator do. -/
theorem loopEnds_filledRounds (depth : Nat) (node : Rule) (bounds : Bounds) (pos : Int)
    (tags : Tags) (skip : Bool) :
    bounds.LoopEnds (fun p t => ((⟨node, p, t, skip⟩ : Call).run s depth).ending) pos tags
      (s.filledRounds (enter s depth) node bounds pos tags skip) := by
  have hloop := loops_repeatRounds bounds
    (fun p t => eval_within (enter_within s depth) node p t skip) eval_again
    (s.room pos + 1) ⟨[], pos, tags⟩ (Nat.lt_succ_self _)
  refine ⟨_, hloop, ?_⟩
  unfold Setting.filledRounds
  simp only [List.length_nil, Nat.sub_zero, Option.map_id']
  cases (repeatRounds (fun p t => eval s (enter s depth) node p t skip) (s.room pos + 1) bounds.max
    pos tags).ending with
  | done rounds => simp [LoopState.followed, Rounds.behind]
  | raised f => rfl
  | runaway => rfl

/-- A letter that is tagged, and nothing, tagged as well, where there is no letter. -/
def letterOrNothing : Rule :=
  .choice [.tagged "letter" (.token letterToken), .tagged "nothing" (.seq [])]

/-- No rules, and a text of one letter. -/
def oneLetterSetting : Setting := ⟨[], fun _ => none, ['x'], Fault.listCapacity⟩

end TextGrammar
