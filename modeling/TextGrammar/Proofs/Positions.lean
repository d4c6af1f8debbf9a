import TextGrammar.Proofs.Endings

/-!
# Where an evaluation stops

Whatever an evaluation does, it stops at or after the position where it started and
no further than the end of the text. Tokens are the only place where something is
taken, sequences and repetitions pass positions on, and everything else returns one
that it was given.

The room that is left bounds repetitions. Each round but the last takes a character,
so `repeatRounds` has enough fuel: with any amount above the room it makes the same
rounds, and it satisfies the equation of a loop without any (`repeatRounds_loop`).
-/

namespace TextGrammar

variable {s : Setting}

/-- Where the verdict says that the evaluation stopped. -/
def Verdict.stop : Verdict → Int
  | .success _ stop => stop
  | .failure stop => stop

/-! ## Between a position and the end of the text -/

/-- A position that can be reached from another one without going back. -/
def Setting.Within (s : Setting) (pos stop : Int) : Prop :=
  pos ≤ stop ∧ stop ≤ max (s.text.length : Int) pos

theorem Setting.Within.refl (s : Setting) (pos : Int) : s.Within pos pos :=
  ⟨Int.le_refl _, Int.le_max_right _ _⟩

theorem Setting.Within.trans {pos mid stop : Int} (h : s.Within pos mid)
    (h' : s.Within mid stop) : s.Within pos stop := by
  unfold Setting.Within at *
  omega

theorem Setting.Within.antisymm {pos stop : Int} (h : s.Within pos stop)
    (h' : s.Within stop pos) : stop = pos :=
  Int.le_antisymm h'.1 h.1

/-- Going on takes room. -/
theorem Setting.Within.room_lt {pos stop : Int} (h : s.Within pos stop) (hne : stop ≠ pos) :
    s.room stop < s.room pos := by
  unfold Setting.Within at h
  unfold Setting.room
  omega

/-- The text that is left fits between the position and the end of the text. -/
theorem Setting.length_remaining_le (s : Setting) (pos : Int) :
    pos + (s.remaining pos).length ≤ max (s.text.length : Int) pos := by
  unfold Setting.remaining
  split
  · rw [List.length_drop]
    omega
  · rw [List.length_drop]
    omega

/-- What a token finds ends within the text. -/
theorem Setting.within_found (s : Setting) {t : Token} {start : Int} {found : Found}
    (h : t.find? (s.remaining start) = some found) :
    s.Within start (start + found.length) := by
  have hlen : found.length ≤ (s.remaining start).length := t.compiled.within h
  have hle := s.length_remaining_le start
  exact ⟨by omega, by omega⟩

/-! ## Evaluations stay between -/

/-- References stop within the text. -/
def Setting.EntersWithin (s : Setting) (e : Enter) : Prop :=
  ∀ name pos skip, (e name pos skip).Yields fun v => s.Within pos v.stop

theorem tokenStart_within {e : Enter} (he : s.EntersWithin e) (pos : Int) (skip : Bool) :
    (tokenStart e pos skip).Yields (s.Within pos) := by
  unfold tokenStart
  split
  · refine Run.yields_bind (he spaceName pos false) fun v hv => ?_
    cases v with
    | success _ stop => exact Run.yields_pure hv
    | failure _ => exact Run.yields_pure (Setting.Within.refl s pos)
  · exact Run.yields_pure (Setting.Within.refl s pos)

theorem evalToken_within {e : Enter} (he : s.EntersWithin e) (t : Token) (pos : Int)
    (skip : Bool) : (evalToken s e t pos skip).Yields fun v => s.Within pos v.stop := by
  unfold evalToken
  refine Run.yields_then fun _ => ?_
  refine Run.yields_bind (tokenStart_within he pos skip) fun start hstart => ?_
  split
  · exact Run.yields_then fun _ => Run.yields_pure (Setting.Within.refl s pos)
  · rename_i found hfound
    exact Run.yields_then fun _ => Run.yields_pure (hstart.trans (s.within_found hfound))

theorem evalItems_within {e : Enter} {items : List Rule} {skip : Bool}
    (hitems : ∀ r ∈ items, ∀ pos tags,
      (eval s e r pos tags skip).Yields fun o => s.Within pos o.verdict.stop)
    (pos : Int) (tags : Tags) :
    (evalItems s e items pos tags skip).Yields fun p => s.Within pos p.stop := by
  induction items generalizing pos tags with
  | nil => exact Run.yields_pure (Setting.Within.refl s pos)
  | cons r rest ih =>
      rw [evalItems]
      refine Run.yields_bind (hitems r List.mem_cons_self pos tags) fun o ho => ?_
      obtain ⟨v, after⟩ := o
      cases v with
      | failure stop => exact Run.yields_pure ho
      | success value stop =>
          refine Run.yields_bind
            (ih (fun r' hr' => hitems r' (List.mem_cons_of_mem _ hr')) stop after) fun p hp => ?_
          exact Run.yields_pure (Setting.Within.trans ho hp)

theorem evalChoice_within {e : Enter} {alts : List Rule} {skip : Bool}
    (halts : ∀ r ∈ alts, ∀ pos tags,
      (eval s e r pos tags skip).Yields fun o => s.Within pos o.verdict.stop)
    (index : Nat) (pos : Int) (tags : Tags) :
    (evalChoice s e index alts pos tags skip).Yields fun o => s.Within pos o.verdict.stop := by
  induction alts generalizing index with
  | nil => exact Run.yields_pure (Setting.Within.refl s pos)
  | cons r rest ih =>
      rw [evalChoice]
      refine Run.yields_bind (halts r List.mem_cons_self pos tags) fun o ho => ?_
      obtain ⟨v, after⟩ := o
      cases v with
      | failure stop => exact ih (fun r' hr' => halts r' (List.mem_cons_of_mem _ hr')) (index + 1)
      | success value stop => exact Run.yields_then fun _ => Run.yields_pure ho

theorem repeatRounds_within {body : Int → Tags → Run Outcome}
    (hbody : ∀ pos tags, (body pos tags).Yields fun o => s.Within pos o.verdict.stop)
    (fuel : Nat) (left : Option Nat) (pos : Int) (tags : Tags) :
    (repeatRounds body fuel left pos tags).Yields fun rounds => s.Within pos rounds.stop := by
  induction fuel generalizing left pos tags with
  | zero => exact Run.yields_pure (Setting.Within.refl s pos)
  | succ fuel ih =>
      rw [repeatRounds]
      split
      · exact Run.yields_pure (Setting.Within.refl s pos)
      · refine Run.yields_bind (hbody pos tags) fun o ho => ?_
        obtain ⟨v, after⟩ := o
        cases v with
        | failure stop => exact Run.yields_pure (Setting.Within.refl s pos)
        | success value stop =>
            dsimp only
            split
            · exact Run.yields_pure ho
            · refine Run.yields_bind (ih (left.map (· - 1)) stop after) fun more hmore => ?_
              exact Run.yields_pure (Setting.Within.trans ho hmore)

theorem finishRounds_within {capacity : Nat} {bounds : Bounds} {pos : Int} {tags : Tags}
    {rounds : Rounds} (h : s.Within pos rounds.stop) :
    (finishRounds capacity bounds pos tags rounds).Yields fun o =>
      s.Within pos o.verdict.stop := by
  unfold finishRounds
  refine Run.yields_then fun values => ?_
  split
  · split
    · exact Run.yields_then fun _ => Run.yields_pure (Setting.Within.refl s pos)
    · exact Run.yields_pure h
  · exact Run.yields_pure h

/-- An evaluation stops within the text if the references that it follows do. -/
theorem eval_within {e : Enter} (he : s.EntersWithin e) (r : Rule) (pos : Int) (tags : Tags)
    (skip : Bool) : (eval s e r pos tags skip).Yields fun o => s.Within pos o.verdict.stop := by
  induction r generalizing pos tags with
  | token t =>
      rw [eval]
      exact Run.yields_bind (evalToken_within he t pos skip) fun v hv => Run.yields_pure hv
  | ref name =>
      rw [eval]
      exact Run.yields_bind (he name pos skip) fun v hv => Run.yields_pure hv
  | seq items ih =>
      rw [eval]
      refine Run.yields_then fun _ => Run.yields_bind (evalItems_within ih pos tags) fun p hp => ?_
      obtain ⟨values, stop, after⟩ := p
      cases values with
      | none => exact Run.yields_pure hp
      | some values => exact Run.yields_pure hp
  | tagged tag node ih =>
      rw [eval]
      refine Run.yields_then fun _ => Run.yields_bind (ih pos []) fun o ho => ?_
      obtain ⟨v, inner⟩ := o
      cases v with
      | failure stop => exact Run.yields_pure (Setting.Within.refl s pos)
      | success value stop => exact Run.yields_pure ho
  | choice alts ih =>
      rw [eval]
      exact Run.yields_then fun _ => evalChoice_within ih 0 pos tags
  | repetition node bounds ih =>
      rw [eval]
      refine Run.yields_then fun _ => ?_
      exact Run.yields_bind (repeatRounds_within ih _ bounds.max pos tags) fun _ h =>
        finishRounds_within h
  | unknown value =>
      rw [eval]
      exact Run.yields_then fun _ => Run.yields_pure (Setting.Within.refl s pos)

/-- What becomes of a rule's value does not move the position. -/
theorem finish_within {name : String} {body : Outcome} {pos : Int}
    (h : s.Within pos body.verdict.stop) :
    (s.finish name body).Yields fun v => s.Within pos v.stop := by
  obtain ⟨v, inner⟩ := body
  cases v with
  | failure stop => exact Run.yields_pure h
  | success value stop =>
      unfold Setting.finish
      dsimp only
      split
      · exact Run.yields_pure h
      · exact Run.yields_then fun _ => Run.yields_pure h

/-- References stop within the text, however many may be followed. -/
theorem enter_within (s : Setting) (depth : Nat) : s.EntersWithin (enter s depth) := by
  induction depth with
  | zero =>
      intro name pos skip
      rw [enter]
      refine Run.yields_then fun _ => ?_
      split
      · exact Run.yields_then fun _ => Run.yields_pure (Setting.Within.refl s pos)
      · intro v hv
        simp at hv
  | succ depth ih =>
      -- the definition is evaluated by references of the depth before
      intro name pos skip
      rw [enter]
      refine Run.yields_then fun _ => ?_
      split
      · exact Run.yields_then fun _ => Run.yields_pure (Setting.Within.refl s pos)
      · exact Run.yields_bind (eval_within ih _ pos [] skip) fun _ h => finish_within h

/-! ## Repetitions have enough fuel -/

/-- All amounts of fuel above the room lead to the same rounds. -/
theorem repeatRounds_fuel {body : Int → Tags → Run Outcome}
    (hbody : ∀ pos tags, (body pos tags).Yields fun o => s.Within pos o.verdict.stop)
    {fuel fuel' : Nat} {pos : Int} (h : s.room pos < fuel) (h' : s.room pos < fuel')
    (left : Option Nat) (tags : Tags) :
    repeatRounds body fuel left pos tags = repeatRounds body fuel' left pos tags := by
  induction fuel generalizing fuel' left pos tags with
  | zero => exact absurd h (Nat.not_lt_zero _)
  | succ fuel ih =>
      obtain ⟨fuel', rfl⟩ : ∃ n, fuel' = n + 1 := ⟨fuel' - 1, by omega⟩
      rw [repeatRounds, repeatRounds]
      split
      · rfl
      · rcases hx : body pos tags with ⟨es, v | f | _⟩
        · obtain ⟨v, after⟩ := v
          have hwithin : s.Within pos v.stop := hbody pos tags _ (by rw [hx])
          cases v with
          | failure stop => rfl
          | success value stop =>
              simp only [Run.bind_done]
              split
              · rfl
              · rename_i hne
                have hlt : s.room stop < s.room pos := hwithin.room_lt hne
                have hmore : repeatRounds body fuel (left.map (· - 1)) stop after =
                    repeatRounds body fuel' (left.map (· - 1)) stop after :=
                  ih (by omega) (by omega) _ _
                rw [hmore]
        · rfl
        · rfl

/-- The rounds of a repetition, as a loop that has no fuel. -/
theorem repeatRounds_loop {body : Int → Tags → Run Outcome}
    (hbody : ∀ pos tags, (body pos tags).Yields fun o => s.Within pos o.verdict.stop)
    (left : Option Nat) (pos : Int) (tags : Tags) :
    repeatRounds body (s.room pos + 1) left pos tags =
      if left = some 0 then return ⟨[], pos, tags, none⟩
      else do
        match ← body pos tags with
        | ⟨.failure _, _⟩ => return ⟨[], pos, tags, none⟩
        | ⟨.success value stop, after⟩ =>
          if stop = pos then return ⟨[value], stop, after, some value⟩
          else do
            let more ← repeatRounds body (s.room stop + 1) (left.map (· - 1)) stop after
            return { more with values := value :: more.values } := by
  rw [repeatRounds]
  split
  · rfl
  · rcases hx : body pos tags with ⟨es, v | f | _⟩
    · obtain ⟨v, after⟩ := v
      have hwithin : s.Within pos v.stop := hbody pos tags _ (by rw [hx])
      cases v with
      | failure stop => rfl
      | success value stop =>
          simp only [Run.bind_done]
          split
          · rfl
          · rename_i hne
            have hlt : s.room stop < s.room pos := hwithin.room_lt hne
            rw [repeatRounds_fuel hbody hlt (Nat.lt_succ_self _)]
    · rfl
    · rfl

end TextGrammar
