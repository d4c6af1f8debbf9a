import TextGrammar.Proofs.Depth
import TextGrammar.Proofs.Replay
import Mathlib.Tactic.Choose

/-!
# Tagged parts are only written

An evaluation is given the parts that were tagged so far and returns them with its own.
It never looks at what it was given: whatever that is, it takes the same decisions and
writes the same entries to it, in the same order. A computation of that kind *replays* a
list of entries, and what is put together from such computations is one again.

So an evaluation can be read off the one that starts without tagged parts
(`eval_eq_update`), and one that starts with what it leaves behind leaves the same behind
again (`eval_again`). That is why a round of a repetition that takes nothing stands for any
number of such rounds.
-/

namespace TextGrammar

variable {s : Setting}

/-! ## Computations that replay entries -/

/--
The computation does nothing with the tagged parts that it is given but write entries to
them; `mk` makes a result of what is left when these parts are set aside.
-/
def Replays {α β : Type} (mk : α → Tags → β) (f : Tags → Run β) : Prop :=
  ∃ raw : Run (α × Tags), ∀ tags, f tags = (fun o => mk o.1 (Table.update tags o.2)) <$> raw

section Combining

variable {α β γ δ : Type} {mk : α → Tags → β} {mk' : γ → Tags → δ}

theorem Replays.pure (a : α) (writes : Tags) :
    Replays mk fun tags => Pure.pure (mk a (Table.update tags writes)) :=
  ⟨Pure.pure (a, writes), fun _ => rfl⟩

/-- Entries may have been written before. -/
theorem Replays.after {f : Tags → Run β} (h : Replays mk f) (writes : Tags) :
    Replays mk fun tags => f (Table.update tags writes) := by
  obtain ⟨raw, hraw⟩ := h
  refine ⟨(fun o => (o.1, writes ++ o.2)) <$> raw, fun tags => ?_⟩
  simp only [hraw, Functor.map_map, Table.update_append]

/-- A computation may come first that is not given the tagged parts. -/
theorem Replays.after_run {ε : Type} (x : Run ε) {f : ε → Tags → Run β}
    (h : ∀ c, Replays mk (f c)) : Replays mk fun tags => x >>= fun c => f c tags := by
  choose raw hraw using h
  refine ⟨x >>= raw, fun tags => ?_⟩
  simp only [hraw, map_bind]

/-- What follows may use the tagged parts from before as well as those from after. -/
theorem Replays.bind {f : Tags → Run β} {g : Tags → β → Run δ} (hf : Replays mk f)
    (hg : ∀ a writes, Replays mk' fun tags => g tags (mk a (Table.update tags writes))) :
    Replays mk' fun tags => f tags >>= g tags := by
  obtain ⟨raw, hraw⟩ := hf
  choose raw' hraw' using hg
  refine ⟨raw >>= fun o => raw' o.1 o.2, fun tags => ?_⟩
  simp only [hraw, hraw', bind_map_left, map_bind]

end Combining

/-! ## Evaluations replay entries -/

theorem replays_evalItems {e : Enter} {skip : Bool} {items : List Rule}
    (hitems : ∀ r ∈ items, ∀ pos, Replays Outcome.mk fun tags => eval s e r pos tags skip)
    (pos : Int) :
    Replays (fun (p : Option (List Value) × Int) tags => Progress.mk p.1 p.2 tags)
      fun tags => evalItems s e items pos tags skip := by
  induction items generalizing pos with
  | nil => exact Replays.pure (some [], pos) []
  | cons r rest ih =>
      simp only [evalItems]
      refine Replays.bind (hitems r List.mem_cons_self pos) fun v writes => ?_
      cases v with
      | failure stop => exact Replays.pure (none, stop) writes
      | success value stop =>
          have hrest := ih (fun r' hr' => hitems r' (List.mem_cons_of_mem _ hr')) stop
          refine Replays.bind (hrest.after writes) fun p more => ?_
          exact Replays.pure (p.1.map (value :: ·), p.2) more

theorem replays_evalChoice {e : Enter} {skip : Bool} {alts : List Rule}
    (halts : ∀ r ∈ alts, ∀ pos, Replays Outcome.mk fun tags => eval s e r pos tags skip)
    (index : Nat) (pos : Int) :
    Replays Outcome.mk fun tags => evalChoice s e index alts pos tags skip := by
  induction alts generalizing index with
  | nil => exact Replays.pure (Verdict.failure pos) []
  | cons r rest ih =>
      simp only [evalChoice]
      refine Replays.bind (halts r List.mem_cons_self pos) fun v writes => ?_
      cases v with
      | failure stop => exact ih (fun r' hr' => halts r' (List.mem_cons_of_mem _ hr')) (index + 1)
      | success value stop =>
          exact Replays.after_run _ fun _ => Replays.pure (Verdict.success value stop) writes

/-- The result of rounds that are known except for the tagged parts. -/
def Rounds.withTags (p : List Value × Int × Option Value) (tags : Tags) : Rounds :=
  ⟨p.1, p.2.1, tags, p.2.2⟩

theorem replays_repeatRounds {body : Int → Tags → Run Outcome}
    (hbody : ∀ pos, Replays Outcome.mk (body pos)) (fuel : Nat) (left : Option Nat) (pos : Int) :
    Replays Rounds.withTags fun tags => repeatRounds body fuel left pos tags := by
  induction fuel generalizing left pos with
  | zero => exact Replays.pure ([], pos, none) []
  | succ fuel ih =>
      simp only [repeatRounds]
      split
      · exact Replays.pure ([], pos, none) []
      · refine Replays.bind (hbody pos) fun v writes => ?_
        cases v with
        | failure stop => exact Replays.pure ([], pos, none) []
        | success value stop =>
            dsimp only
            split
            · exact Replays.pure ([value], stop, some value) writes
            · refine Replays.bind ((ih (left.map (· - 1)) stop).after writes) fun p more => ?_
              exact Replays.pure (value :: p.1, p.2) more

theorem replays_finishRounds (capacity : Nat) (bounds : Bounds) (pos : Int)
    (p : List Value × Int × Option Value) (writes : Tags) :
    Replays Outcome.mk fun tags =>
      finishRounds capacity bounds pos tags (Rounds.withTags p (Table.update tags writes)) := by
  have hfill : ∀ tags, fillRounds capacity (Rounds.withTags p tags) bounds.min
      = fillRounds capacity (Rounds.withTags p []) bounds.min := fun _ => rfl
  simp only [finishRounds, hfill]
  refine Replays.after_run _ fun values => ?_
  split
  · split
    · exact Replays.after_run _ fun _ => Replays.pure (Verdict.failure pos) []
    · exact Replays.pure (Verdict.success (.list values) p.2.1) writes
  · exact Replays.pure (Verdict.success (.list values) p.2.1) writes

/-- An evaluation only writes to the tagged parts that it is given. -/
theorem replays_eval (s : Setting) (e : Enter) (r : Rule) (pos : Int) (skip : Bool) :
    Replays Outcome.mk fun tags => eval s e r pos tags skip := by
  induction r generalizing pos with
  | token t =>
      simp only [eval]
      exact Replays.after_run _ fun v => Replays.pure v []
  | ref name =>
      simp only [eval]
      exact Replays.after_run _ fun v => Replays.pure v []
  | seq items ih =>
      simp only [eval]
      refine Replays.after_run _ fun _ => ?_
      refine Replays.bind (replays_evalItems ih pos) fun p writes => ?_
      obtain ⟨values, stop⟩ := p
      cases values with
      | none => exact Replays.pure (Verdict.failure stop) writes
      | some values => exact Replays.pure (Verdict.success (.list values) stop) writes
  | tagged tag node ih =>
      simp only [eval]
      -- the part itself is evaluated without what was tagged before
      refine Replays.after_run _ fun _ => Replays.after_run _ fun o => ?_
      obtain ⟨v, inner⟩ := o
      cases v with
      | failure stop => exact Replays.pure (Verdict.failure pos) []
      | success value stop =>
          have hdone : Replays Outcome.mk _ :=
            Replays.pure (Verdict.success value stop) (inner ++ [(tag, value.merge inner)])
          simpa only [Table.update_append, Table.update_singleton] using hdone
  | choice alts ih =>
      simp only [eval]
      exact Replays.after_run _ fun _ => replays_evalChoice ih 0 pos
  | repetition node bounds ih =>
      simp only [eval]
      refine Replays.after_run _ fun _ => ?_
      refine Replays.bind (replays_repeatRounds ih _ bounds.max pos) fun p writes => ?_
      exact replays_finishRounds s.capacity bounds pos p writes
  | unknown value =>
      simp only [eval]
      exact Replays.after_run _ fun _ => Replays.pure (Verdict.failure pos) []

/-! ## What follows -/

/-- What replays entries is known from what it does with no tagged parts. -/
theorem Replays.eq_update {f : Tags → Run Outcome} (h : Replays Outcome.mk f) (tags : Tags) :
    f tags = (fun o => ⟨o.verdict, Table.update tags o.tags⟩) <$> f [] := by
  obtain ⟨raw, hraw⟩ := h
  rw [hraw tags, hraw [], Functor.map_map]
  congr 1
  funext o
  rw [← Table.update_ofList tags o.2]
  rfl

/-- What replays entries leaves behind what it is given if it has left that behind before. -/
theorem Replays.again {f : Tags → Run Outcome} (h : Replays Outcome.mk f) {tags after : Tags}
    {v : Verdict} (hdone : (f tags).ending = .done ⟨v, after⟩) :
    (f after).ending = .done ⟨v, after⟩ := by
  obtain ⟨⟨es, ending⟩, hraw⟩ := h
  rw [hraw tags] at hdone
  rw [hraw after]
  cases ending with
  | done o =>
      obtain ⟨rfl, rfl⟩ := Outcome.mk.inj (Ending.done.inj hdone)
      show Ending.done (Outcome.mk o.1 (Table.update (Table.update tags o.2) o.2)) = _
      rw [Table.update_update_self]
  | raised f => cases hdone
  | runaway => cases hdone

/-- An evaluation is the one that starts without tagged parts, with these written in front. -/
theorem eval_eq_update (s : Setting) (e : Enter) (r : Rule) (pos : Int) (tags : Tags)
    (skip : Bool) :
    eval s e r pos tags skip =
      (fun o => ⟨o.verdict, Table.update tags o.tags⟩) <$> eval s e r pos [] skip :=
  (replays_eval s e r pos skip).eq_update tags

/-- An evaluation that starts with what it leaves behind leaves the same behind. -/
theorem eval_again {e : Enter} {r : Rule} {pos : Int} {tags after : Tags} {skip : Bool}
    {v : Verdict} (h : (eval s e r pos tags skip).ending = .done ⟨v, after⟩) :
    (eval s e r pos after skip).ending = .done ⟨v, after⟩ :=
  (replays_eval s e r pos skip).again h

/-- What replays entries on no tagged parts leaves different tags behind. -/
theorem Replays.distinct {f : Tags → Run Outcome} (h : Replays Outcome.mk f) {v : Verdict}
    {own : Tags} (hdone : (f []).ending = .done ⟨v, own⟩) : own.Distinct := by
  obtain ⟨⟨es, ending⟩, hraw⟩ := h
  rw [hraw []] at hdone
  cases ending with
  | done o =>
      obtain ⟨-, rfl⟩ := Outcome.mk.inj (Ending.done.inj hdone)
      exact Table.distinct_ofList o.2
  | raised f => cases hdone
  | runaway => cases hdone

/-- The call with nothing tagged before it. -/
def Call.bare (c : Call) : Call := { c with tags := [] }

/--
**What was tagged before plays no part in an evaluation.** With any number of references that may
be open, a call does the same as with no tagged parts: the same lines are logged, the same actions
are called with the same arguments, and it ends with the same verdict, raises the same fault or is
given up. The tagged parts that it returns, whether it matches or not, are those that it was given
with its own written over them. So a tag that was there keeps its place and new ones follow in
their order, and the call's own part counts where it has tagged one.
-/
theorem call_eq_bare (s : Setting) (depth : Nat) (c : Call) :
    logLines (c.run s depth).events = logLines (c.bare.run s depth).events
      ∧ actionCalls (c.run s depth).events = actionCalls (c.bare.run s depth).events
      ∧ (∀ v after, (c.run s depth).ending = .done ⟨v, after⟩ ↔
          ∃ own, (c.bare.run s depth).ending = .done ⟨v, own⟩
            ∧ after = Table.update c.tags own
            ∧ Table.keys after
              = Table.keys c.tags ++ (Table.keys own).filter (· ∉ Table.keys c.tags)
            ∧ ∀ tag, Table.get? after tag = (Table.get? own tag).or (Table.get? c.tags tag))
      ∧ (∀ f, (c.run s depth).ending = .raised f ↔ (c.bare.run s depth).ending = .raised f)
      ∧ ((c.run s depth).ending = .runaway ↔ (c.bare.run s depth).ending = .runaway) := by
  have hdistinct : ∀ {v own}, (c.bare.run s depth).ending = .done ⟨v, own⟩ → own.Distinct :=
    fun hdone => (replays_eval s (enter s depth) c.rule c.pos c.skip).distinct hdone
  have hrun : c.run s depth
      = (fun o => ⟨o.verdict, Table.update c.tags o.tags⟩) <$> c.bare.run s depth :=
    eval_eq_update s (enter s depth) c.rule c.pos c.tags c.skip
  rw [hrun, Run.events_map, Run.ending_map]
  cases hbare : (c.bare.run s depth).ending with
  | raised f => exact ⟨rfl, rfl, by simp, by simp, by simp⟩
  | runaway => exact ⟨rfl, rfl, by simp, by simp, by simp⟩
  | done o =>
      obtain ⟨v, own⟩ := o
      have hown := hdistinct hbare
      refine ⟨rfl, rfl, ?_, by simp, by simp⟩
      intro v' after
      constructor
      · intro hdone
        cases hdone
        exact ⟨own, rfl, rfl, Table.keys_update hown c.tags, Table.get?_update hown c.tags⟩
      · rintro ⟨own', hdone, rfl, -⟩
        cases hdone
        rfl

end TextGrammar
