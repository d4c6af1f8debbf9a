import TextGrammar.Proofs.Depth

/-!
# Which calls are open during an evaluation

The evaluation of a rule starts the evaluation of others: `Setting.Starts` says which,
given how those went that came before. A call is open until the calls that it started
have ended, so the calls that are open at a time form a chain. Along it
`Setting.Opens` collects the references to rules that there are, each with its
position and with whether space is skipped.

An evaluation never ends exactly if such a reference is entered again while it is still
open. Two facts lead there:

* a call that starts one that is given up is given up too, one reference higher
  (`runaway_of_starts`), so an evaluation that meets itself is given up at any depth;
* a call that is given up at some depth has more references open than that
  (`opensMoreThan_of_runaway`), and there are only so many different ones.
-/

namespace TextGrammar

variable {s : Setting}

/-! ## What a call starts -/

/-- The evaluation of items, from a position with some tagged parts, starts the call. -/
inductive ItemStart (s : Setting) (skip : Bool) : List Rule → Int → Tags → Call → Prop where
  | here {r : Rule} {rest : List Rule} {pos : Int} {tags : Tags} :
      ItemStart s skip (r :: rest) pos tags ⟨r, pos, tags, skip⟩
  /-- The items before it have matched. -/
  | later {r : Rule} {rest : List Rule} {pos mid : Int} {tags after : Tags} {value : Value}
      {c : Call} :
      s.Gives ⟨r, pos, tags, skip⟩ ⟨.success value mid, after⟩ →
      ItemStart s skip rest mid after c →
      ItemStart s skip (r :: rest) pos tags c

/-- The evaluation of alternatives starts the call. -/
inductive AltStart (s : Setting) (skip : Bool) : List Rule → Int → Tags → Call → Prop where
  | here {r : Rule} {rest : List Rule} {pos : Int} {tags : Tags} :
      AltStart s skip (r :: rest) pos tags ⟨r, pos, tags, skip⟩
  /-- The alternatives before it have not matched. -/
  | later {r : Rule} {rest : List Rule} {pos stop : Int} {tags after : Tags} {c : Call} :
      s.Gives ⟨r, pos, tags, skip⟩ ⟨.failure stop, after⟩ →
      AltStart s skip rest pos tags c →
      AltStart s skip (r :: rest) pos tags c

/-- The evaluation of so many rounds at most starts the call. -/
inductive RoundStart (s : Setting) (node : Rule) (skip : Bool) :
    Option Nat → Int → Tags → Call → Prop where
  | here {left : Option Nat} {pos : Int} {tags : Tags} :
      left ≠ some 0 → RoundStart s node skip left pos tags ⟨node, pos, tags, skip⟩
  /-- The rounds before it have matched and taken something. -/
  | later {left : Option Nat} {pos mid : Int} {tags after : Tags} {value : Value} {c : Call} :
      left ≠ some 0 →
      s.Gives ⟨node, pos, tags, skip⟩ ⟨.success value mid, after⟩ →
      mid ≠ pos →
      RoundStart s node skip (left.map (· - 1)) mid after c →
      RoundStart s node skip left pos tags c

/-- The first call starts the second one and waits for it. -/
inductive Setting.Starts (s : Setting) : Call → Call → Prop where
  /-- A token has space skipped before it. -/
  | space {t : Token} {pos : Int} {tags : Tags} :
      Starts s ⟨.token t, pos, tags, true⟩ ⟨.ref spaceName, pos, [], false⟩
  | body {name : String} {body : Rule} {pos : Int} {tags : Tags} {skip : Bool} :
      s.rules.get? name = some body →
      Starts s ⟨.ref name, pos, tags, skip⟩ ⟨body, pos, [], skip⟩
  | item {items : List Rule} {pos : Int} {tags : Tags} {skip : Bool} {c : Call} :
      ItemStart s skip items pos tags c → Starts s ⟨.seq items, pos, tags, skip⟩ c
  | inner {tag : String} {node : Rule} {pos : Int} {tags : Tags} {skip : Bool} :
      Starts s ⟨.tagged tag node, pos, tags, skip⟩ ⟨node, pos, [], skip⟩
  | alternative {alts : List Rule} {pos : Int} {tags : Tags} {skip : Bool} {c : Call} :
      AltStart s skip alts pos tags c → Starts s ⟨.choice alts, pos, tags, skip⟩ c
  | round {node : Rule} {bounds : Bounds} {pos : Int} {tags : Tags} {skip : Bool} {c : Call} :
      RoundStart s node skip bounds.max pos tags c →
      Starts s ⟨.repetition node bounds, pos, tags, skip⟩ c

/-- A reference to a rule that there is. -/
structure Entry where
  name : String
  pos : Int
  skip : Bool
  deriving DecidableEq

/-- The reference that a call follows, unless there is no such rule. -/
def Call.entries (s : Setting) (c : Call) : List Entry :=
  match c.rule with
  | .ref name => if (s.rules.get? name).isSome then [⟨name, c.pos, c.skip⟩] else []
  | _ => []

/--
`s.Opens start c es`: the evaluation of `start` comes to start the call `c`, and the
references `es` are open then, the latest one first.
-/
inductive Setting.Opens (s : Setting) (start : Call) : Call → List Entry → Prop where
  | first : Opens s start start []
  | next {c d : Call} {es : List Entry} :
      Opens s start c es → s.Starts c d → Opens s start d (c.entries s ++ es)

/-- A reference to a rule is entered while the same one is open. -/
def Setting.Reenters (s : Setting) (start : Call) : Prop :=
  ∃ (c : Call) (es : List Entry) (e : Entry), s.Opens start c es ∧ e ∈ c.entries s ∧ e ∈ es

/-- More than `n` references to rules are open at some time. -/
def Setting.OpensMoreThan (s : Setting) (start : Call) (n : Nat) : Prop :=
  ∃ (c : Call) (es : List Entry), s.Opens start c es ∧ n < (c.entries s ++ es).length

/-! ## A call that is given up is given up by whom it was started -/

theorem Call.entries_ref {name : String} {body : Rule} (h : s.rules.get? name = some body)
    (pos : Int) (tags : Tags) (skip : Bool) :
    (⟨.ref name, pos, tags, skip⟩ : Call).entries s = [⟨name, pos, skip⟩] := by
  simp [Call.entries, h]

/-- A reference to no rule is never given up. -/
theorem Call.run_undefined {name : String} (h : s.rules.get? name = none) {depth : Nat} {pos : Int}
    {tags : Tags} {skip : Bool} :
    ((⟨.ref name, pos, tags, skip⟩ : Call).run s depth).ending ≠ .runaway := by
  rw [Call.run_ref, enter_undefined h]
  simp

/-- A reference to a rule is given up exactly where its definition is. -/
theorem Call.run_body {name : String} {body : Rule} (h : s.rules.get? name = some body)
    {depth : Nat} {pos : Int} {tags : Tags} {skip : Bool} :
    ((⟨.ref name, pos, tags, skip⟩ : Call).run s (depth + 1)).ending = .runaway ↔
      ((⟨body, pos, [], skip⟩ : Call).run s depth).ending = .runaway := by
  rw [Call.run_ref, enter_succ h]
  simp only [Ending.andThen_eq_runaway_iff, settled_ne_runaway, and_false, exists_false, or_false,
    reduceCtorEq, Call.run]

theorem evalItems_runaway {skip : Bool} {depth : Nat} {items : List Rule} {pos : Int} {tags : Tags}
    {c : Call} (h : ItemStart s skip items pos tags c) (hc : (c.run s depth).ending = .runaway) :
    (evalItems s (enter s depth) items pos tags skip).ending = .runaway := by
  induction h with
  | here =>
      rw [evalItems, Run.ending_bind]
      simp only [Call.run] at hc
      rw [hc, Ending.andThen_runaway]
  | later hgives _ ih =>
      -- an item that has a result at some depth has it here, or is given up itself
      rw [evalItems, Run.ending_bind]
      have hitem := hgives.eq_at depth
      simp only [Call.run] at hitem
      rcases hitem with hrun | hdone
      · rw [hrun, Ending.andThen_runaway]
      · simp [hdone, ih hc]

theorem evalChoice_runaway {skip : Bool} {depth : Nat} {alts : List Rule} {pos : Int} {tags : Tags}
    {c : Call} (h : AltStart s skip alts pos tags c) (hc : (c.run s depth).ending = .runaway)
    (index : Nat) : (evalChoice s (enter s depth) index alts pos tags skip).ending = .runaway := by
  induction h generalizing index with
  | here =>
      rw [evalChoice, Run.ending_bind]
      simp only [Call.run] at hc
      rw [hc, Ending.andThen_runaway]
  | later hgives _ ih =>
      rw [evalChoice, Run.ending_bind]
      have halt := hgives.eq_at depth
      simp only [Call.run] at halt
      rcases halt with hrun | hdone
      · rw [hrun, Ending.andThen_runaway]
      · simp [hdone, ih hc]

theorem repeatRounds_runaway {node : Rule} {skip : Bool} {depth : Nat} {left : Option Nat}
    {pos : Int} {tags : Tags} {c : Call} (h : RoundStart s node skip left pos tags c)
    (hc : (c.run s depth).ending = .runaway) {fuel : Nat} (hfuel : s.room pos < fuel) :
    (repeatRounds (fun p t => eval s (enter s depth) node p t skip) fuel left pos tags).ending =
      .runaway := by
  induction h generalizing fuel with
  | here hleft =>
      obtain ⟨fuel, rfl⟩ : ∃ n, fuel = n + 1 := ⟨fuel - 1, by omega⟩
      rw [repeatRounds, if_neg hleft, Run.ending_bind]
      simp only [Call.run] at hc
      rw [hc, Ending.andThen_runaway]
  | @later left pos mid tags after value c hleft hgives hne _ ih =>
      obtain ⟨fuel, rfl⟩ : ∃ n, fuel = n + 1 := ⟨fuel - 1, by omega⟩
      have hlt : s.room mid < s.room pos := hgives.within.room_lt hne
      have hmore : s.room mid < fuel := by omega
      rw [repeatRounds, if_neg hleft, Run.ending_bind]
      have hround := hgives.eq_at depth
      simp only [Call.run] at hround
      rcases hround with hrun | hdone
      · rw [hrun, Ending.andThen_runaway]
      · simp [hdone, hne, ih hc hmore]

/-- Where a call is given up, the one that started it is too; a reference adds to the depth. -/
theorem runaway_of_starts {c d : Call} (h : s.Starts c d) {depth : Nat}
    (hd : (d.run s depth).ending = .runaway) :
    (c.run s (depth + (c.entries s).length)).ending = .runaway := by
  cases h with
  | @space t pos tags =>
      rw [Call.run_ref, Ending.andThen_eq_runaway_iff] at hd
      have hspace : (enter s depth spaceName pos false).ending = .runaway := by simpa using hd
      simp [Call.run, Call.entries, eval_token_ending, tokenStart_true, hspace]
  | body hbody =>
      rw [Call.entries_ref hbody]
      exact (Call.run_body hbody).mpr hd
  | item hitem => simp [Call.run, Call.entries, eval_seq_ending, evalItems_runaway hitem hd]
  | inner =>
      simp only [Call.run] at hd
      simp [Call.run, Call.entries, eval_tagged_ending, hd]
  | alternative halt => simp [Call.run, Call.entries, eval_choice_ending, evalChoice_runaway halt hd]
  | round hround =>
      simp [Call.run, Call.entries, eval_repetition_ending,
        repeatRounds_runaway hround hd (Nat.lt_succ_self _)]

/-- What is given up at some depth is given up at any smaller one. -/
theorem Call.runaway_of_le {c : Call} {depth depth' : Nat} (h : depth ≤ depth')
    (hrun : (c.run s depth').ending = .runaway) : (c.run s depth).ending = .runaway := by
  rcases Call.run_approximates h c with h' | heq
  · exact h'
  · rw [heq, hrun]

/-- Where a call is given up, so is the evaluation that came to start it. -/
theorem Setting.Opens.runaway {start c : Call} {es : List Entry} (h : s.Opens start c es)
    {depth : Nat} (hc : (c.run s depth).ending = .runaway) :
    (start.run s (depth + es.length)).ending = .runaway := by
  induction h generalizing depth with
  | first => simpa using hc
  | next _ hstarts ih =>
      have hrun := ih (runaway_of_starts hstarts hc)
      rw [List.length_append]
      rwa [Nat.add_assoc] at hrun

/-! ## Why a call has no result -/

section Abort

variable {w : Abort}

theorem evalItems_starts {skip : Bool} {depth : Nat} {items : List Rule} {pos : Int} {tags : Tags}
    (h : (evalItems s (enter s depth) items pos tags skip).ending = w.ending) :
    ∃ c, ItemStart s skip items pos tags c ∧ c.rule ∈ items ∧
      (c.run s depth).ending = w.ending := by
  induction items generalizing pos tags with
  | nil => simp [evalItems, Abort.done_ne_ending] at h
  | cons r rest ih =>
      rw [evalItems, Run.ending_bind, Ending.andThen_eq_abort_iff] at h
      rcases h with hrun | ⟨⟨v, after⟩, hdone, hrest⟩
      · exact ⟨⟨r, pos, tags, skip⟩, .here, List.mem_cons_self, hrun⟩
      · cases v with
        | failure stop => simp [Abort.done_ne_ending] at hrest
        | success value mid =>
            simp only [Run.ending_bind, Ending.andThen_eq_abort_iff] at hrest
            obtain ⟨c, hc, hmem, hrun⟩ := ih (by simpa [Abort.done_ne_ending] using hrest)
            exact ⟨c, .later ⟨depth, hdone⟩ hc, List.mem_cons_of_mem _ hmem, hrun⟩

theorem evalChoice_starts {skip : Bool} {depth index : Nat} {alts : List Rule} {pos : Int}
    {tags : Tags} (h : (evalChoice s (enter s depth) index alts pos tags skip).ending = w.ending) :
    ∃ c, AltStart s skip alts pos tags c ∧ c.rule ∈ alts ∧
      (c.run s depth).ending = w.ending := by
  induction alts generalizing index with
  | nil => simp [evalChoice, Abort.done_ne_ending] at h
  | cons r rest ih =>
      rw [evalChoice, Run.ending_bind, Ending.andThen_eq_abort_iff] at h
      rcases h with hrun | ⟨⟨v, after⟩, hdone, hrest⟩
      · exact ⟨⟨r, pos, tags, skip⟩, .here, List.mem_cons_self, hrun⟩
      · cases v with
        | success value stop => simp [Abort.done_ne_ending] at hrest
        | failure stop =>
            obtain ⟨c, hc, hmem, hrun⟩ := ih hrest
            exact ⟨c, .later ⟨depth, hdone⟩ hc, List.mem_cons_of_mem _ hmem, hrun⟩

theorem repeatRounds_starts {node : Rule} {skip : Bool} {depth fuel : Nat} {left : Option Nat}
    {pos : Int} {tags : Tags}
    (h : (repeatRounds (fun p t => eval s (enter s depth) node p t skip) fuel left pos tags).ending
      = w.ending) :
    ∃ c, RoundStart s node skip left pos tags c ∧ c.rule = node ∧
      (c.run s depth).ending = w.ending := by
  induction fuel generalizing left pos tags with
  | zero => simp [repeatRounds, Abort.done_ne_ending] at h
  | succ fuel ih =>
      rw [repeatRounds] at h
      split at h
      · simp [Abort.done_ne_ending] at h
      · rename_i hleft
        rw [Run.ending_bind, Ending.andThen_eq_abort_iff] at h
        rcases h with hrun | ⟨⟨v, after⟩, hdone, hrest⟩
        · exact ⟨⟨node, pos, tags, skip⟩, .here hleft, rfl, hrun⟩
        · cases v with
          | failure stop => simp [Abort.done_ne_ending] at hrest
          | success value mid =>
              dsimp only at hrest
              split at hrest
              · simp [Abort.done_ne_ending] at hrest
              · rename_i hne
                have hmore : (repeatRounds (fun p t => eval s (enter s depth) node p t skip) fuel
                    (left.map (· - 1)) mid after).ending = w.ending := by
                  simpa [Ending.andThen_eq_abort_iff, Abort.done_ne_ending] using hrest
                obtain ⟨c, hc, hnode, hrun⟩ := ih hmore
                exact ⟨c, .later hleft ⟨depth, hdone⟩ hne hc, hnode, hrun⟩

/--
Inside a rule a call has no result only because of a reference, or because the rounds of a
repetition cannot be counted. What holds of both holds of the call, if it is passed on to
whom a call was started by.
-/
theorem abort_of_refs {P : Call → Prop} {depth : Nat}
    (hrefs : ∀ name pos tags skip,
      ((⟨.ref name, pos, tags, skip⟩ : Call).run s depth).ending = w.ending →
      P ⟨.ref name, pos, tags, skip⟩)
    (hrounds : ∀ node bounds pos tags skip rounds,
      (repeatRounds (fun p t => eval s (enter s depth) node p t skip) (s.room pos + 1) bounds.max
        pos tags).ending = .done rounds →
      (finishRounds s.capacity bounds pos tags rounds).ending = w.ending →
      P ⟨.repetition node bounds, pos, tags, skip⟩)
    (hstarts : ∀ c d, c.entries s = [] → s.Starts c d → P d → P c)
    (r : Rule) {pos : Int} {tags : Tags} {skip : Bool}
    (h : ((⟨r, pos, tags, skip⟩ : Call).run s depth).ending = w.ending) :
    P ⟨r, pos, tags, skip⟩ := by
  induction r generalizing pos tags skip with
  | token t =>
      rw [Call.run, eval_token_ending] at h
      cases skip with
      | false => simp [tokenStart_false, Abort.done_ne_ending] at h
      | true =>
          have hspace : (enter s depth spaceName pos false).ending = w.ending := by
            simpa [tokenStart_true, Ending.andThen_eq_abort_iff, Abort.done_ne_ending] using h
          refine hstarts _ _ rfl .space (hrefs spaceName pos [] false ?_)
          rw [Call.run_ref, Ending.andThen_eq_abort_iff]
          exact Or.inl hspace
  | ref name => exact hrefs name pos tags skip h
  | seq items ih =>
      have hitems : (evalItems s (enter s depth) items pos tags skip).ending = w.ending := by
        simpa [Call.run, eval_seq_ending, Ending.andThen_eq_abort_iff, Abort.done_ne_ending] using h
      obtain ⟨d, hd, hmem, hrun⟩ := evalItems_starts hitems
      exact hstarts _ d rfl (.item hd) (ih d.rule hmem hrun)
  | tagged tag node ih =>
      have hnode : ((⟨node, pos, [], skip⟩ : Call).run s depth).ending = w.ending := by
        simpa [Call.run, eval_tagged_ending, Ending.andThen_eq_abort_iff, Abort.done_ne_ending] using h
      exact hstarts _ _ rfl .inner (ih hnode)
  | choice alts ih =>
      have halts : (evalChoice s (enter s depth) 0 alts pos tags skip).ending = w.ending := by
        simpa [Call.run, eval_choice_ending] using h
      obtain ⟨d, hd, hmem, hrun⟩ := evalChoice_starts halts
      exact hstarts _ d rfl (.alternative hd) (ih d.rule hmem hrun)
  | repetition node bounds ih =>
      rw [Call.run, eval_repetition_ending, Ending.andThen_eq_abort_iff] at h
      rcases h with hrun | ⟨rounds, hdone, hrun⟩
      · obtain ⟨⟨r, p, t, k⟩, hd, hnode, hround⟩ := repeatRounds_starts hrun
        obtain rfl : r = node := hnode
        exact hstarts _ _ rfl (.round hd) (ih hround)
      · exact hrounds node bounds pos tags skip rounds hdone hrun
  | unknown value => simp [Call.run, eval_unknown_ending, Abort.done_ne_ending] at h

end Abort

/-! ## A call that is given up has as many references open as were allowed -/

theorem finishRounds_ne_runaway (capacity : Nat) (bounds : Bounds) (pos : Int) (tags : Tags)
    (rounds : Rounds) : (finishRounds capacity bounds pos tags rounds).ending ≠ .runaway := by
  rw [finishRounds_ending]
  split <;> simp

/-- Inside a rule a call is given up only because of a reference. -/
theorem opensMoreThan_of_refs {start : Call} {depth : Nat}
    (hrefs : ∀ name pos tags skip es, s.Opens start ⟨.ref name, pos, tags, skip⟩ es →
      ((⟨.ref name, pos, tags, skip⟩ : Call).run s depth).ending = .runaway →
      s.OpensMoreThan start (es.length + depth))
    (c : Call) {es : List Entry} (hopens : s.Opens start c es)
    (hrun : (c.run s depth).ending = .runaway) : s.OpensMoreThan start (es.length + depth) := by
  have hall : ∀ es, s.Opens start c es → s.OpensMoreThan start (es.length + depth) := by
    refine abort_of_refs (w := .runaway)
      (P := fun c => ∀ es, s.Opens start c es → s.OpensMoreThan start (es.length + depth))
      ?_ ?_ ?_ c.rule hrun
    · exact fun name pos tags skip hrun es hopens => hrefs name pos tags skip es hopens hrun
    · intro node bounds pos tags skip rounds _ hrun
      exact absurd hrun (finishRounds_ne_runaway s.capacity bounds pos tags rounds)
    · intro c d hentries hstarts hd es hopens
      refine hd es ?_
      have hnext := hopens.next hstarts
      rwa [hentries, List.nil_append] at hnext
  exact hall es hopens

/--
A call that is given up at some depth comes to have more references open than that,
on top of those that were open already.
-/
theorem opensMoreThan_of_runaway {start : Call} (depth : Nat) {c : Call} {es : List Entry}
    (hopens : s.Opens start c es) (hrun : (c.run s depth).ending = .runaway) :
    s.OpensMoreThan start (es.length + depth) := by
  induction depth generalizing c es with
  | zero =>
      refine opensMoreThan_of_refs ?_ c hopens hrun
      intro name pos tags skip es hopens hrun
      cases hbody : s.rules.get? name with
      | none => exact absurd hrun (Call.run_undefined hbody)
      | some body =>
          refine ⟨_, es, hopens, ?_⟩
          rw [Call.entries_ref hbody]
          simp
  | succ depth ih =>
      refine opensMoreThan_of_refs ?_ c hopens hrun
      intro name pos tags skip es hopens hrun
      cases hbody : s.rules.get? name with
      | none => exact absurd hrun (Call.run_undefined hbody)
      | some body =>
          -- one reference more is open, and the definition has one level less
          have hmore := ih (hopens.next (.body hbody)) ((Call.run_body hbody).mp hrun)
          rw [Call.entries_ref hbody] at hmore
          simpa [Nat.add_assoc, Nat.add_comm 1 depth] using hmore

end TextGrammar
