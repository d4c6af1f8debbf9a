import TextGrammar.Proofs.Accumulator
import TextGrammar.Proofs.Contexts
import TextGrammar.Proofs.Equivalence
import TextGrammar.Proofs.Termination

/-!
# A part of a rule may be given a name

A part of a rule that tags nothing may be made a rule of its own, with a new name, and be referred
to in its place (`Rules.extract`). Evaluations come to the same as before: they have the same
verdict and call the same actions (`apply_extract`).

A reference starts without tagged parts and merges those that it finds into its value. That makes
no difference here: an untagged rule leaves the tagged parts that it is given as they are
(`eval_untagged`), so a reference to it is the rule itself, but for one line in the log
(`eval_ref_untagged`). What does differ is how many references are open at a time. At every depth
the new rules are followed twice as far as the old ones, and the old ones as far as the new.
-/

namespace TextGrammar

variable {s : Setting} {e : Enter} {skip : Bool}

/-! ## Rules without tags -/

theorem Rule.untagged_part {r part : Rule} (h : r.tags = []) (hpart : part ∈ r.parts) :
    part.tags = [] := by
  rw [Rule.tags_eq, List.append_eq_nil_iff, List.flatMap_eq_nil_iff] at h
  exact h.2 part hpart

theorem evalItems_untagged {items : List Rule}
    (hitems : ∀ r ∈ items, ∀ pos tags, (eval s e r pos tags skip).Yields fun o => o.tags = tags)
    (pos : Int) (tags : Tags) :
    (evalItems s e items pos tags skip).Yields fun p => p.tags = tags := by
  induction items generalizing pos with
  | nil =>
      rw [evalItems]
      exact Run.yields_pure rfl
  | cons r rest ih =>
      obtain ⟨hr, hrest⟩ := List.forall_mem_cons.mp hitems
      rw [evalItems]
      refine Run.yields_bind (hr pos tags) fun o ho => ?_
      obtain ⟨v, after⟩ := o
      dsimp only at ho
      subst ho
      cases v with
      | failure stop => exact Run.yields_pure rfl
      | success value stop =>
          exact Run.yields_bind (ih hrest stop) fun p hp => Run.yields_pure hp

theorem evalChoice_untagged {alts : List Rule}
    (halts : ∀ r ∈ alts, ∀ pos tags, (eval s e r pos tags skip).Yields fun o => o.tags = tags)
    (index : Nat) (pos : Int) (tags : Tags) :
    (evalChoice s e index alts pos tags skip).Yields fun o => o.tags = tags := by
  induction alts generalizing index with
  | nil =>
      rw [evalChoice]
      exact Run.yields_pure rfl
  | cons r rest ih =>
      obtain ⟨hr, hrest⟩ := List.forall_mem_cons.mp halts
      rw [evalChoice]
      refine Run.yields_bind (hr pos tags) fun o ho => ?_
      obtain ⟨v, after⟩ := o
      cases v with
      | failure stop => exact ih hrest (index + 1)
      | success value stop => exact Run.yields_then fun _ => Run.yields_pure ho

theorem repeatRounds_untagged {body : Int → Tags → Run Outcome}
    (hbody : ∀ pos tags, (body pos tags).Yields fun o => o.tags = tags) (fuel : Nat)
    (left : Option Nat) (pos : Int) (tags : Tags) :
    (repeatRounds body fuel left pos tags).Yields fun rounds => rounds.tags = tags := by
  induction fuel generalizing left pos with
  | zero =>
      rw [repeatRounds]
      exact Run.yields_pure rfl
  | succ fuel ih =>
      rw [repeatRounds]
      split
      · exact Run.yields_pure rfl
      · refine Run.yields_bind (hbody pos tags) fun o ho => ?_
        obtain ⟨v, after⟩ := o
        dsimp only at ho
        subst ho
        cases v with
        | failure stop => exact Run.yields_pure rfl
        | success value stop =>
            dsimp only
            split
            · exact Run.yields_pure rfl
            · exact Run.yields_bind (ih _ stop) fun more hmore => Run.yields_pure hmore

theorem finishRounds_untagged {capacity : Nat} {bounds : Bounds} {pos : Int} {tags : Tags}
    {rounds : Rounds} (h : rounds.tags = tags) :
    (finishRounds capacity bounds pos tags rounds).Yields fun o => o.tags = tags := by
  unfold finishRounds
  refine Run.yields_then fun values => ?_
  split
  · split
    · exact Run.yields_then fun _ => Run.yields_pure rfl
    · exact Run.yields_pure h
  · exact Run.yields_pure h

/-- A rule without tags leaves the tagged parts as they are, also if it does not match. -/
theorem eval_untagged {r : Rule} (h : r.tags = []) (pos : Int) (tags : Tags) :
    (eval s e r pos tags skip).Yields fun o => o.tags = tags := by
  induction r generalizing pos tags with
  | token t =>
      rw [eval]
      exact Run.yields_then fun _ => Run.yields_pure rfl
  | ref name =>
      rw [eval]
      exact Run.yields_then fun _ => Run.yields_pure rfl
  | seq items ih =>
      have hitems := evalItems_untagged fun r hr => ih r hr (Rule.untagged_part h hr)
      rw [eval]
      refine Run.yields_then fun _ => Run.yields_bind (hitems pos tags) fun p hp => ?_
      obtain ⟨values, stop, after⟩ := p
      cases values with
      | none => exact Run.yields_pure hp
      | some values => exact Run.yields_pure hp
  | tagged tag node =>
      rw [Rule.tags_eq] at h
      cases h
  | choice alts ih =>
      have halts := evalChoice_untagged fun r hr => ih r hr (Rule.untagged_part h hr)
      rw [eval]
      exact Run.yields_then fun _ => halts 0 pos tags
  | repetition node bounds ih =>
      have hnode := ih (Rule.untagged_part h List.mem_cons_self)
      rw [eval]
      refine Run.yields_then fun _ => ?_
      exact Run.yields_bind (repeatRounds_untagged hnode _ bounds.max pos tags) fun _ hrounds =>
        finishRounds_untagged hrounds
  | unknown value =>
      rw [eval]
      exact Run.yields_then fun _ => Run.yields_pure rfl

/-- A reference to a rule that has no tags and no action is the rule, but for one event. -/
theorem eval_ref_untagged {name : String} {body : Rule} (hbody : s.rules.get? name = some body)
    (haction : s.actions name = none) (huntagged : body.tags = []) (depth : Nat) (pos : Int)
    (tags : Tags) (skip : Bool) :
    eval s (enter s (depth + 1)) (.ref name) pos tags skip = (do
      Run.emit (.reference name)
      eval s (enter s depth) body pos tags skip) := by
  have hkeeps := @eval_untagged s (enter s depth) skip body huntagged pos []
  rw [eval, enter, hbody, eval_eq_update s (enter s depth) body pos tags skip, bind_assoc]
  congr 1
  funext _
  dsimp only
  rw [map_eq_pure_bind]
  -- the body was evaluated without tagged parts, and has added none
  generalize eval s (enter s depth) body pos [] skip = run at hkeeps
  obtain ⟨es, ending⟩ := run
  cases ending with
  | raised f => rfl
  | runaway => rfl
  | done o =>
      obtain ⟨v, inner⟩ := o
      obtain rfl : inner = [] := hkeeps _ rfl
      cases v with
      | failure stop => simp [Setting.finish]
      | success value stop => simp [Setting.finish, haction]

/-! ## Giving a part a name -/

/-- The rules in which a part of one of them, at some place, has become a rule of its own. -/
def Rules.extract (rules : Rules) (name : String) (place : Rule.Context) (fresh : String)
    (part : Rule) : Rules :=
  (rules.insert name (place.fill (.ref fresh))).insert fresh part

/-- What it takes to give a part of a rule a name: it tags nothing, and the name is a new one. -/
structure Rules.Extractable (rules : Rules) (actions : String → Option Action) (name : String)
    (place : Rule.Context) (fresh : String) (part : Rule) : Prop where
  occurs : rules.get? name = some (place.fill part)
  untagged : part.tags = []
  ne_space : fresh ≠ spaceName
  undefined : rules.get? fresh = none
  unreferenced : ∀ e ∈ rules, .ref fresh ∉ e.2.nodes
  inert : actions fresh = none

theorem Rules.extract_get?_fresh (rules : Rules) (name : String) (place : Rule.Context)
    (fresh : String) (part : Rule) : (rules.extract name place fresh part).get? fresh = some part :=
  Table.get?_insert_self _ _ _

theorem Rules.extract_get?_other (rules : Rules) {name fresh other : String}
    (hname : other ≠ name) (hfresh : other ≠ fresh) (place : Rule.Context) (part : Rule) :
    (rules.extract name place fresh part).get? other = rules.get? other := by
  rw [Rules.extract, Table.get?_insert_of_ne _ _ hfresh.symm,
    Table.get?_insert_of_ne _ _ hname.symm]

/--
Two settings have the same rules but for what stands at some place of one of them, and but for a
name that is referred to at that place only.
-/
structure SameAround (t t' : Setting) (name : String) (place : Rule.Context) (fresh : String)
    (r r' : Rule) : Prop where
  text : t.text = t'.text
  capacity : t.capacity = t'.capacity
  actions : t.actions = t'.actions
  ne_space : spaceName ≠ fresh
  here : t.rules.get? name = some (place.fill r)
  here' : t'.rules.get? name = some (place.fill r')
  beside : ∀ side ∈ place.beside, .ref fresh ∉ side.nodes
  elsewhere : ∀ other, other ≠ name → other ≠ fresh → t.rules.get? other = t'.rules.get? other
  unreferenced : ∀ other body, other ≠ name → other ≠ fresh → t.rules.get? other = some body →
    .ref fresh ∉ body.nodes

namespace SameAround

variable {t t' : Setting} {name fresh : String} {place : Rule.Context} {r r' : Rule}
  {C : Run.Comparison} {see : Event → Option (String × Value)} {depth depth' : Nat}

/-- References to all names but the new one come to the same. -/
abbrev Enters (C : Run.Comparison) (fresh : String) (x y : Evaluator) : Prop :=
  EntersAgree C .same x y fun name _ => name ≠ fresh

/-- Rules that do not refer to the new name come to the same if references to the others do. -/
theorem agree (h : SameAround t t' name place fresh r r')
    (henters : Enters C fresh (t.evaluator depth) (t'.evaluator depth')) {body : Rule}
    (hbody : .ref fresh ∉ body.nodes) (skip : Bool) :
    Agree C .same (t.evaluator depth) (t'.evaluator depth') skip body body := by
  refine .of_enters h.text h.capacity henters h.ne_space fun name hname => ?_
  rintro rfl
  exact hbody hname

/-- One reference deeper, references still come to the same if what stands at the place does. -/
theorem enters_succ (h : SameAround t t' name place fresh r r')
    (henters : Enters C fresh (t.evaluator depth) (t'.evaluator depth'))
    (hplace : ∀ skip, Agree C .same (t.evaluator depth) (t'.evaluator depth') skip r r') :
    Enters C fresh (t.evaluator (depth + 1)) (t'.evaluator (depth' + 1)) := by
  intro other skip pos pos' hfresh hpos
  have hactions : t.actions other = t'.actions other := congrFun h.actions other
  by_cases hname : other = name
  · subst hname
    have hfill := (hplace skip).fill h.capacity fun side hside =>
      h.agree henters (h.beside side hside) skip
    exact enter_succ_agree h.here h.here' hactions hfill hpos
  · have hsame := h.elsewhere other hname hfresh
    cases hbody : t.rules.get? other with
    | none => exact enter_undefined_agree hbody (hsame ▸ hbody) hpos skip _ _
    | some body =>
        have hagree := h.agree henters (h.unreferenced other body hname hfresh hbody) skip
        exact enter_succ_agree hbody (hsame ▸ hbody) hactions hagree hpos

/-- With no reference open, all references to rules are given up. -/
theorem enters_zero (h : SameAround t t' name place fresh r r') :
    Enters (.mirrored see) fresh (t.evaluator 0) (t'.evaluator depth') := by
  intro other skip pos pos' hfresh hpos
  cases hbody : t.rules.get? other with
  | some body => exact .inl (enter_zero hbody pos skip)
  | none =>
      have hname : other ≠ name := by
        rintro rfl
        rw [h.here] at hbody
        cases hbody
      exact enter_undefined_agree hbody (h.elsewhere other hname hfresh ▸ hbody) hpos skip _ _

theorem flip (h : SameAround t t' name place fresh r r') :
    SameAround t' t name place fresh r' r where
  text := h.text.symm
  capacity := h.capacity.symm
  actions := h.actions.symm
  ne_space := h.ne_space
  here := h.here'
  here' := h.here
  beside := h.beside
  elsewhere other hname hfresh := (h.elsewhere other hname hfresh).symm
  unreferenced other body hname hfresh hbody :=
    h.unreferenced other body hname hfresh (h.elsewhere other hname hfresh ▸ hbody)

end SameAround

section Extraction

variable {name fresh start : String} {place : Rule.Context} {part : Rule}

/-- The setting in which a part of a rule has become a rule of its own. -/
def Setting.extract (s : Setting) (name : String) (place : Rule.Context) (fresh : String)
    (part : Rule) : Setting :=
  { s with rules := s.rules.extract name place fresh part }

theorem Rules.Extractable.sameAround
    (h : s.rules.Extractable s.actions name place fresh part) :
    SameAround s (s.extract name place fresh part) name place fresh part (.ref fresh) := by
  have hne : fresh ≠ name := by
    rintro rfl
    have hoccurs := h.occurs
    rw [h.undefined] at hoccurs
    cases hoccurs
  refine ⟨rfl, rfl, rfl, h.ne_space.symm, h.occurs, ?_, fun side hside hmem => ?_,
    fun other hname hfresh => (s.rules.extract_get?_other hname hfresh place part).symm,
    fun other body _ _ hbody => h.unreferenced _ (Table.mem_of_get? hbody)⟩
  · show Table.get? (Table.insert _ fresh part) name = _
    rw [Table.get?_insert_of_ne _ _ hne, Table.get?_insert_self]
  · have hnodes := @Rule.Context.mem_nodes_of_beside place part side _ hside hmem
    exact h.unreferenced _ (Table.mem_of_get? h.occurs) hnodes

theorem Rules.Extractable.part_unreferenced
    (h : s.rules.Extractable s.actions name place fresh part) : .ref fresh ∉ part.nodes :=
  fun hmem => h.unreferenced _ (Table.mem_of_get? h.occurs) (place.mem_nodes_fill hmem)

/-- A reference to the new name is the part itself, but for one event. -/
theorem Rules.Extractable.eval_fresh (h : s.rules.Extractable s.actions name place fresh part)
    (depth : Nat) (pos : Int) (tags : Tags) (skip : Bool) :
    ((s.extract name place fresh part).evaluator (depth + 1)).eval (.ref fresh) pos tags skip = (do
      Run.emit (.reference fresh)
      ((s.extract name place fresh part).evaluator depth).eval part pos tags skip) :=
  @eval_ref_untagged (s.extract name place fresh part) fresh part
    (s.rules.extract_get?_fresh name place fresh part) h.inert h.untagged depth pos tags skip

/-- What the old rules do, the new ones do twice as deep. -/
theorem extract_mirrors (h : s.rules.Extractable s.actions name place fresh part)
    {depth depth' : Nat} (hdepth : 2 * depth ≤ depth') :
    SameAround.Enters (.mirrored Event.call?) fresh (s.evaluator depth)
      ((s.extract name place fresh part).evaluator depth') := by
  have hsame := h.sameAround
  induction depth generalizing depth' with
  | zero => exact hsame.enters_zero
  | succ depth ih =>
      -- two references are open where one was before
      obtain ⟨depth', rfl⟩ : ∃ n, depth' = n + 2 := ⟨depth' - 2, by omega⟩
      refine hsame.enters_succ (ih (by omega)) fun skip pos pos' tags hpos => ?_
      have hinner : 2 * depth ≤ depth' := by omega
      have hpart := hsame.agree (ih hinner) h.part_unreferenced skip pos pos' tags hpos
      rw [h.eval_fresh]
      exact Run.Mirrored.unseen_right rfl hpart

/-- What the new rules do, the old ones do at the same depth. -/
theorem mirrors_extract (h : s.rules.Extractable s.actions name place fresh part)
    {depth depth' : Nat} (hdepth : depth ≤ depth') :
    SameAround.Enters (.mirrored Event.call?) fresh
      ((s.extract name place fresh part).evaluator depth) (s.evaluator depth') := by
  have hsame := h.sameAround.flip
  induction depth using Nat.strongRecOn generalizing depth' with
  | ind depth ih =>
      cases depth with
      | zero => exact hsame.enters_zero
      | succ depth =>
          obtain ⟨depth', rfl⟩ : ∃ n, depth' = n + 1 := ⟨depth' - 1, by omega⟩
          refine hsame.enters_succ (ih depth (by omega) (by omega)) fun skip pos pos' tags hpos => ?_
          cases depth with
          | zero =>
              have hfresh := s.rules.extract_get?_fresh name place fresh part
              refine .inl ?_
              show (eval _ (enter (s.extract name place fresh part) 0) _ pos tags skip).ending = _
              rw [eval_ref_ending, enter_zero hfresh, Ending.andThen_runaway]
          | succ depth =>
              have hinner : depth ≤ depth' := by omega
              have hpart := hsame.agree (ih depth (by omega) hinner) h.part_unreferenced skip pos
                pos' tags hpos
              rw [h.eval_fresh]
              exact Run.Mirrored.unseen_left rfl hpart

/--
**To give a part of a rule a name changes nothing.** If a part of a rule tags nothing, it may be
made a rule of its own, under a name that is not used otherwise, and be referred to in its place,
wherever it stands. For every other name to start with, and at every position, an evaluation ends
if it did before; it matches or not as before, with the same value, and stops at the same
position, or raises the same fault; and it calls the same actions with the same arguments, in the
same order.
-/
theorem apply_extract (h : s.rules.Extractable s.actions name place fresh part)
    (hstart : start ≠ fresh) (pos : Int) :
    (s.NeverEnds (Call.first start pos)
        ↔ (s.extract name place fresh part).NeverEnds (Call.first start pos))
      ∧ (¬s.NeverEnds (Call.first start pos) →
          (s.apply start pos).ending = ((s.extract name place fresh part).apply start pos).ending
            ∧ actionCalls (s.apply start pos).events
              = actionCalls ((s.extract name place fresh part).apply start pos).events) := by
  obtain ⟨hnever, halike⟩ := apply_alike
    (fun depth => ⟨2 * depth, extract_mirrors h (Nat.le_refl _) start true pos pos hstart rfl⟩)
    (fun depth => ⟨depth, mirrors_extract h (Nat.le_refl _) start true pos pos hstart rfl⟩)
  refine ⟨hnever, fun hends => ?_⟩
  have hsame := halike hends
  exact ⟨hsame.ending_eq fun _ _ hv => hv.eq, hsame.events⟩

end Extraction

/-- The rules of letters, with an action on the rule that is recursive. -/
def nestSetting : Setting :=
  ⟨letterRules, fun name => if name = "nest" then some (.function .ok) else none, "xxy".toList,
    Fault.listCapacity⟩

/-- The first alternative of that rule, which refers to the rule. -/
def nestPart : Rule := .seq [.token letterToken, .ref "nest"]

/-- A recursive part of a rule gets a name. -/
theorem apply_nestSetting_extract :
    nestSetting.rules.Extractable nestSetting.actions "nest" (.choice [] .here [.ref spaceName])
        "word" nestPart
      ∧ "$begin" ≠ "word"
      ∧ ¬nestSetting.NeverEnds (Call.first "$begin" 0)
      ∧ (nestSetting.apply "$begin" 0).ending
        = ((nestSetting.extract "nest" (.choice [] .here [.ref spaceName]) "word"
          nestPart).apply "$begin" 0).ending := by
  have hextractable : nestSetting.rules.Extractable nestSetting.actions "nest"
      (.choice [] .here [.ref spaceName]) "word" nestPart := by
    refine ⟨rfl, rfl, by decide, rfl, ?_, rfl⟩
    simp [nestSetting, letterRules, Rule.nodes, Rule.nodesAll, spaceName]
  have hends : ¬nestSetting.NeverEnds (Call.first "$begin" 0) := by
    rw [← apply_eq_runaway_iff]
    intro hrunaway
    cases hrunaway
  have hstart : "$begin" ≠ "word" := by decide
  exact ⟨hextractable, hstart, hends, ((apply_extract hextractable hstart 0).2 hends).1⟩

end TextGrammar
