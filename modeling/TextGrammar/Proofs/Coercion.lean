import TextGrammar.Proofs.Acceptance
import TextGrammar.Proofs.Literals

/-!
# Coercion settles what a rule is

A declaration may hold plain data at any depth, also below nodes. Coercion replaces all of it:
what comes out consists of nodes only (`Declaration.coerce_known`), and such a rule, written down
as a declaration, is coerced to itself (`Rule.coerce_declaration`). The two together say that the
rules that coercion leaves alone are the known ones, so it has nothing left to do the second time.

The rest of the program gets its rules from there. Grammar texts are read as known rules, and a
parser holds known rules only, so no evaluation ever meets a declaration that is no rule
(`Run.Known`).
-/

namespace TextGrammar

/-! ## Known rules -/

/-- The rule is one of the six kinds of nodes, with bounds in order if it has bounds. -/
def Rule.IsNode : Rule → Prop
  | .token _ | .ref _ | .seq _ | .tagged _ _ | .choice _ => True
  | .repetition _ bounds =>
    ∀ low high, bounds.min = some low → bounds.max = some high → low ≤ high
  | .unknown _ => False

/-- The rule and all rules inside it are nodes. -/
def Rule.Known (r : Rule) : Prop := r.All Rule.IsNode

/-- What holds of a declaration if it holds of its parts holds of every declaration. -/
@[elab_as_elim, induction_eliminator]
theorem Declaration.induct {motive : Declaration → Prop}
    (null : motive .null) (bool : ∀ b, motive (.bool b)) (int : ∀ n, motive (.int n))
    (text : ∀ s, motive (.text s)) (pattern : ∀ p, motive (.pattern p))
    (list : ∀ items, (∀ d ∈ items, motive d) → motive (.list items))
    (tuple : ∀ items, (∀ d ∈ items, motive d) → motive (.tuple items))
    (dict : ∀ entries, (∀ e ∈ entries, motive e.2) → motive (.dict entries))
    (token : ∀ t, motive (.token t)) (ref : ∀ name, motive (.ref name))
    (seq : ∀ items, (∀ d ∈ items, motive d) → motive (.seq items))
    (tagged : ∀ tag node, motive node → motive (.tagged tag node))
    (choice : ∀ alts, (∀ d ∈ alts, motive d) → motive (.choice alts))
    (repetition : ∀ node bounds, motive node → motive (.repetition node bounds))
    (d : Declaration) : motive d :=
  @Declaration.rec motive (fun ds => ∀ d ∈ ds, motive d) (fun es => ∀ e ∈ es, motive e.2)
    (fun e => motive e.2) null bool int text pattern list tuple dict token ref seq tagged choice
    repetition (fun _ h => absurd h List.not_mem_nil)
    (fun _ _ hhead htail => List.forall_mem_cons.mpr ⟨hhead, htail⟩)
    (fun _ h => absurd h List.not_mem_nil)
    (fun _ _ hhead htail => List.forall_mem_cons.mpr ⟨hhead, htail⟩)
    (fun _ _ h => h) d

/-! ## What coercion returns -/

section Coercion

variable [PatternEngine]

namespace Declaration

theorem coerceAll_ok {ds : List Declaration} {rs : List Rule} (h : coerceAll ds = .ok rs) :
    ∀ r ∈ rs, ∃ d ∈ ds, d.coerce = .ok r := by
  induction ds generalizing rs with
  | nil =>
      cases h
      exact fun _ hr => absurd hr List.not_mem_nil
  | cons d ds ih =>
      obtain ⟨r, hr, hrest⟩ := bind_eq_ok h
      obtain ⟨rs', hrs, hdone⟩ := bind_eq_ok hrest
      cases hdone
      refine List.forall_mem_cons.mpr ⟨⟨d, List.mem_cons_self, hr⟩, fun r' hr' => ?_⟩
      obtain ⟨d', hd', hcoerce⟩ := ih hrs r' hr'
      exact ⟨d', List.mem_cons_of_mem _ hd', hcoerce⟩

theorem coerceAll_known {ds : List Declaration} {rs : List Rule}
    (hknown : ∀ d ∈ ds, ∀ {r : Rule}, d.coerce = .ok r → r.Known) (h : coerceAll ds = .ok rs) :
    ∀ r ∈ rs, r.Known := by
  intro r hr
  obtain ⟨d, hd, hcoerce⟩ := coerceAll_ok h r hr
  exact hknown d hd hcoerce

/-- **Coercion leaves nothing unknown**, at any depth. -/
theorem coerce_known {d : Declaration} {r : Rule} (h : d.coerce = .ok r) : r.Known := by
  induction d generalizing r with
  | null => cases h
  | bool b => cases h
  | int n => cases h
  | text s =>
      cases h
      exact (Rule.all_leaf rfl).mpr trivial
  | pattern p =>
      obtain ⟨t, -, hdone⟩ := bind_eq_ok h
      cases hdone
      exact (Rule.all_leaf rfl).mpr trivial
  | list items ih =>
      obtain ⟨rs, hrs, hdone⟩ := bind_eq_ok h
      cases hdone
      exact Rule.all_iff.mpr ⟨trivial, coerceAll_known ih hrs⟩
  | tuple items ih =>
      obtain ⟨rs, hrs, hdone⟩ := bind_eq_ok h
      cases hdone
      exact Rule.all_iff.mpr ⟨trivial, coerceAll_known ih hrs⟩
  | dict entries ih =>
      rw [coerce] at h
      -- only a dictionary with one entry is a rule
      match entries, ih, h with
      | [], _, h => cases h
      | [(k, d)], ih, h =>
          obtain ⟨node, hnode, hdone⟩ := bind_eq_ok h
          cases hdone
          exact (Rule.all_single rfl).mpr ⟨trivial, ih (k, d) List.mem_cons_self hnode⟩
      | _ :: _ :: _, _, h => cases h
  | token t =>
      cases h
      exact (Rule.all_leaf rfl).mpr trivial
  | ref name =>
      cases h
      exact (Rule.all_leaf rfl).mpr trivial
  | seq items ih =>
      obtain ⟨rs, hrs, hdone⟩ := bind_eq_ok h
      cases hdone
      exact Rule.all_iff.mpr ⟨trivial, coerceAll_known ih hrs⟩
  | tagged tag node ih =>
      obtain ⟨r', hr', hdone⟩ := bind_eq_ok h
      cases hdone
      exact (Rule.all_single rfl).mpr ⟨trivial, ih hr'⟩
  | choice alts ih =>
      obtain ⟨rs, hrs, hdone⟩ := bind_eq_ok h
      cases hdone
      exact Rule.all_iff.mpr ⟨trivial, coerceAll_known ih hrs⟩
  | repetition node bounds ih =>
      obtain ⟨r', hr', hdone⟩ := bind_eq_ok h
      cases hdone
      exact (Rule.all_single rfl).mpr ⟨bounds.ordered, ih hr'⟩

end Declaration

/-! ## What coercion leaves alone -/

theorem coerceAll_declarations {rs : List Rule} (h : ∀ r ∈ rs, r.declaration.coerce = .ok r) :
    Declaration.coerceAll (Rule.declarations rs) = .ok rs := by
  induction rs with
  | nil => rfl
  | cons r rs ih =>
      obtain ⟨hr, hrs⟩ := List.forall_mem_cons.mp h
      rw [Rule.declarations, Declaration.coerceAll, hr, ih hrs]
      rfl

/-- **A known rule is coerced to itself.** -/
theorem Rule.coerce_declaration {r : Rule} (h : r.Known) : r.declaration.coerce = .ok r := by
  induction r with
  | token t => rfl
  | ref name => rfl
  | seq items ih =>
      obtain ⟨-, hitems⟩ := Rule.all_iff.mp h
      rw [Rule.declaration, Declaration.coerce,
        coerceAll_declarations fun r hr => ih r hr (hitems r hr)]
      rfl
  | tagged tag node ih =>
      obtain ⟨-, hnode⟩ := (Rule.all_single rfl).mp h
      rw [Rule.declaration, Declaration.coerce, ih hnode]
      rfl
  | choice alts ih =>
      obtain ⟨-, halts⟩ := Rule.all_iff.mp h
      rw [Rule.declaration, Declaration.coerce,
        coerceAll_declarations fun r hr => ih r hr (halts r hr)]
      rfl
  | repetition node bounds ih =>
      obtain ⟨-, hnode⟩ := (Rule.all_single rfl).mp h
      rw [Rule.declaration, Declaration.coerce, ih hnode]
      rfl
  | unknown value => exact ((Rule.all_leaf rfl).mp h).elim

theorem Rule.coerce_declaration_iff {r : Rule} : r.declaration.coerce = .ok r ↔ r.Known :=
  ⟨Declaration.coerce_known, Rule.coerce_declaration⟩

/-- The declaration is that of a known rule, so that coercion gives it back. -/
def Declaration.Settled (d : Declaration) : Prop := ∃ r : Rule, d.coerce = .ok r ∧ r.declaration = d

theorem Rule.Known.settled {r : Rule} (h : r.Known) : r.declaration.Settled :=
  ⟨r, Rule.coerce_declaration h, rfl⟩

theorem Declaration.oneOf_settled {alts : List Declaration} {d : Declaration}
    (h : Declaration.oneOf alts = .ok d) : d.Settled := by
  obtain ⟨rs, hrs, hdone⟩ := bind_eq_ok h
  cases hdone
  have hchoice : (Rule.choice rs).Known :=
    Rule.all_iff.mpr ⟨trivial, coerceAll_known (fun _ _ => coerce_known) hrs⟩
  exact hchoice.settled

theorem Declaration.times_settled {node d : Declaration} {count min max : Option Int}
    (h : node.times count min max = .ok d) : d.Settled := by
  unfold times at h
  by_cases hboth : (count.isSome && (min.isSome || max.isSome)) = true
  · rw [if_pos hboth] at h
    cases h
  · rw [if_neg hboth] at h
    obtain ⟨r, hr, hbounds⟩ := bind_eq_ok h
    dsimp only at hbounds
    split at hbounds
    · rename_i bounds _
      cases hbounds
      have hrepetition : (Rule.repetition r bounds).Known :=
        (Rule.all_single rfl).mpr ⟨bounds.ordered, coerce_known hr⟩
      exact hrepetition.settled
    · cases hbounds

/-! ## The rules of a grammar text -/

/-- What a grammar text promises of a rule is more than that its nodes are nodes. -/
theorem Rule.Proper.isNode {r : Rule} (h : r.Proper) : r.IsNode := by
  cases r with
  | repetition node bounds => exact h
  | unknown value => exact h
  | token t | ref name | seq items | tagged tag node | choice alts => trivial

theorem readGrammar_known {source : List Char} {rules : Rules}
    (h : readGrammar source = .ok rules) : rules.Distinct ∧ ∀ e ∈ rules, e.2.Known := by
  obtain ⟨-, hnames, ls, hwritten, harranged⟩ := readGrammar_ok h
  refine ⟨hnames, fun e he => ?_⟩
  exact (hwritten.proper harranged.spellable e he).2.imp fun _ => Rule.Proper.isNode

/-! ## The rules of a parser -/

/-- The rules, and the usual white space to skip unless they say what to skip. -/
def Rules.withUsualSpace (rules : Rules) : Rules :=
  if rules.has spaceName then rules else rules ++ [(spaceName, .token .usualSpace)]

theorem Parser.withSpace_eq (rules : Rules) :
    Parser.withSpace rules = .ok rules.withUsualSpace := by
  have hspace : Token.make defaultSpaceSource Flags.none = .ok .usualSpace :=
    Token.usualSpace_compiles.make
  rw [Parser.withSpace, Rules.withUsualSpace, hspace]
  split <;> rfl

/-- Adds what a declaration stands for. -/
def Rules.add (rules : Rules) (draft : Key × Declaration) : Except Fault Rules := do
  return rules.insert draft.1.asText (← draft.2.coerce)

theorem Drafts.coerce_eq (drafts : Drafts) : drafts.coerce = drafts.foldlM Rules.add [] := rfl

theorem Rules.add_known {rules next : Rules} {draft : Key × Declaration}
    (hrules : ∀ e ∈ rules, e.2.Known) (h : rules.add draft = .ok next) :
    ∀ e ∈ next, e.2.Known := by
  obtain ⟨r, hr, hdone⟩ := bind_eq_ok h
  cases hdone
  intro e he
  rcases Table.mem_insert he with he | he
  · exact hrules e he
  · rw [he]
    exact Declaration.coerce_known hr

theorem foldlM_add_known {drafts : Drafts} {before rules : Rules}
    (hbefore : ∀ e ∈ before, e.2.Known) (h : drafts.foldlM Rules.add before = .ok rules) :
    ∀ e ∈ rules, e.2.Known := by
  induction drafts generalizing before with
  | nil =>
      cases h
      exact hbefore
  | cons draft drafts ih =>
      rw [List.foldlM_cons] at h
      obtain ⟨next, hnext, hrest⟩ := bind_eq_ok h
      exact ih (Rules.add_known hbefore hnext) hrest

/-- The declarations of known rules are added as these rules. -/
theorem foldlM_add_drafts {rules : Rules} (hknown : ∀ e ∈ rules, e.2.Known) (before : Rules) :
    rules.drafts.foldlM Rules.add before = .ok (Table.update before rules) := by
  induction rules generalizing before with
  | nil => rfl
  | cons e rules ih =>
      obtain ⟨hr, hrules⟩ := List.forall_mem_cons.mp hknown
      rw [Rules.drafts, List.map_cons, List.foldlM_cons, Rules.add, Rule.coerce_declaration hr]
      exact ih hrules _

theorem Rules.coerce_drafts {rules : Rules} (hnames : rules.Distinct)
    (hknown : ∀ e ∈ rules, e.2.Known) : rules.drafts.coerce = .ok rules := by
  rw [Drafts.coerce_eq, foldlM_add_drafts hknown, Table.update_eq_append (t := []) hnames,
    List.nil_append]

/-- A parser of known rules has these rules, and white space to skip. -/
theorem Parser.make_drafts {rules : Rules} {actions : Actions} (hnames : rules.Distinct)
    (hknown : ∀ e ∈ rules, e.2.Known) (hbegin : rules.has beginName = true)
    (hactions : actions.firstNonFunction? = none) :
    Parser.make rules.drafts actions = .ok ⟨rules.withUsualSpace, actions⟩ := by
  rw [Parser.make, Rules.coerce_drafts hnames hknown]
  simp only [bind, Except.bind, hbegin, Parser.withSpace_eq, hactions]
  rfl

/-- Without a rule to start with there is no parser. -/
theorem Parser.make_noBegin {rules : Rules} (hnames : rules.Distinct)
    (hknown : ∀ e ∈ rules, e.2.Known) (hbegin : rules.has beginName = false) (actions : Actions) :
    Parser.make rules.drafts actions = .error .noBegin := by
  rw [Parser.make, Rules.coerce_drafts hnames hknown]
  simp only [bind, Except.bind, hbegin]
  rfl

theorem Rules.withUsualSpace_known {rules : Rules} (h : ∀ e ∈ rules, e.2.Known) :
    ∀ e ∈ rules.withUsualSpace, e.2.Known := by
  intro e he
  rw [Rules.withUsualSpace] at he
  split at he
  · exact h e he
  · rcases List.mem_append.mp he with he | he
    · exact h e he
    · rw [List.mem_singleton.mp he]
      exact (Rule.all_leaf rfl).mpr trivial

theorem Parser.make_known {drafts : Drafts} {actions : Actions} {p : Parser}
    (h : Parser.make drafts actions = .ok p) : ∀ e ∈ p.rules, e.2.Known := by
  obtain ⟨rules, hrules, hmake⟩ := bind_eq_ok h
  have hknown := foldlM_add_known (fun _ he => absurd he List.not_mem_nil) hrules
  by_cases hbegin : rules.has beginName = true
  · simp only [hbegin, Bool.not_true, Bool.false_eq_true, if_false, Parser.withSpace_eq, bind,
      Except.bind] at hmake
    split at hmake
    · cases hmake
    · cases hmake
      exact Rules.withUsualSpace_known hknown
  · simp only [hbegin] at hmake
    cases hmake

end Coercion

/-! ## Evaluations of known rules -/

/-- Whether the event says that something is no rule. -/
def Event.isUnknown : Event → Bool
  | .unknownRule _ => true
  | _ => false

namespace Run

variable {α β : Type}

/-- Nothing has been met that is no rule. -/
def Known (x : Run α) : Prop := ∀ event ∈ x.events, event.isUnknown = false

theorem Known.quiet {x : Run α} (h : x.events = []) : x.Known := by
  intro event hevent
  rw [h] at hevent
  cases hevent

theorem Known.pure (a : α) : (Pure.pure a : Run α).Known := .quiet rfl

theorem Known.emit {event : Event} (h : event.isUnknown = false) : (emit event).Known := by
  intro other hother
  rw [List.mem_singleton.mp hother]
  exact h

theorem Known.bind {x : Run α} {f : α → Run β} (hx : x.Known) (hf : ∀ a, (f a).Known) :
    (x >>= f).Known := by
  obtain ⟨es, e⟩ := x
  cases e with
  | done a =>
      intro event hevent
      rw [bind_done] at hevent
      rcases List.mem_append.mp hevent with hevent | hevent
      · exact hx event hevent
      · exact hf a event hevent
  | raised f => exact hx
  | runaway => exact hx

end Run

section Evaluation

variable {s : Setting} {e : Enter}

theorem evalToken_known (he : ∀ name pos skip, (e name pos skip).Known) (t : Token) (pos : Int)
    (skip : Bool) : (evalToken s e t pos skip).Known := by
  unfold evalToken tokenStart
  refine .bind (.emit rfl) fun _ => .bind ?_ fun start => ?_
  · split
    · refine .bind (he spaceName pos false) fun v => ?_
      cases v <;> exact .pure _
    · exact .pure pos
  · split
    · exact .bind (.emit rfl) fun _ => .pure _
    · exact .bind (.emit rfl) fun _ => .pure _

theorem evalItems_known {items : List Rule} {skip : Bool}
    (hitems : ∀ r ∈ items, ∀ pos tags, (eval s e r pos tags skip).Known) (pos : Int)
    (tags : Tags) : (evalItems s e items pos tags skip).Known := by
  induction items generalizing pos tags with
  | nil =>
      rw [evalItems]
      exact .pure _
  | cons r rest ih =>
      obtain ⟨hr, hrest⟩ := List.forall_mem_cons.mp hitems
      rw [evalItems]
      refine .bind (hr pos tags) fun o => ?_
      obtain ⟨v, after⟩ := o
      cases v with
      | failure stop => exact .pure _
      | success value stop => exact .bind (ih hrest stop after) fun _ => .pure _

theorem evalChoice_known {alts : List Rule} {skip : Bool}
    (halts : ∀ r ∈ alts, ∀ pos tags, (eval s e r pos tags skip).Known) (index : Nat) (pos : Int)
    (tags : Tags) : (evalChoice s e index alts pos tags skip).Known := by
  induction alts generalizing index with
  | nil =>
      rw [evalChoice]
      exact .pure _
  | cons r rest ih =>
      obtain ⟨hr, hrest⟩ := List.forall_mem_cons.mp halts
      rw [evalChoice]
      refine .bind (hr pos tags) fun o => ?_
      obtain ⟨v, after⟩ := o
      cases v with
      | failure stop => exact ih hrest (index + 1)
      | success value stop => exact .bind (.emit rfl) fun _ => .pure _

theorem repeatRounds_known {body : Int → Tags → Run Outcome}
    (hbody : ∀ pos tags, (body pos tags).Known) (fuel : Nat) (left : Option Nat) (pos : Int)
    (tags : Tags) : (repeatRounds body fuel left pos tags).Known := by
  induction fuel generalizing left pos tags with
  | zero =>
      rw [repeatRounds]
      exact .pure _
  | succ fuel ih =>
      rw [repeatRounds]
      split
      · exact .pure _
      · refine .bind (hbody pos tags) fun o => ?_
        obtain ⟨v, after⟩ := o
        cases v with
        | failure stop => exact .pure _
        | success value stop =>
            dsimp only
            split
            · exact .pure _
            · exact .bind (ih (left.map (· - 1)) stop after) fun _ => .pure _

theorem finishRounds_known (capacity : Nat) (bounds : Bounds) (pos : Int) (tags : Tags)
    (rounds : Rounds) : (finishRounds capacity bounds pos tags rounds).Known := by
  rw [finishRounds]
  refine .bind ?_ fun values => ?_
  · unfold fillRounds
    split
    · split
      · exact .quiet rfl
      · exact .pure _
    · exact .pure _
  · split
    · split
      · exact .bind (.emit rfl) fun _ => .pure _
      · exact .pure _
    · exact .pure _

/-- A known rule is evaluated without meeting anything unknown, if references are. -/
theorem eval_known (he : ∀ name pos skip, (e name pos skip).Known) {r : Rule} (hr : r.Known)
    (pos : Int) (tags : Tags) (skip : Bool) : (eval s e r pos tags skip).Known := by
  induction r generalizing pos tags with
  | token t =>
      rw [eval]
      exact .bind (evalToken_known he t pos skip) fun _ => .pure _
  | ref name =>
      rw [eval]
      exact .bind (he name pos skip) fun _ => .pure _
  | seq items ih =>
      obtain ⟨-, hitems⟩ := Rule.all_iff.mp hr
      rw [eval]
      refine .bind (.emit rfl) fun _ => ?_
      refine .bind (evalItems_known (fun r hr => ih r hr (hitems r hr)) pos tags) fun progress => ?_
      obtain ⟨values, stop, after⟩ := progress
      cases values <;> exact .pure _
  | tagged tag node ih =>
      obtain ⟨-, hnode⟩ := (Rule.all_single rfl).mp hr
      rw [eval]
      refine .bind (.emit rfl) fun _ => .bind (ih hnode pos []) fun o => ?_
      obtain ⟨v, inner⟩ := o
      cases v <;> exact .pure _
  | choice alts ih =>
      obtain ⟨-, halts⟩ := Rule.all_iff.mp hr
      rw [eval]
      refine .bind (.emit rfl) fun _ => ?_
      exact evalChoice_known (fun r hr => ih r hr (halts r hr)) 0 pos tags
  | repetition node bounds ih =>
      obtain ⟨-, hnode⟩ := (Rule.all_single rfl).mp hr
      rw [eval]
      refine .bind (.emit rfl) fun _ => ?_
      exact .bind (repeatRounds_known (ih hnode) _ bounds.max pos tags)
        fun _ => finishRounds_known s.capacity bounds pos tags _
  | unknown value => exact ((Rule.all_leaf rfl).mp hr).elim

theorem finish_known (name : String) (o : Outcome) : (s.finish name o).Known := by
  obtain ⟨v, inner⟩ := o
  cases v with
  | failure stop => exact .pure _
  | success value stop =>
      unfold Setting.finish
      dsimp only
      split
      · exact .pure _
      · rename_i action _
        refine .bind ?_ fun _ => .pure _
        cases action with
        | value v => exact .quiet rfl
        | function f =>
            refine .bind (.emit rfl) fun _ => ?_
            cases f (value.merge inner) <;> exact .quiet rfl

/-- Among known rules, references lead to known rules only. -/
theorem enter_known (hrules : ∀ e ∈ s.rules, e.2.Known) (depth : Nat) (name : String) (pos : Int)
    (skip : Bool) : (enter s depth name pos skip).Known := by
  induction depth generalizing name pos skip with
  | zero =>
      rw [enter]
      refine .bind (.emit rfl) fun _ => ?_
      split
      · exact .bind (.emit rfl) fun _ => .pure _
      · exact .quiet rfl
  | succ depth ih =>
      rw [enter]
      refine .bind (.emit rfl) fun _ => ?_
      split
      · exact .bind (.emit rfl) fun _ => .pure _
      · rename_i body hbody
        have hknown : body.Known := hrules (name, body) (Table.mem_of_get? hbody)
        exact .bind (eval_known ih hknown pos [] skip) fun _ => finish_known name _

end Evaluation

/--
**Coercion settles what a rule is, once and for all.** What it returns is known at every node,
and it returns exactly the known rules unchanged; so it is idempotent, and gives back what the
helpers for choices and repetitions return and the rules of every grammar text. A parser of a
grammar text that has a `$begin` holds exactly the rules of the text, and the usual white space
if they have no `$space`. And whatever rules a parser has been made of, none of its evaluations
meets anything that is no rule.
-/
theorem coercion_settles [PatternEngine] :
    (∀ (d : Declaration) (r : Rule), d.coerce = .ok r →
        r.Known ∧ r.declaration.coerce = .ok r)
      ∧ (∀ r : Rule, r.declaration.coerce = .ok r ↔ r.Known)
      ∧ (∀ (alts : List Declaration) (d : Declaration),
        Declaration.oneOf alts = .ok d → d.Settled)
      ∧ (∀ (node d : Declaration) (count min max : Option Int),
        node.times count min max = .ok d → d.Settled)
      ∧ (∀ (source : List Char) (rules : Rules), readGrammar source = .ok rules →
        (∀ e ∈ rules, e.2.Known ∧ e.2.declaration.coerce = .ok e.2)
          ∧ (rules.has beginName = true → ∀ actions : Actions, actions.firstNonFunction? = none →
            Parser.make rules.drafts actions = .ok ⟨rules.withUsualSpace, actions⟩))
      ∧ (∀ (drafts : Drafts) (actions : Actions) (p : Parser), Parser.make drafts actions = .ok p →
        ∀ (text : List Char) (name : String) (pos : Int),
          ((p.setting text).apply name pos).Known ∧ (p.parse text).Known) := by
  refine ⟨fun d r h => ?_, fun r => Rule.coerce_declaration_iff,
    fun _ _ => Declaration.oneOf_settled, fun _ _ _ _ _ => Declaration.times_settled,
    fun source rules h => ?_,
    fun drafts actions p h text name pos => ?_⟩
  · have hknown := Declaration.coerce_known h
    exact ⟨hknown, Rule.coerce_declaration hknown⟩
  · obtain ⟨hnames, hknown⟩ := readGrammar_known h
    exact ⟨fun e he => ⟨hknown e he, Rule.coerce_declaration (hknown e he)⟩,
      fun hbegin actions hactions => Parser.make_drafts hnames hknown hbegin hactions⟩
  · have happly := fun name pos => enter_known (s := p.setting text) (Parser.make_known h)
      ((p.setting text).depthBound pos) name pos true
    refine ⟨happly name pos, .bind (happly beginName 0) fun v => ?_⟩
    cases v <;> exact .pure _

/-- A choice whose alternatives are plain data. -/
def mixedDeclaration : Declaration :=
  .choice [.text "b", .list [.dict [(.text "t", .ref "b")]]]

def mixedRule : Rule := .choice [.ref "b", .seq [.tagged "t" (.ref "b")]]

/-- The data below the choice is replaced, and a parser of a literal never meets any. -/
theorem mixedDeclaration_settles :
    mixedDeclaration.coerce = .ok mixedRule ∧ mixedRule.Known
      ∧ mixedRule.declaration.coerce = .ok mixedRule
      ∧ (∃ d, Declaration.oneOf [mixedDeclaration] = .ok d ∧ d.Settled)
      ∧ (∃ d, mixedDeclaration.times (some 2) none none = .ok d ∧ d.Settled)
      ∧ readGrammar (literalGrammar '"' ['x']) = .ok (literalRules ['x'])
      ∧ Parser.make (literalRules ['x']).drafts []
        = .ok ⟨(literalRules ['x']).withUsualSpace, []⟩
      ∧ (Parser.parse ⟨(literalRules ['x']).withUsualSpace, []⟩ ['x']).Known := by
  obtain ⟨hcoerced, -, honeOf, htimes, hgrammar, hparser⟩ := coercion_settles
  have hmixed : mixedDeclaration.coerce = .ok mixedRule := rfl
  have hquoted : LiteralSpelling '"' ['x'] ['x'] := .plain (by decide) (by decide) .nil
  have hread : readGrammar (literalGrammar '"' ['x']) = .ok (literalRules ['x']) :=
    readGrammar_eq (List.cons_ne_nil _ _) (List.pairwise_singleton _ _)
      (grammarText_literal (.inr rfl) hquoted)
  have hmake := (hgrammar _ _ hread).2 rfl [] rfl
  obtain ⟨hknown, hagain⟩ := hcoerced _ _ hmixed
  exact ⟨hmixed, hknown, hagain, ⟨_, rfl, honeOf [mixedDeclaration] _ rfl⟩,
    ⟨_, rfl, htimes mixedDeclaration _ (some 2) none none rfl⟩, hread, hmake,
    (hparser _ _ _ hmake ['x'] beginName 0).2⟩

end TextGrammar
