import TextGrammar.Proofs.Coercion
import TextGrammar.Proofs.Contents
import TextGrammar.Proofs.Equivalence
import TextGrammar.Proofs.Shift

/-!
# White space at the front of a text

White space at the front of a text makes no difference if it is only there to be skipped: if it
is the usual one, rules do not refer to it, and every token takes something
(`parse_leading_space`).

Two evaluations, one with white space in front and one without, start in step, both at position
zero. Once a token has matched, their positions differ by the length of the white space, and do
so for good. Until then both stay at zero, even if the white space is skipped and given back
again and again; and since a token takes something, zero is never a position after one. So two
positions correspond if both are zero, or if they differ by that length and the second one is
not zero (`Alignment.behind`).
-/

namespace TextGrammar

variable {s : Setting} {w : List Char}

/-! ## What is skipped -/

/-- The white space that comes next. -/
def Setting.nextSpace (s : Setting) (pos : Int) : List Char :=
  spaceAhead (s.remaining pos)

/-- The setting in which some characters come before the text. -/
def Setting.behind (s : Setting) (w : List Char) : Setting := { s with text := w ++ s.text }

theorem Setting.after_behind (s : Setting) (w : List Char) :
    (s.behind w).after w.length = s := by
  simp [Setting.behind, Setting.after]

/-- Positions in a text behind so many characters, and in the text alone. -/
def Alignment.behind (n : Nat) : Alignment where
  At pos pos' := (pos = 0 ∧ pos' = 0) ∨ (pos = n + pos' ∧ 0 < pos')
  stays := by omega

/-- From corresponding positions, white space is skipped up to the same place of the text. -/
theorem moved_nextSpace (hw : ∀ c ∈ w, c ∈ usualSpaces) {pos pos' : Int}
    (h : (Alignment.behind w.length).At pos pos') :
    Moved w.length (pos + ((s.behind w).nextSpace pos).length)
      (pos' + (s.nextSpace pos').length) := by
  rcases h with ⟨rfl, rfl⟩ | ⟨hpos, hpositive⟩
  · -- what stands in front of the text is white space, so it is skipped as well
    have hfront : (s.behind w).nextSpace 0 = w ++ s.nextSpace 0 := by
      have hspace : ∀ c ∈ w, decide (c ∈ usualSpaces) = true := by simpa using hw
      simp [Setting.nextSpace, spaceAhead, Setting.remaining, Setting.behind,
        List.takeWhile_append_of_pos hspace]
    rw [hfront, List.length_append]
    constructor
    · omega
    · omega
  · -- from here on the two texts are the same
    have hmoved : Moved w.length pos pos' := ⟨hpos, by omega⟩
    have hsame : (s.behind w).nextSpace pos = s.nextSpace pos' := by
      rw [Setting.nextSpace, Setting.remaining_after hmoved, Setting.after_behind]
      rfl
    rw [hsame]
    constructor
    · omega
    · omega

/-! ## White space that stands before tokens -/

/-- The token goes further in the text whenever it matches. -/
def Token.GoesFurther (t : Token) : Prop :=
  ∀ text found, t.find? text = some found → 0 < found.length

section Spaces

variable [PatternEngine]

/--
White space is the usual one, has no action, and only stands before tokens: no rule refers to it,
and no token takes nothing.
-/
structure Rules.SpacesTokens (rules : Rules) (actions : String → Option Action) : Prop where
  usual : rules.get? spaceName = some (.token .usualSpace)
  inert : actions spaceName = none
  unreferenced : ∀ name body, name ≠ spaceName → rules.get? name = some body →
    .ref spaceName ∉ body.nodes
  takes : ∀ name body, name ≠ spaceName → rules.get? name = some body →
    body.AllTokens Token.GoesFurther

/-- The white space that is added if rules say nothing about it is the usual one. -/
theorem Rules.spacesTokens_withUsualSpace {rules : Rules} {actions : String → Option Action}
    (hspace : rules.has spaceName = false) (haction : actions spaceName = none)
    (hrefs : ∀ e ∈ rules, .ref spaceName ∉ e.2.nodes)
    (htakes : rules.AllTokens Token.GoesFurther) :
    rules.withUsualSpace.SpacesTokens actions := by
  have hadded : rules.withUsualSpace = rules ++ [(spaceName, .token .usualSpace)] := by
    rw [Rules.withUsualSpace, hspace]
    rfl
  have hold : ∀ name body, name ≠ spaceName → rules.withUsualSpace.get? name = some body →
      (name, body) ∈ rules := by
    intro name body hname hbody
    have hmem := Table.mem_of_get? hbody
    rw [hadded, List.mem_append, List.mem_singleton] at hmem
    exact hmem.resolve_right fun heq => hname (congrArg Prod.fst heq)
  exact {
    usual := hadded ▸ Table.get?_concat_self hspace _
    inert := haction
    unreferenced := fun name body hname hbody => hrefs _ (hold name body hname hbody)
    takes := fun name body hname hbody => htakes _ (hold name body hname hbody) }

/-- To look up the usual white space is to take what comes next of it. -/
theorem enter_usualSpace (h : s.rules.SpacesTokens s.actions) (depth : Nat) (pos : Int) :
    enter s (depth + 1) spaceName pos false = (do
      Run.emit (.reference spaceName)
      Run.emit (.token defaultSpaceSource)
      Run.emit (.taken (String.ofList (s.nextSpace pos)))
      return .success ((Value.text (String.ofList (s.nextSpace pos))).merge [])
        (pos + (s.nextSpace pos).length)) := by
  have hfound : Token.usualSpace.find? (s.remaining pos)
      = some ⟨s.nextSpace pos, (s.nextSpace pos).length⟩ :=
    PatternEngine.find?_usualSpace _
  have htoken : evalToken s (enter s depth) .usualSpace pos false = (do
      Run.emit (.token defaultSpaceSource)
      Run.emit (.taken (String.ofList (s.nextSpace pos)))
      return .success (.text (String.ofList (s.nextSpace pos)))
        (pos + (s.nextSpace pos).length)) := by
    unfold evalToken tokenStart
    rw [if_neg Bool.false_ne_true, pure_bind, hfound]
    rfl
  have hfinish : ∀ value stop,
      s.finish spaceName ⟨.success value stop, []⟩ = return .success (value.merge []) stop := by
    intro value stop
    rw [Setting.finish, h.inert]
  rw [enter, h.usual]
  simp only [eval, htoken, bind_assoc, pure_bind, hfinish]

/-! ## Evaluations -/

/-- Tokens start at the same place of the text. -/
theorem tokenStart_behind (h : s.rules.SpacesTokens s.actions) (hw : ∀ c ∈ w, c ∈ usualSpaces)
    (depth : Nat) {pos pos' : Int} (hpos : (Alignment.behind w.length).At pos pos') :
    Run.Alike Event.call? (Moved w.length) (tokenStart (enter (s.behind w) depth) pos true)
      (tokenStart (enter s depth) pos' true) := by
  have hbehind : (s.behind w).rules.SpacesTokens (s.behind w).actions := h
  unfold tokenStart
  rw [if_pos rfl, if_pos rfl]
  cases depth with
  | zero =>
      -- also `$space` is a reference, so both are given up
      rw [enter, enter, h.usual, hbehind.usual]
      exact ⟨rfl, .runaway⟩
  | succ depth =>
      rw [enter_usualSpace h, enter_usualSpace hbehind]
      exact ⟨rfl, .done (moved_nextSpace hw hpos)⟩

/-- A token takes the same, and neither evaluation is at the front afterwards. -/
theorem evalToken_behind (h : s.rules.SpacesTokens s.actions) (hw : ∀ c ∈ w, c ∈ usualSpaces)
    (depth : Nat) {t : Token} (htakes : t.GoesFurther) {pos pos' : Int}
    (hpos : (Alignment.behind w.length).At pos pos') :
    Run.Alike Event.call? (Verdict.Aligned (.behind w.length))
      (evalToken (s.behind w) (enter (s.behind w) depth) t pos true)
      (evalToken s (enter s depth) t pos' true) := by
  refine evalToken_agree (C := .alike Event.call?) (x := (s.behind w).evaluator depth)
    (y := s.evaluator depth) hpos (tokenStart_behind h hw depth hpos) ?_ ?_
  · intro start start' hstart
    rw [Setting.remaining_after hstart, Setting.after_behind]
  · intro start start' found hstart hfound
    have hsome : 0 < found.length := htakes _ _ hfound
    -- where it starts may be the front of the text, where it stops is not
    obtain ⟨hstart, hfront⟩ := hstart
    right
    constructor
    · omega
    · omega

/-- References to all rules but `$space` come to the same at every depth. -/
theorem entersAgree_behind (h : s.rules.SpacesTokens s.actions) (hw : ∀ c ∈ w, c ∈ usualSpaces)
    (depth : Nat) :
    EntersAgree (.alike Event.call?) (.behind w.length) ((s.behind w).evaluator depth)
      (s.evaluator depth) fun name skip => name ≠ spaceName ∧ skip = true := by
  refine entersAgree ?_ ?_ ?_ ?_ depth
  · rfl
  · exact fun name skip _ => ⟨rfl, rfl⟩
  · rintro name _ body other ⟨hname, rfl⟩ hbody hother
    refine ⟨?_, rfl⟩
    rintro rfl
    exact h.unreferenced name body hname hbody hother
  · rintro name _ body t depth ⟨hname, rfl⟩ hbody ht - pos pos' hpos
    exact evalToken_behind h hw depth (h.takes name body hname hbody t ht) hpos

/-! ## Parsing -/

/-- The same outcome, but that what matches ends so many characters later, unless it is empty. -/
structure ParseOutcome.Behind (n : Nat) (o o' : ParseOutcome) : Prop where
  ok : o.ok = o'.ok
  value : o.value = o'.value
  stop : o.ok = true → o.stop = if o'.stop = 0 then 0 else o'.stop + n

/--
**White space at the front of a text is irrelevant.** If white space is only skipped before tokens,
and these never take nothing, then a text may be put behind white space: parsing ends if it did
before; it calls the same actions with the same arguments, in the same order; and it raises the
same fault, or matches or not as before, with the same value. What matches ends later by as many
characters as were put in front, but for a match that takes nothing, which still ends at the front.
-/
theorem parse_leading_space (p : Parser) (h : p.rules.SpacesTokens p.actions.find?)
    (hw : ∀ c ∈ w, c ∈ usualSpaces) (text : List Char) :
    ((p.setting (w ++ text)).NeverEnds (Call.first beginName 0)
        ↔ (p.setting text).NeverEnds (Call.first beginName 0))
      ∧ (¬(p.setting text).NeverEnds (Call.first beginName 0) →
          (p.parse (w ++ text)).ending.Related (ParseOutcome.Behind w.length)
              (p.parse text).ending
            ∧ actionCalls (p.parse (w ++ text)).events = actionCalls (p.parse text).events) := by
  have hbegin : beginName ≠ spaceName := by decide
  obtain ⟨hnever, halike⟩ := apply_alike_of_enter fun depth =>
    @entersAgree_behind (p.setting text) w _ h hw depth beginName true 0 0 ⟨hbegin, rfl⟩
      (.inl ⟨rfl, rfl⟩)
  refine ⟨hnever, fun hends => ?_⟩
  have hsame : (p.parse (w ++ text)).Alike Event.call? (ParseOutcome.Behind w.length)
      (p.parse text) := by
    refine Run.Alike.bind (halike fun hnot => hends (hnever.mp hnot)) fun v v' hv => ?_
    cases hv with
    | failure _ => exact .pure ⟨rfl, rfl, nofun⟩
    | @success value stop stop' hstop =>
        refine .pure ⟨rfl, rfl, fun _ => ?_⟩
        show stop.toNat = if stop'.toNat = 0 then 0 else stop'.toNat + w.length
        rcases hstop with ⟨rfl, rfl⟩ | ⟨hstop, hpositive⟩
        · rfl
        · rw [if_neg (by omega)]
          omega
  exact ⟨hsame.ending, hsame.events⟩

end Spaces

/-- Rules that do not say what to skip, with an action. -/
def spacedParser : Parser :=
  ⟨Rules.withUsualSpace (spacedRules.erase spaceName), [("x", .function .ok)]⟩

/-- Of the rules with a letter, some do not match at once, and some rounds take nothing. -/
theorem parse_spacedParser_leading_space :
    spacedParser.rules.SpacesTokens spacedParser.actions.find?
      ∧ (∀ c ∈ ['\n', ' '], c ∈ usualSpaces)
      ∧ ¬(spacedParser.setting ['x', ' ', 'x']).NeverEnds (Call.first beginName 0)
      ∧ (spacedParser.parse (['\n', ' '] ++ ['x', ' ', 'x'])).ending.Related
          (ParseOutcome.Behind 2) (spacedParser.parse ['x', ' ', 'x']).ending := by
  have hspaces : (Rules.withUsualSpace (spacedRules.erase spaceName)).SpacesTokens
      spacedParser.actions.find? := by
    have hrefs : ∀ e ∈ spacedRules.erase spaceName, .ref spaceName ∉ e.2.nodes := by
      simp [spacedRules, Table.erase, Rule.nodes, Rule.nodesAll, spaceName]
    have htokens : ∀ e ∈ spacedRules.erase spaceName, ∀ t, .token t ∈ e.2.nodes →
        t = letterToken := by
      simp [spacedRules, Table.erase, Rule.nodes, Rule.nodesAll, spaceName]
    refine Rules.spacesTokens_withUsualSpace rfl rfl hrefs fun e he t ht text found hfound => ?_
    obtain rfl := htokens e he t ht
    exact Nat.pos_of_ne_zero fun hzero => not_nullable_letterToken (.token hfound hzero)
  have hw : ∀ c ∈ ['\n', ' '], c ∈ usualSpaces := by simp [usualSpaces]
  have hends : ¬(spacedParser.setting ['x', ' ', 'x']).NeverEnds (Call.first beginName 0) := by
    rw [← apply_eq_runaway_iff]
    intro hrunaway
    cases hrunaway
  have hparse := parse_leading_space spacedParser hspaces hw ['x', ' ', 'x']
  exact ⟨hspaces, hw, hends, (hparse.2 hends).1⟩

end TextGrammar
