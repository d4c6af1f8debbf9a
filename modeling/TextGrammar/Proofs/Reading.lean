import TextGrammar.Pattern.BuiltIn
import TextGrammar.Proofs.Replay
import TextGrammar.Proofs.Syntax

/-!
# Written rules are read back

On every text that writes a list of rules, the reader returns exactly these rules
(`readGrammar_eq`), whatever stands between the tokens.

Each function of the reader is given the tokens of its part of the syntax and those that
follow. Line breaks end nothing, so what follows decides where a part stops: an item stops
before a token that can neither be its suffix nor make a tag or the head of a rule of its name
(`FollowsItem`), items stop before a bar, a closing parenthesis, the head of a rule or the end
(`EndsItems`), and an expression stops at the same places but not before a bar.

The fuel is counted in tokens, since no function goes more than four levels down before it
takes one.
-/

namespace TextGrammar

/-! ## What follows -/

/-- The marks that make a suffix, a tag or the head of a rule with what stands before them. -/
def Mark.binding : List Mark := [.arrow, .colon, .question, .star, .plus, .openBrace]

/-- The next token does not belong to an item before it. -/
def FollowsItem (ls : List Lexeme) : Prop := ∀ m ∈ Mark.binding, ls.head? ≠ some (.mark m)

/-- No item comes next. -/
def EndsItems : List Lexeme → Prop
  | [] => True
  | .mark .bar :: _ | .mark .closing :: _ => True
  | .name _ :: .mark .arrow :: _ => True
  | _ => False

/-- Neither an item nor another alternative comes next. -/
def EndsExpression (ls : List Lexeme) : Prop := EndsItems ls ∧ ls.head? ≠ some (.mark .bar)

/-- The tokens with which an item can start. -/
def Lexeme.opensItem : Lexeme → Bool
  | .name _ | .literal _ | .pattern _ _ | .mark .opening => true
  | .mark _ | .number _ => false

theorem EndsItems.follows {ls : List Lexeme} (h : EndsItems ls) : FollowsItem ls := by
  intro m hm heq
  cases ls with
  | nil => cases heq
  | cons l ls =>
      obtain rfl : l = .mark m := Option.some.inj heq
      revert h
      simp only [Mark.binding, List.mem_cons, List.not_mem_nil, or_false] at hm
      rcases hm with rfl | rfl | rfl | rfl | rfl | rfl <;> exact id

theorem FollowsItem.of_opensItem {l : Lexeme} (h : l.opensItem = true) (ls : List Lexeme) :
    FollowsItem (l :: ls) := by
  intro m hm heq
  obtain rfl : l = .mark m := Option.some.inj heq
  revert hm h
  cases m <;> decide

section Fronts

variable [PatternEngine]

/-- A primary is a single name or starts with a token that is no name. -/
theorem Written.primary_cases {r : Rule} {ls : List Lexeme} (h : Written (.primary r) ls) :
    (∃ n, ls = [.name n])
      ∨ ∃ l rest, ls = l :: rest ∧ l.opensItem = true ∧ ∀ n, l ≠ .name n := by
  cases h with
  | name n => exact .inl ⟨n, rfl⟩
  | literal _ => exact .inr ⟨_, _, rfl, rfl, fun _ h => by cases h⟩
  | pattern _ => exact .inr ⟨_, _, rfl, rfl, fun _ h => by cases h⟩
  | group _ => exact .inr ⟨_, _, rfl, rfl, fun _ h => by cases h⟩

theorem Written.primary_front {r : Rule} {ls : List Lexeme} (h : Written (.primary r) ls) :
    ∃ l rest, ls = l :: rest ∧ l.opensItem = true := by
  rcases h.primary_cases with ⟨n, rfl⟩ | ⟨l, rest, rfl, hopens, -⟩
  · exact ⟨_, _, rfl, rfl⟩
  · exact ⟨l, rest, rfl, hopens⟩

theorem Written.item_front {r : Rule} {ls : List Lexeme} (h : Written (.item r) ls) :
    ∃ l rest, ls = l :: rest ∧ l.opensItem = true := by
  cases h with
  | plain h => exact h.primary_front
  | repeated h _ =>
      obtain ⟨l, rest, rfl, hopens⟩ := h.primary_front
      exact ⟨l, _, rfl, hopens⟩
  | tagged _ => exact ⟨_, _, rfl, rfl⟩

theorem Written.items_follow {rs : List Rule} {ls more : List Lexeme}
    (h : Written (.items rs) ls) (hmore : EndsItems more) : FollowsItem (ls ++ more) := by
  cases h with
  | noItems => exact hmore.follows
  | moreItems hitem _ =>
      obtain ⟨l, rest, rfl, hopens⟩ := hitem.item_front
      exact FollowsItem.of_opensItem hopens _

theorem Written.alternatives_end {rs : List Rule} {ls more : List Lexeme}
    (h : Written (.alternatives rs) ls) (hmore : EndsExpression more) :
    EndsItems (ls ++ more) := by
  cases h with
  | noAlternatives => exact hmore.1
  | moreAlternatives _ _ => trivial

end Fronts

theorem Suffix.front {low high : Option Nat} {suffix : List Lexeme}
    (h : Suffix low high suffix) :
    ∃ m rest, suffix = .mark m :: rest ∧ m ≠ .arrow ∧ m ≠ .colon := by
  cases h
  all_goals exact ⟨_, _, rfl, by decide, by decide⟩

/-! ## Looking ahead -/

section LookingAhead

variable {c : Cursor} {r : Rule} {ls more : List Lexeme}

theorem Arranged.atName_of_other {l : Lexeme} (h : Arranged (l :: ls) c.rest)
    (hopens : l.opensItem = true) (hname : ∀ n, l ≠ .name n) : c.skip.atName = false := by
  obtain ⟨d, rest, hskip, hstarts⟩ := h.front
  have hd : Cursor.startsName d = false := by
    cases l with
    | name n => exact absurd rfl (hname n)
    | number n => cases hopens
    | mark m =>
        obtain rfl : d = m.first := hstarts
        cases m <;> decide
    | literal text =>
        have hquote : IsQuote d := hstarts
        rcases hquote with rfl | rfl <;> decide
    | pattern source bits =>
        obtain rfl : d = '/' := hstarts
        decide
  simp [Cursor.atName, hskip, hd]

/-- A primary is not taken for a tag or for the head of a rule. -/
theorem Written.primary_not_before [PatternEngine] {m : Mark} (h : Written (.primary r) ls)
    (hmore : more.head? ≠ some (.mark m)) (hc : Arranged (ls ++ more) c.rest) :
    (c.skip.atName && c.skip.atNameBefore m.text) = false := by
  rcases h.primary_cases with ⟨n, rfl⟩ | ⟨l, rest, rfl, hopens, hname⟩
  · have hbefore := Arranged.atNameBefore_eq hc.skip m
    simp [hbefore, hmore]
  · have hat := Arranged.atName_of_other hc hopens hname
    simp [hat]

/-- Items do not end where an item starts. -/
theorem Written.item_not_endsItems [PatternEngine] (h : Written (.item r) ls)
    (hmore : FollowsItem more) (hc : Arranged (ls ++ more) c.rest) : c.skip.endsItems = false := by
  have hhead : (c.skip.atName && c.skip.atNameBefore Mark.arrow.text) = false := by
    cases h with
    | plain h => exact h.primary_not_before (hmore .arrow (by decide)) hc
    | repeated h hsuffix =>
        obtain ⟨m, rest, rfl, harrow, -⟩ := hsuffix.front
        rw [List.append_assoc] at hc
        exact h.primary_not_before (by simpa using harrow) hc
    | tagged _ =>
        have hbefore := Arranged.atNameBefore_eq hc.skip .arrow
        simp [hbefore]
  obtain ⟨l, rest, rfl, hopens⟩ := h.item_front
  obtain ⟨d, tail, hskip, hstarts⟩ := Arranged.front hc
  have hne : ∀ m, l ≠ .mark m → d ≠ m.first := fun m => hstarts.ne_first
  have hclosing : d ≠ ')' := hne .closing (by rintro rfl; cases hopens)
  have hbar : d ≠ '|' := hne .bar (by rintro rfl; cases hopens)
  have harrow : Mark.arrow.text = ['<', '-'] := rfl
  rw [harrow] at hhead
  simp [Cursor.endsItems, hskip, hclosing, hbar, hhead]

theorem EndsItems.endsItems (h : EndsItems more) (hc : Arranged more c.rest) :
    c.skip.endsItems = true := by
  unfold EndsItems at h
  split at h
  · simp [Cursor.endsItems, hc.skip_nil]
  · obtain ⟨d, rest, hskip, hstarts⟩ := hc.front
    obtain rfl : d = '|' := hstarts
    simp [Cursor.endsItems, hskip]
  · obtain ⟨d, rest, hskip, hstarts⟩ := hc.front
    obtain rfl : d = ')' := hstarts
    simp [Cursor.endsItems, hskip]
  · have hat := hc.atName_of_name
    have hbefore : c.skip.atNameBefore ['<', '-'] = true :=
      (Arranged.atNameBefore_eq hc.skip .arrow).trans (by simp)
    obtain ⟨d, rest, hskip, -⟩ := hc.front
    simp [Cursor.endsItems, hskip, hat, hbefore]
  · exact h.elim

end LookingAhead

/-! ## Suffixes -/

section Suffixes

variable {c : Cursor} {node : Rule} {more : List Lexeme}

/-- A mark of one character is the next one past blanks and comments. -/
theorem Arranged.advance_mark {m : Mark} (h : Arranged (.mark m :: more) c.rest)
    (hm : m ≠ .arrow) :
    ∃ rest, c.skip.rest = m.first :: rest ∧ Arranged more (c.skip.advance 1).rest := by
  obtain ⟨text, rest, hskip, hspelled, -, hrest⟩ := h.skip_cons
  cases hspelled
  have htext : m.text = [m.first] := by
    cases m
    case arrow => exact absurd rfl hm
    all_goals rfl
  rw [htext] at hskip
  exact ⟨rest, hskip, by simpa [Cursor.advance, hskip] using hrest⟩

theorem Arranged.number_bound {m : Mark} {bound : Option Nat}
    (h : Arranged (boundLexemes bound ++ .mark m :: more) c.rest) :
    ∃ after, c.number = .ok (bound, after) ∧ Arranged (.mark m :: more) after.rest := by
  cases bound with
  | none => exact ⟨c.skip, Arranged.number_of_mark h, Arranged.skip h⟩
  | some n => exact Arranged.number_eq h

/-- Bounds are read with the brace that closes them. -/
theorem Braced.reads {low high : Option Nat} {ls : List Lexeme} (h : Braced low high ls)
    (hc : Arranged (ls ++ .mark .closeBrace :: more) c.rest) :
    ∃ after, bracedBounds c = .ok ((low, high), after) ∧ Arranged more after.rest := by
  cases h with
  | exactly n =>
      obtain ⟨c₁, hnumber, hc₁⟩ := Arranged.number_eq hc
      have hcomma : c₁.accept [','] = (false, c₁.skip) := hc₁.accept_other (m := .comma) (by simp)
      obtain ⟨c₂, hclose, hc₂⟩ := hc₁.skip.expect_mark
      have hexpect : c₁.skip.expect ['}'] = .ok c₂ := hclose
      refine ⟨c₂, ?_, hc₂⟩
      simp only [bracedBounds, hnumber, hcomma, hexpect, bind, Except.bind, pure, Except.pure]
  | range low high =>
      rw [List.append_assoc, List.cons_append] at hc
      obtain ⟨c₁, hlow, hc₁⟩ := hc.number_bound
      obtain ⟨c₂, haccept, hc₂⟩ := hc₁.accept_mark
      have hcomma : c₁.accept [','] = (true, c₂) := haccept
      obtain ⟨c₃, hhigh, hc₃⟩ := hc₂.number_bound
      obtain ⟨c₄, hclose, hc₄⟩ := hc₃.expect_mark
      have hexpect : c₃.expect ['}'] = .ok c₄ := hclose
      refine ⟨c₄, ?_, hc₄⟩
      simp only [bracedBounds, hlow, hcomma, hhigh, hexpect, bind, Except.bind, pure, Except.pure]

theorem repeatedRule_eq (b : Bounds) :
    repeatedRule node b.min b.max c = .ok (.repetition node b, c) := by
  rw [repeatedRule, Bounds.ofNat?_eq]

/-- A suffix makes a repetition with its bounds. -/
theorem Suffix.reads {b : Bounds} {suffix : List Lexeme} (h : Suffix b.min b.max suffix)
    (hc : Arranged (suffix ++ more) c.rest) :
    ∃ after, withSuffix node c = .ok (.repetition node b, after) ∧ Arranged more after.rest := by
  have hrepeated := fun c => @repeatedRule_eq c node b
  generalize hlow : b.min = low at h hrepeated
  generalize hhigh : b.max = high at h hrepeated
  cases h
  case braced ls hbraced =>
    rw [List.cons_append, List.append_assoc] at hc
    obtain ⟨rest, hskip, hrest⟩ := hc.advance_mark (by decide)
    obtain ⟨after, hread, hafter⟩ := hbraced.reads hrest
    refine ⟨after, ?_, hafter⟩
    simp only [withSuffix, hskip, Mark.first, hread, bind, Except.bind, hrepeated]
  all_goals
    obtain ⟨rest, hskip, hrest⟩ := hc.advance_mark (by decide)
    refine ⟨c.skip.advance 1, ?_, hrest⟩
    simp only [withSuffix, hskip, Mark.first, hrepeated]

/-- Without a suffix the rule stays as it is. -/
theorem withSuffix_of_follows (hmore : FollowsItem more) (hc : Arranged more c.rest) :
    withSuffix node c = .ok (node, c.skip) := by
  have hne : ∀ d rest, c.skip.rest = d :: rest →
      ∀ m ∈ Mark.binding, d ≠ m.first := by
    intro d rest hrest m hm
    cases more with
    | nil =>
        rw [hc.skip_nil] at hrest
        cases hrest
    | cons l more =>
        obtain ⟨d', rest', hskip, hstarts⟩ := hc.front
        obtain ⟨rfl, -⟩ := List.cons.inj (hskip.symm.trans hrest)
        exact hstarts.ne_first fun heq => hmore m hm (by rw [heq]; rfl)
  unfold withSuffix
  dsimp only
  split
  · exact absurd rfl (hne _ _ ‹_› .question (by decide))
  · exact absurd rfl (hne _ _ ‹_› .star (by decide))
  · exact absurd rfl (hne _ _ ‹_› .plus (by decide))
  · exact absurd rfl (hne _ _ ‹_› .openBrace (by decide))
  · rfl

end Suffixes

/-! ## Reading the parts of the syntax -/

/--
Given the tokens and others that may follow them, the function returns the value and stops
before the others. `spare` is the fuel that it needs beside that for the tokens.
-/
def ReadsAs {α : Type} (read : Nat → Cursor → Except Fault (α × Cursor)) (spare : Nat)
    (follow : List Lexeme → Prop) (a : α) (ls : List Lexeme) : Prop :=
  ∀ (fuel : Nat) (c : Cursor) (more : List Lexeme), 4 * ls.length + spare ≤ fuel → follow more →
    Arranged (ls ++ more) c.rest → ∃ after, read fuel c = .ok (a, after) ∧ Arranged more after.rest

/-- The function for the part of the syntax reads it from the tokens. -/
def Phrase.ReadFrom [PatternEngine] : Phrase → List Lexeme → Prop
  | .primary r, ls => ReadsAs readPrimary 0 (fun _ => True) r ls
  | .item r, ls => ReadsAs readItem 1 FollowsItem r ls
  | .items rs, ls => ReadsAs readItems 2 EndsItems rs ls
  | .sequence r, ls => ∃ rs, sequenceOf rs = r ∧ ReadsAs readItems 2 EndsItems rs ls
  | .alternatives rs, ls => ReadsAs readAlternatives 1 EndsExpression rs ls
  | .expression r, ls => ReadsAs readExpression 3 EndsExpression r ls

section Parts

variable [PatternEngine] {r : Rule} {rs : List Rule} {ls more : List Lexeme}

/-- At a character that opens neither a group nor a pattern stands a literal or a name. -/
theorem readPrimary_of_ne {fuel : Nat} {c : Cursor} {d : Char} {rest : List Char}
    (hskip : c.skip.rest = d :: rest) (hparen : d ≠ '(') (hslash : d ≠ '/') :
    readPrimary (fuel + 1) c
      = if d = '\'' ∨ d = '"' then do
          let (token, c) ← quotedToken d c.skip
          return (.token token, c)
        else if Cursor.startsName d then do
          let (name, c) ← c.skip.name
          return (.ref name, c)
        else c.skip.fail (.unexpected d) := by
  rw [readPrimary]
  dsimp only
  split
  all_goals
    rename_i heq
    rw [hskip] at heq
  · cases heq
  · exact absurd (List.cons.inj heq).1 hparen
  · exact absurd (List.cons.inj heq).1 hslash
  · obtain ⟨rfl, rfl⟩ := List.cons.inj heq
    rfl

theorem readFrom_name (n : String) : (Phrase.primary (.ref n)).ReadFrom [.name n] := by
  intro fuel c more hfuel _ hc
  obtain ⟨fuel, rfl⟩ : ∃ k, fuel = k + 1 := Nat.exists_eq_add_one.mpr (by simp at hfuel; omega)
  obtain ⟨after, hname, hafter⟩ := Arranged.name_eq hc.skip
  obtain ⟨d, rest, hskip, hstarts⟩ := Arranged.front hc
  have hd : Cursor.startsName d = true := hstarts
  have hne : ∀ d' ∈ Lexeme.signs, d ≠ d' := fun d' => Lexeme.ne_sign_of_startsName hd
  have hquote : ¬(d = '\'' ∨ d = '"') := by simp [hne '\'' (by decide), hne '"' (by decide)]
  refine ⟨after, ?_, hafter⟩
  rw [readPrimary_of_ne hskip (hne '(' (by decide)) (hne '/' (by decide)), if_neg hquote,
    if_pos hd, hname]
  rfl

theorem readFrom_literal {text : List Char} {t : Token} (ht : literalToken text = .ok t) :
    (Phrase.primary (.token t)).ReadFrom [.literal text] := by
  intro fuel c more hfuel _ hc
  obtain ⟨fuel, rfl⟩ : ∃ k, fuel = k + 1 := Nat.exists_eq_add_one.mpr (by simp at hfuel; omega)
  obtain ⟨quote, rest, after, hskip, hquote, hread, hafter⟩ := Arranged.quotedToken_eq hc ht
  have hne : quote ≠ '(' ∧ quote ≠ '/' := by
    rcases hquote with rfl | rfl <;> decide
  have hquotes : quote = '\'' ∨ quote = '"' := hquote
  refine ⟨after, ?_, hafter⟩
  rw [readPrimary_of_ne hskip hne.1 hne.2, if_pos hquotes, hread]
  rfl

theorem readFrom_pattern {source : List Char} {bits : Nat} {t : Token}
    (ht : Token.make (String.ofList source) ⟨bits, .letters⟩ = .ok t) :
    (Phrase.primary (.token t)).ReadFrom [.pattern source bits] := by
  intro fuel c more hfuel _ hc
  obtain ⟨fuel, rfl⟩ : ∃ k, fuel = k + 1 := Nat.exists_eq_add_one.mpr (by simp at hfuel; omega)
  obtain ⟨after, hread, hafter⟩ := Arranged.patternToken_eq hc.skip ht
  obtain ⟨d, rest, hskip, hstarts⟩ := Arranged.front hc
  obtain rfl : d = '/' := hstarts
  refine ⟨after, ?_, hafter⟩
  rw [readPrimary]
  simp only [hskip, hread, bind, Except.bind]
  rfl

theorem readFrom_group (h : (Phrase.expression r).ReadFrom ls) :
    (Phrase.primary r).ReadFrom (.mark .opening :: (ls ++ [.mark .closing])) := by
  intro fuel c more hfuel _ hc
  simp only [List.length_cons, List.length_append, List.length_nil] at hfuel
  obtain ⟨fuel, rfl⟩ : ∃ k, fuel = k + 1 := Nat.exists_eq_add_one.mpr (by omega)
  rw [List.cons_append, List.append_assoc] at hc
  obtain ⟨rest, hskip, hinside⟩ := hc.advance_mark (by decide)
  have hends : EndsExpression ([.mark .closing] ++ more) := ⟨trivial, by simp⟩
  obtain ⟨c₁, hread, hc₁⟩ := h fuel _ _ (by omega) hends hinside
  obtain ⟨after, hclose, hafter⟩ := hc₁.expect_mark
  have hexpect : c₁.expect [')'] = .ok after := hclose
  refine ⟨after, ?_, hafter⟩
  rw [readPrimary]
  simp only [hskip, Mark.first, hread, hexpect, bind, Except.bind]
  rfl

theorem readFrom_plain (hwritten : Written (.primary r) ls) (h : (Phrase.primary r).ReadFrom ls) :
    (Phrase.item r).ReadFrom ls := by
  intro fuel c more hfuel hmore hc
  obtain ⟨fuel, rfl⟩ : ∃ k, fuel = k + 1 := Nat.exists_eq_add_one.mpr (by omega)
  have htag : (c.skip.atName && c.skip.atNameBefore [':']) = false :=
    hwritten.primary_not_before (m := .colon) (hmore .colon (by decide)) hc
  obtain ⟨c₁, hread, hc₁⟩ := h fuel _ _ (by omega) trivial hc.skip
  refine ⟨c₁.skip, ?_, hc₁.skip⟩
  rw [readItem]
  simp only [htag, Bool.false_eq_true, if_false, hread, bind, Except.bind]
  exact withSuffix_of_follows hmore hc₁

theorem readFrom_repeated {b : Bounds} {suffix : List Lexeme}
    (hwritten : Written (.primary r) ls) (hsuffix : Suffix b.min b.max suffix)
    (h : (Phrase.primary r).ReadFrom ls) :
    (Phrase.item (.repetition r b)).ReadFrom (ls ++ suffix) := by
  intro fuel c more hfuel hmore hc
  simp only [List.length_append] at hfuel
  obtain ⟨fuel, rfl⟩ : ∃ k, fuel = k + 1 := Nat.exists_eq_add_one.mpr (by omega)
  rw [List.append_assoc] at hc
  have hcolon : (suffix ++ more).head? ≠ some (.mark .colon) := by
    obtain ⟨m, rest, rfl, -, hm⟩ := hsuffix.front
    simpa using hm
  have htag : (c.skip.atName && c.skip.atNameBefore [':']) = false :=
    hwritten.primary_not_before (m := .colon) hcolon hc
  obtain ⟨c₁, hread, hc₁⟩ := h fuel _ _ (by omega) trivial hc.skip
  obtain ⟨after, hrepeated, hafter⟩ := hsuffix.reads hc₁
  refine ⟨after, ?_, hafter⟩
  rw [readItem]
  simp only [htag, Bool.false_eq_true, if_false, hread, bind, Except.bind]
  exact hrepeated

theorem readFrom_tagged {tag : String} (h : (Phrase.item r).ReadFrom ls) :
    (Phrase.item (.tagged tag r)).ReadFrom (.name tag :: .mark .colon :: ls) := by
  intro fuel c more hfuel hmore hc
  simp only [List.length_cons] at hfuel
  obtain ⟨fuel, rfl⟩ : ∃ k, fuel = k + 1 := Nat.exists_eq_add_one.mpr (by omega)
  have hat := Arranged.atName_of_name hc
  have hbefore : c.skip.atNameBefore [':'] = true :=
    (Arranged.atNameBefore_eq hc.skip .colon).trans (by simp)
  obtain ⟨c₁, hname, hc₁⟩ := Arranged.name_eq hc.skip
  obtain ⟨c₂, haccept, hc₂⟩ := Arranged.expect_mark hc₁
  have hcolon : c₁.expect [':'] = .ok c₂ := haccept
  obtain ⟨after, hread, hafter⟩ := h fuel _ _ (by omega) hmore hc₂
  refine ⟨after, ?_, hafter⟩
  rw [readItem]
  simp only [hat, hbefore, Bool.and_self, if_true, hname, hcolon, hread, bind, Except.bind]
  rfl

theorem readFrom_noItems : (Phrase.items []).ReadFrom [] := by
  intro fuel c more hfuel hmore hc
  obtain ⟨fuel, rfl⟩ : ∃ k, fuel = k + 1 := Nat.exists_eq_add_one.mpr (by omega)
  refine ⟨c.skip, ?_, hc.skip⟩
  have hends := EndsItems.endsItems hmore hc
  rw [readItems]
  simp only [hends, if_true]

theorem readFrom_moreItems {more : List Lexeme} (hwritten : Written (.item r) ls)
    (hmoreWritten : Written (.items rs) more) (h : (Phrase.item r).ReadFrom ls)
    (hmore : (Phrase.items rs).ReadFrom more) : (Phrase.items (r :: rs)).ReadFrom (ls ++ more) := by
  intro fuel c others hfuel hothers hc
  rw [List.append_assoc] at hc
  have hpositive : 0 < ls.length := by
    obtain ⟨l, rest, rfl, -⟩ := hwritten.item_front
    simp
  simp only [List.length_append] at hfuel
  obtain ⟨fuel, rfl⟩ : ∃ k, fuel = k + 1 := Nat.exists_eq_add_one.mpr (by omega)
  have hfollows : FollowsItem (more ++ others) := hmoreWritten.items_follow hothers
  have hends : c.skip.endsItems = false := hwritten.item_not_endsItems hfollows hc
  obtain ⟨c₁, hread, hc₁⟩ := h fuel _ _ (by omega) hfollows hc.skip
  obtain ⟨after, hrest, hafter⟩ := hmore fuel _ _ (by omega) hothers hc₁
  refine ⟨after, ?_, hafter⟩
  rw [readItems]
  simp only [hends, Bool.false_eq_true, if_false, hread, hrest, bind, Except.bind]
  rfl

theorem readFrom_noAlternatives : (Phrase.alternatives []).ReadFrom [] := by
  intro fuel c more hfuel hmore hc
  obtain ⟨fuel, rfl⟩ : ∃ k, fuel = k + 1 := Nat.exists_eq_add_one.mpr (by omega)
  have hbar : c.accept ['|'] = (false, c.skip) := Arranged.accept_other (m := .bar) hc hmore.2
  refine ⟨c.skip, ?_, hc.skip⟩
  rw [readAlternatives, hbar]

theorem readFrom_moreAlternatives {more : List Lexeme} (hmoreWritten : Written (.alternatives rs) more)
    (h : (Phrase.sequence r).ReadFrom ls) (hmore : (Phrase.alternatives rs).ReadFrom more) :
    (Phrase.alternatives (r :: rs)).ReadFrom (.mark .bar :: (ls ++ more)) := by
  obtain ⟨items, rfl, hitems⟩ := h
  intro fuel c others hfuel hothers hc
  simp only [List.length_cons, List.length_append] at hfuel
  obtain ⟨fuel, rfl⟩ : ∃ k, fuel = k + 1 := Nat.exists_eq_add_one.mpr (by omega)
  rw [List.cons_append, List.append_assoc] at hc
  obtain ⟨c₁, haccept, hc₁⟩ := hc.accept_mark
  have hbar : c.accept ['|'] = (true, c₁) := haccept
  obtain ⟨c₂, hread, hc₂⟩ := hitems fuel _ _ (by omega) (hmoreWritten.alternatives_end hothers) hc₁
  obtain ⟨after, hrest, hafter⟩ := hmore fuel _ _ (by omega) hothers hc₂
  refine ⟨after, ?_, hafter⟩
  rw [readAlternatives, hbar]
  simp only [hread, hrest, bind, Except.bind]
  rfl

/-- An expression is read as its first sequence and the alternatives after it. -/
theorem readFrom_expression {more : List Lexeme} (hmoreWritten : Written (.alternatives rs) more)
    (h : (Phrase.sequence r).ReadFrom ls) (hmore : (Phrase.alternatives rs).ReadFrom more) :
    (Phrase.expression (choiceOf (r :: rs))).ReadFrom (ls ++ more) := by
  obtain ⟨items, rfl, hitems⟩ := h
  intro fuel c others hfuel hothers hc
  simp only [List.length_append] at hfuel
  obtain ⟨fuel, rfl⟩ : ∃ k, fuel = k + 1 := Nat.exists_eq_add_one.mpr (by omega)
  rw [List.append_assoc] at hc
  obtain ⟨c₁, hread, hc₁⟩ := hitems fuel _ _ (by omega) (hmoreWritten.alternatives_end hothers) hc
  obtain ⟨after, hrest, hafter⟩ := hmore fuel _ _ (by omega) hothers hc₁
  refine ⟨after, ?_, hafter⟩
  rw [readExpression]
  simp only [hread, hrest, bind, Except.bind]
  rfl

end Parts

theorem sequenceOf_of_length_ne {rs : List Rule} (h : rs.length ≠ 1) : sequenceOf rs = .seq rs := by
  match rs, h with
  | [], _ => rfl
  | [_], h => exact absurd rfl h
  | _ :: _ :: _, _ => rfl

theorem choiceOf_of_ne_nil {r : Rule} {rs : List Rule} (h : rs ≠ []) :
    choiceOf (r :: rs) = .choice (r :: rs) := by
  match rs, h with
  | [], h => exact absurd rfl h
  | _ :: _, _ => rfl

/-- Every part of the syntax is read from the tokens that write it. -/
theorem Written.readFrom [PatternEngine] {part : Phrase} {ls : List Lexeme} (h : Written part ls) :
    part.ReadFrom ls := by
  induction h with
  | name n => exact readFrom_name n
  | literal ht => exact readFrom_literal ht
  | pattern ht => exact readFrom_pattern ht
  | group _ ih => exact readFrom_group ih
  | plain hwritten ih => exact readFrom_plain hwritten ih
  | repeated hwritten hsuffix ih => exact readFrom_repeated hwritten hsuffix ih
  | tagged _ ih => exact readFrom_tagged ih
  | noItems => exact readFrom_noItems
  | moreItems hwritten hmore ih ihmore => exact readFrom_moreItems hwritten hmore ih ihmore
  | @single r ls hwritten ih =>
      -- a single item is read as a list of one item
      have hone := readFrom_moreItems hwritten .noItems ih readFrom_noItems
      rw [List.append_nil] at hone
      exact ⟨[r], rfl, hone⟩
  | @sequence rs ls hlength _ ih => exact ⟨rs, sequenceOf_of_length_ne hlength, ih⟩
  | noAlternatives => exact readFrom_noAlternatives
  | moreAlternatives _ hmore ih ihmore => exact readFrom_moreAlternatives hmore ih ihmore
  | @only r ls _ ih =>
      have hone := readFrom_expression .noAlternatives ih readFrom_noAlternatives
      rwa [List.append_nil] at hone
  | choice hne _ hmore ih ihmore =>
      rw [← choiceOf_of_ne_nil hne]
      exact readFrom_expression hmore ih ihmore

/-! ## Reading rules -/

theorem Table.has_iff {κ α : Type} [BEq κ] [LawfulBEq κ] {t : Table κ α} {key : κ} :
    t.has key = true ↔ key ∈ t.keys := by
  induction t with
  | nil => simp [Table.has]
  | cons e rest ih =>
      obtain ⟨k, v⟩ := e
      by_cases hk : k = key
      · simp [Table.has, Table.get?, hk]
      · have hne : key ≠ k := fun h => hk h.symm
        simpa [Table.has, Table.get?, hk, hne] using ih

theorem WrittenRules.ends [PatternEngine] {rules : Rules} {ls : List Lexeme}
    (h : WrittenRules rules ls) :
    EndsExpression ls := by
  cases h with
  | nil => exact ⟨trivial, by simp⟩
  | cons _ _ => exact ⟨trivial, by simp⟩

/-- There are at least as many tokens as rules. -/
theorem WrittenRules.length_le [PatternEngine] {rules : Rules} {ls : List Lexeme}
    (h : WrittenRules rules ls) :
    rules.length ≤ ls.length := by
  induction h with
  | nil => exact Nat.le_refl 0
  | cons _ _ ih =>
      simp only [List.length_cons, List.length_append]
      omega

/--
One rule is read up to the tokens of the next. It is added to those before it unless there is one
of its name among them.
-/
theorem readRules_cons [PatternEngine] {name : String} {r : Rule} {ls more : List Lexeme}
    {depth : Nat} {c : Cursor}
    (hwritten : Written (.expression r) ls) (hmore : EndsExpression more)
    (hdepth : 4 * ls.length + 3 ≤ depth)
    (hc : Arranged (.name name :: .mark .arrow :: (ls ++ more)) c.rest) :
    ∃ after, Arranged more after.rest ∧ ∀ fuel before,
      readRules depth (fuel + 1) before c =
        if before.has name then after.fail (.duplicateRule name)
        else readRules depth fuel (before ++ [(name, r)]) after := by
  obtain ⟨c₁, hname, hc₁⟩ := Arranged.name_eq hc.skip
  obtain ⟨c₂, haccept, hc₂⟩ := hc₁.expect_mark
  have harrow : c₁.expect ['<', '-'] = .ok c₂ := haccept
  obtain ⟨after, hread, hafter⟩ := hwritten.readFrom depth c₂ more hdepth hmore hc₂
  obtain ⟨d, rest, hskip, -⟩ := hc.front
  have hnonempty : c.skip.rest.isEmpty = false := by simp [hskip]
  refine ⟨after, hafter, fun fuel before => ?_⟩
  rw [readRules]
  simp only [hnonempty, Bool.false_eq_true, if_false, hname, harrow, hread, bind, Except.bind]

/-- Rules are added in order to those that have been read before. -/
theorem readRules_eq [PatternEngine] {rules : Rules} {ls : List Lexeme} (h : WrittenRules rules ls)
    (depth fuel : Nat) (before : Rules) (c : Cursor) (hdepth : 4 * ls.length + 3 ≤ depth)
    (hfuel : rules.length < fuel) (hne : before ++ rules ≠ [])
    (hnames : (before ++ rules).Distinct) (hc : Arranged ls c.rest) :
    readRules depth fuel before c = .ok (before ++ rules) := by
  induction h generalizing fuel before c with
  | nil =>
      obtain ⟨fuel, rfl⟩ : ∃ k, fuel = k + 1 := Nat.exists_eq_add_one.mpr (by omega)
      rw [List.append_nil] at hne ⊢
      have hsome : before.isEmpty = false := by simpa using hne
      rw [readRules]
      simp [hc.skip_nil, hsome]
  | @cons name r rules ls more hwritten hmore ih =>
      simp only [List.length_cons, List.length_append] at hdepth hfuel
      obtain ⟨fuel, rfl⟩ : ∃ k, fuel = k + 1 := Nat.exists_eq_add_one.mpr (by omega)
      have hbody : 4 * ls.length + 3 ≤ depth := by omega
      obtain ⟨after, hafter, hread⟩ := readRules_cons hwritten hmore.ends hbody hc
      have hnew : ¬before.has name = true := by
        rw [Table.has_iff]
        exact hnames.not_mem_keys
      have hsplit : before ++ (name, r) :: rules = (before ++ [(name, r)]) ++ rules := by simp
      rw [hread, if_neg hnew, hsplit]
      exact ih fuel (before ++ [(name, r)]) after (by omega) (by omega) (by simp)
        (hsplit ▸ hnames) hafter

/-- The reader may go deep enough for every text. -/
theorem Arranged.depth_le {ls : List Lexeme} {text : List Char} (h : Arranged ls text) :
    4 * ls.length + 3 ≤ readingDepth text := by
  have hlength := h.length_le
  rw [readingDepth]
  omega

/-- **A text that writes rules is read as these rules.** -/
theorem readGrammar_eq [PatternEngine] {rules : Rules} {text : List Char} (hne : rules ≠ [])
    (hnames : rules.Distinct) (h : GrammarText rules text) : readGrammar text = .ok rules := by
  obtain ⟨ls, hwritten, htext⟩ := h
  have hlength := htext.length_le
  have hrules := hwritten.length_le
  exact readRules_eq hwritten _ _ [] (.start text) htext.depth_le (by omega) hne hnames htext

theorem SameRules.ne_nil {rules rules' : Rules} (h : SameRules rules rules') (hne : rules ≠ []) :
    rules' ≠ [] := by
  cases h with
  | nil => exact absurd rfl hne
  | cons _ _ => exact List.cons_ne_nil _ _

theorem SameRules.distinct {rules rules' : Rules} (h : SameRules rules rules')
    (hnames : rules.Distinct) : rules'.Distinct := by
  have hkeys : rules'.keys = rules.keys := by
    induction h with
    | nil => rfl
    | cons he _ ih =>
        rw [Table.keys_cons, Table.keys_cons, he.1, ih (List.nodup_cons.mp hnames).2]
  rw [Table.Distinct, hkeys]
  exact hnames

/--
**Grammar texts are complete for rules.** Rules with different names that can be written have a
text, and every text that writes them, with any layout, is read as exactly these rules.
-/
theorem writable_rules_read_back [PatternEngine] {rules : Rules} (hne : rules ≠ [])
    (hnames : rules.Distinct) (hrules : ∀ e ∈ rules, IsName e.1.toList ∧ e.2.Writable) :
    (∃ written text, SameRules rules written ∧ GrammarText written text)
      ∧ ∀ written text, SameRules rules written → GrammarText written text →
        readGrammar text = .ok written :=
  ⟨exists_grammarText hrules, fun _ _ hsame htext =>
    readGrammar_eq (hsame.ne_nil hne) (hsame.distinct hnames) htext⟩

/-- A tagged reference that may be missing, or a sign. -/
def signRules : Rules :=
  [("a", .choice [.tagged "t" (.repetition (.ref "b") ⟨some 0, some 1, by simp⟩),
    .token (.ofText ['+'])])]

def signText : List Char :=
  ['a', '<', '-', 't', ':', 'b', '?', ' ', '#', '\n', '|', '\'', '+', '\'']

/-- A comment stands before the second alternative. -/
theorem signRules_read_back :
    signRules ≠ [] ∧ signRules.Distinct
      ∧ (∀ e ∈ signRules, IsName e.1.toList ∧ e.2.Writable)
      ∧ SameRules signRules signRules ∧ GrammarText signRules signText
      ∧ readGrammar signText = .ok signRules := by
  have hname : ∀ n ∈ ["a", "b", "t"], IsName n.toList := by
    simp [IsName, Cursor.startsName]
    decide
  have hone : 1 < 10 ^ digitLimit := Nat.one_lt_pow (by decide) (by decide)
  have hne : signRules ≠ [] := List.cons_ne_nil _ _
  have hnames : signRules.Distinct := by simp [Table.Distinct, signRules]
  have hrules : ∀ e ∈ signRules, IsName e.1.toList ∧ e.2.Writable := by
    intro e he
    obtain rfl := List.mem_singleton.mp he
    refine ⟨hname "a" (by simp), .choice (Nat.le_refl 2) fun r hr => ?_⟩
    simp only [List.mem_cons, List.not_mem_nil, or_false] at hr
    rcases hr with rfl | rfl
    · exact .tagged (hname "t" (by simp)) (.repetition (.ref (hname "b" (by simp)))
        (by simp [WritableBound]) (fun n hn => Option.some.inj hn ▸ hone))
    · exact .literal rfl rfl
  have hsame : SameRules signRules signRules :=
    .cons ⟨rfl, by simp [Rule.same, Rule.sameAll, Token.same]⟩ .nil
  have hitem := @Written.repeated _ (.ref "b") ⟨some 0, some 1, by simp⟩ _ _ (.name "b") .optional
  have hwritten : WrittenRules signRules [.name "a", .mark .arrow, .name "t", .mark .colon,
      .name "b", .mark .question, .mark .bar, .literal ['+']] :=
    .cons (.choice (List.cons_ne_nil _ _) (.single (.tagged hitem))
      (.moreAlternatives (.single (.plain (.literal (literalToken_eq ['+'])))) .noAlternatives)) .nil
  have hgap : Layout [' ', '#', '\n'] := .blank (by decide) (@Layout.comment [] [] (by simp) .nil)
  have hliteral : LiteralSpelling '\'' ['+'] ['+'] := .plain (by decide) (by decide) .nil
  have harranged : Arranged [.name "a", .mark .arrow, .name "t", .mark .colon, .name "b",
      .mark .question, .mark .bar, .literal ['+']] signText :=
    .cons .nil (@Lexeme.Spelled.name ['a'] (hname "a" (by simp))) (Lexeme.apart_cons (by decide))
      (.cons .nil (.mark .arrow) (Lexeme.apart_cons rfl)
        (.cons .nil (@Lexeme.Spelled.name ['t'] (hname "t" (by simp)))
          (Lexeme.apart_cons (by decide))
          (.cons .nil (.mark .colon) (Lexeme.apart_cons rfl)
            (.cons .nil (@Lexeme.Spelled.name ['b'] (hname "b" (by simp)))
              (Lexeme.apart_cons (by decide))
              (.cons .nil (.mark .question) (Lexeme.apart_cons rfl)
                (.cons hgap (.mark .bar) (Lexeme.apart_cons rfl)
                  (.cons .nil (.literal (.inl rfl) hliteral) (Lexeme.apart_nil _)
                    (.nil (.closed .nil)))))))))
  have htext : GrammarText signRules signText := ⟨_, hwritten, harranged⟩
  exact ⟨hne, hnames, hrules, hsame, htext,
    (writable_rules_read_back hne hnames hrules).2 signRules signText hsame htext⟩

end TextGrammar
