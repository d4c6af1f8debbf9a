import TextGrammar.Proofs.Derivation
import TextGrammar.Proofs.Progress

/-!
# Only written rules are read

Whatever the reader accepts is a text that writes the rules it returns. A cursor passes tokens
(`Cursor.Passes`) if they can be put before any that are arranged from the later cursor on. This
is closed under going on from there, so each function of the reader is followed from the tokens
of its parts to its own, and the only choices are those that the functions make.

Together with the other direction this says which texts are grammar texts, and of which rules:
what is read is the one list of rules that the text writes (`readGrammar_eq_ok_iff`).
-/

namespace TextGrammar

/-! ## Passing tokens -/

/-- Blanks and comments may be put before the tokens. -/
theorem Layout.append {gap more : List Char} (h : Layout gap) (hmore : Layout more) :
    Layout (gap ++ more) := by
  induction h with
  | nil => exact hmore
  | blank hc _ ih => exact .blank hc ih
  | @comment text gap htext _ ih =>
      have hall := Layout.comment htext ih
      simpa using hall

theorem Layout.arranged {gap cs : List Char} {ls : List Lexeme} (hgap : Layout gap)
    (h : Arranged ls cs) : Arranged ls (gap ++ cs) := by
  cases h with
  | nil hfinal =>
      cases hfinal with
      | closed hmore => exact .nil (.closed (hgap.append hmore))
      | opened hmore htext =>
          rw [← List.append_assoc]
          exact .nil (.opened (hgap.append hmore) htext)
  | cons hmore hspelled happart hrest =>
      rw [← List.append_assoc]
      exact .cons (hgap.append hmore) hspelled happart hrest

/-- Between the cursors stand the tokens, whatever is arranged from the second one on. -/
def Cursor.Passes (c after : Cursor) (ls : List Lexeme) : Prop :=
  ∀ more, Arranged more after.rest → Arranged (ls ++ more) c.rest

namespace Cursor.Passes

variable {c d e : Cursor} {ls more : List Lexeme}

theorem trans (h : c.Passes d ls) (h' : d.Passes e more) : c.Passes e (ls ++ more) := by
  intro others hothers
  rw [List.append_assoc]
  exact h _ (h' _ hothers)

theorem skip (c : Cursor) : c.Passes c.skip [] := by
  intro more hmore
  obtain ⟨gap, hrest, -, -, hgap⟩ := c.skip_sound
  rcases hgap with hgap | ⟨hnil, hgap⟩
  · rw [hrest]
    exact hgap.arranged hmore
  · -- a comment is left open, and no tokens come after it
    rw [hnil] at hmore hrest
    have hlength := hmore.length_le
    obtain rfl : more = [] := List.eq_nil_of_length_eq_zero (Nat.le_zero.mp hlength)
    rw [List.append_nil] at hrest
    rw [hrest]
    exact .nil hgap

/-- Tokens are passed from before blanks and comments on. -/
theorem of_skip (h : c.skip.Passes d ls) : c.Passes d ls := (skip c).trans h

/-- Past a spelling of a token, the token has been passed. -/
theorem token {l : Lexeme} {text : List Char} (hspelled : l.Spelled text)
    (hrest : c.rest = text ++ d.rest) (happart : ∀ ch ∈ d.rest.head?, l.goesOn ch = false) :
    c.Passes d [l] := by
  intro more hmore
  rw [hrest]
  exact .cons .nil hspelled happart hmore

theorem advance {l : Lexeme} {text rest : List Char} (hspelled : l.Spelled text)
    (hrest : c.rest = text ++ rest) (happart : ∀ ch ∈ rest.head?, l.goesOn ch = false) :
    c.Passes (c.advance text.length) [l] := by
  have hafter : (c.advance text.length).rest = rest := by
    rw [Cursor.advance, hrest, List.drop_left]
  exact .token hspelled (by rw [hafter, hrest]) (by rwa [hafter])

end Cursor.Passes

section Moving

variable {c after : Cursor}

theorem expect_found {literal : List Char} (h : c.expect literal = .ok after) :
    ∃ rest, c.skip.rest = literal ++ rest ∧ after = c.skip.advance literal.length := by
  rw [Cursor.expect] at h
  split at h
  · rename_i found haccept
    cases h
    exact accept_found haccept
  · cases h

theorem accept_passes {m : Mark} (h : c.accept m.text = (true, after)) :
    c.Passes after [.mark m] := by
  obtain ⟨rest, hrest, rfl⟩ := accept_found h
  exact .of_skip (.advance (.mark m) hrest fun _ _ => rfl)

theorem expect_passes {m : Mark} (h : c.expect m.text = .ok after) : c.Passes after [.mark m] := by
  obtain ⟨rest, hrest, rfl⟩ := expect_found h
  exact .of_skip (.advance (.mark m) hrest fun _ _ => rfl)

theorem name_passes {n : String} (h : c.name = .ok (n, after)) : c.Passes after [.name n] := by
  rw [Cursor.name] at h
  dsimp only at h
  split at h
  · cases h
  · rename_i first rest hrest
    split at h
    · rename_i hfirst
      cases h
      obtain ⟨more, hsplit, htail, hmore⟩ := takeWhile_split Cursor.continuesName rest
      have hname : IsName (first :: rest.takeWhile Cursor.continuesName) := ⟨hfirst, htail⟩
      refine .of_skip (.advance (.name hname) ?_ hmore)
      rw [hrest, List.cons_append, ← hsplit]
    · cases h

theorem number_passes {bound : Option Nat} (h : c.number = .ok (bound, after)) :
    c.Passes after (boundLexemes bound) := by
  rw [Cursor.number] at h
  dsimp only at h
  split at h
  · cases h
    exact .skip c
  · rename_i hdigits
    have hne : c.skip.rest.takeWhile isDigit ≠ [] := by simpa using hdigits
    obtain ⟨rest, hsplit, hall, hrest⟩ := takeWhile_split isDigit c.skip.rest
    split at h
    · rename_i n hread
      cases h
      have hreadable := readable_of_readInteger hne hall hread
      rw [readInteger_decimals hne hreadable] at hread
      cases hread
      exact .of_skip (.advance (.number hne hreadable) hsplit hrest)
    · cases h

/-- A mark of one character is passed with it. -/
theorem mark_passes {m : Mark} {rest : List Char} (hm : m.text = [m.first])
    (hrest : c.rest = m.first :: rest) : c.Passes (c.advance 1) [.mark m] := by
  have htext : c.rest = m.text ++ rest := by rw [hm, hrest, List.singleton_append]
  have hpasses := Cursor.Passes.advance (.mark m) htext fun _ _ => rfl
  rwa [hm] at hpasses

/-- Bounds are followed by the brace that closes them. -/
theorem bracedBounds_passes {low high : Option Nat}
    (h : bracedBounds c = .ok ((low, high), after)) :
    ∃ ls, Braced low high ls ∧ c.Passes after (ls ++ [.mark .closeBrace]) := by
  obtain ⟨⟨first, c₁⟩, hnumber, hread⟩ := bind_eq_ok h
  have hfirst := number_passes hnumber
  dsimp only at hread
  split at hread
  · rename_i c₂ haccept
    obtain ⟨⟨second, c₃⟩, hsecond, hbrace⟩ := bind_eq_ok hread
    obtain ⟨c₄, hclose, hdone⟩ := bind_eq_ok hbrace
    cases hdone
    have hcomma : c₁.Passes c₂ [.mark .comma] := accept_passes haccept
    have hclosed : c₃.Passes after [.mark .closeBrace] := expect_passes hclose
    have hrange := hfirst.trans (hcomma.trans (number_passes hsecond))
    exact ⟨_, .range _ _, hrange.trans hclosed⟩
  · rename_i c₂ haccept
    rw [accept_missed haccept] at hread
    cases first with
    | none => cases hread
    | some n =>
        obtain ⟨c₃, hclose, hdone⟩ := bind_eq_ok hread
        cases hdone
        have hclosed : c₁.skip.Passes after [.mark .closeBrace] := expect_passes hclose
        exact ⟨_, .exactly n, hfirst.trans hclosed.of_skip⟩

theorem repeatedRule_ok {node r : Rule} {low high : Option Nat}
    (h : repeatedRule node low high c = .ok (r, after)) :
    ∃ b : Bounds, b.min = low ∧ b.max = high ∧ r = .repetition node b ∧ after = c := by
  rw [repeatedRule] at h
  split at h
  · rename_i b hbounds
    cases h
    obtain ⟨hmin, hmax⟩ := Bounds.ofNat?_ok hbounds
    exact ⟨b, hmin, hmax, rfl, rfl⟩
  · cases h

end Moving

/-! ## Taking parts of the syntax -/

variable [PatternEngine]

/-- Between the cursors stand tokens that write the part of the syntax. -/
def Phrase.Taken (part : Phrase) (c after : Cursor) : Prop :=
  ∃ ls, Written part ls ∧ c.Passes after ls

section Parts

variable {c d after : Cursor} {r node : Rule} {rs : List Rule}

theorem Phrase.Taken.of_skip {part : Phrase} (h : part.Taken c.skip after) :
    part.Taken c after := by
  obtain ⟨ls, hwritten, hpasses⟩ := h
  exact ⟨ls, hwritten, hpasses.of_skip⟩

theorem name_taken {n : String} (h : c.name = .ok (n, after)) :
    (Phrase.primary (.ref n)).Taken c after :=
  ⟨_, .name n, name_passes h⟩

theorem patternToken_taken {t : Token} (h : patternToken c = .ok (t, after)) :
    (Phrase.primary (.token t)).Taken c after := by
  obtain ⟨c₁, hopen, hopened⟩ := bind_eq_ok h
  obtain ⟨⟨source, c₂⟩, htext, hmake⟩ := bind_eq_ok hopened
  obtain ⟨rest, hrest, hc₁⟩ := expect_found hopen
  obtain ⟨body, hbody, hinside, -⟩ := patternText_sound htext
  obtain ⟨letters, more, hletters, hall, hmore, hflags⟩ := flagLettersOf_sound c₂.rest
  simp only [hflags] at hmake
  split at hmake
  · rename_i t' hcompiles
    cases hmake
    have hslash : c₁.rest = rest := by
      rw [hc₁, Cursor.advance, hrest, List.drop_left]
    have hafter : (c₂.advance letters.length).rest = more := by
      rw [Cursor.advance, hletters, List.drop_left]
    refine ⟨_, .pattern hcompiles, .of_skip (.token (.pattern hbody hall) ?_ (by rwa [hafter]))⟩
    rw [hrest, ← hslash, hinside, hafter, hletters]
    simp
  · cases hmake
  · cases hmake

theorem quotedToken_taken {quote : Char} {rest : List Char} {t : Token} (hquote : IsQuote quote)
    (hrest : c.rest = quote :: rest) (h : quotedToken quote c = .ok (t, after)) :
    (Phrase.primary (.token t)).Taken c after := by
  obtain ⟨⟨text, c₁⟩, htext, hread⟩ := bind_eq_ok h
  obtain ⟨t', hmake, hdone⟩ := bind_eq_ok hread
  cases hdone
  obtain ⟨body, hbody, hinside⟩ := literalText_sound htext
  refine ⟨_, .literal hmake, .token (.literal hquote hbody) ?_ fun _ _ => rfl⟩
  rw [hrest, List.drop_succ_cons, List.drop_zero] at hinside
  rw [hrest, hinside]
  simp

/-! ## Suffixes -/

/-- An item is a primary with the suffix that comes next, or without one. -/
theorem withSuffix_taken (hnode : (Phrase.primary node).Taken c d)
    (h : withSuffix node d = .ok (r, after)) : (Phrase.item r).Taken c after := by
  obtain ⟨ls, hwritten, hpasses⟩ := hnode
  -- every suffix makes a repetition, with the bounds that it stands for
  have hitem : ∀ {low high : Option Nat} {e : Cursor} {suffix : List Lexeme},
      Suffix low high suffix → d.skip.Passes e suffix →
      repeatedRule node low high e = .ok (r, after) → (Phrase.item r).Taken c after := by
    intro low high e suffix hsuffix hsuffixPasses hrepeated
    obtain ⟨b, rfl, rfl, rfl, rfl⟩ := repeatedRule_ok hrepeated
    exact ⟨_, .repeated hwritten hsuffix, hpasses.trans hsuffixPasses.of_skip⟩
  dsimp only [withSuffix] at h
  split at h
  · rename_i rest hrest
    exact hitem .optional (mark_passes (m := .question) rfl hrest) h
  · rename_i rest hrest
    exact hitem .any (mark_passes (m := .star) rfl hrest) h
  · rename_i rest hrest
    exact hitem .many (mark_passes (m := .plus) rfl hrest) h
  · rename_i rest hrest
    obtain ⟨⟨⟨low, high⟩, e⟩, hbraced, hrepeated⟩ := bind_eq_ok h
    obtain ⟨inside, hinside, hinsidePasses⟩ := bracedBounds_passes hbraced
    have hopen := mark_passes (m := .openBrace) rfl hrest
    exact hitem (.braced hinside) (hopen.trans hinsidePasses) hrepeated
  · cases h
    have hall := hpasses.trans (.skip d)
    rw [List.append_nil] at hall
    exact ⟨ls, .plain hwritten, hall⟩

/-! ## Sequences and choices -/

theorem Written.sequenceOf {ls : List Lexeme} (h : Written (.items rs) ls) :
    Written (.sequence (sequenceOf rs)) ls := by
  by_cases hone : rs.length = 1
  · obtain ⟨r, rfl⟩ := List.length_eq_one_iff.mp hone
    cases h with
    | moreItems hitem hnone =>
        cases hnone
        rw [List.append_nil]
        exact .single hitem
  · rw [sequenceOf_of_length_ne hone]
    exact .sequence hone h

theorem Written.choiceOf {ls more : List Lexeme} (h : Written (.sequence r) ls)
    (hmore : Written (.alternatives rs) more) :
    Written (.expression (choiceOf (r :: rs))) (ls ++ more) := by
  by_cases hnone : rs = []
  · subst hnone
    cases hmore
    rw [List.append_nil]
    exact .only h
  · rw [choiceOf_of_ne_nil hnone]
    exact .choice hnone h hmore

end Parts

/-! ## Readers -/

/-- With this fuel, what each function of the reader returns is written where it has read. -/
structure ReadersTake (fuel : Nat) : Prop where
  expression : ∀ {c after : Cursor} {r : Rule},
    readExpression fuel c = .ok (r, after) → (Phrase.expression r).Taken c after
  alternatives : ∀ {c after : Cursor} {rs : List Rule},
    readAlternatives fuel c = .ok (rs, after) → (Phrase.alternatives rs).Taken c after
  items : ∀ {c after : Cursor} {rs : List Rule},
    readItems fuel c = .ok (rs, after) → (Phrase.items rs).Taken c after
  item : ∀ {c after : Cursor} {r : Rule},
    readItem fuel c = .ok (r, after) → (Phrase.item r).Taken c after
  primary : ∀ {c after : Cursor} {r : Rule},
    readPrimary fuel c = .ok (r, after) → (Phrase.primary r).Taken c after

section Readers

variable {fuel : Nat} {c after : Cursor} {r : Rule} {rs : List Rule}

theorem ReadersTake.readExpression (ih : ReadersTake fuel)
    (h : readExpression (fuel + 1) c = .ok (r, after)) : (Phrase.expression r).Taken c after := by
  rw [TextGrammar.readExpression] at h
  obtain ⟨⟨items, c₁⟩, hitems, hread⟩ := bind_eq_ok h
  obtain ⟨⟨alts, c₂⟩, halts, hdone⟩ := bind_eq_ok hread
  cases hdone
  obtain ⟨ls, hwritten, hpasses⟩ := ih.items hitems
  obtain ⟨more, hmore, hmorePasses⟩ := ih.alternatives halts
  exact ⟨_, hwritten.sequenceOf.choiceOf hmore, hpasses.trans hmorePasses⟩

theorem ReadersTake.readAlternatives (ih : ReadersTake fuel)
    (h : readAlternatives (fuel + 1) c = .ok (rs, after)) :
    (Phrase.alternatives rs).Taken c after := by
  rw [TextGrammar.readAlternatives] at h
  split at h
  · rename_i c₁ haccept
    cases h
    rw [accept_missed haccept]
    exact ⟨[], .noAlternatives, .skip c⟩
  · rename_i c₁ haccept
    obtain ⟨⟨items, c₂⟩, hitems, hread⟩ := bind_eq_ok h
    obtain ⟨⟨alts, c₃⟩, halts, hdone⟩ := bind_eq_ok hread
    cases hdone
    have hbar : c.Passes c₁ [.mark .bar] := accept_passes haccept
    obtain ⟨ls, hwritten, hpasses⟩ := ih.items hitems
    obtain ⟨more, hmore, hmorePasses⟩ := ih.alternatives halts
    exact ⟨_, .moreAlternatives hwritten.sequenceOf hmore,
      hbar.trans (hpasses.trans hmorePasses)⟩

theorem ReadersTake.readItems (ih : ReadersTake fuel)
    (h : readItems (fuel + 1) c = .ok (rs, after)) : (Phrase.items rs).Taken c after := by
  rw [TextGrammar.readItems] at h
  dsimp only at h
  split at h
  · cases h
    exact ⟨[], .noItems, .skip c⟩
  · obtain ⟨⟨item, c₁⟩, hitem, hread⟩ := bind_eq_ok h
    obtain ⟨⟨items, c₂⟩, hitems, hdone⟩ := bind_eq_ok hread
    cases hdone
    obtain ⟨ls, hwritten, hpasses⟩ := ih.item hitem
    obtain ⟨more, hmore, hmorePasses⟩ := ih.items hitems
    exact ⟨_, .moreItems hwritten hmore, hpasses.of_skip.trans hmorePasses⟩

theorem ReadersTake.readItem (ih : ReadersTake fuel)
    (h : readItem (fuel + 1) c = .ok (r, after)) : (Phrase.item r).Taken c after := by
  rw [TextGrammar.readItem] at h
  dsimp only at h
  split at h
  · obtain ⟨⟨tag, c₁⟩, hname, htagged⟩ := bind_eq_ok h
    obtain ⟨c₂, hexpect, hread⟩ := bind_eq_ok htagged
    obtain ⟨⟨node, c₃⟩, hnode, hdone⟩ := bind_eq_ok hread
    cases hdone
    have hcolon : c₁.Passes c₂ [.mark .colon] := expect_passes hexpect
    obtain ⟨ls, hwritten, hpasses⟩ := ih.item hnode
    exact ⟨_, .tagged hwritten, (name_passes hname).of_skip.trans (hcolon.trans hpasses)⟩
  · obtain ⟨⟨node, c₁⟩, hnode, hsuffix⟩ := bind_eq_ok h
    exact withSuffix_taken (ih.primary hnode).of_skip hsuffix

theorem ReadersTake.readPrimary (ih : ReadersTake fuel)
    (h : readPrimary (fuel + 1) c = .ok (r, after)) : (Phrase.primary r).Taken c after := by
  rw [TextGrammar.readPrimary] at h
  refine Phrase.Taken.of_skip ?_
  dsimp only at h
  split at h
  · cases h
  · rename_i rest hrest
    obtain ⟨⟨inside, c₁⟩, hinside, hread⟩ := bind_eq_ok h
    obtain ⟨c₂, hexpect, hdone⟩ := bind_eq_ok hread
    cases hdone
    have hopen := mark_passes (m := .opening) rfl hrest
    have hclose : c₁.Passes after [.mark .closing] := expect_passes hexpect
    obtain ⟨ls, hwritten, hpasses⟩ := ih.expression hinside
    exact ⟨_, .group hwritten, hopen.trans (hpasses.trans hclose)⟩
  · obtain ⟨⟨t, c₁⟩, htoken, hdone⟩ := bind_eq_ok h
    cases hdone
    exact patternToken_taken htoken
  · rename_i first rest _ _ hrest
    split at h
    · rename_i hquote
      obtain ⟨⟨t, c₁⟩, htoken, hdone⟩ := bind_eq_ok h
      cases hdone
      exact quotedToken_taken hquote hrest htoken
    · split at h
      · obtain ⟨⟨n, c₁⟩, hname, hdone⟩ := bind_eq_ok h
        cases hdone
        exact name_taken hname
      · cases h

/-- Every function of the reader takes its part of the syntax. -/
theorem readersTake (fuel : Nat) : ReadersTake fuel := by
  induction fuel with
  | zero => constructor <;> nofun
  | succ fuel ih =>
      exact ⟨ih.readExpression, ih.readAlternatives, ih.readItems, ih.readItem, ih.readPrimary⟩

end Readers

/-! ## Grammar texts -/

/-- The rules that are read are added to those before, under new names. -/
theorem readRules_ok {depth fuel : Nat} {before rules : Rules} {c : Cursor}
    (hbefore : before.Distinct) (h : readRules depth fuel before c = .ok rules) :
    rules ≠ [] ∧ rules.Distinct ∧ ∃ more ls, rules = before ++ more ∧ WrittenRules more ls
      ∧ Arranged ls c.rest := by
  induction fuel generalizing before c with
  | zero => cases h
  | succ fuel ih =>
      rw [readRules] at h
      dsimp only at h
      split at h
      · rename_i hend
        split at h
        · cases h
        · rename_i hsome
          cases h
          have hnil : c.skip.rest = [] := by simpa using hend
          -- nothing but blanks and comments was left
          have hlayout : Arranged [] c.skip.rest := by
            rw [hnil]
            exact .nil (.closed .nil)
          exact ⟨by simpa using hsome, hbefore, [], [], (List.append_nil _).symm, .nil,
            Cursor.Passes.skip c [] hlayout⟩
      · obtain ⟨⟨name, c₁⟩, hname, hread⟩ := bind_eq_ok h
        obtain ⟨c₂, hexpect, hbody⟩ := bind_eq_ok hread
        obtain ⟨⟨r, c₃⟩, hexpression, hmore⟩ := bind_eq_ok hbody
        dsimp only at hmore
        split at hmore
        · cases hmore
        · rename_i hnew
          rw [Table.has_iff] at hnew
          obtain ⟨hne, hrules, more, ls, hsplit, hwritten, harranged⟩ :=
            ih (hbefore.concat r hnew) hmore
          have harrow : c₁.Passes c₂ [.mark .arrow] := expect_passes hexpect
          obtain ⟨body, hbodyWritten, hpasses⟩ := (readersTake depth).expression hexpression
          have hall := (name_passes hname).of_skip.trans (harrow.trans hpasses)
          refine ⟨hne, hrules, (name, r) :: more, _, ?_, .cons hbodyWritten hwritten,
            hall ls harranged⟩
          rw [hsplit, List.append_assoc, List.singleton_append]

/-- A text that is read writes the rules that are returned. -/
theorem readGrammar_ok {source : List Char} {rules : Rules} (h : readGrammar source = .ok rules) :
    rules ≠ [] ∧ rules.Distinct ∧ ∃ ls, WrittenRules rules ls ∧ Arranged ls source := by
  have hempty : Table.Distinct ([] : Rules) := List.nodup_nil
  obtain ⟨hne, hnames, more, ls, hmore, hwritten, harranged⟩ := readRules_ok hempty h
  rw [List.nil_append] at hmore
  subst hmore
  exact ⟨hne, hnames, ls, hwritten, harranged⟩

/--
**Exactly the texts that write rules are read, and as the rules that they write.** The rules
have different names, there is at least one, and the text is nothing but blanks, comments and
tokens that write them. The names before an arrow are those of the rules and the names before a
colon are the tags in them, in order. Every name is a name, and every rule is proper.
-/
theorem readGrammar_eq_ok_iff {source : List Char} {rules : Rules} :
    readGrammar source = .ok rules
      ↔ rules ≠ [] ∧ rules.Distinct
        ∧ ∃ ls, Arranged ls source ∧ WrittenRules rules ls
          ∧ namesBefore .arrow ls = rules.keys
          ∧ namesBefore .colon ls = (rules.flatMap fun e => e.2.tags)
          ∧ ∀ e ∈ rules, IsName e.1.toList ∧ e.2.All Rule.Proper := by
  constructor
  · intro h
    obtain ⟨hne, hnames, ls, hwritten, harranged⟩ := readGrammar_ok h
    exact ⟨hne, hnames, ls, harranged, hwritten, hwritten.namesBefore_arrow,
      hwritten.namesBefore_colon, hwritten.proper harranged.spellable⟩
  · rintro ⟨hne, hnames, ls, harranged, hwritten, -, -, -⟩
    exact readGrammar_eq hne hnames ⟨ls, hwritten, harranged⟩

end TextGrammar
