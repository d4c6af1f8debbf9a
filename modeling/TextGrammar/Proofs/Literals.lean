import TextGrammar.Parser.Basic
import TextGrammar.Proofs.Reading

/-!
# Literals match themselves

A literal goes through three hands: its spelling is decoded, the text is escaped, and the
escaped text is compiled and matched by the built-in engine. What comes out is a token that takes
exactly this text and nothing else (`Token.find?_ofText`), so a grammar of a single literal
matches where the text stands (`readGrammar_literal_matches`), whatever characters are in it.
-/

namespace TextGrammar

/-! ## Matching a text -/

theorem CharSet.single_exact_has (c d : Char) :
    (CharSet.single c.toNat .exact).has d = decide (c = d) := by
  have hcode : c.toNat = d.toNat ↔ c = d := Char.toNat_inj
  rw [Bool.eq_iff_iff, decide_eq_true_iff, ← hcode]
  simp only [CharSet.single, CharSet.has, CaseRule.variants, SetItem.has, List.any_cons,
    List.any_nil, Bool.or_false, Bool.bne_false, Bool.and_eq_true, decide_eq_true_iff]
  omega

/-- The place after some more characters. -/
def Scan.past (s : Scan) (taken : List Char) : Scan :=
  { s with
    before := taken.reverse ++ s.before
    rest := s.rest.drop taken.length
    offset := s.offset + taken.length }

/-- The pattern of a text goes past the text if it stands there. -/
theorem run_ofText (cs : List Char) (s : Scan) (k : Continuation) :
    (Pattern.ofText cs).run s k = if cs <+: s.rest then k (s.past cs) else none := by
  induction cs generalizing s with
  | nil => simp [Pattern.ofText, Pattern.ofList, Pattern.run, Scan.past]
  | cons c cs ih =>
      have hsplit : Pattern.ofText (c :: cs)
          = .seq (.one (.single c.toNat .exact)) (Pattern.ofText cs) := rfl
      obtain ⟨before, rest, offset, groups, kept⟩ := s
      rw [hsplit, Pattern.run]
      cases rest with
      | nil => simp [Pattern.run, Scan.take?]
      | cons d rest =>
          rw [run_one_cons, CharSet.single_exact_has]
          by_cases hc : c = d
          · subst hc
            simp [ih, Scan.past, Nat.add_comm, Nat.add_left_comm]
          · simp [hc]

/-- The token of a text takes this text, or does not match. -/
theorem Token.find?_ofText (text input : List Char) :
    (Token.ofText text).find? input
      = if text <+: input then some ⟨text, text.length⟩ else none := by
  have hrun := run_ofText text (.start input) some
  have hfind : (Token.ofText text).find? input = (Pattern.ofText text).find? input := rfl
  rw [hfind, Pattern.find?, hrun]
  by_cases hstands : text <+: input
  · have htake : input.take text.length = text := (List.prefix_iff_eq_take.mp hstands).symm
    simp [Scan.start, Scan.past, hstands, htake]
  · simp [Scan.start, hstands]

/-! ## A grammar of one literal -/

/-- The grammar text that gives a literal to the rule at which parsing begins. -/
def literalGrammar (quote : Char) (body : List Char) : List Char :=
  "$begin <- ".toList ++ quote :: (body ++ [quote])

/-- The rule that matches a text. -/
def literalRules (text : List Char) : Rules := [(beginName, .token (.ofText text))]

theorem grammarText_literal {quote : Char} {body text : List Char} (hquote : IsQuote quote)
    (h : LiteralSpelling quote body text) :
    GrammarText (literalRules text) (literalGrammar quote body) := by
  have hblank : Layout [' '] := .blank (by decide) .nil
  have htail : ['b', 'e', 'g', 'i', 'n'].all Cursor.continuesName = true := by decide
  have hname : IsName ['$', 'b', 'e', 'g', 'i', 'n'] := ⟨by decide, List.all_eq_true.mp htail⟩
  have hliteral : Written (.expression (.token (.ofText text))) [.literal text] :=
    .only (.single (.plain (.literal (literalToken_eq text))))
  have hend : ' ' :: quote :: (body ++ [quote]) = [' '] ++ (quote :: (body ++ [quote]) ++ []) := by
    simp
  have hquoted : Arranged [.literal text] (' ' :: quote :: (body ++ [quote])) := by
    rw [hend]
    exact .cons hblank (.literal hquote h) (Lexeme.apart_nil _) (.nil (.closed .nil))
  have harrow : Arranged [.mark .arrow, .literal text]
      (' ' :: '<' :: '-' :: ' ' :: quote :: (body ++ [quote])) :=
    .cons hblank (.mark .arrow) (Lexeme.apart_cons rfl) hquoted
  have harranged : Arranged [.name beginName, .mark .arrow, .literal text]
      (literalGrammar quote body) :=
    .cons .nil (.name hname) (Lexeme.apart_cons (Lexeme.goesOn_blank _ (by decide))) harrow
  exact ⟨_, .cons hliteral .nil, harranged⟩

/-- Without `$space` nothing is skipped, and without an action the value is the text itself. -/
theorem apply_literalRules (text input : List Char) (capacity pos : Nat) :
    ((⟨literalRules text, fun _ => none, input, capacity⟩ : Setting).apply beginName pos).ending
      = .done (if text <+: input.drop pos
          then .success (.text (String.ofList text)) (pos + text.length) else .failure pos) := by
  generalize hs : (⟨literalRules text, fun _ => none, input, capacity⟩ : Setting) = s
  have hbegin : s.rules.get? beginName = some (.token (.ofText text)) := by
    rw [← hs]
    rfl
  have hspace : s.rules.get? spaceName = none := by
    rw [← hs]
    rfl
  obtain ⟨depth, hdepth⟩ : ∃ depth, s.depthBound pos = depth + 1 := by
    refine Nat.exists_eq_add_one.mpr ?_
    rw [← hs]
    simp [Setting.depthBound, literalRules]
  -- a `$space` that does not exist does not match, and the token starts where it is tried
  have hstart : (tokenStart (enter s depth) pos true).ending = .done (pos : Int) := by
    rw [tokenStart_true, enter_undefined hspace]
    rfl
  have htaken : s.takeToken (.ofText text) pos pos
      = if text <+: input.drop pos
          then .success (.text (String.ofList text)) (pos + text.length) else .failure pos := by
    have hremaining : s.remaining pos = input.drop pos := by
      rw [← hs]
      simp [Setting.remaining]
    rw [Setting.takeToken, hremaining, Token.find?_ofText]
    by_cases hstands : text <+: input.drop pos <;> simp [hstands]
  rw [Setting.apply, hdepth, enter_succ hbegin, eval_token_ending, hstart, Ending.andThen_done,
    Ending.andThen_done, htaken]
  by_cases hstands : text <+: input.drop pos
  · rw [if_pos hstands]
    simp [Setting.settled, Setting.answer, ← hs]
  · rw [if_neg hstands]
    rfl

/--
**A literal matches its text, verbatim.** However a text is spelled between quotes, the grammar
of this literal is read, and its rule matches at a position exactly where the text stands. The
value is then the text, and the match ends behind it.
-/
theorem readGrammar_literal_matches {quote : Char} {body text : List Char}
    (hquote : IsQuote quote) (h : LiteralSpelling quote body text) :
    readGrammar (literalGrammar quote body) = .ok (literalRules text)
      ∧ ∀ (input : List Char) (capacity pos : Nat),
        ((⟨literalRules text, fun _ => none, input, capacity⟩ : Setting).apply beginName pos).ending
          = .done (if text <+: input.drop pos
              then .success (.text (String.ofList text)) (pos + text.length) else .failure pos) :=
  ⟨readGrammar_eq (List.cons_ne_nil _ _) (List.pairwise_singleton _ _)
    (grammarText_literal hquote h), apply_literalRules text⟩

/-- A dot, a line feed, a quote and a hash, the last two of which are escaped. -/
theorem readGrammar_dotted_literal_matches :
    IsQuote '"' ∧ LiteralSpelling '"' ['.', '\\', 'n', '\\', '"', '\\', '#'] ['.', '\n', '"', '#']
      ∧ readGrammar (literalGrammar '"' ['.', '\\', 'n', '\\', '"', '\\', '#'])
        = .ok (literalRules ['.', '\n', '"', '#'])
      ∧ ((⟨literalRules ['.', '\n', '"', '#'], fun _ => none, ['x', '.', '\n', '"', '#', 'y'],
          Fault.listCapacity⟩ : Setting).apply beginName (1 : Nat)).ending
        = .done (.success (.text (String.ofList ['.', '\n', '"', '#'])) 5) := by
  have hquote : IsQuote '"' := .inr rfl
  have hspelling : LiteralSpelling '"' ['.', '\\', 'n', '\\', '"', '\\', '#']
      ['.', '\n', '"', '#'] :=
    .plain (by decide) (by decide) (.escaped 'n' (.escaped '"' (.escaped '#' .nil)))
  obtain ⟨hread, hmatches⟩ := readGrammar_literal_matches hquote hspelling
  refine ⟨hquote, hspelling, hread, ?_⟩
  rw [hmatches, if_pos (by decide)]
  rfl

end TextGrammar
