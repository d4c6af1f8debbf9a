import TextGrammar.Proofs.Spelling

/-!
# Grammar texts as tokens

A grammar text is a list of tokens, arranged with blanks and comments before, between and
after them (`Arranged`). Tokens need something between them only where the first would go on
with a character of the second: a name with letters, a number with digits, a pattern with the
letter of a flag.

The cursor of the reader is followed by what is arranged from it on. Each of its functions
either takes the next token, and then the rest of the tokens is arranged from where it stops,
or sees that the next token is another one.
-/

namespace TextGrammar

/-- The punctuation of grammar texts. -/
inductive Mark where
  | arrow
  | colon
  | bar
  | opening
  | closing
  | question
  | star
  | plus
  | openBrace
  | closeBrace
  | comma
  deriving DecidableEq, Repr

namespace Mark

def first : Mark → Char
  | .arrow => '<'
  | .colon => ':'
  | .bar => '|'
  | .opening => '('
  | .closing => ')'
  | .question => '?'
  | .star => '*'
  | .plus => '+'
  | .openBrace => '{'
  | .closeBrace => '}'
  | .comma => ','

def text : Mark → List Char
  | .arrow => ['<', '-']
  | m => [m.first]

theorem text_eq_cons (m : Mark) : ∃ tail, m.text = m.first :: tail := by
  cases m
  case arrow => exact ⟨['-'], rfl⟩
  all_goals exact ⟨[], rfl⟩

theorem first_inj {m m' : Mark} (h : m.first = m'.first) : m = m' := by
  revert h
  cases m <;> cases m' <;> decide

end Mark

/-- A token of a grammar text, by what it means. -/
inductive Lexeme where
  | mark (m : Mark)
  | name (n : String)
  | number (n : Nat)
  | literal (text : List Char)
  | pattern (source : List Char) (bits : Nat)
  deriving DecidableEq, Repr

namespace Lexeme

/-- How a token is written. -/
inductive Spelled : Lexeme → List Char → Prop where
  | mark (m : Mark) : Spelled (.mark m) m.text
  | name {cs : List Char} : IsName cs → Spelled (.name (String.ofList cs)) cs
  | number {digits : List Char} :
      digits ≠ [] → Readable digits → Spelled (.number (numberOf digits)) digits
  | literal {quote : Char} {body text : List Char} :
      IsQuote quote → LiteralSpelling quote body text →
      Spelled (.literal text) (quote :: (body ++ [quote]))
  | pattern {body source letters : List Char} :
      PatternSpelling body source → (∀ c ∈ letters, IsFlagLetter c) →
      Spelled (.pattern source (flagBits letters)) ('/' :: (body ++ '/' :: letters))

/-- Whether a character right after the token would belong to it. -/
def goesOn : Lexeme → Char → Bool
  | .name _, c => Cursor.continuesName c
  | .number _, c => isDigit c
  | .pattern _ _, c => (flagOfLetter c).isSome
  | .mark _, _ | .literal _, _ => false

theorem apart_cons {l : Lexeme} {d : Char} {rest : List Char} (h : l.goesOn d = false) :
    ∀ c ∈ (d :: rest).head?, l.goesOn c = false := by
  rintro _ ⟨⟩
  exact h

theorem apart_nil (l : Lexeme) : ∀ c ∈ ([] : List Char).head?, l.goesOn c = false :=
  fun _ h => absurd h (Option.not_mem_none _)

/-- The characters with which the token can start. -/
def StartsWith : Lexeme → Char → Prop
  | .mark m, c => c = m.first
  | .name _, c => Cursor.startsName c = true
  | .number _, c => isDigit c = true
  | .literal _, c => IsQuote c
  | .pattern _ _, c => c = '/'

theorem Spelled.startsWith {l : Lexeme} {text : List Char} (h : l.Spelled text) :
    ∃ c rest, text = c :: rest ∧ l.StartsWith c := by
  cases h with
  | mark m =>
      obtain ⟨tail, htext⟩ := m.text_eq_cons
      exact ⟨m.first, tail, htext, rfl⟩
  | name hname =>
      cases text with
      | nil => exact hname.elim
      | cons c rest => exact ⟨c, rest, rfl, hname.1⟩
  | number hne hdigits =>
      obtain ⟨c, rest, rfl⟩ := List.exists_cons_of_ne_nil hne
      exact ⟨c, rest, rfl, isDigit_of_isDecimal (hdigits.1 c List.mem_cons_self)⟩
  | literal hquote _ => exact ⟨_, _, rfl, hquote⟩
  | pattern _ _ => exact ⟨_, _, rfl, rfl⟩

/-- The characters that have a meaning of their own outside of names and numbers. -/
def signs : List Char :=
  [' ', '\t', '\r', '\n', '#', '\'', '"', '/', '<', ':', '|', '(', ')', '?', '*', '+', '{', '}', ',']

theorem ne_sign_of_startsName {c d : Char} (hc : Cursor.startsName c = true) (hd : d ∈ signs) :
    c ≠ d := by
  have hsigns : signs.all (fun d => !Cursor.startsName d) = true := by decide
  rintro rfl
  have hnot := List.all_eq_true.mp hsigns c hd
  simp [hc] at hnot

theorem ne_sign_of_isDigit {c d : Char} (hc : isDigit c = true) (hd : d ∈ signs) : c ≠ d := by
  have hsigns : signs.all (fun d => !isDigit d) = true := by decide
  rintro rfl
  have hnot := List.all_eq_true.mp hsigns c hd
  simp [hc] at hnot

theorem first_mem_signs (m : Mark) : m.first ∈ signs := by
  cases m <;> decide

/-- A token starts neither with a blank nor like a comment. -/
theorem StartsWith.solid {l : Lexeme} {c : Char} (h : l.StartsWith c) :
    Cursor.isSeparator c = false ∧ c ≠ '#' := by
  cases l with
  | mark m =>
      obtain rfl : c = m.first := h
      cases m <;> decide
  | name n =>
      refine ⟨?_, ne_sign_of_startsName h (by decide)⟩
      have hne : ∀ d ∈ signs, c ≠ d := fun d => ne_sign_of_startsName h
      simp [Cursor.isSeparator, hne ' ' (by decide), hne '\t' (by decide), hne '\r' (by decide),
        hne '\n' (by decide)]
  | number n =>
      refine ⟨?_, ne_sign_of_isDigit h (by decide)⟩
      have hne : ∀ d ∈ signs, c ≠ d := fun d => ne_sign_of_isDigit h
      simp [Cursor.isSeparator, hne ' ' (by decide), hne '\t' (by decide), hne '\r' (by decide),
        hne '\n' (by decide)]
  | literal text =>
      have hquote : IsQuote c := h
      rcases hquote with rfl | rfl <;> decide
  | pattern source bits =>
      obtain rfl : c = '/' := h
      decide

/-- Punctuation is told by its first character. -/
theorem StartsWith.ne_first {l : Lexeme} {c : Char} {m : Mark} (h : l.StartsWith c)
    (hne : l ≠ .mark m) : c ≠ m.first := by
  cases l with
  | mark m' =>
      obtain rfl : c = m'.first := h
      exact fun heq => hne (congrArg _ (Mark.first_inj heq))
  | name n => exact ne_sign_of_startsName h (first_mem_signs m)
  | number n => exact ne_sign_of_isDigit h (first_mem_signs m)
  | literal text =>
      have hquote : IsQuote c := h
      rcases hquote with rfl | rfl <;> cases m <;> decide
  | pattern source bits =>
      obtain rfl : c = '/' := h
      cases m <;> decide

end Lexeme

/--
The text consists of the tokens, with blanks and comments anywhere between them and something
between two that would run together.
-/
inductive Arranged : List Lexeme → List Char → Prop where
  | nil {gap : List Char} : FinalLayout gap → Arranged [] gap
  | cons {l : Lexeme} {gap text rest : List Char} {ls : List Lexeme} :
      Layout gap → l.Spelled text → (∀ c ∈ rest.head?, l.goesOn c = false) → Arranged ls rest →
      Arranged (l :: ls) (gap ++ (text ++ rest))

namespace Arranged

variable {l : Lexeme} {ls : List Lexeme} {c : Cursor} {m : Mark}

/-- A text has at least as many characters as tokens. -/
theorem length_le {cs : List Char} (h : Arranged ls cs) : ls.length ≤ cs.length := by
  induction h with
  | nil _ => exact Nat.zero_le _
  | cons _ hspelled _ _ ih =>
      obtain ⟨c, rest, rfl, -⟩ := hspelled.startsWith
      simp only [List.length_cons, List.length_append] at ih ⊢
      omega

/-- Past blanks and comments stands the next token. -/
theorem skip_cons (h : Arranged (l :: ls) c.rest) :
    ∃ text rest, c.skip.rest = text ++ rest ∧ l.Spelled text
      ∧ (∀ d ∈ rest.head?, l.goesOn d = false) ∧ Arranged ls rest := by
  generalize hcs : c.rest = cs at h
  cases h with
  | @cons _ gap text rest _ hgap hspelled happart hrest =>
      refine ⟨text, rest, Cursor.skip_rest hgap ?_ hcs, hspelled, happart, hrest⟩
      obtain ⟨d, tail, rfl, hstarts⟩ := hspelled.startsWith
      rintro _ ⟨⟩
      exact hstarts.solid

theorem skip_nil (h : Arranged [] c.rest) : c.skip.rest = [] := by
  generalize hcs : c.rest = cs at h
  cases h with
  | nil hgap => exact Cursor.skip_rest_final (hcs ▸ hgap)

theorem skip (h : Arranged ls c.rest) : Arranged ls c.skip.rest := by
  cases ls with
  | nil =>
      rw [skip_nil h]
      exact .nil (.closed .nil)
  | cons l ls =>
      obtain ⟨text, rest, hskip, hspelled, happart, hrest⟩ := h.skip_cons
      rw [hskip]
      exact .cons .nil hspelled happart hrest

/-- The next token starts past blanks and comments. -/
theorem front (h : Arranged (l :: ls) c.rest) :
    ∃ d rest, c.skip.rest = d :: rest ∧ l.StartsWith d := by
  obtain ⟨text, rest, hskip, hspelled, -⟩ := h.skip_cons
  obtain ⟨d, tail, rfl, hstarts⟩ := hspelled.startsWith
  exact ⟨d, tail ++ rest, hskip, hstarts⟩

/-! ## Punctuation -/

theorem accept_mark (h : Arranged (.mark m :: ls) c.rest) :
    ∃ after, c.accept m.text = (true, after) ∧ Arranged ls after.rest := by
  obtain ⟨text, rest, hskip, hspelled, -, hrest⟩ := h.skip_cons
  cases hspelled
  refine ⟨c.skip.advance m.text.length, ?_, by simpa [Cursor.advance, hskip] using hrest⟩
  have hprefix : m.text.isPrefixOf c.skip.rest = true := by
    rw [hskip, List.isPrefixOf_iff_prefix]
    exact List.prefix_append _ _
  rw [Cursor.accept, if_pos hprefix]

theorem accept_other (h : Arranged ls c.rest) (hne : ls.head? ≠ some (.mark m)) :
    c.accept m.text = (false, c.skip) := by
  obtain ⟨tail, htext⟩ := m.text_eq_cons
  have hprefix : ¬m.text.isPrefixOf c.skip.rest = true := by
    cases ls with
    | nil => simp [h.skip_nil, htext]
    | cons l ls =>
        obtain ⟨d, rest, hskip, hstarts⟩ := h.front
        have hfirst : d ≠ m.first := hstarts.ne_first fun heq => hne (by rw [heq]; rfl)
        simp [hskip, htext, List.isPrefixOf, hfirst.symm]
  rw [Cursor.accept, if_neg hprefix]

theorem expect_mark (h : Arranged (.mark m :: ls) c.rest) :
    ∃ after, c.expect m.text = .ok after ∧ Arranged ls after.rest := by
  obtain ⟨after, haccept, hrest⟩ := h.accept_mark
  exact ⟨after, by rw [Cursor.expect, haccept], hrest⟩

/-! ## Names -/

theorem name_eq {n : String} (h : Arranged (.name n :: ls) c.rest) :
    ∃ after, c.name = .ok (n, after) ∧ Arranged ls after.rest := by
  obtain ⟨text, rest, hskip, hspelled, happart, hrest⟩ := h.skip_cons
  cases hspelled with
  | name hname =>
      cases text with
      | nil => exact hname.elim
      | cons first tail =>
          obtain ⟨hfirst, htail⟩ := hname
          rw [List.cons_append] at hskip
          have htake : (tail ++ rest).takeWhile Cursor.continuesName = tail :=
            takeWhile_append_of_head htail happart
          refine ⟨c.skip.advance (tail.length + 1), ?_, ?_⟩
          · simp [Cursor.name, hskip, hfirst, htake]
          · simpa [Cursor.advance, hskip] using hrest

theorem atName_of_name {n : String} (h : Arranged (.name n :: ls) c.rest) :
    c.skip.atName = true := by
  obtain ⟨d, rest, hskip, hstarts⟩ := h.front
  have hname : Cursor.startsName d = true := hstarts
  simp [Cursor.atName, hskip, hname]

/-- Looking ahead past a name finds a mark if and only if it is the token after the name. -/
theorem atNameBefore_eq {n : String} (h : Arranged (.name n :: ls) c.rest) (m : Mark) :
    c.atNameBefore m.text = decide (ls.head? = some (.mark m)) := by
  obtain ⟨after, hname, hrest⟩ := h.name_eq
  simp only [Cursor.atNameBefore, hname]
  by_cases hm : ls.head? = some (.mark m)
  · obtain ⟨rest, rfl⟩ : ∃ rest, ls = .mark m :: rest := by
      cases ls with
      | nil => cases hm
      | cons l rest => exact ⟨rest, by rw [Option.some.inj hm]⟩
    obtain ⟨_, haccept, _⟩ := hrest.accept_mark
    simp [haccept]
  · simp [hrest.accept_other hm, hm]

/-! ## Numbers -/

theorem number_eq {n : Nat} (h : Arranged (.number n :: ls) c.rest) :
    ∃ after, c.number = .ok (some n, after) ∧ Arranged ls after.rest := by
  obtain ⟨text, rest, hskip, hspelled, happart, hrest⟩ := h.skip_cons
  cases hspelled with
  | number hne hdigits =>
      have htake : (text ++ rest).takeWhile isDigit = text :=
        takeWhile_append_of_head (fun c hc => isDigit_of_isDecimal (hdigits.1 c hc)) happart
      have hempty : text.isEmpty = false := by simpa using hne
      refine ⟨c.skip.advance text.length, ?_, by simpa [Cursor.advance, hskip] using hrest⟩
      simp [Cursor.number, hskip, htake, hempty, readInteger_decimals hne hdigits]

theorem number_of_mark (h : Arranged (.mark m :: ls) c.rest) : c.number = .ok (none, c.skip) := by
  obtain ⟨d, rest, hskip, hstarts⟩ := h.front
  obtain rfl : d = m.first := hstarts
  have hdigit : isDigit m.first = false := by
    cases m <;> decide
  simp [Cursor.number, hskip, hdigit]

/-! ## Tokens -/

variable [PatternEngine]

theorem patternToken_eq {source : List Char} {bits : Nat} {t : Token}
    (h : Arranged (.pattern source bits :: ls) c.rest)
    (ht : Token.make (String.ofList source) ⟨bits, .letters⟩ = .ok t) :
    ∃ after, patternToken c = .ok (t, after) ∧ Arranged ls after.rest := by
  obtain ⟨text, rest, hskip, hspelled, happart, hrest⟩ := h.skip_cons
  cases hspelled with
  | @pattern body _ letters hbody hletters =>
      have htext : c.skip.rest = '/' :: (body ++ '/' :: (letters ++ rest)) := by
        simpa using hskip
      have hexpect : c.expect ['/'] = .ok (c.skip.advance 1) := by
        simp [Cursor.expect, Cursor.accept, htext, List.isPrefixOf]
      have hread : patternText (c.skip.advance 1).rest (c.skip.advance 1).offset
          = .ok (source, ⟨letters ++ rest, c.skip.offset + 1 + (body.length + 1)⟩) := by
        have hrest : (c.skip.advance 1).rest = body ++ '/' :: (letters ++ rest) := by
          simp [Cursor.advance, htext]
        rw [hrest, patternText_spelling hbody]
        rfl
      have hflags := flagLettersOf_append hletters happart
      refine ⟨(⟨letters ++ rest, c.skip.offset + 1 + (body.length + 1)⟩ : Cursor).advance
        letters.length, ?_, ?_⟩
      · simp only [patternToken, hexpect, hread, hflags, ht, bind, Except.bind]
        rfl
      · simpa [Cursor.advance] using hrest

theorem quotedToken_eq {text : List Char} {t : Token}
    (h : Arranged (.literal text :: ls) c.rest) (ht : literalToken text = .ok t) :
    ∃ quote rest after, c.skip.rest = quote :: rest ∧ IsQuote quote
      ∧ quotedToken quote c.skip = .ok (t, after) ∧ Arranged ls after.rest := by
  obtain ⟨written, rest, hskip, hspelled, -, hrest⟩ := h.skip_cons
  cases hspelled with
  | @literal quote body _ hquote hbody =>
      have htext : c.skip.rest = quote :: (body ++ quote :: rest) := by
        simpa using hskip
      refine ⟨quote, body ++ quote :: rest, ⟨rest, c.skip.offset + 1 + (body.length + 1)⟩, htext,
        hquote, ?_, hrest⟩
      simp only [quotedToken, htext, List.drop_succ_cons, List.drop_zero, bind, Except.bind,
        literalText_spelling hquote hbody, ht]
      rfl

end Arranged

end TextGrammar
