import TextGrammar.Proofs.Acceptance

/-!
# Patterns between slashes

A pattern is made of units: a character that is neither a backslash nor a line break, or a
backslash with the character that it escapes, which may be any but the slash. Between slashes a
unit is written as it is, but for the slash, which gets a backslash. A slash without one ends the
pattern, so whether one does depends on how many backslashes stand before it.

Reading is exact in both directions. What is written is read back, since the units that are taken
are those that were written (`PatternUnit.spelling`), and all that is ever read is made of units
(`exists_units`). A text in which no slash ends the pattern breaks off at its end or at a line
break, behind units (`patternText_error`), and is refused there (`patternText_unclosed`).
-/

namespace TextGrammar

/-! ## Units -/

/-- What a pattern is made of. -/
inductive PatternUnit where
  | plain (c : Char) (h : c ≠ '\\' ∧ c ≠ '\n')
  /-- A backslash and the character behind it. -/
  | escaped (c : Char) (h : c ≠ '/')

namespace PatternUnit

def text : PatternUnit → List Char
  | .plain c _ => [c]
  | .escaped c _ => ['\\', c]

/-- How the unit is written between slashes. -/
def written (u : PatternUnit) : List Char :=
  if u.text = ['/'] then ['\\', '/'] else u.text

end PatternUnit

/-- The pattern that is made of the units. -/
def patternOf (units : List PatternUnit) : List Char := units.flatMap PatternUnit.text

/-- The units as they are written one after the other. -/
def writtenUnits (units : List PatternUnit) : List Char := units.flatMap PatternUnit.written

/-- The pattern between slashes. -/
def delimited (units : List PatternUnit) : List Char := '/' :: (writtenUnits units ++ ['/'])

/-- What is written between slashes is spelled as the reader takes it. -/
theorem PatternUnit.spelling (units : List PatternUnit) :
    PatternSpelling (writtenUnits units) (patternOf units) := by
  induction units with
  | nil => exact .nil
  | cons u units ih =>
      unfold writtenUnits patternOf at ih ⊢
      rw [List.flatMap_cons, List.flatMap_cons]
      cases u with
      | plain c h =>
          obtain ⟨hback, hline⟩ := h
          by_cases hslash : c = '/'
          · subst hslash
            exact .slash ih
          · simp only [written, text, List.cons.injEq, hslash, false_and, if_false]
            exact .plain hback hline hslash ih
      | escaped c h =>
          simp only [written, text, List.cons.injEq, reduceCtorEq, and_false, if_false]
          exact .escaped h ih

/-- What the reader takes is made of units, as they are written. -/
theorem exists_units {body source : List Char} (h : PatternSpelling body source) :
    ∃ units, body = writtenUnits units ∧ source = patternOf units := by
  induction h with
  | nil => exact ⟨[], rfl, rfl⟩
  | @plain c body source hback hline hslash _ ih =>
      obtain ⟨units, rfl, rfl⟩ := ih
      refine ⟨.plain c ⟨hback, hline⟩ :: units, ?_, rfl⟩
      simp [writtenUnits, PatternUnit.written, PatternUnit.text, hslash]
  | slash _ ih =>
      obtain ⟨units, rfl, rfl⟩ := ih
      exact ⟨.plain '/' (by decide) :: units, rfl, rfl⟩
  | @escaped c body source hslash _ ih =>
      obtain ⟨units, rfl, rfl⟩ := ih
      refine ⟨.escaped c hslash :: units, ?_, rfl⟩
      simp [writtenUnits, PatternUnit.written, PatternUnit.text]

/-! ## Patterns that are not ended -/

/-- The text breaks off: it is at its end, has just a backslash left, or is at a line break. -/
inductive BreaksOff : List Char → Prop where
  | ended : BreaksOff []
  | cut : BreaksOff ['\\']
  | line {rest : List Char} : BreaksOff ('\n' :: rest)

/-- A pattern that breaks off is refused. -/
theorem patternText_unclosed {tail : List Char} (h : BreaksOff tail) (units : List PatternUnit)
    (n : Nat) :
    ∃ offset, patternText (writtenUnits units ++ tail) n
      = .error (.grammar ⟨offset, .unterminatedPattern⟩) := by
  rw [patternText_append (PatternUnit.spelling units)]
  cases h with
  | ended => exact ⟨_, rfl⟩
  | cut => exact ⟨_, rfl⟩
  | line => exact ⟨_, rfl⟩

/-- What is refused breaks off behind units. -/
theorem patternText_error {cs : List Char} {n : Nat} {f : Fault} (h : patternText cs n = .error f) :
    ∃ units tail, cs = writtenUnits units ++ tail ∧ BreaksOff tail := by
  suffices hsource : ∃ body source tail, cs = body ++ tail ∧ PatternSpelling body source
      ∧ BreaksOff tail by
    obtain ⟨body, source, tail, rfl, hbody, htail⟩ := hsource
    obtain ⟨units, rfl, -⟩ := exists_units hbody
    exact ⟨units, tail, rfl, htail⟩
  fun_induction patternText cs n generalizing f with
  | case1 n => exact ⟨[], [], [], rfl, .nil, .ended⟩
  | case2 rest n => exact ⟨[], [], _, rfl, .nil, .line⟩
  | case3 rest n => cases h
  | case4 n => exact ⟨[], [], _, rfl, .nil, .cut⟩
  | case5 rest n ih =>
      cases hread : patternText rest (n + 2) with
      | ok result =>
          rw [hread] at h
          cases h
      | error f =>
          obtain ⟨body, source, tail, rfl, hbody, htail⟩ := ih hread
          exact ⟨_, _, tail, rfl, .slash hbody, htail⟩
  | case6 next rest n hnext ih =>
      cases hread : patternText rest (n + 2) with
      | ok result =>
          rw [hread] at h
          cases h
      | error f =>
          obtain ⟨body, source, tail, rfl, hbody, htail⟩ := ih hread
          exact ⟨_, _, tail, rfl, .escaped (by simpa using hnext) hbody, htail⟩
  | case7 first rest n hline hslash hend hescape hmore ih =>
      have hplain : first ≠ '\\' := by
        rintro rfl
        cases rest with
        | nil => exact hend rfl rfl
        | cons next rest => exact hmore next rest rfl rfl
      cases hread : patternText rest (n + 1) with
      | ok result =>
          rw [hread] at h
          cases h
      | error f =>
          obtain ⟨body, source, tail, rfl, hbody, htail⟩ := ih hread
          exact ⟨_, _, tail, rfl, .plain hplain hline hslash hbody, htail⟩

/-! ## Flags -/

/-- The letters that stand for flags. -/
def patternLetters : List Char := ['i', 'm', 's', 'x']

/-- The union of the flags, in whatever order and however often their letters are written. -/
def letterFlags (letters : List Char) : Nat :=
  (if 'i' ∈ letters then ignoreCaseBit else 0) ||| (if 'm' ∈ letters then multilineBit else 0)
    ||| (if 's' ∈ letters then dotAllBit else 0) ||| (if 'x' ∈ letters then verboseBit else 0)

theorem isFlagLetter_iff (c : Char) : (flagOfLetter c).isSome = true ↔ c ∈ patternLetters := by
  unfold flagOfLetter patternLetters
  split <;> simp_all

theorem letterFlags_cons {c : Char} (h : c ∈ patternLetters) (letters : List Char) :
    letterFlags (c :: letters) = (flagOfLetter c).getD 0 ||| letterFlags letters := by
  simp only [patternLetters, List.mem_cons, List.not_mem_nil, or_false] at h
  unfold letterFlags
  -- a letter that comes again adds nothing
  rcases h with rfl | rfl | rfl | rfl
  · by_cases hmem : 'i' ∈ letters <;> simp [flagOfLetter, hmem] <;> ac_rfl
  · by_cases hmem : 'm' ∈ letters <;> simp [flagOfLetter, hmem] <;> ac_rfl
  · by_cases hmem : 's' ∈ letters <;> simp [flagOfLetter, hmem] <;> ac_rfl
  · by_cases hmem : 'x' ∈ letters <;> simp [flagOfLetter, hmem] <;> ac_rfl

theorem flagBits_eq {letters : List Char} (h : ∀ c ∈ letters, c ∈ patternLetters) :
    flagBits letters = letterFlags letters := by
  induction letters with
  | nil => rfl
  | cons c letters ih =>
      rw [letterFlags_cons (h c List.mem_cons_self),
        ← ih fun d hd => h d (List.mem_cons_of_mem _ hd)]
      rfl

/-! ## Tokens -/

theorem expect_slash {c : Cursor} {text : List Char} (h : c.rest = '/' :: text) :
    c.expect ['/'] = .ok ⟨text, c.offset + 1⟩ := by
  have hsolid : Solid c.rest := by
    rw [h]
    exact .cons (by decide) (by decide)
  simp [Cursor.expect, Cursor.accept, c.skip_of_solid hsolid, h, List.isPrefixOf, Cursor.advance]

section Tokens

variable {c after : Cursor} {t : Token} [PatternEngine]

/-- A pattern that compiles makes a token. -/
theorem exists_token {source : List Char} (flags : Flags) {compiled : CompiledPattern}
    (h : PatternEngine.compile source flags.bits = .ok compiled) :
    ∃ t, Token.make (String.ofList source) flags = .ok t ∧ t.source = String.ofList source
      ∧ t.flags = flags := by
  have hcompiles : Token.Compiles ⟨String.ofList source, flags, compiled⟩ := by
    rwa [Token.Compiles, String.toList_ofList]
  exact ⟨_, Token.make_eq_ok_iff.mpr ⟨rfl, rfl, hcompiles⟩, rfl, rfl⟩

/-- What is written between slashes, with flags behind it, is read as the pattern. -/
theorem patternToken_delimited {units : List PatternUnit} {letters rest : List Char}
    {compiled : CompiledPattern} (hc : c.rest = delimited units ++ (letters ++ rest))
    (hletters : ∀ x ∈ letters, x ∈ patternLetters) (hrest : ∀ x ∈ rest.head?, x ∉ patternLetters)
    (hcompiles : PatternEngine.compile (patternOf units) (letterFlags letters) = .ok compiled) :
    ∃ t, patternToken c = .ok (t, c.advance (delimited units ++ letters).length)
      ∧ t.source = String.ofList (patternOf units)
      ∧ t.flags = ⟨letterFlags letters, .letters⟩ := by
  obtain ⟨t, hmake, hsource, hflags⟩ :=
    exists_token ⟨letterFlags letters, .letters⟩ hcompiles
  refine ⟨t, ?_, hsource, hflags⟩
  have hslash : c.rest = '/' :: (writtenUnits units ++ '/' :: (letters ++ rest)) := by
    rw [hc]
    simp [delimited]
  have hread := patternText_spelling (PatternUnit.spelling units) (letters ++ rest) (c.offset + 1)
  have hbehind : ∀ x ∈ rest.head?, (flagOfLetter x).isSome = false := by
    intro x hx
    rw [← Bool.not_eq_true, isFlagLetter_iff]
    exact hrest x hx
  have hbits := flagLettersOf_append (fun x hx => (isFlagLetter_iff x).mpr (hletters x hx)) hbehind
  rw [flagBits_eq hletters] at hbits
  have hadvance : c.advance (delimited units ++ letters).length
      = ⟨rest, c.offset + 1 + ((writtenUnits units).length + 1) + letters.length⟩ := by
    have hfront : c.rest = (delimited units ++ letters) ++ rest := by
      rw [hc, List.append_assoc]
    rw [Cursor.advance, hfront, List.drop_left]
    simp [delimited]
    omega
  simp only [patternToken, expect_slash hslash, hread, hbits, hmake, bind, Except.bind, hadvance]
  simp [Cursor.advance, pure, Except.pure]

/-- Every pattern that is read is made of units. -/
theorem patternToken_units (h : patternToken c = .ok (t, after)) :
    ∃ units, t.source = String.ofList (patternOf units) := by
  obtain ⟨c₁, -, hopened⟩ := bind_eq_ok h
  obtain ⟨⟨source, c₂⟩, htext, hmake⟩ := bind_eq_ok hopened
  obtain ⟨body, hbody, -, -⟩ := patternText_sound htext
  obtain ⟨units, -, rfl⟩ := exists_units hbody
  dsimp only at hmake
  split at hmake
  · rename_i t' hmade
    cases hmake
    exact ⟨units, (Token.make_eq_ok_iff.mp hmade).1⟩
  · cases hmake
  · cases hmake

/-- A pattern is not ended exactly if its text breaks off behind units. -/
theorem patternToken_unterminated_iff {text : List Char} (h : c.rest = '/' :: text) :
    (∃ offset, patternToken c = .error (.grammar ⟨offset, .unterminatedPattern⟩)) ↔
      ∃ units tail, text = writtenUnits units ++ tail ∧ BreaksOff tail := by
  have hopen := expect_slash h
  constructor
  · rintro ⟨offset, herror⟩
    cases hread : patternText text (c.offset + 1) with
    | error f => exact patternText_error hread
    | ok result =>
        -- all that can still go wrong is that the pattern does not compile
        exfalso
        simp only [patternToken, hopen, hread, bind, Except.bind] at herror
        split at herror
        · cases herror
        · cases herror
        · rename_i f hproblem hmake
          obtain rfl := Except.error.inj herror
          rcases make_error hmake with ⟨p, hf⟩ | ⟨e, hf, -⟩
          · cases hf
          · cases e <;> cases hf
  · rintro ⟨units, tail, rfl, htail⟩
    obtain ⟨offset, hread⟩ := patternText_unclosed htail units (c.offset + 1)
    refine ⟨offset, ?_⟩
    simp only [patternToken, hopen, hread, bind, Except.bind]

end Tokens

/--
**Patterns between slashes are read exactly.** A pattern that is made of units is written between
slashes, with letters for flags behind it that go on to a character that is none, or to the end. If
it compiles under the union of these flags, it is read as just this pattern with just these flags,
up to the last letter. Every pattern that is read is made of units. And where a slash opens a
pattern, the text is refused as an unterminated pattern exactly if it breaks off before a slash
without a backslash: at its end, or at a line break that no backslash escapes.
-/
theorem patternToken_exact [PatternEngine] (c : Cursor) :
    (∀ units letters rest compiled, c.rest = delimited units ++ (letters ++ rest) →
        (∀ x ∈ letters, x ∈ patternLetters) → (∀ x ∈ rest.head?, x ∉ patternLetters) →
        PatternEngine.compile (patternOf units) (letterFlags letters) = .ok compiled →
        ∃ t, patternToken c = .ok (t, c.advance (delimited units ++ letters).length)
          ∧ t.source = String.ofList (patternOf units)
          ∧ t.flags = ⟨letterFlags letters, .letters⟩)
      ∧ (∀ t after, patternToken c = .ok (t, after) →
          ∃ units, t.source = String.ofList (patternOf units))
      ∧ (∀ text, c.rest = '/' :: text →
          ((∃ offset, patternToken c = .error (.grammar ⟨offset, .unterminatedPattern⟩)) ↔
            ∃ units tail, text = writtenUnits units ++ tail ∧ BreaksOff tail))
      ∧ GrammarProblem.message .unterminatedPattern = "unterminated regex" :=
  ⟨fun _ _ _ _ hc hletters hrest hcompiles => patternToken_delimited hc hletters hrest hcompiles,
    fun _ _ h => patternToken_units h, fun _ h => patternToken_unterminated_iff h, rfl⟩

/-- A backslash, a slash and a line break, all of which stand behind a backslash when written. -/
def escapedSigns : List PatternUnit :=
  [.escaped '\\' (by decide), .plain '/' (by decide), .escaped '\n' (by decide)]

/-- Behind two backslashes the slash has one of its own, and the next slash ends the pattern. -/
theorem patternToken_escapedSigns :
    "/\\\\\\/\\\n/xix|".toList = delimited escapedSigns ++ (['x', 'i', 'x'] ++ ['|'])
      ∧ ∃ t, patternToken ⟨"/\\\\\\/\\\n/xix|".toList, 5⟩ = .ok (t, ⟨['|'], 16⟩)
        ∧ t.source = "\\\\/\\\n" ∧ t.flags.bits = 66 := by
  have hrest : "/\\\\\\/\\\n/xix|".toList
      = delimited escapedSigns ++ (['x', 'i', 'x'] ++ ['|']) := by decide
  obtain ⟨t, hread, hsource, hflags⟩ := (patternToken_exact ⟨"/\\\\\\/\\\n/xix|".toList, 5⟩).1
    escapedSigns ['x', 'i', 'x'] ['|'] _ hrest (by simp [patternLetters])
      (by simp [patternLetters]) rfl
  exact ⟨hrest, t, hread, hsource, by rw [hflags]; rfl⟩

end TextGrammar
