import TextGrammar.Grammar.Token
import TextGrammar.Proofs.Numerals

/-!
# How the parts of a grammar text are spelled

What stands between tokens, and how names, literals and patterns are written, as relations
between a text and what it means. Each comes with the lemma that the cursor, or the function
that takes such a part, goes past exactly this text and finds that meaning.

Patterns are written in units: a character that is no backslash and no line break, or a
backslash and one more character. Only the slash is written otherwise than it is meant. Taking
a pattern or a literal finds a spelling whenever it succeeds (`patternText_sound`,
`literalText_sound`), so the two directions together say that decoding is exact.
-/

namespace TextGrammar

/-- What a reading in two steps has found, the first step has found a part of. -/
theorem bind_eq_ok {ε α β : Type} {x : Except ε α} {f : α → Except ε β} {b : β}
    (h : x >>= f = .ok b) : ∃ a, x = .ok a ∧ f a = .ok b := by
  cases x with
  | error e => cases h
  | ok a => exact ⟨a, rfl, h⟩

/-! ## Blanks and comments -/

/-- What may stand between two tokens: blanks, and comments up to the end of their line. -/
inductive Layout : List Char → Prop where
  | nil : Layout []
  | blank {c : Char} {rest : List Char} :
      Cursor.isSeparator c = true → Layout rest → Layout (c :: rest)
  | comment {text rest : List Char} :
      (∀ c ∈ text, c ≠ '\n') → Layout rest → Layout ('#' :: (text ++ '\n' :: rest))

/-- What may stand after the last token; a comment at the very end needs no line break. -/
inductive FinalLayout : List Char → Prop where
  | closed {gap : List Char} : Layout gap → FinalLayout gap
  | opened {gap text : List Char} :
      Layout gap → (∀ c ∈ text, c ≠ '\n') → FinalLayout (gap ++ '#' :: text)

theorem FinalLayout.blank {c : Char} {gap : List Char} (hc : Cursor.isSeparator c = true)
    (h : FinalLayout gap) : FinalLayout (c :: gap) := by
  cases h with
  | closed hgap => exact .closed (.blank hc hgap)
  | opened hgap htext => exact .opened (.blank hc hgap) htext

theorem FinalLayout.comment {text gap : List Char} (htext : ∀ c ∈ text, c ≠ '\n')
    (h : FinalLayout gap) : FinalLayout ('#' :: (text ++ '\n' :: gap)) := by
  cases h with
  | closed hgap => exact .closed (.comment htext hgap)
  | @opened gap last hgap hlast =>
      have hall := FinalLayout.opened (.comment htext hgap) hlast
      simpa using hall

/-- A text at which blanks and comments end. -/
def Solid (rest : List Char) : Prop :=
  ∀ c ∈ rest.head?, Cursor.isSeparator c = false ∧ c ≠ '#'

theorem Solid.nil : Solid [] := fun _ h => absurd h (Option.not_mem_none _)

theorem Solid.cons {c : Char} {rest : List Char} (hblank : Cursor.isSeparator c = false)
    (hhash : c ≠ '#') : Solid (c :: rest) := by
  rintro _ ⟨⟩
  exact ⟨hblank, hhash⟩

theorem layoutLength_comment {text : List Char} (h : ∀ c ∈ text, c ≠ '\n') (rest : List Char) :
    Cursor.layoutLength true (text ++ '\n' :: rest)
      = text.length + 1 + Cursor.layoutLength false rest := by
  induction text with
  | nil =>
      simp [Cursor.layoutLength]
      omega
  | cons c text ih =>
      have hc : c ≠ '\n' := h c List.mem_cons_self
      simp only [List.cons_append, Cursor.layoutLength, bne_iff_ne.mpr hc, List.length_cons]
      rw [ih fun c hmem => h c (List.mem_cons_of_mem _ hmem)]
      omega

theorem layoutLength_openComment {text : List Char} (h : ∀ c ∈ text, c ≠ '\n') :
    Cursor.layoutLength true text = text.length := by
  induction text with
  | nil => rfl
  | cons c text ih =>
      have hc : c ≠ '\n' := h c List.mem_cons_self
      simp only [Cursor.layoutLength, bne_iff_ne.mpr hc, List.length_cons]
      rw [ih fun c hmem => h c (List.mem_cons_of_mem _ hmem)]

theorem layoutLength_hash (rest : List Char) :
    Cursor.layoutLength false ('#' :: rest) = Cursor.layoutLength true rest + 1 := by
  have hhash : Cursor.isSeparator '#' = false := by decide
  simp [Cursor.layoutLength, hhash]

theorem layoutLength_append {gap : List Char} (h : Layout gap) (rest : List Char) :
    Cursor.layoutLength false (gap ++ rest) = gap.length + Cursor.layoutLength false rest := by
  induction h with
  | nil => simp
  | blank hc _ ih =>
      simp only [List.cons_append, Cursor.layoutLength, hc, if_true, ih, List.length_cons]
      omega
  | @comment text gap htext _ ih =>
      rw [List.cons_append, layoutLength_hash, List.append_assoc, List.cons_append,
        layoutLength_comment htext, ih]
      simp only [List.length_cons, List.length_append]
      omega

theorem layoutLength_solid {rest : List Char} (h : Solid rest) :
    Cursor.layoutLength false rest = 0 := by
  cases rest with
  | nil => rfl
  | cons c rest =>
      obtain ⟨hblank, hhash⟩ := h c rfl
      simp [Cursor.layoutLength, hblank, hhash]

theorem layoutLength_final {gap : List Char} (h : FinalLayout gap) :
    Cursor.layoutLength false gap = gap.length := by
  cases h with
  | closed h =>
      have hall := layoutLength_append h []
      simpa [Cursor.layoutLength] using hall
  | opened h htext =>
      rw [layoutLength_append h, layoutLength_hash, layoutLength_openComment htext]
      simp

/-- A comment has an end or goes on to the end of the text. -/
theorem exists_comment (cs : List Char) :
    (∀ c ∈ cs, c ≠ '\n') ∨ ∃ text rest, cs = text ++ '\n' :: rest ∧ ∀ c ∈ text, c ≠ '\n' := by
  induction cs with
  | nil => exact .inl fun _ h => absurd h List.not_mem_nil
  | cons c cs ih =>
      by_cases hc : c = '\n'
      · subst hc
        exact .inr ⟨[], cs, rfl, fun _ h => absurd h List.not_mem_nil⟩
      · rcases ih with hall | ⟨text, rest, rfl, htext⟩
        · exact .inl fun d hd => (List.mem_cons.mp hd).elim (fun h => h ▸ hc) (hall d)
        · exact .inr ⟨c :: text, rest, rfl,
            fun d hd => (List.mem_cons.mp hd).elim (fun h => h ▸ hc) (htext d)⟩

/-- What is skipped is layout, unless the text ends with an open comment. -/
theorem exists_layout (cs : List Char) :
    ∃ gap rest, cs = gap ++ rest ∧ Solid rest ∧ (Layout gap ∨ rest = [] ∧ FinalLayout gap) := by
  induction h : cs.length using Nat.strongRecOn generalizing cs with
  | ind n ih =>
      subst h
      cases cs with
      | nil => exact ⟨[], [], rfl, .nil, .inl .nil⟩
      | cons c cs =>
          by_cases hblank : Cursor.isSeparator c = true
          · obtain ⟨gap, rest, rfl, hrest, hgap⟩ := ih cs.length (Nat.lt_succ_self _) cs rfl
            refine ⟨c :: gap, rest, rfl, hrest, ?_⟩
            rcases hgap with hgap | ⟨hnil, hgap⟩
            · exact .inl (.blank hblank hgap)
            · exact .inr ⟨hnil, hgap.blank hblank⟩
          · by_cases hhash : c = '#'
            · subst hhash
              rcases exists_comment cs with hopen | ⟨text, more, rfl, htext⟩
              · exact ⟨'#' :: cs, [], by simp, .nil, .inr ⟨rfl, .opened .nil hopen⟩⟩
              · have hshorter : more.length < ('#' :: (text ++ '\n' :: more)).length := by
                  simp only [List.length_cons, List.length_append]
                  omega
                obtain ⟨gap, rest, rfl, hrest, hgap⟩ := ih more.length hshorter more rfl
                refine ⟨'#' :: (text ++ '\n' :: gap), rest, by simp, hrest, ?_⟩
                rcases hgap with hgap | ⟨hnil, hgap⟩
                · exact .inl (.comment htext hgap)
                · exact .inr ⟨hnil, hgap.comment htext⟩
            · exact ⟨[], c :: cs, rfl, .cons (by simpa using hblank) hhash, .inl .nil⟩

namespace Cursor

/-- Skipping goes past what stands between tokens. -/
theorem skip_rest {c : Cursor} {gap rest : List Char} (hgap : Layout gap) (hrest : Solid rest)
    (h : c.rest = gap ++ rest) : c.skip.rest = rest := by
  rw [skip, advance, h, layoutLength_append hgap, layoutLength_solid hrest]
  simp

theorem skip_of_solid {c : Cursor} (h : Solid c.rest) : c.skip = c := by
  rw [skip, layoutLength_solid h]
  simp [advance]

/-- Skipping always goes past layout. -/
theorem skip_sound (c : Cursor) :
    ∃ gap, c.rest = gap ++ c.skip.rest ∧ c.skip.offset = c.offset + gap.length
      ∧ Solid c.skip.rest ∧ (Layout gap ∨ c.skip.rest = [] ∧ FinalLayout gap) := by
  obtain ⟨gap, rest, hcs, hrest, hgap⟩ := exists_layout c.rest
  have hlength : layoutLength false c.rest = gap.length := by
    rcases hgap with hlayout | ⟨rfl, hfinal⟩
    · rw [hcs, layoutLength_append hlayout, layoutLength_solid hrest, Nat.add_zero]
    · rw [hcs, List.append_nil, layoutLength_final hfinal]
  have hskip : c.skip.rest = rest := by
    rw [skip, advance, hlength, hcs]
    exact List.drop_left
  rw [hskip]
  exact ⟨gap, hcs, by rw [skip, advance, hlength], hrest, hgap⟩

/-- Skipping goes past what stands after the last token. -/
theorem skip_rest_final {c : Cursor} (h : FinalLayout c.rest) : c.skip.rest = [] := by
  rw [skip, advance, layoutLength_final h]
  simp

end Cursor

/-! ## Names -/

/-- A character that can start a name, and characters with which it can go on. -/
def IsName : List Char → Prop
  | [] => False
  | first :: rest =>
    Cursor.startsName first = true ∧ ∀ c ∈ rest, Cursor.continuesName c = true

theorem takeWhile_append_of_head {p : Char → Bool} {front rest : List Char}
    (hfront : ∀ c ∈ front, p c = true) (hrest : ∀ c ∈ rest.head?, p c = false) :
    (front ++ rest).takeWhile p = front := by
  have hnone : rest.takeWhile p = [] := by
    cases rest with
    | nil => rfl
    | cons c rest => simp [hrest c rfl]
  rw [List.takeWhile_append_of_pos hfront, hnone, List.append_nil]

/-! ## Literals -/

/--
A text between quotes: `body` stands for `text`. A character other than the quote and the
backslash stands for itself, and a backslash makes one of the character after it.
-/
inductive LiteralSpelling (quote : Char) : List Char → List Char → Prop where
  | nil : LiteralSpelling quote [] []
  | plain {c : Char} {body text : List Char} :
      c ≠ quote → c ≠ '\\' → LiteralSpelling quote body text →
      LiteralSpelling quote (c :: body) (c :: text)
  | escaped (c : Char) {body text : List Char} :
      LiteralSpelling quote body text →
      LiteralSpelling quote ('\\' :: c :: body) (unescape c :: text)

/-- The characters between which a literal stands. -/
def IsQuote (c : Char) : Prop := c = '\'' ∨ c = '"'

theorem IsQuote.ne_backslash {c : Char} (h : IsQuote c) : c ≠ '\\' := by
  rintro rfl
  revert h
  simp [IsQuote]

/-- A literal is taken up to its closing quote. -/
theorem literalText_spelling {quote : Char} (hquote : IsQuote quote) {body text : List Char}
    (h : LiteralSpelling quote body text) (rest : List Char) (n : Nat) :
    literalText quote (body ++ quote :: rest) n = .ok (text, ⟨rest, n + (body.length + 1)⟩) := by
  induction h generalizing n with
  | nil =>
      rw [List.nil_append, literalText.eq_def]
      simp
  | @plain c body text hne hback _ ih =>
      rw [List.cons_append, literalText.eq_def]
      simp only [if_neg hne, if_neg hback, ih, List.length_cons, bind, Except.bind, pure,
        Except.pure]
      congr 3
      omega
  | @escaped c body text _ ih =>
      rw [List.cons_append, List.cons_append, literalText.eq_def]
      simp only [if_neg hquote.ne_backslash.symm, if_true, ih, List.length_cons, bind, Except.bind,
        pure, Except.pure]
      congr 3
      omega

/-- Whatever is taken as a literal is spelled that way, with the quote that ends it. -/
theorem literalText_sound {quote : Char} {cs text : List Char} {n : Nat} {c : Cursor}
    (h : literalText quote cs n = .ok (text, c)) :
    ∃ body, LiteralSpelling quote body text ∧ cs = body ++ quote :: c.rest := by
  fun_induction literalText quote cs n generalizing text c with
  | case1 n => cases h
  | case2 rest n =>
      cases h
      exact ⟨[], .nil, rfl⟩
  | case3 n hne => cases h
  | case4 n next more hne ih =>
      obtain ⟨⟨text, after⟩, hread, hdone⟩ := bind_eq_ok h
      cases hdone
      obtain ⟨body, hbody, hcs⟩ := ih hread
      exact ⟨'\\' :: next :: body, .escaped next hbody, by simp [hcs]⟩
  | case5 first rest n hne hplain ih =>
      obtain ⟨⟨text, after⟩, hread, hdone⟩ := bind_eq_ok h
      cases hdone
      obtain ⟨body, hbody, hcs⟩ := ih hread
      exact ⟨first :: body, .plain hne hplain hbody, by simp [hcs]⟩

/-- Every text can be written between double quotes. -/
theorem exists_literalSpelling (text : List Char) : ∃ body, LiteralSpelling '"' body text := by
  induction text with
  | nil => exact ⟨[], .nil⟩
  | cons c text ih =>
      obtain ⟨body, hbody⟩ := ih
      by_cases hquote : c = '"'
      · subst hquote
        exact ⟨'\\' :: '"' :: body, .escaped '"' hbody⟩
      · by_cases hback : c = '\\'
        · subst hback
          exact ⟨'\\' :: '\\' :: body, .escaped '\\' hbody⟩
        · exact ⟨c :: body, .plain hquote hback hbody⟩

/-! ## Patterns -/

/--
A text between slashes: `body` stands for the pattern `source`. A backslash keeps its place
before every character but the slash.
-/
inductive PatternSpelling : List Char → List Char → Prop where
  | nil : PatternSpelling [] []
  | plain {c : Char} {body source : List Char} :
      c ≠ '\\' → c ≠ '\n' → c ≠ '/' → PatternSpelling body source →
      PatternSpelling (c :: body) (c :: source)
  | slash {body source : List Char} :
      PatternSpelling body source → PatternSpelling ('\\' :: '/' :: body) ('/' :: source)
  | escaped {c : Char} {body source : List Char} :
      c ≠ '/' → PatternSpelling body source →
      PatternSpelling ('\\' :: c :: body) ('\\' :: c :: source)

/-- What is spelled is taken, and then what follows it. -/
theorem patternText_append {body source : List Char} (h : PatternSpelling body source)
    (more : List Char) (n : Nat) :
    patternText (body ++ more) n =
      (patternText more (n + body.length)).map fun r => (source ++ r.1, r.2) := by
  induction h generalizing n with
  | nil =>
      rw [List.nil_append, List.length_nil, Nat.add_zero]
      cases patternText more n <;> rfl
  | @plain c body source hback hline hslash _ ih =>
      have hlength : n + 1 + body.length = n + (c :: body).length := by
        rw [List.length_cons]
        omega
      rw [List.cons_append, patternText, ih, hlength]
      · cases patternText more (n + (c :: body).length) <;> rfl
      all_goals simp_all
  | @slash body source _ ih =>
      have hlength : n + 2 + body.length = n + ('\\' :: '/' :: body).length := by
        rw [List.length_cons, List.length_cons]
        omega
      rw [List.cons_append, List.cons_append, patternText, ih, hlength]
      cases patternText more (n + ('\\' :: '/' :: body).length) <;> rfl
  | @escaped c body source hslash _ ih =>
      have hlength : n + 2 + body.length = n + ('\\' :: c :: body).length := by
        rw [List.length_cons, List.length_cons]
        omega
      rw [List.cons_append, List.cons_append, patternText, ih, hlength]
      · cases patternText more (n + ('\\' :: c :: body).length) <;> rfl
      · simpa using hslash

/-- A pattern is taken up to the slash that ends it. -/
theorem patternText_spelling {body source : List Char} (h : PatternSpelling body source)
    (rest : List Char) (n : Nat) :
    patternText (body ++ '/' :: rest) n = .ok (source, ⟨rest, n + (body.length + 1)⟩) := by
  rw [patternText_append h, patternText, Except.map, List.append_nil, Nat.add_assoc]

/-- Whatever is taken as a pattern is spelled that way, with the slash that ends it. -/
theorem patternText_sound {cs source : List Char} {n : Nat} {c : Cursor}
    (h : patternText cs n = .ok (source, c)) :
    ∃ body, PatternSpelling body source ∧ cs = body ++ '/' :: c.rest
      ∧ c.offset = n + (body.length + 1) := by
  fun_induction patternText cs n generalizing source c with
  | case1 n => cases h
  | case2 rest n => cases h
  | case3 rest n =>
      cases h
      exact ⟨[], .nil, rfl, rfl⟩
  | case4 n => cases h
  | case5 rest n ih =>
      obtain ⟨⟨text, after⟩, hread, hdone⟩ := bind_eq_ok h
      cases hdone
      obtain ⟨body, hbody, hcs, hoffset⟩ := ih hread
      refine ⟨'\\' :: '/' :: body, .slash hbody, by simp [hcs], ?_⟩
      simp only [List.length_cons]
      omega
  | case6 next rest n hnext ih =>
      obtain ⟨⟨text, after⟩, hread, hdone⟩ := bind_eq_ok h
      cases hdone
      obtain ⟨body, hbody, hcs, hoffset⟩ := ih hread
      refine ⟨'\\' :: next :: body, .escaped (by simpa using hnext) hbody, by simp [hcs], ?_⟩
      simp only [List.length_cons]
      omega
  | case7 first rest n hline hslash hend hescape hmore ih =>
      obtain ⟨⟨text, after⟩, hread, hdone⟩ := bind_eq_ok h
      cases hdone
      obtain ⟨body, hbody, hcs, hoffset⟩ := ih hread
      have hplain : first ≠ '\\' := by
        rintro rfl
        cases rest with
        | nil => exact hend rfl rfl
        | cons next rest => exact hmore next rest rfl rfl
      refine ⟨first :: body, .plain hplain hline hslash hbody, by simp [hcs], ?_⟩
      simp only [List.length_cons]
      omega

/-! ## Flags -/

def IsFlagLetter (c : Char) : Prop := (flagOfLetter c).isSome = true

/-- The union of the flags that letters stand for. -/
def flagBits (letters : List Char) : Nat :=
  letters.foldr (fun c bits => (flagOfLetter c).getD 0 ||| bits) 0

/-- The flags are those of all letters that follow. -/
theorem flagLettersOf_append {letters rest : List Char} (h : ∀ c ∈ letters, IsFlagLetter c)
    (hrest : ∀ c ∈ rest.head?, (flagOfLetter c).isSome = false) :
    flagLettersOf (letters ++ rest) = (flagBits letters, letters.length) := by
  induction letters with
  | nil =>
      cases rest with
      | nil => rfl
      | cons c rest =>
          have hnone : flagOfLetter c = none := by simpa using hrest c rfl
          simp [flagLettersOf, hnone, flagBits]
  | cons c letters ih =>
      obtain ⟨bit, hbit⟩ := Option.isSome_iff_exists.mp (h c List.mem_cons_self)
      have hmore := ih fun c hmem => h c (List.mem_cons_of_mem _ hmem)
      simp only [List.cons_append, flagLettersOf, hbit, hmore, List.length_cons]
      simp [flagBits, hbit]

/-- Letters are taken as flags up to a character that is no flag. -/
theorem flagLettersOf_sound (cs : List Char) :
    ∃ letters rest, cs = letters ++ rest ∧ (∀ c ∈ letters, IsFlagLetter c)
      ∧ (∀ c ∈ rest.head?, (flagOfLetter c).isSome = false)
      ∧ flagLettersOf cs = (flagBits letters, letters.length) := by
  induction cs with
  | nil =>
      exact ⟨[], [], rfl, fun _ h => absurd h List.not_mem_nil,
        fun _ h => absurd h (Option.not_mem_none _), rfl⟩
  | cons c cs ih =>
      obtain ⟨letters, rest, hcs, hletters, hrest, hflags⟩ := ih
      cases hbit : flagOfLetter c with
      | none =>
          refine ⟨[], c :: cs, rfl, fun _ h => absurd h List.not_mem_nil, ?_, ?_⟩
          · rintro _ ⟨⟩
            simp [hbit]
          · simp [flagLettersOf, hbit, flagBits]
      | some bit =>
          refine ⟨c :: letters, rest, by rw [hcs, List.cons_append], ?_, hrest, ?_⟩
          · intro d hd
            rcases List.mem_cons.mp hd with rfl | hd
            · simp [IsFlagLetter, hbit]
            · exact hletters d hd
          · simp only [flagLettersOf, hbit, hflags, List.length_cons]
            simp [flagBits, hbit]

end TextGrammar
