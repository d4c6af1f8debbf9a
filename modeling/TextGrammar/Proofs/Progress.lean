import TextGrammar.Grammar.Reader
import TextGrammar.Pattern.BuiltIn
import TextGrammar.Proofs.Spelling

/-!
# Reading moves forward or says what is wrong

Every function of the reader, wherever it starts, either stops further on in the same text or
fails with a fault that the text from there on explains (`Advances`). Since an item always
takes a character, the fuel that the reader starts with never runs out.

Three things explain a fault: a problem that is noticed at an offset of the text, a count whose
digits are no number, and a pattern that is refused although it is not malformed, for its flags
or for a number in it. Only the first is worded as a fault of grammar text
(`readGrammar_faults`).
-/

namespace TextGrammar

/-! ## Places further on -/

/-- The second cursor is further on in the text of the first, by `n` characters or more. -/
def Cursor.Leads (n : Nat) (c after : Cursor) : Prop :=
  ∃ taken, c.rest = taken ++ after.rest ∧ after.offset = c.offset + taken.length
    ∧ n ≤ taken.length

namespace Cursor.Leads

variable {m n : Nat} {c d e : Cursor}

theorem refl (c : Cursor) : Leads 0 c c := ⟨[], rfl, rfl, Nat.le_refl 0⟩

theorem trans (h : Leads m c d) (h' : Leads n d e) : Leads (m + n) c e := by
  obtain ⟨front, hfront, hoffset, hm⟩ := h
  obtain ⟨back, hback, hoffset', hn⟩ := h'
  refine ⟨front ++ back, by rw [hfront, hback, List.append_assoc], ?_, ?_⟩
  · rw [hoffset', hoffset, List.length_append, Nat.add_assoc]
  · rw [List.length_append]
    omega

theorem weaken (h : Leads m c d) (hle : n ≤ m) : Leads n c d := by
  obtain ⟨taken, hrest, hoffset, hm⟩ := h
  exact ⟨taken, hrest, hoffset, Nat.le_trans hle hm⟩

theorem length_le (h : Leads n c d) : d.rest.length + n ≤ c.rest.length := by
  obtain ⟨taken, hrest, -, hn⟩ := h
  rw [hrest, List.length_append]
  omega

theorem skip (c : Cursor) : Leads 0 c c.skip := by
  obtain ⟨gap, hrest, hoffset, -⟩ := c.skip_sound
  exact ⟨gap, hrest, hoffset, Nat.zero_le _⟩

theorem advance {taken rest : List Char} (h : c.rest = taken ++ rest) :
    Leads taken.length c (c.advance taken.length) := by
  refine ⟨taken, ?_, rfl, Nat.le_refl _⟩
  rw [Cursor.advance, h, List.drop_left]

theorem advance_one {first : Char} {rest : List Char} (h : c.rest = first :: rest) :
    Leads 1 c (c.advance 1) :=
  @advance c [first] rest h

end Cursor.Leads

theorem leads_one (first : Char) (rest : List Char) (n : Nat) :
    Cursor.Leads 1 ⟨first :: rest, n⟩ ⟨rest, n + 1⟩ :=
  ⟨[first], rfl, rfl, Nat.le_refl 1⟩

theorem leads_two (first second : Char) (rest : List Char) (n : Nat) :
    Cursor.Leads 2 ⟨first :: second :: rest, n⟩ ⟨rest, n + 2⟩ :=
  ⟨[first, second], rfl, rfl, Nat.le_refl 2⟩

/-- A literal that is accepted stands past blanks and comments. -/
theorem accept_found {c after : Cursor} {literal : List Char}
    (h : c.accept literal = (true, after)) :
    ∃ rest, c.skip.rest = literal ++ rest ∧ after = c.skip.advance literal.length := by
  rw [Cursor.accept] at h
  split at h
  · rename_i hprefix
    obtain ⟨rest, hrest⟩ := List.isPrefixOf_iff_prefix.mp hprefix
    cases h
    exact ⟨rest, hrest.symm, rfl⟩
  · cases h

theorem accept_missed {c after : Cursor} {literal : List Char}
    (h : c.accept literal = (false, after)) : after = c.skip := by
  rw [Cursor.accept] at h
  split at h
  · cases h
  · cases h
    rfl

/-! ## What explains a fault -/

/-- The digits stand where a bound is read, and they are no number. -/
def UnreadableCount (text digits : List Char) : Prop :=
  ∃ sign gap more, (sign = '{' ∨ sign = ',') ∧ Layout gap
    ∧ text = sign :: (gap ++ (digits ++ more)) ∧ digits ≠ []
    ∧ (∀ c ∈ digits, isDigit c = true) ∧ (∀ c ∈ more.head?, isDigit c = false)
    ∧ ¬Readable digits

section Engines

variable [PatternEngine]

/-- The text starts with a pattern that is refused, but not because it is malformed. -/
def RefusedPattern (text source : List Char) (e : PatternFault) : Prop :=
  ∃ body letters more, text = '/' :: (body ++ '/' :: (letters ++ more))
    ∧ PatternSpelling body source ∧ (∀ c ∈ letters, IsFlagLetter c)
    ∧ (∀ c ∈ more.head?, (flagOfLetter c).isSome = false)
    ∧ PatternEngine.compile source (flagBits letters) = .error e ∧ ∀ p, e ≠ .malformed p

/-- The text from the cursor on explains the fault. -/
inductive Cursor.Explains (c : Cursor) : Fault → Prop where
  | problem {after : Cursor} (p : GrammarProblem) :
      Cursor.Leads 0 c after → Explains c (.grammar ⟨after.offset, p⟩)
  | count {after : Cursor} {digits : List Char} (f : NumeralFault) :
      Cursor.Leads 0 c after → UnreadableCount after.rest digits →
      Explains c (.numeral (String.ofList digits) f)
  | pattern {after : Cursor} {source : List Char} {e : PatternFault} :
      Cursor.Leads 0 c after → RefusedPattern after.rest source e →
      Explains c (.ofPattern source e)

theorem RefusedPattern.kind {text source : List Char} {e : PatternFault}
    (h : RefusedPattern text source e) : (Fault.ofPattern source e).kind = "ValueError" := by
  obtain ⟨_, _, _, _, _, _, _, _, hnot⟩ := h
  cases e with
  | malformed p => exact absurd rfl (hnot p)
  | flagConflict => rfl
  | numeral digits n => rfl

theorem Cursor.Explains.kind {c : Cursor} {f : Fault} (h : c.Explains f) :
    f.kind = "SyntaxError" ∨ f.kind = "ValueError" := by
  cases h with
  | problem _ _ => exact .inl rfl
  | count _ _ _ => exact .inr rfl
  | pattern _ hpattern => exact .inr hpattern.kind

theorem Cursor.Explains.earlier {n : Nat} {c d : Cursor} {f : Fault} (h : Cursor.Leads n c d)
    (hf : d.Explains f) : c.Explains f := by
  have hcd : Cursor.Leads 0 c d := h.weaken (Nat.zero_le n)
  cases hf with
  | problem p hafter => exact .problem p (hcd.trans hafter)
  | count f hafter hcount => exact .count f (hcd.trans hafter) hcount
  | pattern hafter hpattern => exact .pattern (hcd.trans hafter) hpattern

/--
Reading from the cursor on stops at least `n` characters further on, or fails with a fault
that the text explains. `place` is where a result says that reading has stopped.
-/
def Advances {α : Type} (n : Nat) (place : α → Cursor) (c : Cursor) : Except Fault α → Prop
  | .ok a => Cursor.Leads n c (place a)
  | .error f => c.Explains f

namespace Advances

variable {α β : Type} {m n : Nat} {place : α → Cursor} {place' : β → Cursor} {c d : Cursor}

theorem weaken {x : Except Fault α} (h : Advances m place c x) (hle : n ≤ m) :
    Advances n place c x := by
  cases x with
  | ok a => exact Cursor.Leads.weaken h hle
  | error f => exact h

/-- What is read from a place further on is read from here on. -/
theorem earlier {x : Except Fault α} (hcd : Cursor.Leads m c d) (h : Advances n place d x) :
    Advances (m + n) place c x := by
  cases x with
  | ok a => exact hcd.trans h
  | error f => exact Cursor.Explains.earlier hcd h

theorem bind {x : Except Fault α} {f : α → Except Fault β} (hx : Advances m place c x)
    (hf : ∀ a, Cursor.Leads m c (place a) → Advances n place' (place a) (f a)) :
    Advances (m + n) place' c (x >>= f) := by
  cases x with
  | ok a => exact earlier hx (hf a hx)
  | error f => exact hx

/-- The steps that follow need not move on. -/
theorem andThen {x : Except Fault α} {f : α → Except Fault β} (hx : Advances m place c x)
    (hf : ∀ a, Cursor.Leads m c (place a) → Advances 0 place' (place a) (f a)) :
    Advances m place' c (x >>= f) :=
  bind hx hf

/-- Building a result from what has been read leaves the place as it is. -/
theorem build {x : Except Fault (α × Cursor)} (h : Advances n Prod.snd c x) (g : α → β) :
    Advances n Prod.snd c (do
      let (a, after) ← x
      return (g a, after)) :=
  h.andThen fun a _ => Cursor.Leads.refl a.2

theorem fail (p : GrammarProblem) : Advances n place c (c.fail p) := .problem p (.refl c)

end Advances

/-! ## Moving -/

section Moving

variable {c : Cursor}

theorem expect_advances (literal : List Char) :
    Advances literal.length id c (c.expect literal) := by
  rw [Cursor.expect]
  split
  · rename_i after h
    obtain ⟨rest, hrest, rfl⟩ := accept_found h
    exact ((Cursor.Leads.skip c).trans (.advance hrest)).weaken (by omega)
  · rename_i after h
    rw [accept_missed h]
    exact .problem _ (.skip c)

theorem name_advances : Advances 1 Prod.snd c c.name := by
  rw [Cursor.name]
  dsimp only
  split
  · exact .problem _ (.skip c)
  · rename_i first rest hrest
    split
    · have htaken : c.skip.rest
          = (first :: rest.takeWhile Cursor.continuesName) ++ rest.dropWhile Cursor.continuesName := by
        rw [hrest, List.cons_append, List.takeWhile_append_dropWhile]
      have hadvance := (Cursor.Leads.skip c).trans (Cursor.Leads.advance htaken)
      exact Cursor.Leads.weaken hadvance (by simp)
    · exact .problem _ (.skip c)

/-- A count is read after the sign that announces it; a fault is explained from the sign on. -/
theorem number_advances {sign : Char} {rest : List Char} (hsign : sign = '{' ∨ sign = ',')
    (hrest : c.rest = sign :: rest) : Advances 1 Prod.snd c (c.advance 1).number := by
  have hsigned : Cursor.Leads 1 c (c.advance 1) := .advance_one hrest
  have hskip := hsigned.trans (.skip (c.advance 1))
  rw [Cursor.number]
  dsimp only
  split
  · exact hskip
  · rename_i hdigits
    obtain ⟨more, htaken, hall, hmore⟩ := takeWhile_split isDigit (c.advance 1).skip.rest
    split
    · exact Cursor.Leads.weaken (hskip.trans (.advance htaken)) (by omega)
    · rename_i f hread
      refine .count f (.refl c) ?_
      obtain ⟨gap, hgap, -, -, hlayout⟩ := (c.advance 1).skip_sound
      have hrestEq : (c.advance 1).rest = rest := by simp [Cursor.advance, hrest]
      have hne : (c.advance 1).skip.rest.takeWhile isDigit ≠ [] := by simpa using hdigits
      refine ⟨sign, gap, more, hsign, ?_, ?_, hne, hall, hmore, ?_⟩
      · -- digits follow, so that no comment is left open
        rcases hlayout with hlayout | ⟨hnil, -⟩
        · exact hlayout
        · rw [hnil] at hne
          exact absurd rfl hne
      · rw [hrest, ← hrestEq, ← htaken, ← hgap]
      · intro hreadable
        rw [readInteger_decimals hne hreadable] at hread
        cases hread

end Moving

/-! ## Bounds -/

section Bounds

variable {c : Cursor} {node : Rule}

theorem repeatedRule_advances (min max : Option Nat) :
    Advances 0 Prod.snd c (repeatedRule node min max c) := by
  rw [repeatedRule]
  split
  · exact Cursor.Leads.refl c
  · exact .fail _

theorem bracedBounds_advances {rest : List Char} (hrest : c.rest = '{' :: rest) :
    Advances 1 Prod.snd c (bracedBounds (c.advance 1)) := by
  refine (number_advances (.inl rfl) hrest).andThen fun low _ => ?_
  obtain ⟨low, c₁⟩ := low
  dsimp only
  split
  · rename_i c₂ haccept
    obtain ⟨rest, hcomma, rfl⟩ := accept_found haccept
    refine (Advances.earlier (n := 1) (.skip c₁) ?_).weaken (Nat.zero_le _)
    refine (number_advances (.inr rfl) hcomma).andThen fun high _ => ?_
    refine ((expect_advances ['}']).andThen fun after _ => ?_).weaken (Nat.zero_le _)
    exact Cursor.Leads.refl after
  · rename_i c₂ haccept
    rw [accept_missed haccept]
    refine Advances.earlier (n := 0) (.skip c₁) ?_
    cases low with
    | none => exact .fail _
    | some n =>
        refine ((expect_advances ['}']).andThen fun after _ => ?_).weaken (Nat.zero_le _)
        exact Cursor.Leads.refl after

theorem withSuffix_advances : Advances 0 Prod.snd c (withSuffix node c) := by
  refine Advances.earlier (n := 0) (.skip c) ?_
  dsimp only [withSuffix]
  split
  · rename_i rest hrest
    exact ((repeatedRule_advances _ _).earlier (.advance_one hrest)).weaken (Nat.zero_le _)
  · rename_i rest hrest
    exact ((repeatedRule_advances _ _).earlier (.advance_one hrest)).weaken (Nat.zero_le _)
  · rename_i rest hrest
    exact ((repeatedRule_advances _ _).earlier (.advance_one hrest)).weaken (Nat.zero_le _)
  · rename_i rest hrest
    refine Advances.weaken ?_ (Nat.zero_le 1)
    exact (bracedBounds_advances hrest).andThen fun _ _ => repeatedRule_advances _ _
  · exact Cursor.Leads.refl _

end Bounds

/-! ## Tokens -/

section Tokens

theorem patternText_advances (cs : List Char) (n : Nat) :
    Advances 1 Prod.snd ⟨cs, n⟩ (patternText cs n) := by
  fun_induction patternText cs n with
  | case1 n => exact .fail _
  | case2 rest n => exact .fail _
  | case3 rest n => exact leads_one '/' rest n
  | case4 n => exact .problem _ ((leads_one '\\' [] n).weaken (Nat.zero_le _))
  | case5 rest n ih =>
      have hrest := (ih.build ('/' :: ·)).earlier (leads_two '\\' '/' rest n)
      exact hrest.weaken (by omega)
  | case6 next rest n _ ih =>
      have hrest := (ih.build ('\\' :: next :: ·)).earlier (leads_two '\\' next rest n)
      exact hrest.weaken (by omega)
  | case7 first rest n _ _ _ _ _ ih =>
      have hrest := (ih.build (first :: ·)).earlier (leads_one first rest n)
      exact hrest.weaken (by omega)

theorem literalText_advances (quote : Char) (cs : List Char) (n : Nat) :
    Advances 1 Prod.snd ⟨cs, n⟩ (literalText quote cs n) := by
  fun_induction literalText quote cs n with
  | case1 n => exact .fail _
  | case2 rest n => exact leads_one quote rest n
  | case3 n h => exact .problem _ ((leads_one '\\' [] n).weaken (Nat.zero_le _))
  | case4 n next more h ih =>
      have hrest := (ih.build (unescape next :: ·)).earlier (leads_two '\\' next more n)
      exact hrest.weaken (by omega)
  | case5 first rest n h h' ih =>
      have hrest := (ih.build (first :: ·)).earlier (leads_one first rest n)
      exact hrest.weaken (by omega)

variable {c : Cursor} {rest : List Char}

theorem quotedToken_advances {quote : Char} (hrest : c.rest = quote :: rest) :
    Advances 1 Prod.snd c (quotedToken quote c) := by
  have hopen : Cursor.Leads 1 c ⟨c.rest.drop 1, c.offset + 1⟩ := .advance_one hrest
  have htext := (literalText_advances quote (c.rest.drop 1) (c.offset + 1)).earlier hopen
  refine (htext.andThen fun text _ => ?_).weaken (by omega)
  obtain ⟨text, after⟩ := text
  dsimp only
  rw [literalToken_eq]
  exact Cursor.Leads.refl after

/-- Making a token fails if the pattern is refused, and mostly because it is malformed. -/
theorem make_error {source : List Char} {flags : Flags} {f : Fault}
    (h : Token.make (String.ofList source) flags = .error f) :
    (∃ p, f = .pattern source p)
      ∨ ∃ e, f = .ofPattern source e ∧ PatternEngine.compile source flags.bits = .error e
        ∧ ∀ p, e ≠ .malformed p := by
  obtain ⟨e, hcompile, rfl⟩ := Token.make_eq_error_iff.mp h
  rw [String.toList_ofList] at hcompile ⊢
  cases e with
  | malformed p => exact .inl ⟨p, rfl⟩
  | flagConflict => exact .inr ⟨_, rfl, hcompile, nofun⟩
  | numeral digits n => exact .inr ⟨_, rfl, hcompile, nofun⟩

theorem patternToken_advances (hrest : c.rest = '/' :: rest) :
    Advances 1 Prod.snd c (patternToken c) := by
  have hslash : Solid c.rest := by
    rw [hrest]
    exact .cons (by decide) (by decide)
  have hexpect : c.expect ['/'] = .ok (c.advance 1) := by
    simp [Cursor.expect, Cursor.accept, c.skip_of_solid hslash, hrest, List.isPrefixOf]
  have hopen : Cursor.Leads 1 c (c.advance 1) := .advance_one hrest
  have htext := (patternText_advances (c.advance 1).rest (c.advance 1).offset).earlier hopen
  simp only [patternToken, hexpect, bind, Except.bind]
  cases hread : patternText (c.advance 1).rest (c.advance 1).offset with
  | error f =>
      rw [hread] at htext
      exact htext
  | ok result =>
      obtain ⟨source, c₁⟩ := result
      rw [hread] at htext
      obtain ⟨body, hbody, hcs, -⟩ := patternText_sound hread
      obtain ⟨letters, more, hc₁, hletters, hmore, hflags⟩ := flagLettersOf_sound c₁.rest
      have hafter := Cursor.Leads.trans htext (.advance hc₁)
      simp only [hflags]
      cases hmake : Token.make (String.ofList source) ⟨flagBits letters, .letters⟩ with
      | ok t => exact Cursor.Leads.weaken hafter (by omega)
      | error f =>
          rcases make_error hmake with ⟨p, rfl⟩ | ⟨e, rfl, hrefused⟩
          · exact .problem _ (hafter.weaken (Nat.zero_le _))
          · have hfails : c.Explains (.ofPattern source e) := by
              refine .pattern (.refl c) ⟨body, letters, more, ?_, hbody, hletters, hmore, hrefused⟩
              have hinside : (c.advance 1).rest = rest := by simp [Cursor.advance, hrest]
              rw [hrest, ← hinside, hcs, hc₁]
            cases e with
            | malformed p => exact absurd rfl (hrefused.2 p)
            | flagConflict => exact hfails
            | numeral digits n => exact hfails

end Tokens

/-! ## Readers -/

/-- With this fuel, each function of the reader moves on from every cursor that has room for it. -/
structure ReadersAdvance (fuel : Nat) : Prop where
  expression : ∀ c : Cursor, 4 * c.rest.length + 4 ≤ fuel →
    Advances 0 Prod.snd c (readExpression fuel c)
  alternatives : ∀ c : Cursor, 4 * c.rest.length + 1 ≤ fuel →
    Advances 0 Prod.snd c (readAlternatives fuel c)
  items : ∀ c : Cursor, 4 * c.rest.length + 3 ≤ fuel → Advances 0 Prod.snd c (readItems fuel c)
  /-- An item takes a character, so that the items after it have less before them. -/
  item : ∀ c : Cursor, 4 * c.rest.length + 2 ≤ fuel → Advances 1 Prod.snd c (readItem fuel c)
  primary : ∀ c : Cursor, 4 * c.rest.length + 1 ≤ fuel →
    Advances 1 Prod.snd c (readPrimary fuel c)

section Readers

variable {fuel : Nat} {c : Cursor}

theorem ReadersAdvance.readExpression (h : ReadersAdvance fuel)
    (hfuel : 4 * c.rest.length + 4 ≤ fuel + 1) :
    Advances 0 Prod.snd c (readExpression (fuel + 1) c) := by
  rw [TextGrammar.readExpression]
  refine (h.items c (by omega)).andThen fun first hfirst => ?_
  obtain ⟨first, after⟩ := first
  have hless : after.rest.length + 0 ≤ c.rest.length := hfirst.length_le
  exact (h.alternatives after (by omega)).build (choiceOf <| sequenceOf first :: ·)

theorem ReadersAdvance.readAlternatives (h : ReadersAdvance fuel)
    (hfuel : 4 * c.rest.length + 1 ≤ fuel + 1) :
    Advances 0 Prod.snd c (readAlternatives (fuel + 1) c) := by
  rw [TextGrammar.readAlternatives]
  split
  · rename_i after haccept
    rw [accept_missed haccept]
    exact Cursor.Leads.skip c
  · rename_i after haccept
    obtain ⟨rest, hbar, rfl⟩ := accept_found haccept
    have hbarLeads := (Cursor.Leads.skip c).trans (.advance hbar)
    have hless := hbarLeads.length_le
    refine Advances.weaken (Advances.earlier (n := 0) hbarLeads ?_) (Nat.zero_le _)
    refine (h.items _ (by simp at hless ⊢; omega)).andThen fun items hitems => ?_
    obtain ⟨items, after⟩ := items
    have hlessItems : after.rest.length + 0 ≤ _ := hitems.length_le
    exact (h.alternatives after (by simp at hless hlessItems; omega)).build
      (sequenceOf items :: ·)

theorem ReadersAdvance.readItems (h : ReadersAdvance fuel)
    (hfuel : 4 * c.rest.length + 3 ≤ fuel + 1) :
    Advances 0 Prod.snd c (readItems (fuel + 1) c) := by
  have hskip := (Cursor.Leads.skip c).length_le
  rw [TextGrammar.readItems]
  dsimp only
  split
  · exact Cursor.Leads.skip c
  · refine Advances.weaken (Advances.earlier (n := 1) (.skip c) ?_) (Nat.zero_le _)
    refine (h.item _ (by omega)).andThen fun item hitem => ?_
    obtain ⟨item, after⟩ := item
    have hless : after.rest.length + 1 ≤ c.skip.rest.length := hitem.length_le
    exact (h.items after (by omega)).build (item :: ·)

theorem ReadersAdvance.readItem (h : ReadersAdvance fuel)
    (hfuel : 4 * c.rest.length + 2 ≤ fuel + 1) :
    Advances 1 Prod.snd c (readItem (fuel + 1) c) := by
  have hskip := (Cursor.Leads.skip c).length_le
  rw [TextGrammar.readItem]
  refine (Advances.earlier (n := 1) (.skip c) ?_).weaken (by omega)
  split
  · refine name_advances.andThen fun name hname => ?_
    obtain ⟨tag, named⟩ := name
    refine ((expect_advances [':']).andThen fun after hafter => ?_).weaken (Nat.zero_le _)
    have hless : named.rest.length + 1 ≤ c.skip.rest.length := hname.length_le
    have hlessAfter : after.rest.length + 1 ≤ named.rest.length := hafter.length_le
    exact ((h.item after (by omega)).build (Rule.tagged tag)).weaken (Nat.zero_le _)
  · exact (h.primary _ (by omega)).andThen fun node _ => withSuffix_advances

theorem ReadersAdvance.readPrimary (h : ReadersAdvance fuel)
    (hfuel : 4 * c.rest.length + 1 ≤ fuel + 1) :
    Advances 1 Prod.snd c (readPrimary (fuel + 1) c) := by
  have hskip := (Cursor.Leads.skip c).length_le
  rw [TextGrammar.readPrimary]
  refine (Advances.earlier (n := 1) (.skip c) ?_).weaken (by omega)
  split
  · exact .fail _
  · rename_i rest hrest
    have hopen : Cursor.Leads 1 c.skip (c.skip.advance 1) := .advance_one hrest
    have hless := hopen.length_le
    refine Advances.earlier (n := 0) hopen ?_
    refine (h.expression _ (by omega)).andThen fun node _ => ?_
    refine ((expect_advances [')']).andThen fun after _ => ?_).weaken (Nat.zero_le _)
    exact Cursor.Leads.refl after
  · rename_i rest hrest
    exact (patternToken_advances hrest).build Rule.token
  · rename_i first rest _ _ hrest
    split
    · exact (quotedToken_advances hrest).build Rule.token
    · split
      · exact name_advances.build Rule.ref
      · exact .fail _

/-- Every function of the reader moves on, or fails with a fault that the text explains. -/
theorem readersAdvance (fuel : Nat) : ReadersAdvance fuel := by
  induction fuel with
  | zero =>
      constructor <;> intro c hfuel <;> omega
  | succ fuel ih =>
      exact ⟨fun _ => ih.readExpression, fun _ => ih.readAlternatives, fun _ => ih.readItems,
        fun _ => ih.readItem, fun _ => ih.readPrimary⟩

end Readers

/-! ## Grammar texts -/

/-- Reading to the end finds rules, or fails with a fault that the text explains. -/
def FindsRules (c : Cursor) : Except Fault Rules → Prop
  | .ok rules => rules ≠ []
  | .error f => c.Explains f

theorem FindsRules.earlier {n : Nat} {c d : Cursor} {x : Except Fault Rules}
    (hcd : Cursor.Leads n c d) (h : FindsRules d x) : FindsRules c x := by
  cases x with
  | ok rules => exact h
  | error f => exact Cursor.Explains.earlier hcd h

theorem FindsRules.after {α : Type} {n : Nat} {place : α → Cursor} {c : Cursor}
    {x : Except Fault α} {f : α → Except Fault Rules} (hx : Advances n place c x)
    (hf : ∀ a, Cursor.Leads n c (place a) → FindsRules (place a) (f a)) :
    FindsRules c (x >>= f) := by
  cases x with
  | ok a => exact .earlier hx (hf a hx)
  | error f => exact hx

theorem readRules_finds {depth fuel : Nat} {rules : Rules} {c : Cursor}
    (hdepth : 4 * c.rest.length + 4 ≤ depth) (hfuel : c.rest.length < fuel) :
    FindsRules c (readRules depth fuel rules c) := by
  induction fuel generalizing rules c with
  | zero => exact absurd hfuel (Nat.not_lt_zero _)
  | succ fuel ih =>
      have hskip := (Cursor.Leads.skip c).length_le
      rw [readRules]
      refine .earlier (.skip c) ?_
      split
      · split
        · exact .problem _ (.refl _)
        · rename_i hsome
          exact fun hnil => hsome (by rw [hnil]; rfl)
      · refine .after name_advances fun name hname => ?_
        obtain ⟨name, named⟩ := name
        refine .after (expect_advances ['<', '-']) fun arrow harrow => ?_
        have hless : named.rest.length + 1 ≤ c.skip.rest.length := hname.length_le
        have hlessArrow : arrow.rest.length + 2 ≤ named.rest.length := harrow.length_le
        refine .after ((readersAdvance depth).expression arrow (by omega)) fun body hbody => ?_
        obtain ⟨body, after⟩ := body
        have hlessBody : after.rest.length + 0 ≤ arrow.rest.length := hbody.length_le
        dsimp only
        split
        · exact .problem _ (.refl _)
        · exact ih (by omega) (by omega)

/--
**What reading a grammar text can come to.** A text is read as rules, of which there is at least
one, or refused as faulty grammar text. Otherwise a count in the text cannot be read as a
number, or a pattern in it is refused although it is not malformed.
-/
theorem readGrammar_faults (source : List Char) :
    (∃ rules, readGrammar source = .ok rules ∧ rules ≠ [])
      ∨ (∃ f, readGrammar source = .error f ∧ f.kind = "SyntaxError")
      ∨ (∃ digits f, readGrammar source = .error (.numeral (String.ofList digits) f)
          ∧ ∃ front text, source = front ++ text ∧ UnreadableCount text digits)
      ∨ (∃ pattern e, readGrammar source = .error (.ofPattern pattern e)
          ∧ ∃ front text, source = front ++ text ∧ RefusedPattern text pattern e) := by
  have hfinds : FindsRules (.start source) (readGrammar source) :=
    readRules_finds (Nat.le_refl _) (Nat.lt_succ_self _)
  cases hread : readGrammar source with
  | ok rules =>
      rw [hread] at hfinds
      exact .inl ⟨rules, rfl, hfinds⟩
  | error f =>
      rw [hread] at hfinds
      have hexplains : (Cursor.start source).Explains f := hfinds
      cases hexplains with
      | problem p hafter => exact .inr (.inl ⟨_, rfl, rfl⟩)
      | count f hafter hcount =>
          obtain ⟨front, hfront, -⟩ := hafter
          exact .inr (.inr (.inl ⟨_, f, rfl, front, _, hfront, hcount⟩))
      | pattern hafter hpattern =>
          obtain ⟨front, hfront, -⟩ := hafter
          exact .inr (.inr (.inr ⟨_, _, rfl, front, _, hfront, hpattern⟩))

end Engines

/-- A superscript two is a digit that no number is written with. -/
theorem superscript_count_raises :
    ∃ f, readGrammar ['a', '<', '-', 'x', '{', '²', '}'] = .error f ∧ f.kind = "ValueError"
      ∧ f.message = "invalid literal for int() with base 10: '²'" :=
  ⟨.numeral "²" .malformed, rfl, rfl, by decide⟩

end TextGrammar
