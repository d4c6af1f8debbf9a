import TextGrammar.Grammar.Reader
import TextGrammar.Proofs.Endings
import TextGrammar.Proofs.Lexemes

/-!
# The syntax of grammar texts

Which tokens write a list of rules (`WrittenRules`), as one inductive relation over the parts
of the syntax. Parentheses may be put around any expression. A sequence has no items or at
least two of them, and a choice at least two alternatives, since one of either stands for
itself.

Rules whose names are names, whose literals and patterns can be spelled, and whose bounds do
not have too many digits can be written (`exists_grammarText`).
-/

namespace TextGrammar

/-- A part of the syntax, with the rules that it stands for. -/
inductive Phrase where
  | primary (r : Rule)
  | item (r : Rule)
  /-- Items one after the other. -/
  | items (rs : List Rule)
  | sequence (r : Rule)
  /-- Alternatives that each have a bar before them. -/
  | alternatives (rs : List Rule)
  | expression (r : Rule)

/-- A bound in braces, which may be left out. -/
def boundLexemes : Option Nat → List Lexeme
  | none => []
  | some n => [.number n]

/-- What stands in braces for a lower and an upper bound. -/
inductive Braced : Option Nat → Option Nat → List Lexeme → Prop where
  | exactly (n : Nat) : Braced (some n) (some n) [.number n]
  | range (low high : Option Nat) :
      Braced low high (boundLexemes low ++ .mark .comma :: boundLexemes high)

/-- What follows a primary for a lower and an upper bound. -/
inductive Suffix : Option Nat → Option Nat → List Lexeme → Prop where
  | optional : Suffix (some 0) (some 1) [.mark .question]
  | any : Suffix (some 0) none [.mark .star]
  | many : Suffix (some 1) none [.mark .plus]
  | braced {low high : Option Nat} {ls : List Lexeme} :
      Braced low high ls →
      Suffix low high (.mark .openBrace :: (ls ++ [.mark .closeBrace]))

/-! ## Tokens that have a text -/

/-- The numbers that can be written as a bound. -/
def WritableBound (bound : Option Nat) : Prop := ∀ n ∈ bound, n < 10 ^ digitLimit

/-- All tokens can be spelled. -/
def Spellable (ls : List Lexeme) : Prop := ∀ l ∈ ls, ∃ text, l.Spelled text

theorem Spellable.nil : Spellable [] := fun _ h => absurd h List.not_mem_nil

theorem Spellable.cons {l : Lexeme} {ls : List Lexeme} (hl : ∃ text, l.Spelled text)
    (hls : Spellable ls) : Spellable (l :: ls) := by
  intro l' hmem
  rcases List.mem_cons.mp hmem with rfl | hmem
  · exact hl
  · exact hls l' hmem

theorem Spellable.mark (m : Mark) {ls : List Lexeme} (hls : Spellable ls) :
    Spellable (.mark m :: ls) :=
  .cons ⟨_, .mark m⟩ hls

theorem Spellable.append {ls more : List Lexeme} (hls : Spellable ls) (hmore : Spellable more) :
    Spellable (ls ++ more) := by
  intro l hmem
  rcases List.mem_append.mp hmem with hmem | hmem
  · exact hls l hmem
  · exact hmore l hmem

theorem exists_spelled_name {n : String} (h : IsName n.toList) :
    ∃ text, (Lexeme.name n).Spelled text := by
  have hspelled := Lexeme.Spelled.name h
  rw [String.ofList_toList] at hspelled
  exact ⟨_, hspelled⟩

theorem spellable_bound {bound : Option Nat} (h : WritableBound bound) :
    Spellable (boundLexemes bound) := by
  cases bound with
  | none => exact .nil
  | some n =>
      obtain ⟨digits, hne, hdigits, rfl⟩ := exists_decimals (h n rfl)
      exact .cons ⟨_, .number hne hdigits⟩ .nil

/-- A blank may be put before the tokens. -/
theorem Arranged.blank {ls : List Lexeme} {cs : List Char} {d : Char}
    (hblank : Cursor.isSeparator d = true) (h : Arranged ls cs) : Arranged ls (d :: cs) := by
  cases h with
  | nil hgap => exact .nil (hgap.blank hblank)
  | cons hgap hspelled happart hrest => exact .cons (.blank hblank hgap) hspelled happart hrest

/-- No token goes on with a blank. -/
theorem Lexeme.goesOn_blank (l : Lexeme) {d : Char} (hblank : Cursor.isSeparator d = true) :
    l.goesOn d = false := by
  have hblanks : d = ' ' ∨ d = '\t' ∨ d = '\r' ∨ d = '\n' := by
    simpa [Cursor.isSeparator, or_assoc] using hblank
  have hname : Cursor.continuesName d = false := by
    rcases hblanks with rfl | rfl | rfl | rfl <;> decide
  have hnumber : isDigit d = false := by
    rcases hblanks with rfl | rfl | rfl | rfl <;> decide
  have hflag : (flagOfLetter d).isSome = false := by
    rcases hblanks with rfl | rfl | rfl | rfl <;> decide
  cases l with
  | name n => exact hname
  | number n => exact hnumber
  | pattern source bits => exact hflag
  | mark m | literal text => rfl

/-- Tokens with a blank between any two of them are arranged. -/
theorem exists_arranged {ls : List Lexeme} (h : Spellable ls) : ∃ cs, Arranged ls cs := by
  induction ls with
  | nil => exact ⟨[], .nil (.closed .nil)⟩
  | cons l ls ih =>
      obtain ⟨text, htext⟩ := h l List.mem_cons_self
      obtain ⟨cs, hcs⟩ := ih fun l' hmem => h l' (List.mem_cons_of_mem _ hmem)
      have hblank : Cursor.isSeparator ' ' = true := by decide
      refine ⟨[] ++ (text ++ ' ' :: cs), .cons .nil htext ?_ (hcs.blank hblank)⟩
      rintro _ ⟨⟩
      exact l.goesOn_blank hblank

/-! ## Rules and their tokens -/

/--
Lists of rules with the same names, in the same order, and the same structure. They may differ
in how the flags of a pattern are shown: flags that are read from a text are shown as letters.
-/
def SameRules (rules rules' : Rules) : Prop :=
  List.Forall₂ (fun e e' => e.1 = e'.1 ∧ e.2.same e'.2 = true) rules rules'

theorem Rule.sameAll_length {rs rs' : List Rule} (h : Rule.sameAll rs rs' = true) :
    rs.length = rs'.length := by
  induction rs generalizing rs' with
  | nil =>
      cases rs' with
      | nil => rfl
      | cons r' rs' => cases h
  | cons r rs ih =>
      cases rs' with
      | nil => cases h
      | cons r' rs' =>
          rw [Rule.sameAll, Bool.and_eq_true] at h
          rw [List.length_cons, List.length_cons, ih h.2]

variable [PatternEngine]

/-- The tokens are a way to write the part of the syntax. -/
inductive Written : Phrase → List Lexeme → Prop where
  | name (n : String) : Written (.primary (.ref n)) [.name n]
  | literal {text : List Char} {t : Token} :
      literalToken text = .ok t → Written (.primary (.token t)) [.literal text]
  | pattern {source : List Char} {bits : Nat} {t : Token} :
      Token.make (String.ofList source) ⟨bits, .letters⟩ = .ok t →
      Written (.primary (.token t)) [.pattern source bits]
  | group {r : Rule} {ls : List Lexeme} :
      Written (.expression r) ls →
      Written (.primary r) (.mark .opening :: (ls ++ [.mark .closing]))
  | plain {r : Rule} {ls : List Lexeme} : Written (.primary r) ls → Written (.item r) ls
  | repeated {r : Rule} {b : Bounds} {ls suffix : List Lexeme} :
      Written (.primary r) ls → Suffix b.min b.max suffix →
      Written (.item (.repetition r b)) (ls ++ suffix)
  | tagged {tag : String} {r : Rule} {ls : List Lexeme} :
      Written (.item r) ls → Written (.item (.tagged tag r)) (.name tag :: .mark .colon :: ls)
  | noItems : Written (.items []) []
  | moreItems {r : Rule} {rs : List Rule} {ls more : List Lexeme} :
      Written (.item r) ls → Written (.items rs) more → Written (.items (r :: rs)) (ls ++ more)
  | single {r : Rule} {ls : List Lexeme} : Written (.item r) ls → Written (.sequence r) ls
  | sequence {rs : List Rule} {ls : List Lexeme} :
      rs.length ≠ 1 → Written (.items rs) ls → Written (.sequence (.seq rs)) ls
  | noAlternatives : Written (.alternatives []) []
  | moreAlternatives {r : Rule} {rs : List Rule} {ls more : List Lexeme} :
      Written (.sequence r) ls → Written (.alternatives rs) more →
      Written (.alternatives (r :: rs)) (.mark .bar :: (ls ++ more))
  | only {r : Rule} {ls : List Lexeme} : Written (.sequence r) ls → Written (.expression r) ls
  | choice {r : Rule} {rs : List Rule} {ls more : List Lexeme} :
      rs ≠ [] → Written (.sequence r) ls → Written (.alternatives rs) more →
      Written (.expression (.choice (r :: rs))) (ls ++ more)

/-- The tokens write the rules, one after the other. -/
inductive WrittenRules : Rules → List Lexeme → Prop where
  | nil : WrittenRules [] []
  | cons {name : String} {r : Rule} {rules : Rules} {ls more : List Lexeme} :
      Written (.expression r) ls → WrittenRules rules more →
      WrittenRules ((name, r) :: rules) (.name name :: .mark .arrow :: (ls ++ more))

/-- The text writes the rules, with any layout. -/
def GrammarText (rules : Rules) (text : List Char) : Prop :=
  ∃ ls, WrittenRules rules ls ∧ Arranged ls text

/-! ## Rules that can be written -/

/-- The rules that have a text. -/
inductive Rule.Writable : Rule → Prop where
  | literal {t : Token} {text : List Char} :
      t.source = String.ofList (escapePattern text) → t.flags.bits = 0 → Writable (.token t)
  | pattern {t : Token} {body letters : List Char} :
      PatternSpelling body t.source.toList → (∀ c ∈ letters, IsFlagLetter c) →
      t.flags.bits = flagBits letters → t.Compiles → Writable (.token t)
  | ref {name : String} : IsName name.toList → Writable (.ref name)
  | seq {items : List Rule} :
      items.length ≠ 1 → (∀ r ∈ items, Writable r) → Writable (.seq items)
  | tagged {tag : String} {node : Rule} :
      IsName tag.toList → Writable node → Writable (.tagged tag node)
  | choice {alts : List Rule} :
      2 ≤ alts.length → (∀ r ∈ alts, Writable r) → Writable (.choice alts)
  | repetition {node : Rule} {b : Bounds} :
      Writable node → WritableBound b.min → WritableBound b.max → Writable (.repetition node b)

/-- There are tokens for a rule that is the same, as the given part of the syntax. -/
def Rule.HasTokens (part : Rule → Phrase) (r : Rule) : Prop :=
  ∃ written ls, r.same written = true ∧ Written (part written) ls ∧ Spellable ls

theorem Rule.HasTokens.map {part part' : Rule → Phrase} {r : Rule} (h : r.HasTokens part)
    (himp : ∀ written ls, Written (part written) ls → Written (part' written) ls) :
    r.HasTokens part' := by
  obtain ⟨written, ls, hsame, hwritten, hspellable⟩ := h
  exact ⟨written, ls, hsame, himp _ _ hwritten, hspellable⟩

/-- What can be written as an expression can be written as a primary, in parentheses. -/
theorem Rule.HasTokens.group {r : Rule} (h : r.HasTokens .expression) :
    r.HasTokens .primary := by
  obtain ⟨written, ls, hsame, hwritten, hspellable⟩ := h
  exact ⟨written, _, hsame, .group hwritten, .mark _ (hspellable.append (.mark _ .nil))⟩

theorem Rule.HasTokens.of_item {r : Rule} (h : r.HasTokens .item) : r.HasTokens .primary :=
  (h.map fun _ _ hwritten => .only (.single hwritten)).group

theorem exists_items {rs : List Rule} (h : ∀ r ∈ rs, r.HasTokens .primary) :
    ∃ written ls, Rule.sameAll rs written = true ∧ Written (.items written) ls
      ∧ Spellable ls := by
  induction rs with
  | nil => exact ⟨[], [], rfl, .noItems, .nil⟩
  | cons r rs ih =>
      obtain ⟨first, ls, hfirst, hls, hspelled⟩ := h r List.mem_cons_self
      obtain ⟨rest, more, hrest, hmore, hspellable⟩ :=
        ih fun r hmem => h r (List.mem_cons_of_mem _ hmem)
      refine ⟨first :: rest, ls ++ more, ?_, .moreItems (.plain hls) hmore,
        hspelled.append hspellable⟩
      simp [Rule.sameAll, hfirst, hrest]

theorem exists_alternatives {rs : List Rule} (h : ∀ r ∈ rs, r.HasTokens .primary) :
    ∃ written ls, Rule.sameAll rs written = true ∧ Written (.alternatives written) ls
      ∧ Spellable ls := by
  induction rs with
  | nil => exact ⟨[], [], rfl, .noAlternatives, .nil⟩
  | cons r rs ih =>
      obtain ⟨first, ls, hfirst, hls, hspelled⟩ := h r List.mem_cons_self
      obtain ⟨rest, more, hrest, hmore, hspellable⟩ :=
        ih fun r hmem => h r (List.mem_cons_of_mem _ hmem)
      refine ⟨first :: rest, _, ?_, .moreAlternatives (.single (.plain hls)) hmore,
        .mark _ (hspelled.append hspellable)⟩
      simp [Rule.sameAll, hfirst, hrest]

/-- A token can be made again with flags that are shown in another way. -/
theorem Token.Compiles.make_same {t : Token} (h : t.Compiles) {flags : Flags}
    (hbits : t.flags.bits = flags.bits) :
    ∃ t', Token.make t.source flags = .ok t' ∧ t.same t' = true := by
  have hcompiles : PatternEngine.compile t.source.toList flags.bits = .ok t.compiled := hbits ▸ h
  refine ⟨⟨t.source, flags, t.compiled⟩, Token.make_eq_ok_iff.mpr ⟨rfl, rfl, hcompiles⟩, ?_⟩
  simp [Token.same, hbits]

theorem Rule.Writable.hasTokens {r : Rule} (h : r.Writable) : r.HasTokens .primary := by
  induction r with
  | token t =>
      cases h with
      | @literal _ text hsource hbits =>
          have hsame : t.same (.ofText text) = true := by
            simp [Token.same, Token.ofText, Flags.none, hsource, hbits]
          obtain ⟨body, hbody⟩ := exists_literalSpelling text
          have hspelled : ∃ cs, (Lexeme.literal text).Spelled cs :=
            ⟨_, .literal (.inr rfl) hbody⟩
          exact ⟨.token (.ofText text), _, hsame, .literal (literalToken_eq text),
            .cons hspelled .nil⟩
      | @pattern _ body letters hbody hletters hbits hcompiles =>
          have hflags : t.flags.bits = (⟨flagBits letters, .letters⟩ : Flags).bits := hbits
          obtain ⟨t', hmake, hsame⟩ := hcompiles.make_same hflags
          rw [← t.source.ofList_toList] at hmake
          exact ⟨.token t', _, hsame, .pattern hmake, .cons ⟨_, .pattern hbody hletters⟩ .nil⟩
  | ref name =>
      cases h with
      | ref hname =>
          exact ⟨.ref name, _, by simp [Rule.same], .name name,
            .cons (exists_spelled_name hname) .nil⟩
  | seq items ih =>
      cases h with
      | seq hlength hitems =>
          obtain ⟨written, ls, hsame, hwritten, hspellable⟩ :=
            exists_items fun r hr => ih r hr (hitems r hr)
          have hwrittenLength : written.length ≠ 1 := by
            rwa [← Rule.sameAll_length hsame]
          exact Rule.HasTokens.group ⟨.seq written, ls, hsame,
            .only (.sequence hwrittenLength hwritten), hspellable⟩
  | tagged tag node ih =>
      cases h with
      | tagged htag hnode =>
          obtain ⟨written, ls, hsame, hwritten, hspellable⟩ := ih hnode
          exact Rule.HasTokens.of_item ⟨.tagged tag written, _, by simp [Rule.same, hsame],
            .tagged (.plain hwritten), .cons (exists_spelled_name htag) (.mark _ hspellable)⟩
  | choice alts ih =>
      cases h with
      | choice hlength halts =>
          obtain ⟨r, rs, rfl⟩ : ∃ r rs, alts = r :: rs :=
            List.exists_cons_of_length_pos (by omega)
          obtain ⟨first, ls, hfirst, hls, hspelled⟩ :=
            ih r List.mem_cons_self (halts r List.mem_cons_self)
          obtain ⟨rest, more, hrest, hmore, hspellable⟩ := exists_alternatives fun r hr =>
            ih r (List.mem_cons_of_mem _ hr) (halts r (List.mem_cons_of_mem _ hr))
          have hne : rest ≠ [] := by
            rintro rfl
            have hnone := Rule.sameAll_length hrest
            simp only [List.length_cons, List.length_nil] at hlength hnone
            omega
          exact Rule.HasTokens.group ⟨.choice (first :: rest), _,
            by simp [Rule.same, Rule.sameAll, hfirst, hrest],
            .choice hne (.single (.plain hls)) hmore, hspelled.append hspellable⟩
  | repetition node b ih =>
      cases h with
      | repetition hnode hmin hmax =>
          obtain ⟨written, ls, hsame, hwritten, hspellable⟩ := ih hnode
          have hbounds : Spellable (boundLexemes b.min ++ .mark .comma :: boundLexemes b.max) :=
            (spellable_bound hmin).append (.mark _ (spellable_bound hmax))
          exact Rule.HasTokens.of_item ⟨.repetition written b, _, by simp [Rule.same, hsame],
            .repeated hwritten (.braced (.range b.min b.max)),
            hspellable.append (.mark _ (hbounds.append (.mark _ .nil)))⟩
  | unknown value => cases h

/-- **Rules that can be written have a text.** -/
theorem exists_grammarText {rules : Rules}
    (h : ∀ e ∈ rules, IsName e.1.toList ∧ e.2.Writable) :
    ∃ written text, SameRules rules written ∧ GrammarText written text := by
  obtain ⟨written, ls, hsame, hwritten, hspellable⟩ :
      ∃ written ls, SameRules rules written ∧ WrittenRules written ls ∧ Spellable ls := by
    induction rules with
    | nil => exact ⟨[], [], .nil, .nil, .nil⟩
    | cons e rules ih =>
        obtain ⟨name, r⟩ := e
        obtain ⟨hname, hr⟩ := h (name, r) List.mem_cons_self
        obtain ⟨first, ls, hfirst, hls, hspelled⟩ := hr.hasTokens
        obtain ⟨rest, more, hrest, hmore, hspellable⟩ :=
          ih fun e hmem => h e (List.mem_cons_of_mem _ hmem)
        exact ⟨(name, first) :: rest, _, .cons ⟨rfl, hfirst⟩ hrest,
          .cons (.only (.single (.plain hls))) hmore,
          .cons (exists_spelled_name hname) (.mark _ (hspelled.append hspellable))⟩
  obtain ⟨text, htext⟩ := exists_arranged hspellable
  exact ⟨written, text, hsame, ls, hwritten, htext⟩

end TextGrammar
