import TextGrammar.Proofs.Nodes
import TextGrammar.Proofs.Reading

/-!
# What a derivation says about its tokens

Two things can be read off the tokens that write a list of rules without knowing how they were
derived. A name with an arrow after it is the head of a rule, and one with a colon after it is a
tag: there are no others, and they come in the order of the rules and of the tags in them
(`WrittenRules.namesBefore_arrow`, `WrittenRules.namesBefore_colon`).

And the rules are proper (`Rule.Proper`) at every node: a sequence or a choice stands for more
than one rule that it could be replaced by, bounds are in order, and names are names.
-/

namespace TextGrammar

/-! ## Names before a mark -/

/-- The names with the mark right after them, in order. -/
def namesBefore (m : Mark) : List Lexeme → List String
  | [] => []
  | .name n :: rest =>
    if rest.head? = some (.mark m) then n :: namesBefore m rest else namesBefore m rest
  | _ :: rest => namesBefore m rest

section NamesBefore

variable {m : Mark} {ls more : List Lexeme}

theorem namesBefore_mark (m' : Mark) : namesBefore m (.mark m' :: ls) = namesBefore m ls := by
  rw [namesBefore]
  nofun

/-- Tokens that do not start with the mark can be put after others. -/
theorem namesBefore_append (h : more.head? ≠ some (.mark m)) :
    namesBefore m (ls ++ more) = namesBefore m ls ++ namesBefore m more := by
  induction ls with
  | nil => rfl
  | cons l ls ih =>
      -- only for the last of the tokens is the next one among the others
      have hhead : (ls ++ more).head? = some (.mark m) ↔ ls.head? = some (.mark m) := by
        cases ls with
        | nil => simpa using h
        | cons l' ls => rfl
      cases l with
      | name n =>
          rw [List.cons_append, namesBefore, namesBefore, ih]
          by_cases hnext : ls.head? = some (.mark m)
          · rw [if_pos (hhead.mpr hnext), if_pos hnext, List.cons_append]
          · rw [if_neg (fun hnot => hnext (hhead.mp hnot)), if_neg hnext]
      | mark m' => simp only [List.cons_append, namesBefore, ih]
      | number n => simp only [List.cons_append, namesBefore, ih]
      | literal text => simp only [List.cons_append, namesBefore, ih]
      | pattern source bits => simp only [List.cons_append, namesBefore, ih]

theorem Suffix.namesBefore_eq {low high : Option Nat} (h : Suffix low high ls) :
    namesBefore m ls = [] := by
  have hbound : ∀ (bound : Option Nat) (rest : List Lexeme),
      namesBefore m (boundLexemes bound ++ rest) = namesBefore m rest := by
    intro bound rest
    cases bound with
    | none => rfl
    | some n => simp only [boundLexemes, List.cons_append, List.nil_append, namesBefore]
  cases h with
  | optional => rfl
  | any => rfl
  | many => rfl
  | braced hbraced =>
      cases hbraced with
      | exactly n => rfl
      | range low high =>
          rw [namesBefore_mark, List.append_assoc, hbound, List.cons_append, namesBefore_mark,
            hbound, namesBefore_mark]
          rfl

end NamesBefore

/-! ## Spellings -/

theorem isName_of_spelled {n : String} (h : ∃ text, (Lexeme.name n).Spelled text) :
    IsName n.toList := by
  obtain ⟨text, hspelled⟩ := h
  cases hspelled with
  | name hname => rwa [String.toList_ofList]

theorem Spellable.front {l : Lexeme} {ls : List Lexeme} (h : Spellable (l :: ls)) :
    ∃ text, l.Spelled text :=
  h l List.mem_cons_self

theorem Spellable.tail {l : Lexeme} {ls : List Lexeme} (h : Spellable (l :: ls)) : Spellable ls :=
  fun l' hl' => h l' (List.mem_cons_of_mem _ hl')

theorem Spellable.left {ls more : List Lexeme} (h : Spellable (ls ++ more)) : Spellable ls :=
  fun l hl => h l (List.mem_append_left _ hl)

theorem Spellable.right {ls more : List Lexeme} (h : Spellable (ls ++ more)) : Spellable more :=
  fun l hl => h l (List.mem_append_right _ hl)

/-- Tokens that are arranged have a spelling. -/
theorem Arranged.spellable {ls : List Lexeme} {text : List Char} (h : Arranged ls text) :
    Spellable ls := by
  induction h with
  | nil _ => exact .nil
  | cons _ hspelled _ _ ih => exact .cons ⟨_, hspelled⟩ ih

/-! ## Parts of the syntax -/

/-- The tags in a part of the syntax, in order. -/
def Phrase.tags : Phrase → List String
  | .primary r | .item r | .sequence r | .expression r => r.tags
  | .items rs | .alternatives rs => rs.flatMap Rule.tags

/-- All nodes of a part of the syntax have the property. -/
def Phrase.All (P : Rule → Prop) : Phrase → Prop
  | .primary r | .item r | .sequence r | .expression r => r.All P
  | .items rs | .alternatives rs => ∀ r ∈ rs, r.All P

variable [PatternEngine]

theorem Written.items_head {rs : List Rule} {ls : List Lexeme} (h : Written (.items rs) ls) :
    ls.head? ≠ some (.mark .arrow) ∧ ls.head? ≠ some (.mark .colon) := by
  have hend : EndsItems [] := trivial
  have hfollows := h.items_follow hend
  rw [List.append_nil] at hfollows
  exact ⟨hfollows .arrow (by decide), hfollows .colon (by decide)⟩

theorem Written.alternatives_head {rs : List Rule} {ls : List Lexeme}
    (h : Written (.alternatives rs) ls) :
    ls.head? ≠ some (.mark .arrow) ∧ ls.head? ≠ some (.mark .colon) := by
  cases h with
  | noAlternatives => exact ⟨nofun, nofun⟩
  | moreAlternatives _ _ => exact ⟨by simp, by simp⟩

/-- In a part of a rule no name stands before an arrow, and those before a colon are its tags. -/
theorem Written.namesBefore_eq {part : Phrase} {ls : List Lexeme} (h : Written part ls) :
    namesBefore .arrow ls = [] ∧ namesBefore .colon ls = part.tags := by
  induction h with
  | name n => exact ⟨rfl, rfl⟩
  | literal _ => exact ⟨rfl, rfl⟩
  | pattern _ => exact ⟨rfl, rfl⟩
  | group _ ih =>
      rw [namesBefore_mark, namesBefore_mark, namesBefore_append (by simp),
        namesBefore_append (by simp), ih.1, ih.2]
      exact ⟨rfl, List.append_nil _⟩
  | plain _ ih => exact ih
  | @repeated r b ls suffix _ hsuffix ih =>
      have htags : (Rule.repetition r b).tags = r.tags := Rule.tags_single rfl
      obtain ⟨m, rest, hfront, harrow, hcolon⟩ := hsuffix.front
      rw [namesBefore_append (by simpa [hfront] using harrow),
        namesBefore_append (by simpa [hfront] using hcolon), hsuffix.namesBefore_eq,
        hsuffix.namesBefore_eq, ih.1, ih.2, List.append_nil, List.append_nil]
      exact ⟨rfl, htags.symm⟩
  | @tagged tag r ls _ ih =>
      have htags : (Rule.tagged tag r).tags = tag :: r.tags := Rule.tags_single rfl
      constructor
      · rw [namesBefore, if_neg (by simp), namesBefore_mark, ih.1]
      · rw [namesBefore, if_pos (by simp), namesBefore_mark, ih.2]
        exact htags.symm
  | noItems => exact ⟨rfl, rfl⟩
  | moreItems _ hmore ih ihmore =>
      rw [namesBefore_append hmore.items_head.1, namesBefore_append hmore.items_head.2, ih.1, ih.2,
        ihmore.1, ihmore.2]
      exact ⟨rfl, rfl⟩
  | single _ ih => exact ih
  | @sequence rs ls _ _ ih =>
      have htags : (Rule.seq rs).tags = rs.flatMap Rule.tags := Rule.tags_eq _
      exact ⟨ih.1, ih.2.trans htags.symm⟩
  | noAlternatives => exact ⟨rfl, rfl⟩
  | moreAlternatives _ hmore ih ihmore =>
      rw [namesBefore_mark, namesBefore_mark, namesBefore_append hmore.alternatives_head.1,
        namesBefore_append hmore.alternatives_head.2, ih.1, ih.2, ihmore.1, ihmore.2]
      exact ⟨rfl, rfl⟩
  | only _ ih => exact ih
  | @choice r rs ls more _ _ hmore ih ihmore =>
      have htags : (Rule.choice (r :: rs)).tags = (r :: rs).flatMap Rule.tags := Rule.tags_eq _
      rw [namesBefore_append hmore.alternatives_head.1,
        namesBefore_append hmore.alternatives_head.2, ih.1, ih.2, ihmore.1, ihmore.2]
      exact ⟨rfl, htags.symm⟩

theorem WrittenRules.head {rules : Rules} {ls : List Lexeme} (h : WrittenRules rules ls)
    (m : Mark) : ls.head? ≠ some (.mark m) := by
  cases h with
  | nil => nofun
  | cons _ _ => simp

/-- The names before an arrow are those of the rules. -/
theorem WrittenRules.namesBefore_arrow {rules : Rules} {ls : List Lexeme}
    (h : WrittenRules rules ls) : namesBefore .arrow ls = rules.keys := by
  induction h with
  | nil => rfl
  | cons hwritten hmore ih =>
      rw [namesBefore, if_pos (by simp), namesBefore_mark,
        namesBefore_append (hmore.head .arrow), ih, hwritten.namesBefore_eq.1]
      rfl

/-- The names before a colon are the tags in the rules. -/
theorem WrittenRules.namesBefore_colon {rules : Rules} {ls : List Lexeme}
    (h : WrittenRules rules ls) :
    namesBefore .colon ls = rules.flatMap fun e => e.2.tags := by
  induction h with
  | nil => rfl
  | cons hwritten hmore ih =>
      rw [namesBefore, if_neg (by simp), namesBefore_mark,
        namesBefore_append (hmore.head .colon), ih, hwritten.namesBefore_eq.2]
      rfl

/-! ## Proper rules -/

/--
What a grammar text promises of a node: a token compiles, a sequence is none of a single item
and a choice has two alternatives or more, the bounds of a repetition are in order, and names
and tags are names.
-/
def Rule.Proper : Rule → Prop
  | .token t => t.Compiles
  | .ref name => IsName name.toList
  | .seq items => items.length ≠ 1
  | .tagged tag _ => IsName tag.toList
  | .choice alts => 2 ≤ alts.length
  | .repetition _ bounds =>
    ∀ low high, bounds.min = some low → bounds.max = some high → low ≤ high
  | .unknown _ => False

/-- What tokens with a spelling write is proper at every node. -/
theorem Written.proper {part : Phrase} {ls : List Lexeme} (h : Written part ls)
    (hspelled : Spellable ls) : part.All Rule.Proper := by
  induction h with
  | name n => exact (Rule.all_leaf rfl).mpr (isName_of_spelled hspelled.front)
  | literal ht => exact (Rule.all_leaf rfl).mpr (Token.make_eq_ok_iff.mp ht).2.2
  | pattern ht => exact (Rule.all_leaf rfl).mpr (Token.make_eq_ok_iff.mp ht).2.2
  | group _ ih => exact ih hspelled.tail.left
  | plain _ ih => exact ih hspelled
  | @repeated r b ls suffix _ _ ih => exact (Rule.all_single rfl).mpr ⟨b.ordered, ih hspelled.left⟩
  | tagged _ ih =>
      exact (Rule.all_single rfl).mpr ⟨isName_of_spelled hspelled.front, ih hspelled.tail.tail⟩
  | noItems => exact fun _ hr => absurd hr List.not_mem_nil
  | moreItems _ _ ih ihmore =>
      exact List.forall_mem_cons.mpr ⟨ih hspelled.left, ihmore hspelled.right⟩
  | single _ ih => exact ih hspelled
  | sequence hlength _ ih => exact Rule.all_iff.mpr ⟨hlength, ih hspelled⟩
  | noAlternatives => exact fun _ hr => absurd hr List.not_mem_nil
  | moreAlternatives _ _ ih ihmore =>
      exact List.forall_mem_cons.mpr ⟨ih hspelled.tail.left, ihmore hspelled.tail.right⟩
  | only _ ih => exact ih hspelled
  | @choice r rs ls more hne _ _ ih ihmore =>
      have hlength : 2 ≤ (r :: rs).length := by
        have hpositive := List.length_pos_iff.mpr hne
        rw [List.length_cons]
        omega
      exact Rule.all_iff.mpr
        ⟨hlength, List.forall_mem_cons.mpr ⟨ih hspelled.left, ihmore hspelled.right⟩⟩

theorem WrittenRules.proper {rules : Rules} {ls : List Lexeme} (h : WrittenRules rules ls)
    (hspelled : Spellable ls) :
    ∀ e ∈ rules, IsName e.1.toList ∧ e.2.All Rule.Proper := by
  induction h with
  | nil => exact fun _ he => absurd he List.not_mem_nil
  | cons hwritten _ ih =>
      have hbody := hwritten.proper hspelled.tail.tail.left
      exact List.forall_mem_cons.mpr
        ⟨⟨isName_of_spelled hspelled.front, hbody⟩, ih hspelled.tail.tail.right⟩

end TextGrammar
