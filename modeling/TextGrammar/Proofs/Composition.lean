import TextGrammar.Proofs.Acceptance
import Mathlib.Data.List.Nodup

/-!
# Grammar texts compose

Two texts that are read may be written one after the other, with a line break between them: the
rules of the second follow those of the first, and if a name is in both, its second rule is
refused (`readGrammar_append`).

A rule has no end of its own, so the last expression of the first text is read on into the
second. Nothing has to be said about where it stops. A text that is read is nothing but tokens
that write its rules, and tokens of rules followed by tokens of rules write all of them
(`WrittenRules.append`). The line break sees to it that the tokens of the two texts do not run
together, and that a comment at the end of the first has an end (`Arranged.append_line`).
-/

namespace TextGrammar

/-! ## The seam -/

/-- What stands after the last token, and a line break, may stand before other tokens. -/
theorem FinalLayout.append_line {gap : List Char} (h : FinalLayout gap) :
    Layout (gap ++ ['\n']) := by
  have hline : Layout ['\n'] := .blank (by decide) .nil
  cases h with
  | closed hgap => exact hgap.append hline
  | @opened gap text hgap htext =>
      -- the line break ends the comment
      have hall := hgap.append (Layout.comment htext .nil)
      rwa [List.append_assoc, List.cons_append]

/-- Texts on two lines have the tokens of the first and then those of the second. -/
theorem Arranged.append_line {ls more : List Lexeme} {first second : List Char}
    (h : Arranged ls first) (hmore : Arranged more second) :
    Arranged (ls ++ more) (first ++ '\n' :: second) := by
  induction h with
  | nil hgap =>
      have hall := hgap.append_line.arranged hmore
      rwa [List.append_assoc, List.singleton_append] at hall
  | @cons l gap text rest ls hgap hspelled happart _ ih =>
      rw [List.append_assoc, List.append_assoc, List.cons_append]
      refine .cons hgap hspelled ?_ ih
      cases rest with
      | nil => exact Lexeme.apart_cons (l.goesOn_blank (by decide))
      | cons d rest => exact happart

/-- Rules and then other rules are written by their tokens in a row. -/
theorem WrittenRules.append [PatternEngine] {rules rules' : Rules} {ls more : List Lexeme}
    (h : WrittenRules rules ls) (hmore : WrittenRules rules' more) :
    WrittenRules (rules ++ rules') (ls ++ more) := by
  induction h with
  | nil => exact hmore
  | cons hwritten _ ih =>
      rw [List.cons_append, List.cons_append, List.cons_append, List.append_assoc]
      exact .cons hwritten ih

/-! ## A name that comes twice -/

/-- The first rule whose name has come before is refused. -/
theorem readRules_duplicate [PatternEngine] {front back before : Rules} {name : String} {r : Rule}
    {ls : List Lexeme} {depth fuel : Nat} {c : Cursor}
    (h : WrittenRules (front ++ (name, r) :: back) ls) (hdepth : 4 * ls.length + 3 ≤ depth)
    (hfuel : front.length < fuel) (hnames : (before ++ front).Distinct)
    (htwice : name ∈ (before ++ front).keys) (hc : Arranged ls c.rest) :
    ∃ offset, readRules depth fuel before c = .error (.grammar ⟨offset, .duplicateRule name⟩) := by
  induction front generalizing ls before fuel c with
  | nil =>
      obtain ⟨fuel, rfl⟩ : ∃ k, fuel = k + 1 := Nat.exists_eq_add_one.mpr (by omega)
      rw [List.append_nil] at htwice
      cases h with
      | @cons _ _ _ ls more hwritten hmore =>
          simp only [List.length_cons, List.length_append] at hdepth
          have hbody : 4 * ls.length + 3 ≤ depth := by omega
          obtain ⟨after, -, hread⟩ := readRules_cons hwritten hmore.ends hbody hc
          refine ⟨after.offset, ?_⟩
          rw [hread, if_pos (Table.has_iff.mpr htwice)]
          rfl
  | cons e front ih =>
      obtain ⟨fuel, rfl⟩ : ∃ k, fuel = k + 1 := Nat.exists_eq_add_one.mpr (by omega)
      cases h with
      | @cons other body _ ls more hwritten hmore =>
          simp only [List.length_cons, List.length_append] at hdepth hfuel
          have hbody : 4 * ls.length + 3 ≤ depth := by omega
          obtain ⟨after, hafter, hread⟩ := readRules_cons hwritten hmore.ends hbody hc
          have hnew : ¬before.has other = true := by
            rw [Table.has_iff]
            exact hnames.not_mem_keys
          have hsplit : before ++ (other, body) :: front = (before ++ [(other, body)]) ++ front := by
            simp
          rw [hread, if_neg hnew]
          exact ih hmore (by omega) (by omega) (hsplit ▸ hnames) (hsplit ▸ htwice) hafter

/-- If names are in both tables, there is a first entry of the second whose name is. -/
theorem exists_first_common {rules more : Rules} (h : ¬rules.keys.Disjoint more.keys) :
    ∃ front name r back, more = front ++ (name, r) :: back ∧ name ∈ rules.keys
      ∧ rules.keys.Disjoint (Table.keys front) := by
  induction more with
  | nil => exact absurd (List.disjoint_nil_right _) h
  | cons e more ih =>
      obtain ⟨name, r⟩ := e
      by_cases hname : name ∈ rules.keys
      · exact ⟨[], name, r, more, rfl, hname, List.disjoint_nil_right _⟩
      · have hrest : ¬rules.keys.Disjoint (Table.keys more) := fun hdisjoint =>
          h (List.disjoint_cons_right.mpr ⟨hname, hdisjoint⟩)
        obtain ⟨front, twice, r', back, rfl, htwice, hfront⟩ := ih hrest
        exact ⟨(name, r) :: front, twice, r', back, rfl, htwice,
          List.disjoint_cons_right.mpr ⟨hname, hfront⟩⟩

/-! ## Two texts -/

/--
**Grammar texts compose.** If two texts are read, then so is the first with the second on a new
line, as the rules of the first followed by those of the second, provided that no name is in both.
If names are in both, the text is refused as faulty grammar text: the first of the names of the
second text that is also in the first one is a duplicate.
-/
theorem readGrammar_append [PatternEngine] {first second : List Char} {rules more : Rules}
    (hfirst : readGrammar first = .ok rules) (hsecond : readGrammar second = .ok more) :
    (rules.keys.Disjoint more.keys → readGrammar (first ++ '\n' :: second) = .ok (rules ++ more))
      ∧ (¬rules.keys.Disjoint more.keys →
          ∃ front name r back offset, more = front ++ (name, r) :: back ∧ name ∈ rules.keys
            ∧ rules.keys.Disjoint (Table.keys front)
            ∧ readGrammar (first ++ '\n' :: second)
              = .error (.grammar ⟨offset, .duplicateRule name⟩)) := by
  obtain ⟨hne, hnames, ls, hwritten, harranged⟩ := readGrammar_ok hfirst
  obtain ⟨-, hmoreNames, ls', hmoreWritten, hmoreArranged⟩ := readGrammar_ok hsecond
  have htext := harranged.append_line hmoreArranged
  have hrules := hwritten.append hmoreWritten
  constructor
  · intro hdisjoint
    have hall : (rules ++ more).Distinct := by
      rw [Table.Distinct, Table.keys_append]
      exact List.Nodup.append hnames hmoreNames hdisjoint
    exact readGrammar_eq (List.append_ne_nil_of_left_ne_nil hne more) hall ⟨_, hrules, htext⟩
  · intro hcommon
    obtain ⟨front, name, r, back, rfl, hname, hfront⟩ := exists_first_common hcommon
    have hbefore : (rules ++ front).Distinct := by
      rw [Table.Distinct, Table.keys_append] at hmoreNames ⊢
      exact List.Nodup.append hnames (List.nodup_append.mp hmoreNames).1 hfront
    have htwice : name ∈ (rules ++ front).keys := by
      rw [Table.keys_append]
      exact List.mem_append_left _ hname
    have hlength := htext.length_le
    have hcount := hrules.length_le
    have hfuel : (rules ++ front).length < (first ++ '\n' :: second).length + 1 := by
      simp only [List.length_append, List.length_cons] at hlength hcount ⊢
      omega
    rw [← List.append_assoc] at hrules
    have hread : ∃ offset, readGrammar (first ++ '\n' :: second)
        = .error (.grammar ⟨offset, .duplicateRule name⟩) :=
      readRules_duplicate hrules htext.depth_le hfuel hbefore htwice htext
    obtain ⟨offset, hread⟩ := hread
    exact ⟨front, name, r, back, offset, rfl, hname, hfront, hread⟩

/-- The second alternative is left open before a comment, which has no line break after it. -/
def openText : List Char := ['a', '<', '-', 't', ':', 'b', '|', '#']

def openRules : Rules := [("a", .choice [.tagged "t" (.ref "b"), .seq []])]

def repeatedText : List Char := ['c', '<', '-', 'a', '+']

def repeatedRules : Rules := [("c", .repetition (.ref "a") ⟨some 1, none, nofun⟩)]

/-- The second rule is one of the same name again. -/
def againText : List Char := ['b', '<', '-', 'c', ' ', 'a', '<', '-']

def againRules : Rules := [("b", .ref "c"), ("a", .seq [])]

/-- An open end is closed by the next rule, and a second rule of a name is refused. -/
theorem readGrammar_append_openText :
    readGrammar openText = .ok openRules ∧ readGrammar repeatedText = .ok repeatedRules
      ∧ openRules.keys.Disjoint repeatedRules.keys
      ∧ readGrammar (openText ++ '\n' :: repeatedText) = .ok (openRules ++ repeatedRules)
      ∧ readGrammar againText = .ok againRules
      ∧ ¬openRules.keys.Disjoint againRules.keys
      ∧ ∃ front name r back offset, againRules = front ++ (name, r) :: back
        ∧ name ∈ openRules.keys ∧ openRules.keys.Disjoint (Table.keys front)
        ∧ readGrammar (openText ++ '\n' :: againText)
          = .error (.grammar ⟨offset, .duplicateRule name⟩) := by
  have hopen : readGrammar openText = .ok openRules := rfl
  have hrepeated : readGrammar repeatedText = .ok repeatedRules := rfl
  have hagain : readGrammar againText = .ok againRules := rfl
  have hdisjoint : openRules.keys.Disjoint repeatedRules.keys := by
    simp [openRules, repeatedRules]
  have hcommon : ¬openRules.keys.Disjoint againRules.keys := by
    simp [openRules, againRules]
  exact ⟨hopen, hrepeated, hdisjoint, (readGrammar_append hopen hrepeated).1 hdisjoint, hagain,
    hcommon, (readGrammar_append hopen hagain).2 hcommon⟩

end TextGrammar
