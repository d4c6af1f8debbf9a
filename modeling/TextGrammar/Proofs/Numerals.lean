import Mathlib.Data.List.Basic
import Mathlib.Data.List.TakeWhile
import Mathlib.Data.Nat.Digits.Defs
import TextGrammar.Text.Numeral

/-!
# Numbers from digits

A text of decimal digits, of any scripts, stands for a number (`numberOf`). Reading it gives
this number unless there are more digits than are read (`readInteger_decimals`), and digits that
are read as a number are such digits (`readable_of_readInteger`). Every number that is not too
large has digits (`exists_decimals`).
-/

namespace TextGrammar

/-- The number that decimal digits stand for. -/
def numberOf (digits : List Char) : Nat :=
  digits.foldl (fun n c => n * 10 + (decimalValue? c).getD 0) 0

/-- Characters that can be read as a number: decimal digits, and not too many. -/
def Readable (digits : List Char) : Prop :=
  (∀ c ∈ digits, isDecimal c = true) ∧ digits.length ≤ digitLimit

theorem isDigit_of_isDecimal {c : Char} (h : isDecimal c = true) : isDigit c = true := by
  simp [isDigit, h]

theorem not_isDigit_of_isWhiteSpace {c : Char} (h : isWhiteSpace c = true) :
    isDigit c = false := by
  have hcodes : c.toNat ∈ [0x9, 0xA, 0xB, 0xC, 0xD, 0x20, 0x85, 0xA0, 0x1680, 0x2000, 0x2001,
      0x2002, 0x2003, 0x2004, 0x2005, 0x2006, 0x2007, 0x2008, 0x2009, 0x200A, 0x2028, 0x2029,
      0x202F, 0x205F, 0x3000] := by
    simp [isWhiteSpace, whiteSpaceRanges, CodeRanges.has] at h
    simp only [List.mem_cons, List.not_mem_nil, or_false]
    omega
  have hnone : ∀ n ∈ [0x9, 0xA, 0xB, 0xC, 0xD, 0x20, 0x85, 0xA0, 0x1680, 0x2000, 0x2001,
      0x2002, 0x2003, 0x2004, 0x2005, 0x2006, 0x2007, 0x2008, 0x2009, 0x200A, 0x2028, 0x2029,
      0x202F, 0x205F, 0x3000],
      digitAmong decimalZeros n = none ∧ styledDigitRanges.has n = false := by decide
  obtain ⟨hdecimal, hstyled⟩ := hnone _ hcodes
  simp [isDigit, isDecimal, decimalValue?, hdecimal, hstyled]

/-- A text is cut where its characters stop to have the property. -/
theorem takeWhile_split (p : Char → Bool) (cs : List Char) :
    ∃ rest, cs = cs.takeWhile p ++ rest ∧ (∀ c ∈ cs.takeWhile p, p c = true)
      ∧ ∀ c ∈ rest.head?, p c = false := by
  refine ⟨cs.dropWhile p, List.takeWhile_append_dropWhile.symm,
    fun c hc => List.mem_takeWhile_imp hc, fun c hc => ?_⟩
  have hnot := List.head?_dropWhile_not p cs
  rw [Option.mem_def.mp hc] at hnot
  simpa using hnot

/-! ## Reading digits -/

/-- Decimal digits are read up to a character that neither is one nor separates two. -/
theorem readDigits_append {digits rest : List Char} (h : ∀ c ∈ digits, isDecimal c = true)
    (hrest : ∀ c ∈ rest.head?, c ≠ '_' ∧ isDecimal c = false) (value count : Nat) :
    readDigits (digits ++ rest) false value count
      = some (digits.foldl (fun n c => n * 10 + (decimalValue? c).getD 0) value,
          count + digits.length, rest) := by
  induction digits generalizing value count with
  | nil =>
      cases rest with
      | nil => rfl
      | cons c rest =>
          obtain ⟨hgap, hc⟩ := hrest c rfl
          have hnone : decimalValue? c = none := by simpa [isDecimal] using hc
          simp [readDigits, hgap, hnone]
  | cons c digits ih =>
      have hc : isDecimal c = true := h c List.mem_cons_self
      have hgap : c ≠ '_' := fun h => by subst h; revert hc; decide
      obtain ⟨d, hd⟩ : ∃ d, decimalValue? c = some d := Option.isSome_iff_exists.mp hc
      have hmore := ih (fun c hmem => h c (List.mem_cons_of_mem _ hmem))
      simp [readDigits, hgap, hd, hmore]
      omega

/-- Digits have no sign, and no white space before them. -/
theorem readInteger_digits {digits : List Char} (hne : digits ≠ [])
    (h : ∀ c ∈ digits, isDigit c = true) :
    readInteger (String.ofList digits) = (readMagnitude digits).map Int.ofNat := by
  obtain ⟨c, rest, rfl⟩ := List.exists_cons_of_ne_nil hne
  have hc : isDigit c = true := h c List.mem_cons_self
  have hspace : isWhiteSpace c = false := by
    by_contra hspace
    rw [Bool.not_eq_false] at hspace
    rw [not_isDigit_of_isWhiteSpace hspace] at hc
    cases hc
  rw [readInteger, String.toList_ofList, List.dropWhile_cons_of_neg (by simp [hspace])]
  split
  · rename_i heq
    obtain ⟨rfl, rfl⟩ := List.cons.inj heq
    exact absurd hc (by decide)
  · rename_i heq
    obtain ⟨rfl, rfl⟩ := List.cons.inj heq
    exact absurd hc (by decide)
  · rfl

/-- No digit, decimal or styled, is an underscore. -/
theorem head?_digits_ne {digits : List Char} (h : ∀ c ∈ digits, isDigit c = true) :
    digits.head? ≠ some '_' := by
  intro hhead
  have hc := h '_' (List.mem_of_mem_head? hhead)
  revert hc
  decide

/-- **Digits are read as the number they stand for.** -/
theorem readInteger_decimals {digits : List Char} (hne : digits ≠ []) (h : Readable digits) :
    readInteger (String.ofList digits) = .ok (numberOf digits) := by
  obtain ⟨hdecimal, hlength⟩ := h
  have hdigits : ∀ c ∈ digits, isDigit c = true := fun c hc => isDigit_of_isDecimal (hdecimal c hc)
  have hread := @readDigits_append digits [] hdecimal (by simp) 0 0
  have hfew : ¬digitLimit < 0 + digits.length := by omega
  rw [List.append_nil] at hread
  rw [readInteger_digits hne hdigits, readMagnitude, if_neg (head?_digits_ne hdigits), hread]
  simp only [if_neg hfew]
  simp [numberOf, hne]
  rfl

/-- **Digits that are read as a number are decimal, and not too many.** -/
theorem readable_of_readInteger {digits : List Char} (hne : digits ≠ [])
    (hdigits : ∀ c ∈ digits, isDigit c = true) {n : Int}
    (h : readInteger (String.ofList digits) = .ok n) : Readable digits := by
  obtain ⟨rest, hsplit, hfront, hrest⟩ := takeWhile_split isDecimal digits
  generalize digits.takeWhile isDecimal = front at hsplit hfront
  subst hsplit
  have hgap : ∀ c ∈ rest.head?, c ≠ '_' ∧ isDecimal c = false := by
    intro c hc
    refine ⟨?_, hrest c hc⟩
    rintro rfl
    have hdigit := hdigits '_' (List.mem_append_right _ (List.mem_of_mem_head? hc))
    revert hdigit
    decide
  rw [readInteger_digits hne hdigits, readMagnitude, if_neg (head?_digits_ne hdigits),
    readDigits_append hfront hgap] at h
  dsimp only at h
  split at h
  · cases h
  · rename_i hfew
    split at h
    · cases h
    · rename_i hblank
      -- what follows the decimal digits is white space, and a digit is not
      have hnil : rest = [] := by
        cases rest with
        | nil => rfl
        | cons c rest =>
            exfalso
            have hc : isDigit c = true := hdigits c (by simp)
            have hspace : isWhiteSpace c = true := by
              rw [not_or] at hblank
              have hall := hblank.2
              simp only [List.any_cons, Bool.or_eq_true, not_or] at hall
              simpa using hall.1
            rw [not_isDigit_of_isWhiteSpace hspace] at hc
            cases hc
      subst hnil
      rw [List.append_nil]
      exact ⟨hfront, by omega⟩

/-! ## Writing numbers -/

theorem decimalValue?_of_ascii {c : Char} (h : c.isDigit = true) :
    decimalValue? c = some (c.toNat - '0'.toNat) := by
  have hrange : 0x30 ≤ c.toNat ∧ c.toNat ≤ 0x39 := by
    simpa [Char.isDigit, UInt32.le_iff_toNat_le] using h
  have hzero : ('0').toNat = 0x30 := rfl
  rw [decimalValue?, decimalZeros, digitAmong, if_neg (by omega), if_pos (by omega), hzero]

/-- Every number below a power of ten is written with at most so many digits. -/
theorem exists_decimals {n : Nat} (h : n < 10 ^ digitLimit) :
    ∃ digits, digits ≠ [] ∧ Readable digits ∧ numberOf digits = n := by
  have hascii : ∀ c ∈ Nat.toDigits 10 n, c.isDigit = true := fun c hc =>
    Nat.isDigit_of_mem_toDigits (by omega) (by omega) hc
  have hdecimal : ∀ c ∈ Nat.toDigits 10 n, isDecimal c = true := fun c hc => by
    simp [isDecimal, decimalValue?_of_ascii (hascii c hc)]
  have hlength : (Nat.toDigits 10 n).length ≤ digitLimit :=
    Nat.toDigits_length 10 n digitLimit (by decide) h
  have hvalue : numberOf (Nat.toDigits 10 n) = n := by
    have hfold : numberOf (Nat.toDigits 10 n) = Nat.ofDigitChars 10 (Nat.toDigits 10 n) 0 := by
      refine List.foldl_ext _ _ _ fun sofar c hc => ?_
      rw [decimalValue?_of_ascii (hascii c hc), Option.getD_some, Nat.mul_comm]
    rw [hfold, Nat.ofDigitChars_toDigits (by omega) (by omega)]
  exact ⟨_, Nat.toDigits_ne_nil, ⟨hdecimal, hlength⟩, hvalue⟩

end TextGrammar
