import TextGrammar.Pattern.Compile
import TextGrammar.Pattern.Matcher

/-!
# The usual white space

Unless a caller says otherwise, `$space` is the pattern of any number of spaces, tabs,
carriage returns and line feeds. It matches everywhere and takes exactly the run of these
four characters that comes next (`find?_usualSpacePattern`).
-/

namespace TextGrammar

/-- The set of characters in the pattern of the usual white space. -/
def usualSpaceSet : CharSet :=
  ⟨[.range 0x20 0x20, .range 0x9 0x9, .range 0xD 0xD, .range 0xA 0xA], false, .exact⟩

def usualSpacePattern : Pattern Nat := .seq (.times (.one usualSpaceSet) 0 none .greedy) .empty

theorem compilePattern_usualSpace :
    compilePattern defaultSpaceSource.toList Flags.none.bits = .ok (usualSpacePattern, 0) :=
  compilePattern_of_toOption (by decide +kernel)

theorem usualSpaceSet_has (c : Char) : usualSpaceSet.has c = decide (c ∈ usualSpaces) := by
  have hcode : ∀ d : Char, (c.toNat = d.toNat) = (c = d) := fun d => propext Char.toNat_inj
  have hspace := hcode ' '
  have htab := hcode '\t'
  have hreturn := hcode '\r'
  have hfeed := hcode '\n'
  rw [Bool.eq_iff_iff, decide_eq_true_iff]
  simp only [usualSpaces, List.mem_cons, List.not_mem_nil, or_false, ← hspace, ← htab, ← hreturn,
    ← hfeed]
  simp only [usualSpaceSet, CharSet.has, CaseRule.variants, SetItem.has, List.any_cons,
    List.any_nil, Bool.or_false, Bool.bne_false, Bool.or_eq_true, Bool.and_eq_true,
    decide_eq_true_iff]
  simp only [Char.reduceToNat]
  omega

/-- A single character is taken if it is in the set. -/
theorem run_one_cons (set : CharSet) (before : List Char) (c : Char) (rest : List Char)
    (offset : Nat) (groups : List (Nat × List Char)) (kept : Nat) (k : Continuation) :
    Pattern.run (.one set) ⟨before, c :: rest, offset, groups, kept⟩ k =
      if set.has c then k ⟨c :: before, rest, offset + 1, groups, kept⟩ else none := by
  by_cases hc : set.has c <;> simp [Pattern.run, Scan.take?, hc]

/-- As many rounds of a single character as possible take the run of such characters. -/
theorem greedyRounds_one (set : CharSet) {fuel : Nat} {scan : Scan}
    (h : scan.rest.length < fuel) :
    (greedyRounds (Pattern.run (.one set)) fuel 0 none scan some).map Scan.offset
      = some (scan.offset + (scan.rest.takeWhile set.has).length) := by
  induction fuel generalizing scan with
  | zero => exact absurd h (Nat.not_lt_zero _)
  | succ fuel ih =>
      obtain ⟨before, rest, offset, groups, kept⟩ := scan
      cases rest with
      | nil => simp [greedyRounds, Pattern.run, Scan.take?]
      | cons c rest =>
          rw [greedyRounds, run_one_cons]
          by_cases hc : set.has c
          · have hrest :=
              @ih ⟨c :: before, rest, offset + 1, groups, kept⟩ (Nat.lt_of_succ_lt_succ h)
            obtain ⟨last, hlast, hoffset⟩ := Option.map_eq_some_iff.mp hrest
            have hlength : last.offset = offset + ((c :: rest).takeWhile set.has).length := by
              rw [List.takeWhile_cons_of_pos hc, List.length_cons, hoffset]
              dsimp only
              omega
            simp [hc, hlast, hlength]
          · simp [hc]

/-- The usual white space takes the run of white space that comes next. -/
theorem find?_usualSpacePattern (text : List Char) :
    usualSpacePattern.find? text = some ⟨spaceAhead text, (spaceAhead text).length⟩ := by
  have hset : usualSpaceSet.has = fun c => decide (c ∈ usualSpaces) := funext usualSpaceSet_has
  have hrounds := @greedyRounds_one usualSpaceSet (text.length + 1) (.start text)
    (Nat.lt_succ_self text.length)
  rw [hset] at hrounds
  have hlength : (usualSpacePattern.find? text).map Found.length
      = some (spaceAhead text).length := by
    simpa [Pattern.find?, usualSpacePattern, Pattern.run, Scan.start, Function.comp_def, spaceAhead]
      using hrounds
  have hprefix : spaceAhead text = text.take (spaceAhead text).length :=
    List.prefix_iff_eq_take.mp (List.takeWhile_prefix _)
  obtain ⟨found, hfound, hlength⟩ := Option.map_eq_some_iff.mp hlength
  rw [hfound, Pattern.find?_eq_front rfl hfound, hlength, Found.front, ← hprefix]

end TextGrammar
