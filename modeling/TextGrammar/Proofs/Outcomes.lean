import TextGrammar.Parser.Basic
import TextGrammar.Proofs.Termination

/-!
# What a parser reports

A parser evaluates `$begin` at the front of the text and reports what it finds: the value, where
the part that matched ends, and what is left. An evaluation never goes back and never beyond the
text (`enter_within`), so that what matched and what is left make up the text, and nothing is left
exactly if the evaluation stopped at the end (`apply_stops_in_range`).
-/

namespace TextGrammar

/-! ## From verdicts to outcomes -/

/-- What a parser reports for a verdict on a text. -/
def Verdict.outcome (v : Verdict) (text : List Char) : ParseOutcome :=
  match v with
  | .success value stop => ⟨text, some (value, stop.toNat)⟩
  | .failure _ => ⟨text, none⟩

theorem Parser.parse_eq (p : Parser) (text : List Char) :
    p.parse text = (fun v => v.outcome text) <$> (p.setting text).apply beginName 0 := by
  rw [map_eq_pure_bind, Parser.parse]
  congr 1
  funext v
  cases v <;> rfl

/-- What a parser reports is what it makes of a verdict. -/
theorem Parser.parse_done {p : Parser} {text : List Char} {o : ParseOutcome}
    (h : (p.parse text).ending = .done o) :
    ∃ v, ((p.setting text).apply beginName 0).ending = .done v ∧ o = v.outcome text := by
  rw [Parser.parse_eq, Run.ending_map, Ending.andThen_eq_done_iff] at h
  obtain ⟨v, hv, ho⟩ := h
  exact ⟨v, hv, (Ending.done.inj ho).symm⟩

/-! ## What is left of the text -/

namespace ParseOutcome

variable {o : ParseOutcome}

theorem take_stop_append_rest (o : ParseOutcome) : o.text.take o.stop ++ o.rest = o.text := by
  rw [rest, List.take_append_drop]

/-- Nothing is left behind an end that lies within the text if it is that of the text. -/
theorem complete_iff (hstop : o.stop ≤ o.text.length) :
    o.complete = true ↔ o.ok = true ∧ o.rest = [] := by
  rw [complete, Bool.and_eq_true, beq_iff_eq, rest, List.drop_eq_nil_iff]
  constructor
  · rintro ⟨hok, heq⟩
    exact ⟨hok, by omega⟩
  · rintro ⟨hok, hle⟩
    exact ⟨hok, by omega⟩

/-- If nothing matches, everything is left. -/
theorem rest_of_not_ok (h : o.ok = false) : o.rest = o.text ∧ o.complete = false := by
  obtain ⟨text, found⟩ := o
  cases found with
  | none => exact ⟨rfl, rfl⟩
  | some found => cases h

end ParseOutcome

/-- The end of what matches is where the evaluation stopped, if that is not before the text. -/
theorem Verdict.outcome_ok {v : Verdict} {text : List Char} (hstop : 0 ≤ v.stop)
    (hok : (v.outcome text).ok = true) :
    v = .success (v.outcome text).value (v.outcome text).stop := by
  cases v with
  | failure stop => cases hok
  | success value stop =>
      have hnat : ((stop.toNat : Nat) : Int) = stop := Int.toNat_of_nonneg hstop
      show Verdict.success value stop = .success value (stop.toNat : Nat)
      rw [hnat]

theorem Verdict.outcome_text (v : Verdict) (text : List Char) : (v.outcome text).text = text := by
  cases v <;> rfl

/-- An evaluation that stops within the text is reported with an end within the text. -/
theorem Verdict.outcome_stop_le {v : Verdict} {text : List Char}
    (hstop : v.stop ≤ text.length) : (v.outcome text).stop ≤ text.length := by
  cases v with
  | failure stop => exact Nat.zero_le _
  | success value stop =>
      have hle : stop ≤ text.length := hstop
      show stop.toNat ≤ text.length
      omega

/--
**Positions move forward and stay in range.** Wherever an evaluation starts, before, inside or
behind the text, it stops there or later, and no later than the end of the text unless it has
started behind it. This holds whether or not the rule matches. So if a text matches, a parser
reports the value and the very position where the evaluation of `$begin` stopped; what comes
before that position and what is left make up the text; and the match is complete exactly if
nothing is left. If a text does not match, all of it is left, and the match is not complete.
-/
theorem apply_stops_in_range :
    (∀ (s : Setting) (name : String) (pos : Int) (v : Verdict),
        (s.apply name pos).ending = .done v →
          pos ≤ v.stop ∧ v.stop ≤ max pos s.text.length)
      ∧ ∀ (p : Parser) (text : List Char) (o : ParseOutcome), (p.parse text).ending = .done o →
        o.text = text
          ∧ (o.ok = true →
            ((p.setting text).apply beginName 0).ending = .done (.success o.value o.stop)
              ∧ o.stop ≤ text.length ∧ text.take o.stop ++ o.rest = text)
          ∧ (o.complete = true ↔ o.ok = true ∧ o.rest = [])
          ∧ (o.ok = false → o.rest = text ∧ o.complete = false) := by
  have happly : ∀ (s : Setting) (name : String) (pos : Int) (v : Verdict),
      (s.apply name pos).ending = .done v → pos ≤ v.stop ∧ v.stop ≤ max pos s.text.length := by
    intro s name pos v hv
    rw [Int.max_comm]
    exact enter_within s (s.depthBound pos) name pos true v hv
  refine ⟨happly, fun p text o ho => ?_⟩
  obtain ⟨v, hv, rfl⟩ := Parser.parse_done ho
  have hpositive := (happly _ _ _ v hv).1
  have hrange := (happly _ _ _ v hv).2
  have htext : (v.outcome text).text = text := v.outcome_text text
  have hwithin : v.stop ≤ text.length := by
    have hlength : (p.setting text).text.length = text.length := rfl
    omega
  have hstop := Verdict.outcome_stop_le hwithin
  refine ⟨htext, fun hok => ⟨?_, hstop, ?_⟩, ?_, fun hnot => ?_⟩
  · rw [hv, ← Verdict.outcome_ok hpositive hok]
  · have hwhole := (v.outcome text).take_stop_append_rest
    rwa [htext] at hwhole
  · exact ParseOutcome.complete_iff (by rwa [htext])
  · have hrest := ParseOutcome.rest_of_not_ok hnot
    rwa [htext] at hrest

/-- The rules of letters as a parser. -/
def letterParser : Parser := ⟨letterRules, []⟩

/-- What is taken from before the text is counted from there; of a text a part may be left. -/
theorem letterParser_stops_in_range :
    ((letterParser.setting ['x', 'x', 'y']).apply "$begin" (-2)).ending
        = .done (.success (.list [.text "", .text ""]) (-1))
      ∧ (-2 ≤ (-1 : Int) ∧ (-1 : Int) ≤ max (-2) 3)
      ∧ (letterParser.parse ['x', 'x', 'y']).ending
        = .done ⟨['x', 'x', 'y'], some (.list [.text "", .text ""], 2)⟩
      ∧ ['x', 'x', 'y'] = ['x', 'x'] ++ ['y'] := by
  have happly : ((letterParser.setting ['x', 'x', 'y']).apply "$begin" (-2)).ending
      = .done (.success (.list [.text "", .text ""]) (-1)) := rfl
  have hparse : (letterParser.parse ['x', 'x', 'y']).ending
      = .done ⟨['x', 'x', 'y'], some (.list [.text "", .text ""], 2)⟩ := rfl
  obtain ⟨hrange, hreport⟩ := apply_stops_in_range
  obtain ⟨-, hmatched, -, -⟩ := hreport letterParser ['x', 'x', 'y'] _ hparse
  obtain ⟨-, -, hwhole⟩ := hmatched rfl
  exact ⟨happly, hrange _ _ _ _ happly, hparse, hwhole.symm⟩

end TextGrammar
