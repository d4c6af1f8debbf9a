import TextGrammar.CommandLine.Basic
import TextGrammar.Proofs.Coercion
import TextGrammar.Proofs.Outcomes

/-!
# What the two commands make of a grammar file

`check` only reads a grammar file and looks for `$begin`; `run` makes a parser of it. Nothing
but a missing `$begin` can come between the two: whatever can be read can be made a parser of.
So `run` finds fault with exactly the files that `check` does not report a `$begin` for
(`commands_agree`). On all others its exit code says whether the text matches, and the options
change that code and what is printed only as far as they should.
-/

namespace TextGrammar

/-- A check that succeeds and reports that there is a rule to start with. -/
def CommandEnd.ReportsBegin (e : CommandEnd) : Prop :=
  e.exitCode = 0 ∧ ∃ front, e.out = front ++ "begin=yes\n"

/-- Whether a verdict will do: the text has to match, and with `full` all of it. -/
def Verdict.Accepts (v : Verdict) (text : String) (full : Bool) : Prop :=
  ∃ value stop, v = .success value stop ∧ (full = true → stop = text.length)

/-- The program answers a verdict by its exit code, and prints the value of what will do. -/
structure CommandEnd.Answers (e : CommandEnd) (v : Verdict) (text : String) (full : Bool) :
    Prop where
  zero : e.exitCode = 0 ↔ v.Accepts text full
  one : e.exitCode = 1 ↔ ¬v.Accepts text full
  printed : ∀ value stop, v = .success value stop → v.Accepts text full →
    e.out = value.shown ++ "\n"

/-- Checks a grammar file. -/
abbrev checkFile [PatternEngine] (read : FileReader) (file : String) (debug : Bool) : CommandEnd :=
  (Command.check file debug).execute read

/-- Runs a grammar file on a text that the arguments give. -/
abbrev runText [PatternEngine] (read : FileReader) (file text : String) (full verbose : Bool) :
    CommandEnd :=
  (Command.run file (.literal text) full verbose).execute read

/-- The setting in which the rules of a grammar file work on a text. -/
def Rules.fileSetting [PatternEngine] (rules : Rules) (text : String) : Setting :=
  ⟨rules.withUsualSpace, fun _ => none, text.toList, Fault.listCapacity⟩

variable {read : FileReader} {file text : String} {rules : Rules}

/-! ## Reports -/

theorem reportFault_code (f : Fault) : (reportFault f).code = 2 := by
  unfold reportFault
  split <;> rfl

theorem reportFault_out (f : Fault) : (reportFault f).out = "" := by
  unfold reportFault
  split <;> rfl

/-- A match is reported as such if it need not be complete or if it is. -/
theorem reportOutcome_cases (o : ParseOutcome) (full : Bool) (log : String) :
    (o.ok = true ∧ (full = true → o.complete = true) ∧
        reportOutcome o full log = ⟨0, o.value.shown ++ "\n", log⟩)
      ∨ (¬(o.ok = true ∧ (full = true → o.complete = true)) ∧
        ∃ err, reportOutcome o full log = ⟨1, "", err⟩) := by
  unfold reportOutcome
  by_cases hok : o.ok = true
  · by_cases hfull : full = true ∧ o.complete = false
    · refine .inr ⟨fun h => ?_, ?_⟩
      · have hcomplete := h.2 hfull.1
        rw [hfull.2] at hcomplete
        cases hcomplete
      · rw [if_neg (by simp [hok]), if_pos (by simp [hfull])]
        exact ⟨_, rfl⟩
    · have hcomplete : full = true → o.complete = true := by
        intro h
        simpa [h] using hfull
      refine .inl ⟨hok, hcomplete, ?_⟩
      rw [if_neg (by simp [hok]), if_neg (by simpa using hcomplete)]
      simp [joinLines, String.join]
  · refine .inr ⟨fun h => hok h.1, ?_⟩
    rw [if_pos (by simp [hok])]
    exact ⟨_, rfl⟩

/-! ## Reading a grammar file -/

section Reading

variable [PatternEngine]

theorem loadGrammar_known (h : loadGrammar read file = .ok rules) :
    rules.Distinct ∧ ∀ e ∈ rules, e.2.Known := by
  obtain ⟨source, -, hrules⟩ := bind_eq_ok h
  exact readGrammar_known hrules

theorem checkGrammar_ok (h : loadGrammar read file = .ok rules) (debug : Bool) :
    (checkGrammar read file debug).code = 0
      ∧ (checkGrammar read file debug).out = "[CHECK OK] rules=" ++ toString rules.length
        ++ " begin=" ++ (if rules.has beginName then "yes" else "no") ++ "\n" := by
  rw [checkGrammar, h]
  exact ⟨rfl, by simp [joinLines, String.join]⟩

/-- A check reports a `$begin` if the file can be read and has one. -/
theorem reportsBegin_checkFile_iff (read : FileReader) (file : String) (debug : Bool) :
    (checkFile read file debug).ReportsBegin
      ↔ ∃ rules, loadGrammar read file = .ok rules ∧ rules.has beginName = true := by
  show (checkGrammar read file debug).code = 0
    ∧ (∃ front, (checkGrammar read file debug).out = front ++ "begin=yes\n") ↔ _
  cases hload : loadGrammar read file with
  | error f =>
      rw [checkGrammar, hload, reportFault_code]
      constructor
      · intro h
        cases h.1
      · rintro ⟨_, hok, -⟩
        cases hok
  | ok rules =>
      obtain ⟨hcode, hout⟩ := checkGrammar_ok hload debug
      rw [hcode, hout]
      cases hbegin : rules.has beginName with
      | true =>
          refine ⟨fun _ => ⟨rules, rfl, hbegin⟩, fun _ => ⟨rfl, ?_⟩⟩
          exact ⟨"[CHECK OK] rules=" ++ toString rules.length ++ " ", by simp [String.append_assoc]⟩
      | false =>
          constructor
          · rintro ⟨-, front, hfront⟩
            -- one line ends in `no` and the other one in `yes`
            have hlast := congrArg (fun s => s.toList.reverse.take 2) hfront
            simp at hlast
          · rintro ⟨_, hok, hbegin'⟩
            cases hok
            rw [hbegin] at hbegin'
            cases hbegin'

end Reading

/-! ## Running it -/

/-- An outcome is complete if nothing is left, which is so if the evaluation stops at the end. -/
theorem Verdict.outcome_accepted_iff {v : Verdict} (hstop : 0 ≤ v.stop) (text : String)
    (full : Bool) :
    ((v.outcome text.toList).ok = true ∧ (full = true → (v.outcome text.toList).complete = true))
      ↔ v.Accepts text full := by
  unfold Verdict.Accepts
  cases v with
  | failure stop => simp [Verdict.outcome, ParseOutcome.ok]
  | success value stop =>
      have hend : stop.toNat = text.toList.length ↔ stop = text.length := by
        have hpositive : 0 ≤ stop := hstop
        rw [String.length_toList]
        omega
      simp [Verdict.outcome, ParseOutcome.ok, ParseOutcome.complete, ParseOutcome.stop, hend]

/-- How a command ends whose parser has been made, with what has been logged. -/
def matchEnd (full : Bool) (log : String) : Ending ParseOutcome → CommandEnd
  | .done o => .finished (reportOutcome o full log)
  | .raised f => .fault f
  | .runaway => .fault .runaway

section Running

variable [PatternEngine]

theorem loadRun_error {f : Fault} (h : loadGrammar read file = .error f) (source : TextSource) :
    loadRun read file source = .error f := by
  rw [loadRun, h]
  rfl

theorem loadRun_noBegin (h : loadGrammar read file = .ok rules) (hbegin : rules.has beginName = false)
    (source : TextSource) : loadRun read file source = .error .noBegin := by
  obtain ⟨hnames, hknown⟩ := loadGrammar_known h
  have hmake := Parser.make_noBegin hnames hknown hbegin []
  rw [loadRun, h]
  simp only [bind, Except.bind, hmake]

/-- What can be read and has a `$begin` can be made a parser of. -/
theorem loadRun_literal (h : loadGrammar read file = .ok rules) (hbegin : rules.has beginName = true)
    (text : String) :
    loadRun read file (.literal text) = .ok (⟨rules.withUsualSpace, []⟩, text.toList) := by
  obtain ⟨hnames, hknown⟩ := loadGrammar_known h
  have hmake := @Parser.make_drafts _ rules [] hnames hknown hbegin rfl
  rw [loadRun, h]
  simp only [bind, Except.bind, hmake]
  rfl

theorem runText_error {f : Fault} (h : loadRun read file (.literal text) = .error f)
    (full verbose : Bool) :
    runText read file text full verbose = .finished (reportFault f) := by
  show runGrammar read file (.literal text) full verbose = _
  rw [runGrammar, h]

theorem runText_begin (h : loadGrammar read file = .ok rules) (hbegin : rules.has beginName = true)
    (text : String) :
    ∃ events, ∀ full verbose, runText read file text full verbose =
      matchEnd full (if verbose then joinLines (logLines events) else "")
        (((rules.fileSetting text).apply beginName 0).ending.andThen fun v =>
          .done (v.outcome text.toList)) := by
  have hsetting : Parser.setting ⟨rules.withUsualSpace, []⟩ text.toList = rules.fileSetting text :=
    rfl
  have hending : (Parser.parse ⟨rules.withUsualSpace, []⟩ text.toList).ending =
      ((rules.fileSetting text).apply beginName 0).ending.andThen fun v =>
        .done (v.outcome text.toList) := by
    rw [Parser.parse_eq, hsetting, map_eq_pure_bind, Run.ending_bind]
    rfl
  refine ⟨(Parser.parse ⟨rules.withUsualSpace, []⟩ text.toList).events, fun full verbose => ?_⟩
  show runGrammar read file (.literal text) full verbose = _
  rw [runGrammar, loadRun_literal h hbegin, ← hending]
  dsimp only
  cases (Parser.parse ⟨rules.withUsualSpace, []⟩ text.toList).ending <;> rfl

/-- A run finds fault with the grammar file, or there is a `$begin` and it is evaluated. -/
theorem runText_cases (read : FileReader) (file text : String) :
    ((¬∃ rules, loadGrammar read file = .ok rules ∧ rules.has beginName = true)
        ∧ ∃ f, ∀ full verbose, runText read file text full verbose = .finished (reportFault f))
      ∨ ∃ rules events, loadGrammar read file = .ok rules ∧ rules.has beginName = true
        ∧ ∀ full verbose, runText read file text full verbose =
          matchEnd full (if verbose then joinLines (logLines events) else "")
            (((rules.fileSetting text).apply beginName 0).ending.andThen fun v =>
              .done (v.outcome text.toList)) := by
  cases hload : loadGrammar read file with
  | error f =>
      refine .inl ⟨?_, f, fun full verbose => runText_error (loadRun_error hload _) full verbose⟩
      rintro ⟨_, hok, -⟩
      cases hok
  | ok rules =>
      cases hbegin : rules.has beginName with
      | true =>
          obtain ⟨events, hrun⟩ := runText_begin hload hbegin text
          exact .inr ⟨rules, events, rfl, hbegin, hrun⟩
      | false =>
          refine .inl ⟨?_, .noBegin, fun full verbose =>
            runText_error (loadRun_noBegin hload hbegin _) full verbose⟩
          rintro ⟨_, hok, hbegin'⟩
          cases hok
          rw [hbegin] at hbegin'
          cases hbegin'

end Running

/-! ## What options can change -/

/-- A run whose parser has been made never ends as if the grammar were at fault. -/
theorem matchEnd_exitCode (full : Bool) (log : String) (e : Ending ParseOutcome) :
    (matchEnd full log e).exitCode = 0
      ∨ (matchEnd full log e).exitCode = 1 ∧ (matchEnd full log e).out = "" := by
  cases e with
  | done o =>
      rcases reportOutcome_cases o full log with ⟨-, -, hreport⟩ | ⟨-, err, hreport⟩
      · exact .inl (congrArg CommandOutput.code hreport)
      · exact .inr ⟨congrArg CommandOutput.code hreport, congrArg CommandOutput.out hreport⟩
  | raised f => exact .inr ⟨rfl, rfl⟩
  | runaway => exact .inr ⟨rfl, rfl⟩

/-- What is logged only goes to the second output. -/
theorem matchEnd_log (full : Bool) (log log' : String) (e : Ending ParseOutcome) :
    (matchEnd full log e).exitCode = (matchEnd full log' e).exitCode
      ∧ (matchEnd full log e).out = (matchEnd full log' e).out := by
  cases e with
  | done o =>
      show (reportOutcome o full log).code = (reportOutcome o full log').code
        ∧ (reportOutcome o full log).out = (reportOutcome o full log').out
      unfold reportOutcome
      split
      · exact ⟨rfl, rfl⟩
      · split <;> exact ⟨rfl, rfl⟩
  | raised f => exact ⟨rfl, rfl⟩
  | runaway => exact ⟨rfl, rfl⟩

/-- To ask for all of the text changes what is printed only if it is not all that matches. -/
theorem matchEnd_full (log : String) (e : Ending ParseOutcome)
    (h : (matchEnd true log e).out ≠ (matchEnd false log e).out) :
    (matchEnd false log e).exitCode = 0 ∧ (matchEnd true log e).exitCode = 1 := by
  cases e with
  | done o =>
      rcases reportOutcome_cases o true log with ⟨hok, -, htrue⟩ | ⟨-, err, htrue⟩
      · rcases reportOutcome_cases o false log with ⟨-, -, hfalse⟩ | ⟨hnot, -⟩
        · -- all of the text matches
          refine absurd ?_ h
          rw [matchEnd, matchEnd, htrue, hfalse]
        · exact absurd ⟨hok, nofun⟩ hnot
      · rcases reportOutcome_cases o false log with ⟨-, -, hfalse⟩ | ⟨-, err', hfalse⟩
        · exact ⟨congrArg CommandOutput.code hfalse, congrArg CommandOutput.code htrue⟩
        · -- nothing matches
          refine absurd ?_ h
          rw [matchEnd, matchEnd, htrue, hfalse]
          rfl
  | raised f => exact absurd rfl h
  | runaway => exact absurd rfl h

/-! ## The commands -/

/-- If the evaluation ends, so that a verdict is there, the program answers it. -/
theorem matchEnd_answers {v : Verdict} (hstop : 0 ≤ v.stop) (text : String) (full : Bool)
    (log : String) : (matchEnd full log (.done (v.outcome text.toList))).Answers v text full := by
  have haccepted := Verdict.outcome_accepted_iff hstop text full
  rcases reportOutcome_cases (v.outcome text.toList) full log with
    ⟨hok, hcomplete, hreport⟩ | ⟨hnot, err, hreport⟩
  · have haccepts : v.Accepts text full := haccepted.mp ⟨hok, hcomplete⟩
    rw [matchEnd, hreport]
    refine ⟨⟨fun _ => haccepts, fun _ => rfl⟩, ⟨nofun, fun h => absurd haccepts h⟩, ?_⟩
    rintro value stop rfl -
    rfl
  · have hrejects : ¬v.Accepts text full := fun h => hnot (haccepted.mpr h)
    rw [matchEnd, hreport]
    exact ⟨⟨nofun, fun h => absurd h hrejects⟩, ⟨fun _ => hrejects, fun _ => rfl⟩,
      fun _ _ _ h => absurd h hrejects⟩

/--
**The two commands agree.** For every grammar file and every text: to run the file ends with code
two exactly if checking it does not succeed and report a `$begin`. Otherwise, and if the evaluation
of `$begin` ends, the code is zero exactly if it matches, with `full` all of the text, and one
otherwise. With code zero the value is printed, and with any other code nothing. To log changes
neither the code nor what is printed, and to ask for all of the text changes what is printed only
where it turns code zero into code one.
-/
theorem commands_agree [PatternEngine] (read : FileReader) (file text : String)
    (full verbose debug : Bool) :
    ((runText read file text full verbose).exitCode = 2
        ↔ ¬(checkFile read file debug).ReportsBegin)
      ∧ ((checkFile read file debug).ReportsBegin → ∃ rules, loadGrammar read file = .ok rules
        ∧ ∀ v, ((rules.fileSetting text).apply beginName 0).ending = .done v →
          (runText read file text full verbose).Answers v text full)
      ∧ ((runText read file text full verbose).exitCode ≠ 0 →
          (runText read file text full verbose).out = "")
      ∧ (runText read file text full true).exitCode = (runText read file text full false).exitCode
      ∧ (runText read file text full true).out = (runText read file text full false).out
      ∧ ((runText read file text true verbose).out ≠ (runText read file text false verbose).out →
          (runText read file text false verbose).exitCode = 0
            ∧ (runText read file text true verbose).exitCode = 1) := by
  rw [reportsBegin_checkFile_iff]
  rcases runText_cases read file text with ⟨hnone, f, hrun⟩ | ⟨rules, events, hload, hbegin, hrun⟩
  · simp only [hrun]
    have hcode : (CommandEnd.finished (reportFault f)).exitCode = 2 := reportFault_code f
    have hout : (CommandEnd.finished (reportFault f)).out = "" := reportFault_out f
    exact ⟨⟨fun _ => hnone, fun _ => hcode⟩, fun h => absurd h hnone, fun _ => hout, trivial,
      trivial, fun h => absurd rfl h⟩
  · simp only [hrun]
    have hexit := matchEnd_exitCode full (if verbose then joinLines (logLines events) else "")
      (((rules.fileSetting text).apply beginName 0).ending.andThen fun v =>
        .done (v.outcome text.toList))
    refine ⟨⟨fun htwo => ?_, fun hnone => absurd ⟨rules, hload, hbegin⟩ hnone⟩,
      fun _ => ⟨rules, hload, fun v hv => ?_⟩, fun hne => (hexit.resolve_left hne).2,
      (matchEnd_log _ _ _ _).1, (matchEnd_log _ _ _ _).2, matchEnd_full _ _⟩
    · -- once there is a parser, the code is zero or one
      rcases hexit with hcode | ⟨hcode, -⟩
      · rw [htwo] at hcode
        cases hcode
      · rw [htwo] at hcode
        cases hcode
    · have hstop : 0 ≤ v.stop := (enter_within _ _ beginName 0 true v hv).1
      rw [hv, Ending.andThen_done]
      exact matchEnd_answers hstop text full _

/-- The bytes of the grammar that gives the letter `x` to `$begin`, whatever the path. -/
def letterFile : FileReader := fun _ =>
  .ok [0x24, 0x62, 0x65, 0x67, 0x69, 0x6E, 0x20, 0x3C, 0x2D, 0x20, 0x22, 0x78, 0x22]

/-- A letter that is followed by another one matches, but not if all of the text has to. -/
theorem commands_agree_letterFile :
    (checkFile letterFile "x.gel" false).ReportsBegin
      ∧ (runText letterFile "x.gel" "xy" false true).exitCode = 0
      ∧ (runText letterFile "x.gel" "xy" false true).out = "'x'\n"
      ∧ (runText letterFile "x.gel" "xy" true true).exitCode = 1 := by
  have hload : loadGrammar letterFile "x.gel" = .ok (literalRules ['x']) := rfl
  have hreports : (checkFile letterFile "x.gel" false).ReportsBegin :=
    (reportsBegin_checkFile_iff letterFile "x.gel" false).mpr ⟨_, hload, rfl⟩
  have hmatch : (((literalRules ['x']).fileSetting "xy").apply beginName 0).ending
      = .done (.success (.text "x") 1) := rfl
  have haccepts : (Verdict.success (.text "x") 1).Accepts "xy" false := ⟨_, _, rfl, nofun⟩
  have hrejects : ¬(Verdict.success (.text "x") 1).Accepts "xy" true := by
    rintro ⟨value, stop, hv, hstop⟩
    cases hv
    exact absurd (hstop rfl) (by decide)
  obtain ⟨-, hsome, -⟩ := commands_agree letterFile "x.gel" "xy" false true false
  obtain ⟨-, hall, -⟩ := commands_agree letterFile "x.gel" "xy" true true false
  obtain ⟨rules, hrules, hsome⟩ := hsome hreports
  obtain ⟨rules', hrules', hall⟩ := hall hreports
  cases hload.symm.trans hrules
  cases hload.symm.trans hrules'
  have hanswers := hsome _ hmatch
  exact ⟨hreports, hanswers.zero.mpr haccepts, hanswers.printed _ _ rfl haccepts,
    (hall _ hmatch).one.mpr hrejects⟩

end TextGrammar
