import TextGrammar.Proofs.Comparison
import TextGrammar.Proofs.Reentry
import TextGrammar.Proofs.Termination

/-!
# The log accounts for every decision

Two evaluations of the same rule, in the same setting but on different texts, can only part
where a token looks at the text, and what the token finds there has a line of its own in the
log. So evaluations with the same log are the same evaluation (`apply_eq_of_logLines_eq`): they
come to the same verdict, call the same actions, and raise the same fault if they raise one.

Equal logs have to be cut into equal parts for that. A run is not told from another by how long
its log is: if the logs of two runs can be continued to one and the same log, then the runs are
the same already (`Run.Accounted`). This passes from runs to runs in a row
(`Run.Comparison.accounted`), so only tokens are left to be compared.
-/

namespace TextGrammar

variable {s : Setting} {text text' : List Char}

/-- The same rules and actions on another text. -/
def Setting.on (s : Setting) (text : List Char) : Setting := { s with text }

theorem logLines_append (events events' : List Event) :
    logLines (events ++ events') = logLines events ++ logLines events' :=
  List.filterMap_append

/-! ## Runs that are told apart by their logs -/

namespace Run

variable {α β : Type}

/-- The two runs are the same if their logs are the beginnings of one log. -/
def Accounted (x y : Run α) : Prop :=
  ∀ more more', logLines x.events ++ more = logLines y.events ++ more' → x = y

/-- The log of two runs in a row starts with that of the first. -/
theorem logLines_bind (x : Run α) (f : α → Run β) :
    ∃ rest, logLines (x >>= f).events = logLines x.events ++ rest := by
  obtain ⟨es, e⟩ := x
  cases e with
  | done a => exact ⟨logLines (f a).events, by rw [bind_done, logLines_append]⟩
  | raised f => exact ⟨[], by rw [bind_raised, List.append_nil]⟩
  | runaway => exact ⟨[], by rw [bind_runaway, List.append_nil]⟩

/-- Runs that look alike to everyone if their logs are the beginnings of one log. -/
def Comparison.accounted : Comparison where
  Rel R x y := ∀ more more', logLines x.events ++ more = logLines y.events ++ more' →
    x.Alike some R y
  refl x _ _ _ := .refl x
  pure h _ _ _ := .pure h
  bind := by
    intro α β γ δ R S x y f g hxy hfg more more' hlog
    obtain ⟨rest, hrest⟩ := logLines_bind x f
    obtain ⟨rest', hrest'⟩ := logLines_bind y g
    have hfirst : x.Alike some R y := by
      rw [hrest, hrest', List.append_assoc, List.append_assoc] at hlog
      exact hxy _ _ hlog
    obtain ⟨es, e⟩ := x
    obtain ⟨es', e'⟩ := y
    obtain ⟨hevents, hending⟩ := hfirst
    simp only [List.filterMap_some] at hevents
    subst hevents
    cases hending with
    | raised f => exact ⟨rfl, .raised f⟩
    | runaway => exact ⟨rfl, .runaway⟩
    | @done a b hr =>
        -- what is left of the two logs are those of the runs that follow
        rw [bind_done, bind_done, logLines_append, logLines_append, List.append_assoc,
          List.append_assoc] at hlog
        have hrest := hfg a b hr _ _ (List.append_cancel_left hlog)
        exact (Alike.refl ⟨es, .done ()⟩).bind fun _ _ _ => hrest

end Run

/-! ## Tokens -/

theorem line?_taken_ne_noMatch (taken : String) :
    (Event.taken taken).line? ≠ Event.noMatch.line? := by
  intro h
  have hchars := congrArg (fun line => (line.getD "").toList) h
  simp [Event.line?] at hchars

theorem line?_taken_inj {taken taken' : String}
    (h : (Event.taken taken).line? = (Event.taken taken').line?) : taken = taken' := by
  simpa [Event.line?] using h

/-- What a token takes is told by its line in the log, if it takes what is logged. -/
theorem evalToken_accounted {depth : Nat} {t : Token} (hfront : t.TakesFront) {pos : Int}
    {skip : Bool}
    (hspace : Run.Comparison.accounted.Rel (Verdict.Aligned .same)
      (enter (s.on text) depth spaceName pos false) (enter (s.on text') depth spaceName pos false)) :
    Run.Comparison.accounted.Rel (Verdict.Aligned .same)
      (evalToken (s.on text) (enter (s.on text) depth) t pos skip)
      (evalToken (s.on text') (enter (s.on text') depth) t pos skip) := by
  have hstart := tokenStart_agree (x := (s.on text).evaluator depth)
    (y := (s.on text').evaluator depth) rfl hspace skip
  unfold evalToken
  refine Run.Comparison.after _ fun _ => Run.Comparison.bind _ hstart ?_
  rintro start _ rfl
  intro more more'
  -- the two lines stand at the front of the two logs
  cases hfound : t.find? ((s.on text).remaining start) with
  | none =>
      cases t.find? ((s.on text').remaining start) with
      | none => exact fun _ => ⟨rfl, .done (.failure rfl)⟩
      | some found' =>
          intro hlog
          have hline := (List.cons.inj hlog).1
          exact absurd (congrArg some hline.symm) (line?_taken_ne_noMatch _)
  | some found =>
      cases hfound' : t.find? ((s.on text').remaining start) with
      | none =>
          intro hlog
          have hline := (List.cons.inj hlog).1
          exact absurd (congrArg some hline) (line?_taken_ne_noMatch _)
      | some found' =>
          intro hlog
          have hline := (List.cons.inj hlog).1
          have htext : found.text = found'.text :=
            String.ofList_inj.mp (line?_taken_inj (congrArg some hline))
          have hlength : found.length = found'.length := by
            rw [← hfront.length_text hfound, ← hfront.length_text hfound', htext]
          obtain rfl : found = found' := Found.ext htext hlength
          exact ⟨rfl, .done (.success _ rfl)⟩

/-! ## References -/

/-- References are told apart by their logs, however many may be followed. -/
theorem enter_accounted (hfront : s.rules.AllTokens Token.TakesFront) (depth : Nat)
    (name : String) (pos : Int) (skip : Bool) :
    (enter (s.on text) depth name pos skip).Accounted (enter (s.on text') depth name pos skip) := by
  have henters : EntersAgree .accounted .same ((s.on text).evaluator depth)
      ((s.on text').evaluator depth) fun _ _ => True := by
    refine entersAgree ?_ ?_ ?_ ?_ depth
    · rfl
    · exact fun name skip _ => ⟨rfl, rfl⟩
    · exact fun name skip body other _ _ _ => trivial
    · rintro name skip body t depth - hbody ht henters pos _ rfl
      exact evalToken_accounted (hfront.get? hbody t ht)
        (henters spaceName false pos pos trivial rfl)
  intro more more' hlog
  exact (henters name skip pos pos trivial rfl more more' hlog).eq fun _ _ hv => hv.eq

/-! ## Evaluations at the top -/

/--
**The log accounts for everything that was decided.** If tokens take the front of the text, a rule
is evaluated from the same position of two texts, both evaluations end, and they have the same
lines in their logs, then they are the same evaluation: they match or not alike, with the same
value, and stop at the same position; they call the same actions with the same arguments, in the
same order; and they raise the same fault if they raise one.
-/
theorem apply_eq_of_logLines_eq (s : Setting) (hfront : s.rules.AllTokens Token.TakesFront)
    (text text' : List Char) (name : String) (pos : Int)
    (hends : ¬(s.on text).NeverEnds (Call.first name pos))
    (hends' : ¬(s.on text').NeverEnds (Call.first name pos))
    (hlog : logLines ((s.on text).apply name pos).events
      = logLines ((s.on text').apply name pos).events) :
    (s.on text).apply name pos = (s.on text').apply name pos := by
  -- at the same depth the two evaluations can be compared
  have hmore : ∀ (t : Setting) (depth : Nat), ¬t.NeverEnds (Call.first name pos) →
      t.depthBound pos ≤ depth → t.apply name pos = enter t depth name pos true := by
    intro t depth hnever hle
    rw [← apply_eq_runaway_iff] at hnever
    exact (enter_approximates hle name pos true).eq_of_ne hnever
  have hleft := hmore _ _ hends (Nat.le_max_left _ ((s.on text').depthBound pos))
  have hright := hmore _ _ hends' (Nat.le_max_right ((s.on text).depthBound pos) _)
  rw [hleft, hright] at hlog ⊢
  refine enter_accounted hfront _ name pos true [] [] ?_
  rw [List.append_nil, List.append_nil, hlog]

/-- The rules of letters, with an action on each that gives its argument back. -/
def echoSetting : Setting := ⟨letterRules, fun _ => some (.function .ok), [], Fault.listCapacity⟩

/-- The tokens of these rules take letters from the front. -/
theorem allTokens_letterRules : letterRules.AllTokens Token.TakesFront := by
  have hletter : letterToken.TakesFront := Pattern.compiled_takesFront rfl 0
  have hletters : lettersToken.TakesFront := Pattern.compiled_takesFront rfl 0
  intro e he t ht
  simp only [letterRules, List.mem_cons, List.not_mem_nil, or_false] at he
  rcases he with rfl | rfl | rfl
  · simp [Rule.nodes] at ht
  · simp only [Rule.nodes, Rule.nodesAll] at ht
    obtain rfl : t = letterToken := by simpa using ht
    exact hletter
  · obtain rfl : t = lettersToken := by simpa [Rule.nodes] using ht
    exact hletters

/-- What stands behind the letters makes no difference to the log. -/
theorem apply_echoSetting_eq :
    echoSetting.rules.AllTokens Token.TakesFront
      ∧ ¬(echoSetting.on "xxy".toList).NeverEnds (Call.first "$begin" 0)
      ∧ ¬(echoSetting.on "xxzz".toList).NeverEnds (Call.first "$begin" 0)
      ∧ logLines ((echoSetting.on "xxy".toList).apply "$begin" 0).events
        = logLines ((echoSetting.on "xxzz".toList).apply "$begin" 0).events
      ∧ (echoSetting.on "xxy".toList).apply "$begin" 0
        = (echoSetting.on "xxzz".toList).apply "$begin" 0 := by
  have hfront : echoSetting.rules.AllTokens Token.TakesFront := allTokens_letterRules
  have hleft : ¬(echoSetting.on "xxy".toList).NeverEnds (Call.first "$begin" 0) := by
    rw [← apply_eq_runaway_iff]
    nofun
  have hright : ¬(echoSetting.on "xxzz".toList).NeverEnds (Call.first "$begin" 0) := by
    rw [← apply_eq_runaway_iff]
    nofun
  have hlog : logLines ((echoSetting.on "xxy".toList).apply "$begin" 0).events
      = logLines ((echoSetting.on "xxzz".toList).apply "$begin" 0).events := by decide +kernel
  exact ⟨hfront, hleft, hright, hlog,
    apply_eq_of_logLines_eq echoSetting hfront _ _ "$begin" 0 hleft hright hlog⟩

end TextGrammar
