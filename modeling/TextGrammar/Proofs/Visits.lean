import TextGrammar.Proofs.Progress
import TextGrammar.Proofs.Tracing
import Mathlib.Data.List.Nodup
import Mathlib.Data.List.Range

/-!
# Reading ends, and never leaves the text

A visit has a mark, which counts first the offset and then the stage that the reader is at.
Every visit has a higher mark than the one before it (`Climbs`), and there are only so many
marks in a text, so that reading ends however the text goes on.

A sequence may be empty, and then nothing has been taken when its reader returns. What moves on
there is the stage: only a bar, a parenthesis, the next rule or the end can follow.
-/

namespace TextGrammar

open Traced (visit)

/-! ## Marks -/

namespace Stage

/-- The order in which stages can follow each other at one place. -/
def level : Stage → Nat
  | text => 0
  | token => 1
  | suffix => 2
  | expression => 3
  | items => 4
  | item => 5
  | primary => 6
  | alternatives => 7
  | rules => 8

/-- The mark of a place at some stage: further on it is higher, whatever the stage. -/
def mark (stage : Stage) (c : Cursor) : Nat := 9 * c.offset + stage.level

theorem level_lt (stage : Stage) : stage.level < 9 := by
  cases stage <;> decide

end Stage

def Visit.mark (v : Visit) : Nat := v.stage.mark v.place

theorem Cursor.Leads.offset_le {n : Nat} {c d : Cursor} (h : Cursor.Leads n c d) :
    c.offset + n ≤ d.offset := by
  obtain ⟨taken, -, hoffset, hn⟩ := h
  omega

theorem Advances.leads [PatternEngine] {α : Type} {n : Nat} {place : α → Cursor} {c : Cursor}
    {x : Except Fault α} {a : α} (h : Advances n place c x) (hx : x = .ok a) :
    Cursor.Leads n c (place a) := by
  subst hx
  exact h

/-- At a place further on, a stage has a mark that is as high or higher. -/
theorem Stage.mark_le (stage : Stage) {c d : Cursor} (h : Cursor.Leads 0 c d) :
    stage.mark c ≤ stage.mark d := by
  have hle := h.offset_le
  unfold Stage.mark
  omega

/-- At one place, the marks are in the order of the stages. -/
theorem Stage.mark_lt_here (stage stage' : Stage) (h : stage.level < stage'.level)
    (c : Cursor) : stage.mark c < stage'.mark c :=
  Nat.add_lt_add_left h _

/-- Further on, every stage has a higher mark than any stage before. -/
theorem Stage.mark_lt_further (stage stage' : Stage) {n : Nat} {c d : Cursor}
    (h : Cursor.Leads (n + 1) c d) : stage.mark c < stage'.mark d := by
  have hle := h.offset_le
  have hlevel := stage.level_lt
  unfold Stage.mark
  omega

/-- The places are further on in one text, and the marks rise, from the lowest one on. -/
structure Rising (c : Cursor) (low : Nat) (visits : List Visit) : Prop where
  leads : ∀ v ∈ visits, Cursor.Leads 0 c v.place
  above : ∀ v ∈ visits, low ≤ v.mark
  ordered : visits.Pairwise fun v w => v.mark < w.mark

namespace Rising

variable {c d : Cursor} {low low' : Nat} {vs ws : List Visit}

theorem nil : Rising c low [] := by
  constructor <;> simp

theorem weaken (h : Rising c low vs) (hle : low' ≤ low) : Rising c low' vs :=
  ⟨h.leads, fun v hv => Nat.le_trans hle (h.above v hv), h.ordered⟩

theorem earlier (hcd : Cursor.Leads 0 c d) (h : Rising d low vs) : Rising c low vs :=
  ⟨fun v hv => hcd.trans (h.leads v hv), h.above, h.ordered⟩

theorem append {mid : Nat} (h : Rising c low vs) (hbelow : ∀ v ∈ vs, v.mark < mid)
    (hlow : low ≤ mid) (h' : Rising c mid ws) : Rising c low (vs ++ ws) := by
  refine ⟨?_, ?_, ?_⟩
  · intro v hv
    rcases List.mem_append.mp hv with hv | hv
    · exact h.leads v hv
    · exact h'.leads v hv
  · intro v hv
    rcases List.mem_append.mp hv with hv | hv
    · exact h.above v hv
    · exact Nat.le_trans hlow (h'.above v hv)
  · refine List.pairwise_append.mpr ⟨h.ordered, h'.ordered, ?_⟩
    intro v hv w hw
    exact Nat.lt_of_lt_of_le (hbelow v hv) (h'.above w hw)

/-- A visit at a place further on, and those that follow it there. -/
theorem enter {stage : Stage} (hcd : Cursor.Leads 0 c d)
    (h : Rising d (stage.mark d + 1) vs) : Rising c (stage.mark c) (⟨stage, d⟩ :: vs) where
  leads := by
    intro v hv
    rcases List.mem_cons.mp hv with rfl | hv
    · exact hcd
    · exact hcd.trans (h.leads v hv)
  above := by
    intro v hv
    have hlow := Stage.mark_le stage hcd
    rcases List.mem_cons.mp hv with rfl | hv
    · exact hlow
    · have habove := h.above v hv
      omega
  ordered := List.pairwise_cons.mpr ⟨h.above, h.ordered⟩

end Rising

/--
The visits rise, and if reading stops, then at a place further on, where the next stage has a
higher mark than all of them.
-/
structure Climbs {α : Type} (c : Cursor) (low : Nat) (place : α → Cursor) (next : Stage)
    (x : Traced α) : Prop extends Rising c low x.visits where
  stops : ∀ a, x.result = .ok a → Cursor.Leads 0 c (place a)
  rises : ∀ a, x.result = .ok a → low ≤ next.mark (place a)
  below : ∀ a, x.result = .ok a → ∀ v ∈ x.visits, v.mark < next.mark (place a)

namespace Climbs

variable {α β : Type} {c d : Cursor} {low low' : Nat} {place : α → Cursor}
  {place' : β → Cursor} {stage next next' : Stage} {x : Traced α} {y : Except Fault α}

theorem fail (f : Fault) : Climbs c low place next (.lift (.error f)) where
  toRising := .nil
  stops := by
    intro a h
    cases h
  rises := by
    intro a h
    cases h
  below := by
    intro a h
    cases h

theorem stay {a : α} (hlead : Cursor.Leads 0 c (place a)) (hlow : low ≤ next.mark (place a)) :
    Climbs c low place next (pure a) where
  toRising := .nil
  stops := by
    intro _ h
    cases h
    exact hlead
  rises := by
    intro _ h
    cases h
    exact hlow
  below := by
    intro _ _ v hv
    cases hv

theorem weaken (h : Climbs c low place next x) (hle : low' ≤ low) :
    Climbs c low' place next x where
  toRising := h.toRising.weaken hle
  stops := h.stops
  rises := by
    intro a ha
    exact Nat.le_trans hle (h.rises a ha)
  below := h.below

theorem earlier (hcd : Cursor.Leads 0 c d) (h : Climbs d low place next x) :
    Climbs c low place next x where
  toRising := h.toRising.earlier hcd
  stops := by
    intro a ha
    exact hcd.trans (h.stops a ha)
  rises := h.rises
  below := h.below

/-- What is read from a place further on climbs from any stage on that came before. -/
theorem further (first : Stage) {n : Nat} (hcd : Cursor.Leads (n + 1) c d)
    (h : Climbs d (first.mark d) place next x) : Climbs c (stage.mark c + 1) place next x :=
  (h.weaken (Stage.mark_lt_further stage first hcd)).earlier (hcd.weaken (Nat.zero_le _))

/-- What is read after a part rises from the stage on at which that part leaves the reader. -/
theorem rising_bind {f : α → Traced β} (hx : Climbs c low place next x)
    (hf : ∀ a, Rising (place a) (next.mark (place a)) (f a).visits) :
    Rising c low (x >>= f).visits := by
  cases h : x.result with
  | error e =>
      rw [Traced.bind_error h]
      exact hx.toRising
  | ok a =>
      rw [Traced.bind_ok h]
      exact hx.toRising.append (hx.below a h) (hx.rises a h) ((hf a).earlier (hx.stops a h))

theorem bind {f : α → Traced β} (hx : Climbs c low place next x)
    (hf : ∀ a, Climbs (place a) (next.mark (place a)) place' next' (f a)) :
    Climbs c low place' next' (x >>= f) := by
  have hrising := hx.rising_bind fun a => (hf a).toRising
  cases h : x.result with
  | error e =>
      rw [Traced.bind_error h] at hrising ⊢
      refine ⟨hrising, ?_, ?_, ?_⟩ <;> intro b hb <;> cases hb
  | ok a =>
      rw [Traced.bind_ok h] at hrising ⊢
      have hrises := hx.rises a h
      refine ⟨hrising, ?_, ?_, ?_⟩
      · intro b hb
        exact (hx.stops a h).trans ((hf a).stops b hb)
      · intro b hb
        exact Nat.le_trans hrises ((hf a).rises b hb)
      · intro b hb v hv
        rcases List.mem_append.mp hv with hv | hv
        · exact Nat.lt_of_lt_of_le (hx.below a h v hv) ((hf a).rises b hb)
        · exact (hf a).below b hb v hv

/-- Building a result from what has been read makes no visit. -/
theorem build {x : Traced (α × Cursor)} (h : Climbs c low Prod.snd next x) (g : α → β) :
    Climbs c low Prod.snd next (do
      let (a, after) ← x
      return (g a, after)) :=
  h.bind fun a => .stay (.refl a.2) (Nat.le_refl _)

/-- A visit at a place further on, and what is read from there. -/
theorem enter (hcd : Cursor.Leads 0 c d) (hx : Climbs d (stage.mark d + 1) place next x) :
    Climbs c (stage.mark c) place next (visit stage d >>= fun _ => x) where
  toRising := hx.toRising.enter hcd
  stops := by
    intro a ha
    exact hcd.trans (hx.stops a ha)
  rises := by
    intro a ha
    have hlow := Stage.mark_le stage hcd
    have hrises := hx.rises a ha
    omega
  below := by
    intro a ha v hv
    rcases List.mem_cons.mp hv with rfl | hv
    · exact hx.rises a ha
    · exact hx.below a ha v hv

/-- What is read without a visit takes the reader to a place further on. -/
theorem pass (hx : ∀ a, y = .ok a → Cursor.Leads 0 c (place a))
    (hlow : ∀ a, y = .ok a → low ≤ next.mark (place a)) :
    Climbs c low place next (.lift y) where
  toRising := .nil
  stops := hx
  rises := hlow
  below := by
    intro _ _ v hv
    cases hv

/-- What is read in one go is visited behind it; the longer it is, the higher the mark there. -/
theorem take {n : Nat} (hx : ∀ a, y = .ok a → Cursor.Leads n c (place a))
    (hlow : low ≤ 9 * (c.offset + n) + stage.level) (hnext : stage.level < next.level) :
    Climbs c low place next (Traced.take stage place y) := by
  have hpass : Climbs c low place stage (.lift y) := by
    refine .pass (fun a ha => (hx a ha).weaken (Nat.zero_le n)) ?_
    intro a ha
    have hoffset := (hx a ha).offset_le
    unfold Stage.mark
    omega
  refine hpass.bind fun a => ?_
  exact .enter (.refl _) (.stay (.refl _) (Stage.mark_lt_here stage next hnext (place a)))

/-- Behind a token with characters, every stage may follow. -/
theorem token [PatternEngine] (stage : Stage) {n : Nat} (hy : Advances (n + 1) place c y) :
    Climbs c (stage.mark c + 1) place .suffix (Traced.take .token place y) := by
  refine .take (fun a ha => hy.leads ha) ?_ (by decide)
  have hlevel := stage.level_lt
  unfold Stage.mark
  omega

end Climbs

/-! ## Texts of tokens -/

section Texts

theorem tracePatternText_climbs (cs : List Char) (n : Nat) :
    Climbs ⟨cs, n⟩ (Stage.text.mark ⟨cs, n⟩) Prod.snd .text (tracePatternText cs n) := by
  fun_induction patternText cs n with
  | case1 n => exact .enter (.refl _) (.fail _)
  | case2 rest n => exact .enter (.refl _) (.fail _)
  | case3 rest n =>
      have hlead := leads_one '/' rest n
      exact .enter (.refl _)
        (.stay (hlead.weaken (Nat.zero_le _)) (Stage.mark_lt_further _ _ hlead))
  | case4 n => exact .enter (.refl _) (.fail _)
  | case5 rest n ih =>
      rw [tracePatternText]
      exact .enter (.refl _) (.further .text (leads_two '\\' '/' rest n) (ih.build ('/' :: ·)))
  | case6 next rest n hnext ih =>
      rw [tracePatternText]
      · exact .enter (.refl _)
          (.further .text (leads_two '\\' next rest n) (ih.build ('\\' :: next :: ·)))
      · exact hnext
  | case7 first rest n _ _ _ _ _ ih =>
      rw [tracePatternText]
      · exact .enter (.refl _) (.further .text (leads_one first rest n) (ih.build (first :: ·)))
      all_goals assumption

theorem traceLiteralText_climbs (quote : Char) (cs : List Char) (n : Nat) :
    Climbs ⟨cs, n⟩ (Stage.text.mark ⟨cs, n⟩) Prod.snd .text (traceLiteralText quote cs n) := by
  fun_induction literalText quote cs n with
  | case1 n => exact .enter (.refl _) (.fail _)
  | case2 rest n =>
      have hlead := leads_one quote rest n
      rw [traceLiteralText.eq_def]
      dsimp only
      rw [if_pos rfl]
      exact .enter (.refl _)
        (.stay (hlead.weaken (Nat.zero_le _)) (Stage.mark_lt_further _ _ hlead))
  | case3 n h =>
      rw [traceLiteralText, if_neg h, if_pos rfl]
      exact .enter (.refl _) (.fail _)
  | case4 n next more h ih =>
      rw [traceLiteralText, if_neg h, if_pos rfl]
      exact .enter (.refl _)
        (.further .text (leads_two '\\' next more n) (ih.build (unescape next :: ·)))
  | case5 first rest n h h' ih =>
      rw [traceLiteralText.eq_def]
      dsimp only
      rw [if_neg h, if_neg h']
      exact .enter (.refl _) (.further .text (leads_one first rest n) (ih.build (first :: ·)))

variable {c : Cursor} [PatternEngine]

theorem flaggedToken_leads {text : List Char} {r : Token × Cursor}
    (h : flaggedToken text c = .ok r) : Cursor.Leads 0 c r.2 := by
  obtain ⟨letters, more, hrest, -, -, hflags⟩ := flagLettersOf_sound c.rest
  unfold flaggedToken at h
  simp only [hflags] at h
  split at h
  · cases h
    exact (Cursor.Leads.advance hrest).weaken (Nat.zero_le _)
  · cases h
  · cases h

theorem tracePatternToken_climbs (stage : Stage) :
    Climbs c (stage.mark c + 1) Prod.snd .suffix (tracePatternToken c) := by
  have hopen : Climbs c (stage.mark c + 1) id .text (.lift (c.expect ['/'])) := by
    have hslash := expect_advances (c := c) ['/']
    exact .pass (fun _ ha => (hslash.leads ha).weaken (Nat.zero_le _))
      fun _ ha => Stage.mark_lt_further stage .text (hslash.leads ha)
  refine hopen.bind fun opened => ?_
  refine (tracePatternText_climbs opened.rest opened.offset).bind fun text => ?_
  refine .take (fun _ ha => flaggedToken_leads ha) ?_ (by decide)
  exact Nat.le_of_lt (Stage.mark_lt_here .text .token (by decide) text.2)

theorem traceQuotedToken_climbs (stage : Stage) {quote : Char} {rest : List Char}
    (hrest : c.rest = quote :: rest) :
    Climbs c (stage.mark c + 1) Prod.snd .suffix (traceQuotedToken quote c) := by
  refine .further .text (Cursor.Leads.advance_one hrest) ?_
  refine (traceLiteralText_climbs quote (c.rest.drop 1) (c.offset + 1)).bind fun text => ?_
  refine .take (n := 0) ?_ ?_ (by decide)
  · intro r hr
    rw [literalToken_eq] at hr
    cases hr
    exact .refl text.2
  · exact Nat.le_of_lt (Stage.mark_lt_here .text .token (by decide) text.2)

end Texts

/-! ## Every function of the reader climbs -/

/-- With this fuel, every function of the reader climbs from its own stage on. -/
structure ReadersClimb [PatternEngine] (fuel : Nat) : Prop where
  expression : ∀ c, Climbs c (Stage.expression.mark c) Prod.snd .rules (traceExpression fuel c)
  alternatives : ∀ c,
    Climbs c (Stage.alternatives.mark c) Prod.snd .rules (traceAlternatives fuel c)
  items : ∀ c, Climbs c (Stage.items.mark c) Prod.snd .alternatives (traceItems fuel c)
  /-- Items are looked for again only where there are fewer characters left. -/
  item : ∀ c, Climbs c (Stage.item.mark c) Prod.snd .items (traceItem fuel c)
  primary : ∀ c, Climbs c (Stage.primary.mark c) Prod.snd .suffix (tracePrimary fuel c)

section Readers

variable {fuel : Nat} [PatternEngine]

theorem ReadersClimb.traceExpression (h : ReadersClimb fuel) (c : Cursor) :
    Climbs c (Stage.expression.mark c) Prod.snd .rules (traceExpression (fuel + 1) c) := by
  rw [TextGrammar.traceExpression]
  refine .enter (.refl c) ?_
  have hitems := (h.items c).weaken (Stage.mark_lt_here .expression .items (by decide) c)
  refine hitems.bind fun first => ?_
  exact (h.alternatives first.2).build (choiceOf <| sequenceOf first.1 :: ·)

theorem ReadersClimb.traceAlternatives (h : ReadersClimb fuel) (c : Cursor) :
    Climbs c (Stage.alternatives.mark c) Prod.snd .rules (traceAlternatives (fuel + 1) c) := by
  rw [TextGrammar.traceAlternatives]
  refine .enter (.refl c) ?_
  split
  · rename_i after haccept
    rw [accept_missed haccept]
    exact .stay (.skip c) (Stage.mark_le .rules (.skip c))
  · rename_i after haccept
    obtain ⟨rest, hbar, rfl⟩ := accept_found haccept
    have hbarLeads := (Cursor.Leads.skip c).trans (.advance hbar)
    refine Climbs.earlier (hbarLeads.weaken (Nat.zero_le _)) ?_
    refine Climbs.weaken ?_ (Stage.mark_lt_further .alternatives .items hbarLeads)
    refine (h.items _).bind fun items => ?_
    exact (h.alternatives items.2).build (sequenceOf items.1 :: ·)

theorem ReadersClimb.traceItems (h : ReadersClimb fuel) (c : Cursor) :
    Climbs c (Stage.items.mark c) Prod.snd .alternatives (traceItems (fuel + 1) c) := by
  rw [TextGrammar.traceItems]
  refine .enter (.skip c) ?_
  split
  · exact .stay (.refl _) (Stage.mark_lt_here .items .alternatives (by decide) _)
  · have hitem := (h.item c.skip).weaken (Stage.mark_lt_here .items .item (by decide) _)
    refine hitem.bind fun item => ?_
    exact (h.items item.2).build (item.1 :: ·)

theorem ReadersClimb.traceItem (h : ReadersClimb fuel) (c : Cursor) :
    Climbs c (Stage.item.mark c) Prod.snd .items (traceItem (fuel + 1) c) := by
  rw [TextGrammar.traceItem]
  refine .enter (.skip c) ?_
  split
  · refine (Climbs.token .item name_advances).bind fun tag => ?_
    have hcolon := Climbs.token .suffix (expect_advances (c := tag.2) [':'])
    refine (hcolon.weaken (Nat.le_succ _)).bind fun after => ?_
    have hitem := (h.item after).weaken
      (Nat.le_of_lt (Stage.mark_lt_here .suffix .item (by decide) after))
    exact hitem.build (Rule.tagged tag.1)
  · have hprimary := (h.primary c.skip).weaken (Stage.mark_lt_here .item .primary (by decide) _)
    refine hprimary.bind fun node => ?_
    exact .take (fun _ ha => withSuffix_advances.leads ha) (Nat.le_refl _) (by decide)

theorem ReadersClimb.tracePrimary (h : ReadersClimb fuel) (c : Cursor) :
    Climbs c (Stage.primary.mark c) Prod.snd .suffix (tracePrimary (fuel + 1) c) := by
  rw [TextGrammar.tracePrimary]
  refine .enter (.skip c) ?_
  split
  · exact .fail _
  · rename_i rest hrest
    have hopen : Cursor.Leads 1 c.skip (c.skip.advance 1) := .advance_one hrest
    refine Climbs.earlier (hopen.weaken (Nat.zero_le _)) ?_
    refine Climbs.weaken ?_ (Stage.mark_lt_further .primary .expression hopen)
    refine (h.expression _).bind fun node => ?_
    have hclose := Climbs.token .rules (expect_advances (c := node.2) [')'])
    refine (hclose.weaken (Nat.le_succ _)).bind fun after => ?_
    exact .stay (.refl after) (Nat.le_refl _)
  · rename_i rest hrest
    exact (tracePatternToken_climbs .primary).build Rule.token
  · rename_i first rest _ _ hrest
    split
    · exact (traceQuotedToken_climbs .primary hrest).build Rule.token
    · split
      · exact (Climbs.token .primary name_advances).build Rule.ref
      · exact .fail _

theorem readersClimb (fuel : Nat) : ReadersClimb fuel := by
  induction fuel with
  | zero => exact ⟨fun _ => .fail _, fun _ => .fail _, fun _ => .fail _, fun _ => .fail _,
      fun _ => .fail _⟩
  | succ fuel ih =>
      exact ⟨ih.traceExpression, ih.traceAlternatives, ih.traceItems, ih.traceItem,
        ih.tracePrimary⟩

theorem traceRules_rising (depth fuel : Nat) (rules : Rules) (c : Cursor) :
    Rising c (Stage.rules.mark c) (traceRules depth fuel rules c).visits := by
  induction fuel generalizing rules c with
  | zero => exact .nil
  | succ fuel ih =>
      rw [traceRules]
      refine Rising.enter (.skip c) ?_
      split
      · split <;> exact .nil
      · refine (Climbs.token .rules name_advances).rising_bind fun name => ?_
        have harrow := Climbs.token .suffix (expect_advances (c := name.2) ['<', '-'])
        refine (harrow.weaken (Nat.le_succ _)).rising_bind fun arrow => ?_
        have hrule := ((readersClimb depth).expression arrow).weaken
          (Nat.le_of_lt (Stage.mark_lt_here .suffix .expression (by decide) arrow))
        refine hrule.rising_bind fun rule => ?_
        dsimp only
        split
        · exact .nil
        · exact ih _ rule.2

end Readers

/-! ## Where reading ends -/

/-- The end of the text that the cursor is in. -/
def Cursor.finish (c : Cursor) : Cursor := ⟨[], c.offset + c.rest.length⟩

theorem Cursor.Leads.finish_eq {n : Nat} {c d : Cursor} (h : Cursor.Leads n c d) :
    d.finish = c.finish := by
  obtain ⟨taken, hrest, hoffset, -⟩ := h
  simp only [Cursor.finish, hrest, hoffset, List.length_append, Nat.add_assoc]

/-- What is read to its end makes its last visit there. -/
def Traced.EndsAt {α : Type} (v : Visit) (x : Traced α) : Prop :=
  ∀ a, x.result = .ok a → x.visits.getLast? = some v

theorem Traced.EndsAt.after {α β : Type} {v : Visit} {x : Traced α} {f : α → Traced β}
    (hf : ∀ a, x.result = .ok a → (f a).EndsAt v) : (x >>= f).EndsAt v := by
  intro b hb
  cases h : x.result with
  | error e =>
      rw [bind_error h] at hb
      cases hb
  | ok a =>
      rw [bind_ok h] at hb ⊢
      show (x.visits ++ (f a).visits).getLast? = some v
      rw [List.getLast?_append, hf a h b hb]
      rfl

/-- Rules are returned where the text ends. -/
theorem traceRules_endsAt [PatternEngine] (depth fuel : Nat) (rules : Rules) (c : Cursor) :
    (traceRules depth fuel rules c).EndsAt ⟨.rules, c.finish⟩ := by
  induction fuel generalizing rules c with
  | zero =>
      intro read h
      cases h
  | succ fuel ih =>
      rw [← (Cursor.Leads.skip c).finish_eq, traceRules]
      by_cases hend : c.skip.rest.isEmpty = true
      · simp only [if_pos hend]
        intro read h
        split at h
        · cases h
        · rename_i hsome
          rw [if_neg hsome, Cursor.finish, List.isEmpty_iff.mp hend]
          exact congrArg (fun rest => some (⟨.rules, rest, c.skip.offset⟩ : Visit))
            (List.isEmpty_iff.mp hend)
      · simp only [if_neg hend]
        refine .after fun _ _ => .after fun name hname => ?_
        refine .after fun arrow harrow => .after fun rule hrule => ?_
        split
        · intro read h
          cases h
        · have hnamed := (Climbs.token .rules name_advances).stops name hname
          have harrowed := (Climbs.token .rules (expect_advances _)).stops arrow harrow
          have hruled := ((readersClimb depth).expression arrow).stops rule hrule
          rw [← ((hnamed.trans harrowed).trans hruled).finish_eq]
          exact ih _ rule.2

/-! ## Inside the text -/

/-- The cursor is at a place in the source: what has been read and what is left make it up. -/
def Cursor.Inside (source : List Char) (c : Cursor) : Prop :=
  ∃ read, source = read ++ c.rest ∧ c.offset = read.length

/-- How far the reader looks ahead for a name with a literal after it. -/
def Cursor.ahead (literal : List Char) (c : Cursor) : Cursor :=
  match c.name with
  | .ok (_, after) => (after.accept literal).2
  | .error _ => c.skip

theorem Cursor.Leads.inside {n : Nat} {source : List Char} {c : Cursor}
    (h : Cursor.Leads n (.start source) c) : c.Inside source := by
  obtain ⟨read, hrest, hoffset, -⟩ := h
  refine ⟨read, hrest, ?_⟩
  rw [hoffset]
  exact Nat.zero_add _

theorem Cursor.Leads.offset_le_length {n : Nat} {source : List Char} {c : Cursor}
    (h : Cursor.Leads n (.start source) c) : c.offset ≤ source.length := by
  obtain ⟨read, hsource, hoffset⟩ := h.inside
  rw [hoffset, hsource, List.length_append]
  omega

theorem accept_leads (literal : List Char) (c : Cursor) :
    Cursor.Leads 0 c (c.accept literal).2 := by
  rcases haccept : c.accept literal with ⟨_ | _, after⟩
  · rw [accept_missed haccept]
    exact .skip c
  · obtain ⟨rest, hrest, rfl⟩ := accept_found haccept
    exact ((Cursor.Leads.skip c).trans (.advance hrest)).weaken (Nat.zero_le _)

theorem ahead_leads (literal : List Char) (c : Cursor) :
    Cursor.Leads 0 c (c.ahead literal) := by
  have hname := name_advances (c := c)
  unfold Cursor.ahead
  split
  · rename_i after h
    rw [h] at hname
    exact (Cursor.Leads.weaken hname (Nat.zero_le 1)).trans (accept_leads literal after)
  · exact .skip c

/-- There are only so many marks below a bound. -/
theorem Rising.length_le {c : Cursor} {low high : Nat} {vs : List Visit} (h : Rising c low vs)
    (hbelow : ∀ v ∈ vs, v.mark < high) : vs.length ≤ high := by
  have hnodup : (vs.map Visit.mark).Nodup := by
    rw [List.Nodup, List.pairwise_map]
    exact h.ordered.imp Nat.ne_of_lt
  have hsubset : vs.map Visit.mark ⊆ List.range high := by
    intro n hn
    obtain ⟨v, hv, rfl⟩ := List.mem_map.mp hn
    exact List.mem_range.mpr (hbelow v hv)
  have hlength := hnodup.length_le_of_subset hsubset
  rwa [List.length_map, List.length_range] at hlength

/-- A later visit is not further back, and further on if it is at the same stage. -/
def Visit.Before (v w : Visit) : Prop :=
  v.place.offset ≤ w.place.offset ∧ (v.stage = w.stage → v.place.offset < w.place.offset)

theorem Visit.before_of_mark {v w : Visit} (h : v.mark < w.mark) : v.Before w := by
  have hlevel := w.stage.level_lt
  unfold Visit.mark Stage.mark at h
  refine ⟨by omega, ?_⟩
  intro hstage
  rw [hstage] at h
  omega

/-- A reading of the whole source that ends, and all the way stays inside the source. -/
structure Traced.StaysInside (source : List Char) (x : Traced Rules) : Prop where
  ends : x.result ≠ .error .runaway
  /-- At each place, from the start to the end, there is at most one visit for every stage. -/
  few : x.visits.length ≤ 9 * (source.length + 1)
  /-- Between two rounds of a loop, or two calls of a function, the reader moves forward. -/
  forward : x.visits.Pairwise Visit.Before
  inside : ∀ v ∈ x.visits, v.place.Inside source
  /-- Looking ahead is no visit: the reader stays where it stands. -/
  ahead : ∀ v ∈ x.visits, ∀ literal, (v.place.ahead literal).Inside source
  /-- Rules are returned only when nothing is left. -/
  complete : ∀ rules, x.result = .ok rules →
    x.visits.getLast? = some ⟨.rules, ⟨[], source.length⟩⟩
  refused : ∀ f, x.result = .error f → f.kind = "SyntaxError" →
    ∃ g : GrammarFault, f = .grammar g ∧ g.offset ≤ source.length

/--
**Reading ends, and never leaves the text.** Whatever the source is, reading is not given up: a
loop goes round again, and a function calls itself, only further on in the source, so that the
reader stands at most nine times at each place. It is in the source all the time, also while it
looks ahead. It returns rules at the end of the source only, and a fault of grammar text is
blamed on a place in the source.
-/
theorem readGrammar_stays_inside [PatternEngine] (source : List Char) :
    (traceGrammar source).result = readGrammar source
      ∧ (traceGrammar source).StaysInside source := by
  have hresult := traceGrammar_result source
  have hrising : Rising (.start source) 8 (traceGrammar source).visits :=
    traceRules_rising _ _ _ _
  have hfinds : FindsRules (.start source) (readGrammar source) :=
    readRules_finds (Nat.le_refl _) (Nat.lt_succ_self _)
  have hexplains : ∀ f, (traceGrammar source).result = .error f →
      (Cursor.start source).Explains f := by
    intro f hf
    rw [← hresult, hf] at hfinds
    exact hfinds
  refine ⟨hresult, ?ends, ?few, ?forward, ?inside, ?ahead, ?complete, ?refused⟩
  case ends =>
    intro hrunaway
    exact absurd (hexplains _ hrunaway).kind (by decide)
  case few =>
    refine hrising.length_le fun v hv => ?_
    have hoffset := (hrising.leads v hv).offset_le_length
    have hlevel := v.stage.level_lt
    unfold Visit.mark Stage.mark
    omega
  case forward => exact hrising.ordered.imp Visit.before_of_mark
  case inside =>
    intro v hv
    exact (hrising.leads v hv).inside
  case ahead =>
    intro v hv literal
    exact ((hrising.leads v hv).trans (ahead_leads literal v.place)).inside
  case complete =>
    intro rules hrules
    have hlast := traceRules_endsAt _ _ _ _ rules hrules
    rw [Cursor.finish, Cursor.start, Nat.zero_add] at hlast
    exact hlast
  case refused =>
    intro f hf hkind
    have hnot : "ValueError" ≠ "SyntaxError" := by decide
    cases hexplains f hf with
    | problem p hafter => exact ⟨_, rfl, hafter.offset_le_length⟩
    | count f _ _ => exact absurd hkind hnot
    | pattern _ hpattern => exact absurd (hpattern.kind.symm.trans hkind) hnot

example : (traceGrammar ['a', '<', '-', 'b', ' ']).visits.map
    (fun v => (v.stage, v.place.offset)) =
      [(.rules, 0), (.token, 1), (.token, 3), (.expression, 3), (.items, 3), (.item, 3),
        (.primary, 3), (.token, 4), (.suffix, 5), (.items, 5), (.alternatives, 5),
        (.rules, 5)] := by
  rfl

end TextGrammar
