import TextGrammar.Pattern.Engine
import TextGrammar.Pattern.Syntax

/-!
# Matching patterns

Backtracking. A pattern is matched against the text in front of it and then hands
over to what has to match after it; the first way through wins. The text is a zipper:
what lies before the current place, nearest first, and what lies ahead.

A repetition stops after a round that takes nothing, so every round but the last takes
a character, and the number of characters ahead bounds the number of rounds.

Whatever way is taken through a pattern, it leads from places to places of one text
(`Pattern.run_leads`). So no match goes past the end.
-/

namespace TextGrammar

/-- A place in a text, with the text that each group has taken. -/
structure Scan where
  before : List Char
  rest : List Char
  /-- How many characters lie before this place. -/
  offset : Nat
  /-- The groups that have a text, latest first. -/
  groups : List (Nat × List Char)
  /-- The offset from which on characters count as part of the match. -/
  kept : Nat

namespace Scan

def start (text : List Char) : Scan := ⟨[], text, 0, [], 0⟩

/-- Takes the next character if the test holds of it. -/
def take? (test : Char → Bool) (s : Scan) : Option Scan :=
  match s.rest with
  | [] => none
  | c :: rest =>
    if test c then some { s with before := c :: s.before, rest, offset := s.offset + 1 }
    else none

def back? (s : Scan) : Option Scan :=
  match s.before with
  | [] => none
  | c :: before => some { s with before, rest := c :: s.rest, offset := s.offset - 1 }

/-- This place and those before it, nearest first. -/
def backwards : Nat → Scan → List Scan
  | 0, s => [s]
  | n + 1, s =>
    match s.back? with
    | some t => s :: backwards n t
    | none => [s]

/-- Records what a group has taken since an earlier place. -/
def capture (index since : Nat) (s : Scan) : Scan :=
  { s with groups := (index, (s.before.take (s.offset - since)).reverse) :: s.groups }

/-- What a look at other places leaves behind here: the groups, and where the match begins. -/
def learn (s seen : Scan) : Scan := { s with groups := seen.groups, kept := seen.kept }

/-- Takes the given characters, compared by a rule. -/
def takeAll? (rule : CaseRule) : List Char → Scan → Option Scan
  | [], s => some s
  | c :: cs, s => (s.take? (CharSet.single c.toNat rule).has).bind (takeAll? rule cs)

/-- Whether the character before or after this place belongs to a word. -/
def inWord (ascii : Bool) : Option Char → Bool
  | none => false
  | some c => CharClass.word.has ascii c.toNat

def atWordEdge (ascii : Bool) (s : Scan) : Bool :=
  inWord ascii s.before.head? != inWord ascii s.rest.head?

end Scan

def Anchor.holds (s : Scan) : Anchor → Bool
  | .textStart => s.before.isEmpty
  | .textEnd => s.rest.isEmpty
  | .lastLineEnd => s.rest.isEmpty || s.rest == ['\n']
  | .lineStart => s.before.isEmpty || s.before.head? == some '\n'
  | .lineEnd => s.rest.isEmpty || s.rest.head? == some '\n'
  | .wordEdge ascii => s.atWordEdge ascii
  | .noWordEdge ascii => !s.atWordEdge ascii

/-- What has to match next. -/
abbrev Continuation := Scan → Option Scan

/-- A pattern as a function of what comes after it. -/
abbrev Step := Scan → Continuation → Option Scan

/-- At least `min` and at most `max` rounds, as many as possible first. -/
def greedyRounds (step : Step) : Nat → Nat → Option Nat → Step
  | 0, _, _, s, k => k s
  | fuel + 1, min, max, s, k =>
    if max = some 0 then k s
    else
      match step s fun t =>
        -- a round that took nothing is the last one
        if t.offset = s.offset then k t
        else greedyRounds step fuel (min - 1) (max.map (· - 1)) t k with
      | some t => some t
      | none => if 0 < min then none else k s

/-- At least `min` and at most `max` rounds, as few as possible first. -/
def reluctantRounds (step : Step) : Nat → Nat → Option Nat → Step
  | 0, _, _, s, k => k s
  | fuel + 1, min, max, s, k =>
    if max = some 0 then k s
    else
      match if 0 < min then none else k s with
      | some t => some t
      | none => step s fun t =>
        if t.offset = s.offset then k t
        else reluctantRounds step fuel (min - 1) (max.map (· - 1)) t k

namespace Pattern

/-- Matches the pattern and then what comes after it. -/
def run : Pattern Nat → Step
  | .empty, s, k => k s
  | .one set, s, k => (s.take? set.has).bind k
  | .anchor place, s, k => if place.holds s then k s else none
  | .seq first second, s, k => first.run s fun t => second.run t k
  | .either first second, s, k =>
    match first.run s k with
    | some t => some t
    | none => second.run s k
  | .times body min max .greedy, s, k => greedyRounds body.run (s.rest.length + 1) min max s k
  | .times body min max .reluctant, s, k =>
    reluctantRounds body.run (s.rest.length + 1) min max s k
  | .times body min max .possessive, s, k =>
    (greedyRounds body.run (s.rest.length + 1) min max s some).bind k
  | .group index body, s, k => body.run s fun t => k (t.capture index s.offset)
  | .sameAs index rule, s, k =>
    match s.groups.lookup index with
    | some taken => (s.takeAll? rule taken).bind k
    | none => none
  | .look true true body, s, k =>
    (body.run s some).bind fun t => k (s.learn t)
  | .look true false body, s, k => if (body.run s some).isSome then none else k s
  | .look false positive body, s, k =>
    -- the body has to end at the place from which it is looked back
    let found := (s.backwards s.offset).findSome? fun t =>
      body.run t fun u => if u.offset = s.offset then some u else none
    if positive then found.bind fun t => k (s.learn t)
    else if found.isSome then none else k s
  | .atomic body, s, k => (body.run s some).bind k
  | .keep, s, k => k { s with kept := s.offset }

/-- What the pattern finds at the front of a text. -/
def find? (p : Pattern Nat) (text : List Char) : Option Found :=
  (p.run (.start text) some).map fun s => ⟨(text.drop s.kept).take (s.offset - s.kept), s.offset⟩

/-- Whether there is a place from which on characters count as part of the match. -/
def keeps {ρ : Type} : Pattern ρ → Bool
  | .empty | .one _ | .anchor _ | .sameAs _ _ => false
  | .seq a b | .either a b => a.keeps || b.keeps
  | .times p _ _ _ | .group _ p | .look _ _ p | .atomic p => p.keeps
  | .keep => true

end Pattern

/-! ## The way through a pattern -/

/-- What holds of places holds of those that are reached from them. -/
structure Scan.Invariant (I : Scan → Prop) : Prop where
  take {test : Char → Bool} {s t : Scan} : I s → s.take? test = some t → I t
  back {s t : Scan} : I s → s.back? = some t → I t
  capture {s : Scan} (index since : Nat) : I s → I (s.capture index since)
  learn {s t : Scan} : I s → I t → I (s.learn t)

namespace Scan.Invariant

variable {I : Scan → Prop} {s : Scan}

theorem backwards (h : Invariant I) {n : Nat} (hs : I s) : ∀ t ∈ s.backwards n, I t := by
  induction n generalizing s with
  | zero =>
      intro t ht
      rw [Scan.backwards, List.mem_singleton] at ht
      exact ht ▸ hs
  | succ n ih =>
      rw [Scan.backwards]
      cases hback : s.back? with
      | none =>
          intro t ht
          rw [List.mem_singleton] at ht
          exact ht ▸ hs
      | some earlier =>
          intro t ht
          rcases List.mem_cons.mp ht with rfl | ht
          · exact hs
          · exact ih (h.back hs hback) t ht

theorem takeAll (h : Invariant I) {rule : CaseRule} {cs : List Char} {t : Scan} (hs : I s)
    (htaken : s.takeAll? rule cs = some t) : I t := by
  induction cs generalizing s with
  | nil => exact Option.some.inj htaken ▸ hs
  | cons c cs ih =>
      rw [Scan.takeAll?, Option.bind_eq_some_iff] at htaken
      obtain ⟨next, hnext, hrest⟩ := htaken
      exact ih (h.take hs hnext) hrest

end Scan.Invariant

/-- From places of which `I` holds, the step succeeds only by way of such places. -/
def Step.Leads (I : Scan → Prop) (step : Step) : Prop :=
  ∀ ⦃s k u⦄, I s → step s k = some u → ∃ t, I t ∧ k t = some u

section Leads

variable {I : Scan → Prop} {step : Step}

/-- With nothing to come after it, a step ends at such a place. -/
theorem Step.Leads.ends {s u : Scan} (h : Step.Leads I step) (hs : I s)
    (hu : step s some = some u) : I u := by
  obtain ⟨t, ht, htu⟩ := h hs hu
  exact Option.some.inj htu ▸ ht

theorem greedyRounds_leads (h : Step.Leads I step) (fuel min : Nat) (max : Option Nat) :
    Step.Leads I (greedyRounds step fuel min max) := by
  intro s k u hs hu
  induction fuel generalizing min max s with
  | zero => exact ⟨s, hs, hu⟩
  | succ fuel ih =>
      rw [greedyRounds] at hu
      split at hu
      · exact ⟨s, hs, hu⟩
      · split at hu
        · rename_i t hround
          cases hu
          obtain ⟨t, ht, hmore⟩ := h hs hround
          split at hmore
          · exact ⟨t, ht, hmore⟩
          · exact ih _ _ ht hmore
        · split at hu
          · cases hu
          · exact ⟨s, hs, hu⟩

theorem reluctantRounds_leads (h : Step.Leads I step) (fuel min : Nat) (max : Option Nat) :
    Step.Leads I (reluctantRounds step fuel min max) := by
  intro s k u hs hu
  induction fuel generalizing min max s with
  | zero => exact ⟨s, hs, hu⟩
  | succ fuel ih =>
      rw [reluctantRounds] at hu
      split at hu
      · exact ⟨s, hs, hu⟩
      · split at hu
        · rename_i t hstop
          cases hu
          split at hstop
          · cases hstop
          · exact ⟨s, hs, hstop⟩
        · obtain ⟨t, ht, hmore⟩ := h hs hu
          split at hmore
          · exact ⟨t, ht, hmore⟩
          · exact ih _ _ ht hmore

end Leads

/-- Every way through a pattern leads along places of which an invariant holds. -/
theorem Pattern.run_leads {I : Scan → Prop} (h : Scan.Invariant I) (p : Pattern Nat)
    (hkeep : p.keeps = true → ∀ s, I s → I { s with kept := s.offset }) :
    Step.Leads I p.run := by
  induction p with
  | empty => exact fun s k u hs hu => ⟨s, hs, hu⟩
  | one set =>
      intro s k u hs hu
      obtain ⟨t, ht, hk⟩ := Option.bind_eq_some_iff.mp hu
      exact ⟨t, h.take hs ht, hk⟩
  | anchor place =>
      intro s k u hs hu
      rw [Pattern.run] at hu
      split at hu
      · exact ⟨s, hs, hu⟩
      · cases hu
  | seq first second ihfirst ihsecond =>
      intro s k u hs hu
      obtain ⟨t, ht, hsecond⟩ := ihfirst (fun hk => hkeep (by simp [keeps, hk])) hs hu
      exact ihsecond (fun hk => hkeep (by simp [keeps, hk])) ht hsecond
  | either first second ihfirst ihsecond =>
      intro s k u hs hu
      rw [Pattern.run] at hu
      split at hu
      · rename_i t hfirst
        cases hu
        exact ihfirst (fun hk => hkeep (by simp [keeps, hk])) hs hfirst
      · exact ihsecond (fun hk => hkeep (by simp [keeps, hk])) hs hu
  | times body min max mode ih =>
      intro s k u hs hu
      have hbody := ih hkeep
      cases mode with
      | greedy => exact greedyRounds_leads hbody _ _ _ hs hu
      | reluctant => exact reluctantRounds_leads hbody _ _ _ hs hu
      | possessive =>
          obtain ⟨t, hrounds, hk⟩ := Option.bind_eq_some_iff.mp hu
          exact ⟨t, (greedyRounds_leads hbody _ _ _).ends hs hrounds, hk⟩
  | group index body ih =>
      intro s k u hs hu
      obtain ⟨t, ht, hk⟩ := ih hkeep hs hu
      exact ⟨_, h.capture index s.offset ht, hk⟩
  | sameAs index rule =>
      intro s k u hs hu
      rw [Pattern.run] at hu
      split at hu
      · obtain ⟨t, ht, hk⟩ := Option.bind_eq_some_iff.mp hu
        exact ⟨t, h.takeAll hs ht, hk⟩
      · cases hu
  | look ahead positive body ih =>
      intro s k u hs hu
      have hbody := ih hkeep
      cases ahead with
      | true =>
          cases positive with
          | true =>
              obtain ⟨t, ht, hk⟩ := Option.bind_eq_some_iff.mp hu
              exact ⟨_, h.learn hs (hbody.ends hs ht), hk⟩
          | false =>
              rw [Pattern.run] at hu
              split at hu
              · cases hu
              · exact ⟨s, hs, hu⟩
      | false =>
          rw [Pattern.run] at hu
          split at hu
          · obtain ⟨t, hfound, hk⟩ := Option.bind_eq_some_iff.mp hu
            obtain ⟨earlier, hearlier, hlook⟩ := List.exists_of_findSome?_eq_some hfound
            obtain ⟨v, hv, hends⟩ := hbody (h.backwards hs earlier hearlier) hlook
            split at hends
            · exact ⟨_, h.learn hs (Option.some.inj hends ▸ hv), hk⟩
            · cases hends
          · split at hu
            · cases hu
            · exact ⟨s, hs, hu⟩
  | atomic body ih =>
      intro s k u hs hu
      obtain ⟨t, ht, hk⟩ := Option.bind_eq_some_iff.mp hu
      exact ⟨t, (ih hkeep).ends hs ht, hk⟩
  | keep => exact fun s k u hs hu => ⟨_, hkeep rfl s hs, hu⟩

/-! ## What is found -/

/-- The place lies in the text, as far from its start as the offset says. -/
def Scan.Within (text : List Char) (s : Scan) : Prop :=
  s.before.reverse ++ s.rest = text ∧ s.offset = s.before.length

theorem Scan.within_invariant (text : List Char) : Invariant (Within text) where
  take := by
    rintro test ⟨before, rest, offset, groups, kept⟩ t ⟨htext, hoffset⟩ htake
    cases rest with
    | nil => cases htake
    | cons c rest =>
        simp only [take?] at htake
        split at htake
        · cases htake
          exact ⟨by simpa using htext, congrArg (· + 1) hoffset⟩
        · cases htake
  back := by
    rintro ⟨before, rest, offset, groups, kept⟩ t ⟨htext, hoffset⟩ hback
    cases before with
    | nil => cases hback
    | cons c before =>
        cases hback
        exact ⟨by simpa using htext, congrArg (· - 1) hoffset⟩
  capture _ _ hs := hs
  learn hs _ := hs

/-- As long as nothing else is asked for, the match begins where the text does. -/
theorem Scan.unkept_invariant : Invariant fun s => s.kept = 0 where
  take := by
    rintro test ⟨before, rest, offset, groups, kept⟩ t hkept htake
    cases rest with
    | nil => cases htake
    | cons c rest =>
        simp only [take?] at htake
        split at htake
        · cases htake
          exact hkept
        · cases htake
  back := by
    rintro ⟨before, rest, offset, groups, kept⟩ t hkept hback
    cases before with
    | nil => cases hback
    | cons c before =>
        cases hback
        exact hkept
  capture _ _ hs := hs
  learn _ ht := ht

namespace Pattern

/-- No match goes past the end of the text. -/
theorem length_le_of_find? {p : Pattern Nat} {text : List Char} {found : Found}
    (h : p.find? text = some found) : found.length ≤ text.length := by
  obtain ⟨u, hrun, rfl⟩ := Option.map_eq_some_iff.mp h
  have hstart : Scan.Within text (.start text) := ⟨rfl, rfl⟩
  obtain ⟨htext, hoffset⟩ :=
    (run_leads (Scan.within_invariant text) p fun _ _ hs => hs).ends hstart hrun
  have hlength := congrArg List.length htext
  rw [List.length_append, List.length_reverse] at hlength
  dsimp only
  omega

/-- Without a `keep` the match is all that the pattern has gone past. -/
theorem find?_eq_front {p : Pattern Nat} (hkeeps : p.keeps = false) {text : List Char}
    {found : Found} (h : p.find? text = some found) : found = .front text found.length := by
  obtain ⟨u, hrun, rfl⟩ := Option.map_eq_some_iff.mp h
  have hkeep : p.keeps = true → ∀ s : Scan, s.kept = 0 → { s with kept := s.offset }.kept = 0 := by
    rw [hkeeps]
    intro hfalse
    cases hfalse
  have hkept : u.kept = 0 :=
    (run_leads Scan.unkept_invariant p hkeep).ends (s := .start text) rfl hrun
  rw [hkept, List.drop_zero, Nat.sub_zero]
  rfl

/-- The pattern as an engine compiles it. -/
def compiled (p : Pattern Nat) (bits : Nat) : CompiledPattern where
  bits
  find? := p.find?
  within := length_le_of_find?

end Pattern

end TextGrammar
