import TextGrammar.Proofs.Nodes
import TextGrammar.Proofs.Termination
import Mathlib.Data.List.TakeWhile

/-!
# Nothing is lost and nothing is invented

Without actions the value of a rule holds the text that the rule took, provided that tokens
take the front of the text. The texts inside a value, joined in order, are its *contents*. The
text between the positions where an evaluation starts and where it stops can be cut into pieces:
each has a part that was skipped, which is nothing or what `$space` takes at that place, and a
part that a token took. The contents of the value are the parts that were taken (`apply_covers`).

Tokens are the only place where there is a piece. A token that keeps only a part of what it goes
past loses the rest (`keptSetting_loses`). Sequences and repetitions put the pieces of their parts
in a row, everything else hands them on, and a round that takes nothing has no contents however
often it is counted.
-/

namespace TextGrammar

variable {s : Setting}

/-! ## What a value contains -/

namespace Value

mutual

/-- The texts inside a value, joined in order; a matched value has those of its raw value. -/
def contents : Value → List Char
  | .null => []
  | .bool _ => []
  | .int _ => []
  | .text s => s.toList
  | .list vs => contentsOf vs
  | .dict _ => []
  | .matched raw _ => raw.contents
termination_by structural v => v

def contentsOf : List Value → List Char
  | [] => []
  | v :: rest => v.contents ++ contentsOf rest
termination_by structural vs => vs

end

@[simp] theorem contents_text (t : String) : (Value.text t).contents = t.toList := rfl

@[simp] theorem contents_list (vs : List Value) : (Value.list vs).contents = contentsOf vs := rfl

@[simp] theorem contentsOf_nil : contentsOf [] = [] := rfl

@[simp] theorem contentsOf_cons (v : Value) (rest : List Value) :
    contentsOf (v :: rest) = v.contents ++ contentsOf rest := rfl

@[simp] theorem contentsOf_append (vs more : List Value) :
    contentsOf (vs ++ more) = contentsOf vs ++ contentsOf more := by
  induction vs with
  | nil => rfl
  | cons v rest ih => rw [List.cons_append, contentsOf_cons, ih, contentsOf_cons, List.append_assoc]

/-- What contains nothing contains nothing when it is there several times. -/
theorem contentsOf_replicate {v : Value} (h : v.contents = []) (n : Nat) :
    contentsOf (List.replicate n v) = [] := by
  induction n with
  | zero => rfl
  | succ n ih => rw [List.replicate_succ, contentsOf_cons, h, ih, List.nil_append]

/-- Tagged parts do not count: they are parts of the raw value. -/
@[simp] theorem contents_merge (raw : Value) (tags : Tags) :
    (raw.merge tags).contents = raw.contents := by
  cases tags with
  | nil => rfl
  | cons e rest => rfl

end Value

/-! ## Pieces of the text -/

/-- Characters that are skipped, and after them characters that are taken. -/
structure Piece where
  skipped : List Char
  taken : List Char

/-- All characters of a piece. -/
def Piece.all (p : Piece) : List Char := p.skipped ++ p.taken

/-- The text from one position to another. -/
def Setting.between (s : Setting) (pos stop : Int) : List Char :=
  (s.remaining pos).take (stop - pos).toNat

/-- The characters are what `$space` takes at the position, evaluated without skipping. -/
def Setting.IsSpace (s : Setting) (pos : Int) (skipped : List Char) : Prop :=
  ∃ value stop, s.Gives ⟨.ref spaceName, pos, [], false⟩ ⟨.success value stop, []⟩
    ∧ skipped = s.between pos stop

/-- The pieces lie in a row from one position to another, and what is skipped is space. -/
inductive Setting.Cut (s : Setting) : Int → List Piece → Int → Prop where
  | nil {pos : Int} : Cut s pos [] pos
  | cons {pos stop : Int} {p : Piece} {rest : List Piece} :
      (p.skipped = [] ∨ s.IsSpace pos p.skipped) →
      s.remaining pos = p.all ++ s.remaining (pos + p.all.length) →
      Cut s (pos + p.all.length) rest stop →
      Cut s pos (p :: rest) stop

theorem Setting.Cut.append {pos mid stop : Int} {ps qs : List Piece} (h : s.Cut pos ps mid)
    (h' : s.Cut mid qs stop) : s.Cut pos (ps ++ qs) stop := by
  induction h with
  | nil => exact h'
  | cons hspace htext _ ih => exact .cons hspace htext (ih h')

/-- A row of pieces ends as many characters further on as it has. -/
theorem Setting.Cut.stop_eq {pos stop : Int} {ps : List Piece} (h : s.Cut pos ps stop) :
    stop = pos + (ps.flatMap Piece.all).length := by
  induction h with
  | nil => simp
  | cons _ _ _ ih =>
      rw [ih, List.flatMap_cons, List.length_append]
      omega

theorem Setting.Cut.remaining_eq {pos stop : Int} {ps : List Piece} (h : s.Cut pos ps stop) :
    s.remaining pos = ps.flatMap Piece.all ++ s.remaining stop := by
  induction h with
  | nil => rfl
  | cons _ htext _ ih => rw [htext, ih, List.flatMap_cons, List.append_assoc]

/-- The pieces make up the text between the two positions. -/
theorem Setting.Cut.between_eq {pos stop : Int} {ps : List Piece} (h : s.Cut pos ps stop) :
    s.between pos stop = ps.flatMap Piece.all := by
  have hstop := h.stop_eq
  have hlength : (stop - pos).toNat = (ps.flatMap Piece.all).length := by omega
  rw [Setting.between, h.remaining_eq, hlength, List.take_left']
  rfl

/-- What is skipped in one of the pieces is space at the place where that piece starts. -/
theorem Setting.Cut.skipped {pos stop : Int} {ps : List Piece} (h : s.Cut pos ps stop)
    {before after : List Piece} {p : Piece} (hps : ps = before ++ p :: after) :
    p.skipped = [] ∨ s.IsSpace (pos + (before.flatMap Piece.all).length) p.skipped := by
  induction h generalizing before with
  | nil => simp at hps
  | @cons pos stop q rest hspace _ _ ih =>
      cases before with
      | nil =>
          obtain ⟨rfl, -⟩ := List.cons.inj hps
          simpa using hspace
      | cons b before =>
          obtain ⟨rfl, hrest⟩ := List.cons.inj hps
          have hlater := ih hrest
          rw [Int.add_assoc] at hlater
          simpa [List.flatMap_cons] using hlater

/-! ## Values that cover the text -/

/-- The text between the positions can be cut into pieces whose taken parts the value contains. -/
def Setting.Covers (s : Setting) (pos : Int) (value : Value) (stop : Int) : Prop :=
  ∃ pieces, s.Cut pos pieces stop ∧ value.contents = pieces.flatMap Piece.taken

theorem Setting.Covers.nil (s : Setting) (pos : Int) : s.Covers pos (.list []) pos :=
  ⟨[], .nil, rfl⟩

/-- A value in front of others that start where it stops. -/
theorem Setting.Covers.cons {pos mid stop : Int} {value : Value} {values : List Value}
    (h : s.Covers pos value mid) (h' : s.Covers mid (.list values) stop) :
    s.Covers pos (.list (value :: values)) stop := by
  obtain ⟨ps, hps, hvalue⟩ := h
  obtain ⟨qs, hqs, hvalues⟩ := h'
  refine ⟨ps ++ qs, hps.append hqs, ?_⟩
  rw [Value.contents_list] at hvalues ⊢
  rw [Value.contentsOf_cons, hvalue, hvalues, List.flatMap_append]

theorem Setting.Covers.congr {pos stop : Int} {value value' : Value} (h : s.Covers pos value stop)
    (heq : value'.contents = value.contents) : s.Covers pos value' stop := by
  obtain ⟨pieces, hpieces, hvalue⟩ := h
  exact ⟨pieces, hpieces, heq.trans hvalue⟩

/-- What stops where it has started contains nothing. -/
theorem Setting.Covers.contents_eq_nil {pos : Int} {value : Value} (h : s.Covers pos value pos) :
    value.contents = [] := by
  obtain ⟨pieces, hpieces, hvalue⟩ := h
  have hstop := hpieces.stop_eq
  have hall : pieces.flatMap Piece.all = [] := List.eq_nil_of_length_eq_zero (by omega)
  rw [hvalue, List.flatMap_eq_nil_iff]
  intro p hp
  have hpall : p.all = [] := List.flatMap_eq_nil_iff.mp hall p hp
  exact (List.append_eq_nil_iff.mp hpall).2

/-- If the verdict is a success, its value covers the text up to where it stops. -/
def Setting.Fits (s : Setting) (pos : Int) : Verdict → Prop
  | .success value stop => s.Covers pos value stop
  | .failure _ => True

/-! ## Evaluations cover the text -/

/-- The text that is left at a position goes on with what is left later. -/
theorem Setting.remaining_eq_between {pos stop : Int} (hpos : 0 ≤ pos) (h : pos ≤ stop) :
    s.remaining pos = s.between pos stop ++ s.remaining stop := by
  have hstop : 0 ≤ stop := Int.le_trans hpos h
  have hsum : stop.toNat = pos.toNat + (stop - pos).toNat := by omega
  simp only [Setting.between, Setting.remaining, if_pos hpos, if_pos hstop]
  rw [hsum, ← List.drop_drop, List.take_append_drop]

theorem Setting.length_between {pos stop : Int} (hpos : 0 ≤ pos) (h : s.Within pos stop) :
    ((s.between pos stop).length : Int) = stop - pos := by
  obtain ⟨hle, hmax⟩ := h
  simp only [Setting.between, Setting.remaining, if_pos hpos, List.length_take, List.length_drop]
  omega

/-- So many characters from a position on. -/
theorem Setting.between_add (s : Setting) (pos : Int) (length : Nat) :
    s.between pos (pos + length) = (s.remaining pos).take length := by
  have hlength : (pos + (length : Int) - pos).toNat = length := by omega
  rw [Setting.between, hlength]

theorem tokenStart_space {depth : Nat} {pos start : Int} {skip : Bool}
    (h : (tokenStart (enter s depth) pos skip).ending = .done start) :
    start = pos ∨ s.IsSpace pos (s.between pos start) := by
  cases skip with
  | false =>
      rw [tokenStart_false] at h
      exact Or.inl (Ending.done.inj h).symm
  | true =>
      rw [tokenStart_true, Ending.andThen_eq_done_iff] at h
      obtain ⟨v, hv, hstart⟩ := h
      have hskipped := Ending.done.inj hstart
      cases v with
      | failure stop => exact Or.inl hskipped.symm
      | success value stop =>
          simp only [Verdict.skipped] at hskipped
          subst hskipped
          refine Or.inr ⟨value, stop, ⟨depth, ?_⟩, rfl⟩
          rw [Call.run_ref, hv]
          rfl

/-- A token takes one piece: what was skipped before it, and what it matches. -/
theorem fits_takeToken {t : Token} (hfront : t.TakesFront) {pos start : Int} (hpos : 0 ≤ pos)
    (hwithin : s.Within pos start)
    (hspace : start = pos ∨ s.IsSpace pos (s.between pos start)) :
    s.Fits pos (s.takeToken t pos start) := by
  unfold Setting.takeToken
  cases hfound : t.find? (s.remaining start) with
  | none => trivial
  | some found =>
      have hstart : 0 ≤ start := Int.le_trans hpos hwithin.1
      have hlength := s.length_between hpos hwithin
      have hfoundLength : found.text.length = found.length := hfront.length_text hfound
      have hstop : pos + ((Piece.all ⟨s.between pos start, found.text⟩).length : Int)
          = start + found.length := by
        simp only [Piece.all, List.length_append]
        omega
      have hafter : s.remaining start = found.text ++ s.remaining (start + found.length) := by
        have hle : start ≤ start + found.length := by omega
        rw [s.remaining_eq_between hstart hle, s.between_add, hfront.text_eq hfound]
      refine ⟨[⟨s.between pos start, found.text⟩], .cons ?_ ?_ ?_, by simp⟩
      · rcases hspace with rfl | hspace
        · exact Or.inl (by simp [Setting.between])
        · exact Or.inr hspace
      · rw [hstop, s.remaining_eq_between hpos hwithin.1, hafter, Piece.all, List.append_assoc]
      · rw [hstop]
        exact .nil

theorem fits_evalItems {e : Enter} {skip : Bool} {items : List Rule} (he : s.EntersWithin e)
    (hitems : ∀ r ∈ items, ∀ pos tags, 0 ≤ pos →
      (eval s e r pos tags skip).Yields fun o => s.Fits pos o.verdict)
    {pos : Int} (hpos : 0 ≤ pos) (tags : Tags) :
    (evalItems s e items pos tags skip).Yields fun p =>
      ∀ values, p.values = some values → s.Covers pos (.list values) p.stop := by
  induction items generalizing pos tags with
  | nil =>
      rw [evalItems]
      refine Run.yields_pure fun values hvalues => ?_
      obtain rfl := Option.some.inj hvalues
      exact Setting.Covers.nil s pos
  | cons r rest ih =>
      rintro ⟨values, stop, after⟩ hdone vs rfl
      obtain ⟨value, mid, inner, more, hitem, hrest, rfl⟩ := evalItems_cons_done hdone
      have hcovers : s.Covers pos value mid := hitems r List.mem_cons_self pos tags hpos _ hitem
      have hwithin : s.Within pos mid := eval_within he r pos tags skip _ hitem
      have hmid : 0 ≤ mid := Int.le_trans hpos hwithin.1
      have hmore := ih (fun r' hr' => hitems r' (List.mem_cons_of_mem _ hr')) hmid inner _ hrest
      exact hcovers.cons (hmore more rfl)

theorem fits_evalChoice {e : Enter} {skip : Bool} {alts : List Rule} {pos : Int} {tags : Tags}
    (halts : ∀ r ∈ alts, (eval s e r pos tags skip).Yields fun o => s.Fits pos o.verdict)
    (index : Nat) :
    (evalChoice s e index alts pos tags skip).Yields fun o => s.Fits pos o.verdict := by
  induction alts generalizing index with
  | nil =>
      rw [evalChoice]
      exact Run.yields_pure trivial
  | cons r rest ih =>
      rintro ⟨v, after⟩ hdone
      cases v with
      | failure stop => trivial
      | success value stop =>
          rcases evalChoice_cons_done hdone with hfirst | ⟨-, hrest⟩
          · exact halts r List.mem_cons_self _ hfirst
          · exact ih (fun r' hr' => halts r' (List.mem_cons_of_mem _ hr')) (index + 1) _ hrest

/-- The rounds cover the text, and one that took nothing contains nothing. -/
def Setting.FitRounds (s : Setting) (pos : Int) (rounds : Rounds) : Prop :=
  s.Covers pos (.list rounds.values) rounds.stop
    ∧ ∀ value, rounds.idle = some value → value.contents = []

theorem fits_repeatRounds {body : Int → Tags → Run Outcome}
    (hwithin : ∀ pos tags, (body pos tags).Yields fun o => s.Within pos o.verdict.stop)
    (hbody : ∀ pos tags, 0 ≤ pos → (body pos tags).Yields fun o => s.Fits pos o.verdict)
    (fuel : Nat) (left : Option Nat) {pos : Int} (hpos : 0 ≤ pos) (tags : Tags) :
    (repeatRounds body fuel left pos tags).Yields (s.FitRounds pos) := by
  induction fuel generalizing left pos tags with
  | zero =>
      rw [repeatRounds]
      exact Run.yields_pure ⟨Setting.Covers.nil s pos, by simp⟩
  | succ fuel ih =>
      intro rounds hdone
      rcases repeatRounds_succ_done hdone with ⟨rfl, -⟩ | ⟨-, value, after, hround, rfl⟩ |
        ⟨-, value, mid, after, more, hround, -, hmore, rfl⟩
      · exact ⟨Setting.Covers.nil s pos, by simp⟩
      · have hcovers : s.Covers pos value pos := hbody pos tags hpos _ hround
        refine ⟨hcovers.cons (Setting.Covers.nil s pos), fun v hv => ?_⟩
        obtain rfl := Option.some.inj hv
        exact hcovers.contents_eq_nil
      · have hcovers : s.Covers pos value mid := hbody pos tags hpos _ hround
        have hmid : s.Within pos mid := hwithin pos tags _ hround
        obtain ⟨hrest, hidle⟩ := ih (left.map (· - 1)) (Int.le_trans hpos hmid.1) after _ hmore
        exact ⟨hcovers.cons hrest, hidle⟩

/-- Rounds that are filled in contain nothing, so the outcome covers the text as the rounds do. -/
theorem fits_finishRounds {capacity : Nat} {bounds : Bounds} {pos : Int} {tags : Tags}
    {rounds : Rounds} (h : s.FitRounds pos rounds) :
    (finishRounds capacity bounds pos tags rounds).Yields fun o => s.Fits pos o.verdict := by
  obtain ⟨hcovers, hidle⟩ := h
  have hfilled : (Value.list (rounds.filled bounds.least)).contents
      = (Value.list rounds.values).contents := by
    rw [Value.contents_list, Value.contents_list, Rounds.filled, Value.contentsOf_append]
    cases hlast : rounds.idle with
    | none => simp [Rounds.missing, hlast]
    | some value =>
        rw [Option.getD_some, Value.contentsOf_replicate (hidle value hlast), List.append_nil]
  intro o hdone
  rw [finishRounds_ending] at hdone
  split at hdone
  · cases hdone
  · obtain rfl := Ending.done.inj hdone
    unfold Bounds.outcome
    split
    · exact hcovers.congr hfilled
    · trivial

/-- An evaluation covers the text if the references that it follows do. -/
theorem fits_eval {depth : Nat}
    (hrefs : ∀ name pos skip, 0 ≤ pos → (enter s depth name pos skip).Yields (s.Fits pos))
    (r : Rule) (hfront : r.AllTokens Token.TakesFront) {pos : Int} (hpos : 0 ≤ pos) (tags : Tags)
    (skip : Bool) :
    (eval s (enter s depth) r pos tags skip).Yields fun o => s.Fits pos o.verdict := by
  have hwithin := enter_within s depth
  induction r generalizing pos tags with
  | token t =>
      intro o hdone
      rw [eval_token_ending, Ending.andThen_eq_done_iff] at hdone
      obtain ⟨start, hstart, hout⟩ := hdone
      obtain rfl := Ending.done.inj hout
      have hstays : s.Within pos start := tokenStart_within hwithin pos skip start hstart
      exact fits_takeToken hfront.self hpos hstays (tokenStart_space hstart)
  | ref name =>
      rw [eval]
      exact Run.yields_bind (hrefs name pos skip hpos) fun v hv => Run.yields_pure hv
  | seq items ih =>
      intro o hdone
      rw [eval_seq_ending, Ending.andThen_eq_done_iff] at hdone
      obtain ⟨⟨values, stop, after⟩, hitems, hout⟩ := hdone
      obtain rfl := Ending.done.inj hout
      have hcovers := fits_evalItems hwithin
        (fun r hr _ tags hpos => ih r hr (hfront.of_part hr) hpos tags) hpos tags _ hitems
      cases values with
      | none => trivial
      | some values => exact hcovers values rfl
  | tagged tag node ih =>
      intro o hdone
      rw [eval_tagged_ending, Ending.andThen_eq_done_iff] at hdone
      obtain ⟨⟨v, inner⟩, hnode, hout⟩ := hdone
      obtain rfl := Ending.done.inj hout
      have hfits := ih (hfront.of_part List.mem_cons_self) hpos [] _ hnode
      cases v with
      | failure stop => trivial
      | success value stop => exact hfits
  | choice alts ih =>
      rw [eval]
      exact Run.yields_then fun _ =>
        fits_evalChoice (fun r hr => ih r hr (hfront.of_part hr) hpos tags) 0
  | repetition node bounds ih =>
      rw [eval]
      have hnode := fun p t => eval_within hwithin node p t skip
      refine Run.yields_then fun _ => ?_
      refine Run.yields_bind ?_ fun _ => fits_finishRounds
      have hfrontNode : node.AllTokens Token.TakesFront := hfront.of_part List.mem_cons_self
      exact fits_repeatRounds hnode (fun _ tags hpos => ih hfrontNode hpos tags) _ _ hpos tags
  | unknown value =>
      rw [eval]
      exact Run.yields_then fun _ => Run.yields_pure trivial

/-- Without actions references cover the text, however many may be followed. -/
theorem fits_enter (hactions : ∀ name, s.actions name = none)
    (hfront : s.rules.AllTokens Token.TakesFront) (depth : Nat) (name : String) {pos : Int}
    (hpos : 0 ≤ pos) (skip : Bool) : (enter s depth name pos skip).Yields (s.Fits pos) := by
  induction depth generalizing name pos skip with
  | zero =>
      intro v hv
      cases hbody : s.rules.get? name with
      | none =>
          rw [enter_undefined hbody] at hv
          obtain rfl := Ending.done.inj hv
          trivial
      | some body =>
          rw [enter_zero hbody] at hv
          cases hv
  | succ depth ih =>
      intro v hv
      cases hbody : s.rules.get? name with
      | none =>
          rw [enter_undefined hbody] at hv
          obtain rfl := Ending.done.inj hv
          trivial
      | some body =>
          rw [enter_succ hbody, Ending.andThen_eq_done_iff] at hv
          obtain ⟨⟨v', inner⟩, hdone, hsettled⟩ := hv
          have hfits := fits_eval (fun name _ skip hpos => ih name hpos skip) body
            (hfront.get? hbody) hpos [] skip _ hdone
          cases v' with
          | failure stop =>
              obtain rfl := Ending.done.inj hsettled
              trivial
          | success value stop =>
              simp only [Setting.settled, Setting.answer, hactions name] at hsettled
              obtain rfl := Ending.done.inj hsettled
              exact hfits.congr (Value.contents_merge value inner)

/-! ## What is skipped -/

/-- Space is what the rule `$space` takes. -/
theorem Setting.IsSpace.entered {pos : Int} {skipped : List Char} (h : s.IsSpace pos skipped) :
    ∃ depth value stop, (enter s depth spaceName pos false).ending = .done (.success value stop)
      ∧ skipped = s.between pos stop := by
  obtain ⟨value, stop, ⟨depth, hdone⟩, hskipped⟩ := h
  rw [Call.run_ref, Ending.andThen_eq_done_iff] at hdone
  obtain ⟨v, hv, hout⟩ := hdone
  obtain rfl := congrArg Outcome.verdict (Ending.done.inj hout)
  exact ⟨depth, value, stop, hv, hskipped⟩

/-- Without a rule `$space` there is no space. -/
theorem Setting.not_isSpace (hspace : s.rules.get? spaceName = none) {pos : Int}
    {skipped : List Char} : ¬s.IsSpace pos skipped := by
  intro h
  obtain ⟨depth, value, stop, hdone, -⟩ := h.entered
  rw [enter_undefined hspace] at hdone
  cases hdone

/-- If `$space` is a token, space is what that token goes past. -/
theorem Setting.IsSpace.exists_found {t : Token} (ht : s.rules.get? spaceName = some (.token t))
    {pos : Int} {skipped : List Char} (h : s.IsSpace pos skipped) :
    ∃ found, t.find? (s.remaining pos) = some found
      ∧ skipped = (s.remaining pos).take found.length := by
  obtain ⟨depth, value, stop, hdone, rfl⟩ := h.entered
  cases depth with
  | zero =>
      rw [enter_zero ht] at hdone
      cases hdone
  | succ depth =>
      rw [enter_succ ht, eval_token_ending, tokenStart_false] at hdone
      simp only [Ending.andThen_done, Setting.takeToken] at hdone
      cases hfound : t.find? (s.remaining pos) with
      | none => simp [hfound, Setting.settled] at hdone
      | some found =>
          simp only [hfound, Setting.settled] at hdone
          split at hdone
          · obtain ⟨-, rfl⟩ := Verdict.success.inj (Ending.done.inj hdone)
            exact ⟨found, rfl, s.between_add pos found.length⟩
          · cases hdone

/-- If nothing is skipped, what is taken is all there is. -/
theorem flatMap_taken {pieces : List Piece} (h : ∀ p ∈ pieces, p.skipped = []) :
    pieces.flatMap Piece.taken = pieces.flatMap Piece.all := by
  refine congrArg List.flatten (List.map_congr_left fun p hp => ?_)
  rw [Piece.all, h p hp, List.nil_append]

/-- If only such characters are skipped as do not pass a test, those that pass it are all taken. -/
theorem filter_flatMap_taken {test : Char → Bool} {pieces : List Piece}
    (h : ∀ p ∈ pieces, ∀ c ∈ p.skipped, test c = false) :
    (pieces.flatMap Piece.taken).filter test = (pieces.flatMap Piece.all).filter test := by
  rw [List.filter_flatMap, List.filter_flatMap]
  refine congrArg List.flatten (List.map_congr_left fun p hp => ?_)
  have hskipped : p.skipped.filter test = [] :=
    List.filter_eq_nil_iff.mpr fun c hc => by simp [h p hp c hc]
  rw [Piece.all, List.filter_append, hskipped, List.nil_append]

/--
**Without actions nothing is lost and nothing is invented.** If tokens take the front of the text,
the text that an evaluation by name goes over can be cut into pieces. The value contains what is
taken in them, and what is skipped in a piece is nothing or what `$space` takes there. If there is
no `$space`, the value contains all of the text. If `$space` is the usual white space, the two are
equal when white space is left out.
-/
theorem apply_covers [PatternEngine] (hactions : ∀ name, s.actions name = none)
    (hfront : s.rules.AllTokens Token.TakesFront) {name : String} {pos : Nat} {value : Value}
    {stop : Int} (h : (s.apply name pos).ending = .done (.success value stop)) :
    s.Within pos stop
      ∧ (∃ pieces : List Piece, s.between pos stop = pieces.flatMap Piece.all
          ∧ value.contents = pieces.flatMap Piece.taken
          ∧ ∀ before p after, pieces = before ++ p :: after →
              p.skipped = [] ∨ s.IsSpace (pos + (before.flatMap Piece.all).length) p.skipped)
      ∧ (s.rules.get? spaceName = none → value.contents = s.between pos stop)
      ∧ ∀ t, Token.make defaultSpaceSource Flags.none = .ok t →
          s.rules.get? spaceName = some (.token t) →
          value.contents.filter (· ∉ usualSpaces) = (s.between pos stop).filter (· ∉ usualSpaces) := by
  have hcovers : s.Covers pos value stop :=
    fits_enter hactions hfront _ name (Int.natCast_nonneg pos) true _ h
  obtain ⟨pieces, hcut, hvalue⟩ := hcovers
  have hspace : ∀ p ∈ pieces, p.skipped = [] ∨ ∃ at_, s.IsSpace at_ p.skipped := by
    intro p hp
    obtain ⟨before, after, hpieces⟩ := List.append_of_mem hp
    exact (hcut.skipped hpieces).imp_right fun hat => ⟨_, hat⟩
  refine ⟨enter_within s _ name pos true _ h, ⟨pieces, hcut.between_eq, hvalue, ?_⟩, ?_, ?_⟩
  · intro before p after hpieces
    exact hcut.skipped hpieces
  · intro hnone
    rw [hvalue, hcut.between_eq]
    refine flatMap_taken fun p hp => (hspace p hp).resolve_right ?_
    rintro ⟨_, hat⟩
    exact Setting.not_isSpace hnone hat
  · intro t ht hrule
    rw [hvalue, hcut.between_eq]
    refine filter_flatMap_taken fun p hp c hc => ?_
    rcases hspace p hp with hnil | ⟨_, hat⟩
    · rw [hnil] at hc
      cases hc
    · obtain ⟨found, hfound, htaken⟩ := hat.exists_found hrule
      obtain rfl : Token.usualSpace = t :=
        Except.ok.inj (Token.usualSpace_compiles.make.symm.trans ht)
      have htakes : Token.usualSpace.TakesFront := (hfront.get? hrule).self
      rw [htaken, ← htakes.text_eq hfound] at hc
      obtain rfl := Option.some.inj ((PatternEngine.find?_usualSpace _).symm.trans hfound)
      simpa using List.mem_takeWhile_imp hc

/-- A tagged letter, and then letters or nothing at least three times. -/
def spacedRules : Rules :=
  [("$begin", .seq [.tagged "a" (.ref "x"),
      .repetition (.choice [.ref "x", .seq []]) ⟨some 3, none, by simp⟩]),
   ("x", .token letterToken), (spaceName, .token .usualSpace)]

def spacedSetting : Setting := ⟨spacedRules, fun _ => none, " x\t x y".toList, Fault.listCapacity⟩

theorem allTokens_spacedRules : spacedRules.AllTokens Token.TakesFront := by
  have hletter : letterToken.TakesFront := Pattern.compiled_takesFront rfl 0
  have hspace : Token.usualSpace.TakesFront := Pattern.compiled_takesFront rfl 0
  intro e he t ht
  simp only [spacedRules, List.mem_cons, List.not_mem_nil, or_false] at he
  rcases he with rfl | rfl | rfl
  · simp [Rule.nodes, Rule.nodesAll] at ht
  · obtain rfl : t = letterToken := by simpa [Rule.nodes] using ht
    exact hletter
  · obtain rfl : t = .usualSpace := by simpa [Rule.nodes] using ht
    exact hspace

/-- White space is skipped, a part is tagged, and rounds that take nothing are filled in. -/
theorem apply_spacedRules_covers :
    (∀ name, spacedSetting.actions name = none)
      ∧ spacedSetting.rules.AllTokens Token.TakesFront
      ∧ (spacedSetting.apply "$begin" 0).ending = .done (.success
          (.matched (.list [.text "x", .list [.text "x", .list [], .list []]])
            [("a", .text "x")]) 5)
      ∧ spacedSetting.IsSpace 2 ['\t', ' ']
      ∧ (∃ pieces : List Piece, " x\t x".toList = pieces.flatMap Piece.all
          ∧ "xx".toList = pieces.flatMap Piece.taken)
      ∧ "xx".toList.filter (· ∉ usualSpaces) = " x\t x".toList.filter (· ∉ usualSpaces) := by
  have hactions : ∀ name, spacedSetting.actions name = none := fun _ => rfl
  have hfront : spacedSetting.rules.AllTokens Token.TakesFront := allTokens_spacedRules
  have hdone : (spacedSetting.apply "$begin" 0).ending = .done (.success
      (.matched (.list [.text "x", .list [.text "x", .list [], .list []]])
        [("a", .text "x")]) 5) := rfl
  have hspace : spacedSetting.IsSpace 2 ['\t', ' '] :=
    ⟨.text "\t ", 4, ⟨1, rfl⟩, rfl⟩
  obtain ⟨-, ⟨pieces, hall, htaken, -⟩, -, hfilter⟩ :=
    @apply_covers spacedSetting _ hactions hfront "$begin" 0 _ _ hdone
  exact ⟨hactions, hfront, hdone, hspace, ⟨pieces, hall, htaken⟩,
    hfilter _ Token.usualSpace_compiles.make rfl⟩

/-- Three letters, of which the last is kept. -/
def keptPattern : Pattern Nat :=
  .ofList [.literal 97 .exact, .literal 98 .exact, .keep, .literal 99 .exact]

def keptToken : Token := ⟨"ab\\Kc", Flags.none, keptPattern.compiled 0⟩

theorem keptToken_compiles : keptToken.Compiles := by
  have hcompile : compilePattern "ab\\Kc".toList Flags.none.bits = .ok (keptPattern, 0) :=
    compilePattern_of_toOption (by decide +kernel)
  simp only [Token.Compiles, PatternEngine.compile, keptToken, hcompile]
  rfl

def keptSetting : Setting :=
  ⟨[("$begin", .token keptToken)], fun _ => none, "abc".toList, Fault.listCapacity⟩

/-- What a token goes past and does not keep is lost, although nothing is skipped. -/
theorem keptSetting_loses :
    keptToken.Compiles ∧ (∀ name, keptSetting.actions name = none)
      ∧ keptSetting.rules.get? spaceName = none
      ∧ (keptSetting.apply "$begin" (0 : Nat)).ending = .done (.success (.text "c") 3)
      ∧ (Value.text "c").contents ≠ keptSetting.between (0 : Nat) 3 := by
  have hcontents : (Value.text "c").contents ≠ keptSetting.between (0 : Nat) 3 := by decide
  exact ⟨keptToken_compiles, fun _ => rfl, rfl, rfl, hcontents⟩

end TextGrammar
