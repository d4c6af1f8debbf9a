import TextGrammar.Proofs.OpenCalls
import TextGrammar.Proofs.Replay
import Mathlib.Data.List.ProdSigma
import Mathlib.Logic.Relation
import Mathlib.Tactic.Ring

/-!
# Evaluations that never end

An evaluation never ends exactly if it enters a reference that is still open, and
exactly if it has more references open than there are different ones. So it does not
matter whether an evaluator looks for such a reference or counts the open ones: both
give up the same evaluations, and all others have the result that they would have with
no limit at all.

From left to right, a reference that is open twice reproduces itself: the evaluation
of a rule depends on the position and on whether space is skipped, and not on the
tagged parts of the caller. From right to left, positions only go forward, so the
references that can be open fit into a list whose length is the limit.
-/

namespace TextGrammar

variable {s : Setting}

/-! ## There are only so many references -/

theorem ItemStart.within {skip : Bool} {items : List Rule} {pos : Int} {tags : Tags} {c : Call}
    (h : ItemStart s skip items pos tags c) : s.Within pos c.pos := by
  induction h with
  | here => exact Setting.Within.refl s _
  | later hgives _ ih => exact Setting.Within.trans hgives.within ih

theorem AltStart.pos_eq {skip : Bool} {alts : List Rule} {pos : Int} {tags : Tags} {c : Call}
    (h : AltStart s skip alts pos tags c) : c.pos = pos := by
  induction h with
  | here => rfl
  | later _ _ ih => exact ih

theorem RoundStart.within {node : Rule} {skip : Bool} {left : Option Nat} {pos : Int} {tags : Tags}
    {c : Call} (h : RoundStart s node skip left pos tags c) : s.Within pos c.pos := by
  induction h with
  | here _ => exact Setting.Within.refl s _
  | later _ hgives _ _ ih => exact Setting.Within.trans hgives.within ih

/-- A call starts others at its position or later. -/
theorem Setting.Starts.within {c d : Call} (h : s.Starts c d) : s.Within c.pos d.pos := by
  cases h with
  | space => exact Setting.Within.refl s _
  | body _ => exact Setting.Within.refl s _
  | item hitem => exact hitem.within
  | inner => exact Setting.Within.refl s _
  | alternative halt =>
      rw [halt.pos_eq]
      exact Setting.Within.refl s _
  | round hround => exact hround.within

theorem within_of_transGen {c d : Call} (h : Relation.TransGen s.Starts c d) :
    s.Within c.pos d.pos := by
  induction h with
  | single hstarts => exact hstarts.within
  | tail _ hstarts ih => exact ih.trans hstarts.within

theorem Setting.Opens.within {start c : Call} {es : List Entry} (h : s.Opens start c es) :
    s.Within start.pos c.pos := by
  induction h with
  | first => exact Setting.Within.refl s _
  | next _ hstarts ih => exact ih.trans hstarts.within

/-- What it takes for a call to follow a reference to a rule. -/
theorem Call.mem_entries {c : Call} {e : Entry} (h : e ∈ c.entries s) :
    (∃ body, s.rules.get? e.name = some body) ∧ c = ⟨.ref e.name, e.pos, c.tags, e.skip⟩ := by
  obtain ⟨r, pos, tags, skip⟩ := c
  cases r with
  | ref name =>
      cases hbody : s.rules.get? name with
      | none => simp [Call.entries, hbody] at h
      | some body =>
          obtain rfl : e = ⟨name, pos, skip⟩ := by simpa [Call.entries, hbody] using h
          exact ⟨⟨body, hbody⟩, rfl⟩
  | _ => simp [Call.entries] at h

/-- All references to rules at or after a position. -/
def Setting.entriesFrom (s : Setting) (pos : Int) : List Entry :=
  (s.rules.keys ×ˢ List.range (s.room pos + 1) ×ˢ [true, false]).map
    fun p => ⟨p.1, pos + p.2.1, p.2.2⟩

theorem Setting.length_entriesFrom (s : Setting) (pos : Int) :
    (s.entriesFrom pos).length = s.depthBound pos := by
  simp only [Setting.entriesFrom, List.length_map, List.length_product, List.length_range,
    Table.keys, List.length_cons, List.length_nil, Setting.depthBound]
  ring

theorem Call.mem_entriesFrom {c : Call} {e : Entry} {pos : Int} (hpos : s.Within pos c.pos)
    (h : e ∈ c.entries s) : e ∈ s.entriesFrom pos := by
  obtain ⟨⟨body, hbody⟩, hc⟩ := Call.mem_entries h
  have hat : c.pos = e.pos := by rw [hc]
  rw [hat] at hpos
  have hroom : (e.pos - pos).toNat < s.room pos + 1 := by
    unfold Setting.Within at hpos
    unfold Setting.room
    omega
  refine List.mem_map.mpr ⟨(e.name, (e.pos - pos).toNat, e.skip), ?_, ?_⟩
  · have hname : e.name ∈ s.rules.keys := List.mem_map_of_mem (Table.mem_of_get? hbody)
    refine List.mem_product.mpr ⟨hname, List.mem_product.mpr ⟨?_, ?_⟩⟩
    · exact List.mem_range.mpr hroom
    · cases e.skip <;> simp
  · obtain ⟨name, p, skip⟩ := e
    have hback : pos + ((p - pos).toNat : Int) = p := by
      unfold Setting.Within at hpos
      dsimp only at hpos
      omega
    show (⟨name, pos + ((p - pos).toNat : Int), skip⟩ : Entry) = ⟨name, p, skip⟩
    rw [hback]

/-- The references that are open are among those that there are from the start on. -/
theorem Setting.Opens.subset {start c : Call} {es : List Entry} (h : s.Opens start c es) :
    c.entries s ++ es ⊆ s.entriesFrom start.pos := by
  induction h with
  | first =>
      intro e he
      rw [List.append_nil] at he
      exact Call.mem_entriesFrom (Setting.Within.refl s _) he
  | next hopens hstarts ih =>
      intro e he
      rcases List.mem_append.mp he with hmem | hmem
      · exact Call.mem_entriesFrom (hopens.within.trans hstarts.within) hmem
      · exact ih hmem

/-- Without a repetition among them no more references are open than there are. -/
theorem length_le_of_nodup {start c : Call} {es : List Entry} (h : s.Opens start c es)
    (hnodup : (c.entries s ++ es).Nodup) : (c.entries s ++ es).length ≤ s.depthBound start.pos := by
  rw [← s.length_entriesFrom start.pos]
  exact hnodup.length_le_of_subset h.subset

/-! ## A repetition among the open references -/

theorem Call.entries_nodup (s : Setting) (c : Call) : (c.entries s).Nodup := by
  obtain ⟨r, pos, tags, skip⟩ := c
  cases r with
  | ref name =>
      unfold Call.entries
      dsimp only
      split <;> simp
  | _ => simp [Call.entries]

/-- Where a reference is open twice, it was entered while it was open. -/
theorem reenters_of_not_nodup {start c : Call} {es : List Entry} (h : s.Opens start c es)
    (hdup : ¬(c.entries s ++ es).Nodup) : s.Reenters start := by
  induction h with
  | first =>
      rw [List.append_nil] at hdup
      exact absurd (start.entries_nodup s) hdup
  | @next c d es hopens hstarts ih =>
      -- the first repetition along the chain is made by the call that was started last
      by_cases hbefore : (c.entries s ++ es).Nodup
      · by_cases hmeet : ∃ e ∈ d.entries s, e ∈ c.entries s ++ es
        · obtain ⟨e, hd, hc⟩ := hmeet
          exact ⟨d, c.entries s ++ es, e, hopens.next hstarts, hd, hc⟩
        · refine absurd (List.nodup_append.mpr ⟨d.entries_nodup s, hbefore, ?_⟩) hdup
          rintro a ha _ hb rfl
          exact hmeet ⟨a, ha, hb⟩
      · exact ih hbefore

/-- An open reference was entered by a call that is still waiting. -/
theorem Setting.Opens.of_mem {start c : Call} {es : List Entry} (h : s.Opens start c es)
    {e : Entry} (he : e ∈ es) :
    ∃ d ds, s.Opens start d ds ∧ e ∈ d.entries s ∧ Relation.TransGen s.Starts d c := by
  induction h with
  | first => exact absurd he List.not_mem_nil
  | @next c d es hopens hstarts ih =>
      rcases List.mem_append.mp he with hc | hes
      · exact ⟨c, es, hopens, hc, .single hstarts⟩
      · obtain ⟨b, bs, hb, hmem, hpath⟩ := ih hes
        exact ⟨b, bs, hb, hmem, hpath.tail hstarts⟩

theorem runaway_of_transGen {c d : Call} (h : Relation.TransGen s.Starts c d) {depth : Nat}
    (hd : (d.run s depth).ending = .runaway) :
    (c.run s (depth + (c.entries s).length)).ending = .runaway := by
  induction h generalizing depth with
  | single hstarts => exact runaway_of_starts hstarts hd
  | tail _ hstarts ih =>
      exact ih (Call.runaway_of_le (Nat.le_add_right _ _) (runaway_of_starts hstarts hd))

/-- A reference that leads back to itself is given up at every depth. -/
theorem neverEnds_of_transGen {c d : Call} {e : Entry} (hc : e ∈ c.entries s)
    (hd : e ∈ d.entries s) (h : Relation.TransGen s.Starts c d) : s.NeverEnds c := by
  obtain ⟨⟨body, hbody⟩, hceq⟩ := Call.mem_entries hc
  obtain ⟨-, hdeq⟩ := Call.mem_entries hd
  have hlength : (c.entries s).length = 1 := by
    rw [hceq, Call.entries_ref hbody]
    rfl
  -- tagged parts make no difference to a reference
  have hsame : ∀ depth, (c.run s depth).ending = .runaway → (d.run s depth).ending = .runaway := by
    intro depth hrun
    rw [hceq, Call.run_ref, Ending.andThen_eq_runaway_iff] at hrun
    have henter : (enter s depth e.name e.pos e.skip).ending = .runaway := by simpa using hrun
    rw [hdeq, Call.run_ref, henter, Ending.andThen_runaway]
  intro depth
  induction depth with
  | zero =>
      rw [hceq, Call.run_ref, enter_zero hbody, Ending.andThen_runaway]
  | succ depth ih =>
      have hrun := runaway_of_transGen h (hsame depth ih)
      rwa [hlength] at hrun

/-- What enters a reference that is open does not end. -/
theorem neverEnds_of_reenters {start : Call} (h : s.Reenters start) : s.NeverEnds start := by
  obtain ⟨c, es, e, hopens, hc, hes⟩ := h
  obtain ⟨d, ds, hd, hmem, hpath⟩ := hopens.of_mem hes
  intro depth
  exact Call.runaway_of_le (Nat.le_add_right _ _)
    (hd.runaway (neverEnds_of_transGen hmem hc hpath depth))

/-- What is given up at the bound enters a reference that is open. -/
theorem reenters_of_runaway {start : Call}
    (h : (start.run s (s.depthBound start.pos)).ending = .runaway) : s.Reenters start := by
  obtain ⟨c, es, hopens, hlt⟩ := opensMoreThan_of_runaway _ .first h
  rw [List.length_nil, Nat.zero_add] at hlt
  refine reenters_of_not_nodup hopens fun hnodup => ?_
  exact absurd (length_le_of_nodup hopens hnodup) (by omega)

/-! ## At the top -/

theorem run_first_eq_runaway_iff {depth : Nat} {name : String} {pos : Int} :
    ((Call.first name pos).run s depth).ending = .runaway ↔
      (enter s depth name pos true).ending = .runaway := by
  rw [Call.first, Call.run_ref, Ending.andThen_eq_runaway_iff]
  simp

/-- The bound on the depth gives up no evaluation that ends. -/
theorem apply_eq_runaway_iff {name : String} {pos : Int} :
    (s.apply name pos).ending = .runaway ↔ s.NeverEnds (Call.first name pos) := by
  rw [Setting.apply, ← run_first_eq_runaway_iff]
  constructor
  · intro h
    exact neverEnds_of_reenters (reenters_of_runaway h)
  · intro h
    exact h _

/-- An evaluation that ends at some depth ends alike at the bound. -/
theorem enter_eq_apply {depth : Nat} {name : String} {pos : Int}
    (h : (enter s depth name pos true).ending ≠ .runaway) :
    enter s depth name pos true = s.apply name pos := by
  have hbound : (s.apply name pos).ending ≠ .runaway := by
    intro hrun
    have hnever := apply_eq_runaway_iff.mp hrun depth
    exact h (run_first_eq_runaway_iff.mp hnever)
  rw [Setting.apply] at hbound ⊢
  rcases Nat.le_total depth (s.depthBound pos) with hle | hle
  · exact (enter_approximates hle name pos true).eq_of_ne h
  · exact ((enter_approximates hle name pos true).eq_of_ne hbound).symm

/--
**An evaluation never ends exactly if it enters a reference that is open.** And exactly if
more references are open at some time than twice the number of rules for each position that
can be reached. An evaluator that stops at that many gives up exactly these evaluations, and
finds for all others the result that they have at any depth that suffices.
-/
theorem neverEnds_iff_reenters (s : Setting) (name : String) (pos : Int) :
    (s.NeverEnds (Call.first name pos) ↔ s.Reenters (Call.first name pos))
      ∧ (s.NeverEnds (Call.first name pos) ↔
          s.OpensMoreThan (Call.first name pos)
            (2 * s.rules.length * ((max (s.text.length : Int) pos - pos).toNat + 1)))
      ∧ ((s.apply name pos).ending = .runaway ↔ s.NeverEnds (Call.first name pos))
      ∧ (∀ depth, (enter s depth name pos true).ending ≠ .runaway →
          s.apply name pos = enter s depth name pos true) := by
  refine ⟨⟨fun h => reenters_of_runaway (h _), neverEnds_of_reenters⟩, ⟨?_, ?_⟩,
    apply_eq_runaway_iff, fun depth h => (enter_eq_apply h).symm⟩
  · intro h
    have hmore := opensMoreThan_of_runaway (s.depthBound pos) .first (h _)
    rwa [List.length_nil, Nat.zero_add] at hmore
  · rintro ⟨c, es, hopens, hlt⟩
    refine neverEnds_of_reenters (reenters_of_not_nodup hopens fun hnodup => ?_)
    exact absurd (length_le_of_nodup hopens hnodup) (Nat.not_le.mpr hlt)

end TextGrammar
