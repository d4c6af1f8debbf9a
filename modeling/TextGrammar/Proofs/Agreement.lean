import TextGrammar.Proofs.Accumulator
import TextGrammar.Proofs.Overflow
import TextGrammar.Proofs.Reentry
import TextGrammar.Proofs.Reference

/-!
# The evaluator agrees with the reference

What the evaluator replies to a task is what the reference semantics derives, and a task
that has a derivation has a reply, unless it overflows. Then the evaluator raises a fault
of its own and the reference goes on (`replies_iff`).

* From the evaluator to the reference, by induction on the depth, the rule and the rounds:
  every reply is accounted for (`accounts_of_reply?`).
* From the reference to the evaluator, by induction on the derivation (`overflows_or_replies`).

What a failure says of the evaluator's position and tagged parts is not part of a reply,
so it makes no difference to anything.
-/

namespace TextGrammar

variable {s : Setting}

/-! ## From the evaluator to the reference -/

/-- The reply can be derived, or it is the fault with which the task overflows. -/
def Setting.Accounts (s : Setting) (task : Task) (pos : Int) (tags : Tags) (skip : Bool)
    (reply : Reply) : Prop :=
  s.Derives task pos tags skip reply
    ∨ ∃ f, task.Overflows s f pos tags skip ∧ reply = .raised f

theorem Setting.Accounts.success {task : Task} {pos stop : Int} {tags after : Tags} {skip : Bool}
    {value : Value} (h : s.Accounts task pos tags skip (.success value stop after)) :
    s.Derives task pos tags skip (.success value stop after) :=
  h.resolve_right fun ⟨_, _, hreply⟩ => by cases hreply

theorem Setting.Accounts.fail {task : Task} {pos : Int} {tags : Tags} {skip : Bool}
    (h : s.Accounts task pos tags skip .fail) : s.Derives task pos tags skip .fail :=
  h.resolve_right fun ⟨_, _, hreply⟩ => by cases hreply

/-- A task has the reply of a part of it, and overflows if that part does. -/
theorem Setting.Accounts.lift {task part : Task} {pos pos' : Int} {tags tags' : Tags}
    {skip skip' : Bool} {reply : Reply} (h : s.Accounts part pos' tags' skip' reply)
    (hderives : s.Derives part pos' tags' skip' reply → s.Derives task pos tags skip reply)
    (hoverflows : ∀ {f}, part.Overflows s f pos' tags' skip' →
      task.Overflows s f pos tags skip) :
    s.Accounts task pos tags skip reply :=
  h.imp hderives fun ⟨f, hpart, hreply⟩ => ⟨f, hoverflows hpart, hreply⟩

/-- How a task comes to a reply that needs the reply to another one. -/
theorem bind_next_eq_some {x onFail : Option Reply}
    {onSuccess : Value → Int → Tags → Option Reply} {reply : Reply} :
    x.bind (Reply.next onFail onSuccess) = some reply ↔
      (∃ value stop after, x = some (.success value stop after)
          ∧ onSuccess value stop after = some reply)
        ∨ (x = some .fail ∧ onFail = some reply)
        ∨ ∃ f, x = some (.raised f) ∧ reply = .raised f := by
  cases x with
  | none => simp
  | some part => cases part <;> simp [Reply.next, eq_comm]

theorem accounts_items {depth : Nat} {skip : Bool} {items : List Rule}
    (hitems : ∀ r ∈ items, ∀ pos tags reply,
      Task.reply? s depth (.rule r) pos tags skip = some reply →
      s.Accounts (.rule r) pos tags skip reply)
    {done : List Value} {pos : Int} {tags : Tags} {reply : Reply}
    (h : Task.reply? s depth (.items done items) pos tags skip = some reply) :
    s.Accounts (.items done items) pos tags skip reply := by
  induction items generalizing done pos tags with
  | nil =>
      rw [reply?_items_nil] at h
      obtain rfl := Option.some.inj h
      exact Or.inl .itemsDone
  | cons r rest ih =>
      rw [reply?_items_cons, bind_next_eq_some] at h
      rcases h with ⟨value, mid, after, hitem, hrest⟩ | ⟨hitem, hfail⟩ | ⟨f, hitem, rfl⟩
      · have haccount := hitems r List.mem_cons_self pos tags _ hitem
        have hgives := Setting.Replies.gives ⟨depth, hitem⟩
        exact (ih (fun r' hr' => hitems r' (List.mem_cons_of_mem _ hr')) hrest).lift
          (.item haccount.success) (.laterItem hgives)
      · obtain rfl := Option.some.inj hfail
        exact Or.inl (.itemFail (hitems r List.mem_cons_self pos tags _ hitem).fail)
      · exact (hitems r List.mem_cons_self pos tags _ hitem).lift .itemRaised .item

theorem accounts_alternatives {depth : Nat} {skip : Bool} {alts : List Rule}
    (halts : ∀ r ∈ alts, ∀ pos tags reply,
      Task.reply? s depth (.rule r) pos tags skip = some reply →
      s.Accounts (.rule r) pos tags skip reply)
    {pos : Int} {tags : Tags} {reply : Reply}
    (h : Task.reply? s depth (.alternatives alts) pos tags skip = some reply) :
    s.Accounts (.alternatives alts) pos tags skip reply := by
  induction alts with
  | nil =>
      rw [reply?_alternatives_nil] at h
      obtain rfl := Option.some.inj h
      exact Or.inl .noAlternative
  | cons r rest ih =>
      rw [reply?_alternatives_cons, bind_next_eq_some] at h
      rcases h with ⟨value, stop, after, halt, hdone⟩ | ⟨halt, hrest⟩ | ⟨f, halt, rfl⟩
      · obtain rfl := Option.some.inj hdone
        exact Or.inl (.alternative (halts r List.mem_cons_self pos tags _ halt).success)
      · have haccount := halts r List.mem_cons_self pos tags _ halt
        exact (ih (fun r' hr' => halts r' (List.mem_cons_of_mem _ hr')) hrest).lift
          (.alternativeFail haccount.fail) (.laterAlternative ⟨depth, halt⟩)
      · exact (halts r List.mem_cons_self pos tags _ halt).lift .alternativeRaised .alternative

/-- A rule that has replied with a value gives the same reply to what it left behind. -/
theorem reply?_again {depth : Nat} {r : Rule} {pos : Int} {tags after : Tags} {skip : Bool}
    {value : Value} {stop : Int}
    (h : Task.reply? s depth (.rule r) pos tags skip = some (.success value stop after)) :
    Task.reply? s depth (.rule r) pos after skip = some (.success value stop after) := by
  rw [Task.reply?, Ending.reply?_eq_success_iff] at h ⊢
  exact eval_again h

theorem accounts_rounds {depth : Nat} {node : Rule} {skip : Bool}
    (hnode : ∀ pos tags reply, Task.reply? s depth (.rule node) pos tags skip = some reply →
      s.Accounts (.rule node) pos tags skip reply)
    {bounds : Bounds} {done : List Value} {pos : Int} {tags : Tags} {reply : Reply}
    (h : Task.reply? s depth (.rounds node bounds done) pos tags skip = some reply) :
    s.Accounts (.rounds node bounds done) pos tags skip reply := by
  -- on the room that is left: a round that is followed by another one takes something
  induction hroom : s.room pos using Nat.strong_induction_on generalizing done pos tags with
  | _ room ih =>
      by_cases hallows : bounds.Allows done.length
      · rw [reply?_rounds_next hallows, bind_next_eq_some] at h
        rcases h with ⟨value, mid, after, hround, hrest⟩ | ⟨hround, hstop⟩ | ⟨f, hround, rfl⟩
        · have hderives := (hnode pos tags _ hround).success
          have hgives := Setting.Replies.gives ⟨depth, hround⟩
          by_cases heq : mid = pos
          · subst heq
            rw [if_pos rfl, Option.some.injEq] at hrest
            cases hfill : fillFault? s.capacity (done.length + 1) bounds.least with
            | some f =>
                rw [Setting.roundsReply_overflow hfill] at hrest
                exact Or.inr ⟨f, Or.inl (.idle hallows hgives hfill), hrest.symm⟩
            | none =>
                rw [Setting.roundsReply_idle hfill] at hrest
                -- made again with what it left behind, the round does the same
                have hagain : s.Derives (.rule node) mid after skip (.success value mid after) :=
                  (hnode mid after _ (reply?_again hround)).success
                subst hrest
                exact Or.inl (derives_idle hagain _ hallows hderives rfl)
          · rw [if_neg heq] at hrest
            have hlt : s.room mid < room := hroom ▸ hgives.within.room_lt heq
            exact (ih (s.room mid) hlt hrest rfl).lift
              (.round hallows hderives (Or.inl heq)) (.laterRound hallows hgives heq)
        · obtain rfl := Option.some.inj hstop
          exact Or.inl (.roundFail hallows (hnode pos tags _ hround).fail)
        · exact (hnode pos tags _ hround).lift (.roundRaised hallows) (.round hallows)
      · rw [reply?_rounds_full hallows] at h
        obtain rfl := Option.some.inj h
        exact Or.inl (.roundsFull hallows)

/-- Inside a rule every reply is accounted for if those to references are. -/
theorem accounts_of_refs {depth : Nat}
    (hrefs : ∀ name pos tags skip reply,
      Task.reply? s depth (.rule (.ref name)) pos tags skip = some reply →
      s.Accounts (.rule (.ref name)) pos tags skip reply)
    (r : Rule) {pos : Int} {tags : Tags} {skip : Bool} {reply : Reply}
    (h : Task.reply? s depth (.rule r) pos tags skip = some reply) :
    s.Accounts (.rule r) pos tags skip reply := by
  induction r generalizing pos tags reply with
  | token t =>
      cases skip with
      | false =>
          rw [reply?_token_false] at h
          obtain rfl := Option.some.inj h
          exact Or.inl .token
      | true =>
          rw [reply?_token_true, bind_next_eq_some] at h
          rcases h with ⟨value, start, inner, hspace, hdone⟩ | ⟨hspace, hdone⟩ | ⟨f, hspace, rfl⟩
          · obtain rfl := Option.some.inj hdone
            exact Or.inl (.tokenSpace (hrefs spaceName pos [] false _ hspace).success)
          · obtain rfl := Option.some.inj hdone
            exact Or.inl (.tokenNoSpace (hrefs spaceName pos [] false _ hspace).fail)
          · exact (hrefs spaceName pos [] false _ hspace).lift .tokenRaised (.inside .space)
  | ref name => exact hrefs name pos tags skip reply h
  | seq items ih =>
      rw [reply?_seq] at h
      have haccount := accounts_items (fun r hr _ _ _ => ih r hr) h
      exact haccount.lift .seq fun ⟨_, hstart, hc⟩ => .inside (.item hstart) hc
  | tagged tag node ih =>
      rw [reply?_tagged, bind_next_eq_some] at h
      rcases h with ⟨value, stop, inner, hnode, hdone⟩ | ⟨hnode, hfail⟩ | ⟨f, hnode, rfl⟩
      · obtain rfl := Option.some.inj hdone
        exact Or.inl (.tagged (ih hnode).success)
      · obtain rfl := Option.some.inj hfail
        exact Or.inl (.taggedFail (ih hnode).fail)
      · exact (ih hnode).lift .taggedRaised (.inside .inner)
  | choice alts ih =>
      rw [reply?_choice] at h
      have haccount := accounts_alternatives (fun r hr _ _ _ => ih r hr) h
      exact haccount.lift .choice fun ⟨_, hstart, hc⟩ => .inside (.alternative hstart) hc
  | repetition node bounds ih =>
      rw [reply?_repetition] at h
      exact (accounts_rounds (fun _ _ _ => ih) h).lift .repetition .repetition
  | unknown value =>
      rw [reply?_unknown] at h
      obtain rfl := Option.some.inj h
      exact Or.inl .unknown

/-- Every reply of the evaluator to a reference is accounted for. -/
theorem accounts_ref (depth : Nat) {name : String} {pos : Int} {tags : Tags} {skip : Bool}
    {reply : Reply} (h : Task.reply? s depth (.rule (.ref name)) pos tags skip = some reply) :
    s.Accounts (.rule (.ref name)) pos tags skip reply := by
  induction depth generalizing name pos tags skip reply with
  | zero =>
      cases hbody : s.rules.get? name with
      | none =>
          rw [reply?_undefined hbody] at h
          obtain rfl := Option.some.inj h
          exact Or.inl (.undefined hbody)
      | some body => simp [reply?_ref_zero hbody] at h
  | succ depth ih =>
      cases hbody : s.rules.get? name with
      | none =>
          rw [reply?_undefined hbody] at h
          obtain rfl := Option.some.inj h
          exact Or.inl (.undefined hbody)
      | some body =>
          rw [reply?_ref_succ hbody, bind_next_eq_some] at h
          have haccount : ∀ reply, Task.reply? s depth (.rule body) pos [] skip = some reply →
              s.Accounts (.rule body) pos [] skip reply := fun _ =>
            accounts_of_refs (fun _ _ _ _ _ => ih) body
          rcases h with ⟨value, stop, inner, hdone, hanswer⟩ | ⟨hdone, hfail⟩ | ⟨f, hdone, rfl⟩
          · obtain rfl := Option.some.inj hanswer
            exact Or.inl (.ref hbody (haccount _ hdone).success)
          · obtain rfl := Option.some.inj hfail
            exact Or.inl (.refFail hbody (haccount _ hdone).fail)
          · exact (haccount _ hdone).lift (.refRaised hbody) (.inside (.body hbody))

/-- Every reply of the evaluator is accounted for. -/
theorem accounts_of_reply? {depth : Nat} {task : Task} {pos : Int} {tags : Tags} {skip : Bool}
    {reply : Reply} (h : task.reply? s depth pos tags skip = some reply) :
    s.Accounts task pos tags skip reply := by
  have hrule : ∀ r pos tags reply, Task.reply? s depth (.rule r) pos tags skip = some reply →
      s.Accounts (.rule r) pos tags skip reply := fun r _ _ _ hr =>
    accounts_of_refs (fun _ _ _ _ _ => accounts_ref depth) r hr
  cases task with
  | rule r => exact hrule r pos tags reply h
  | items done rest => exact accounts_items (fun r _ => hrule r) h
  | alternatives rest => exact accounts_alternatives (fun r _ => hrule r) h
  | rounds node bounds done => exact accounts_rounds (hrule node) h

/-! ## From the reference to the evaluator -/

/-- The evaluator has the reply to the task, or the task overflows. -/
def Setting.Fulfills (s : Setting) (task : Task) (pos : Int) (tags : Tags) (skip : Bool)
    (reply : Reply) : Prop :=
  (∃ f, task.Overflows s f pos tags skip) ∨ s.Replies task pos tags skip reply

/-- A task overflows if a part of it does, and has a reply because that part has one. -/
theorem Setting.Fulfills.lift {task part : Task} {pos pos' : Int} {tags tags' : Tags}
    {skip skip' : Bool} {reply reply' : Reply} (h : s.Fulfills part pos' tags' skip' reply')
    (hoverflows : ∀ f, part.Overflows s f pos' tags' skip' → task.Overflows s f pos tags skip)
    (hreplies : ∀ depth, part.reply? s depth pos' tags' skip' = some reply' →
      s.Replies task pos tags skip reply) :
    s.Fulfills task pos tags skip reply := by
  rcases h with ⟨f, hpart⟩ | ⟨depth, hreply⟩
  · exact Or.inl ⟨f, hoverflows f hpart⟩
  · exact Or.inr (hreplies depth hreply)

/-- Where a round takes nothing, the loop goes on as if it had not been made. -/
theorem replies_idle {node : Rule} {bounds : Bounds} {done : List Value} {pos : Int}
    {tags after : Tags} {skip : Bool} {value : Value} {reply : Reply}
    (hnode : s.Replies (.rule node) pos tags skip (.success value pos after))
    (hlt : done.length + 1 < bounds.least)
    (hfill : fillFault? s.capacity (done.length + 1) bounds.least = none)
    (hrest : s.Fulfills (.rounds node bounds (done ++ [value])) pos after skip reply) :
    s.Replies (.rounds node bounds done) pos tags skip reply := by
  obtain ⟨depth, hround⟩ := hnode
  have hlength : (done ++ [value]).length = done.length + 1 := by simp
  have hallows : bounds.Allows done.length := Bounds.allows_of_lt_least (by omega)
  have hnext : bounds.Allows (done ++ [value]).length :=
    Bounds.allows_of_lt_least (hlength ▸ hlt)
  have hsmaller : fillFault? s.capacity ((done ++ [value]).length + 1) bounds.least = none := by
    rw [hlength]
    exact fillFault?_succ hfill
  -- the reply without that round, and the one with it
  have hfirst : s.Replies (.rounds node bounds done) pos tags skip (.success
      (.list (done ++ value :: List.replicate (bounds.least - (done.length + 1)) value)) pos
      after) := by
    refine ⟨depth, ?_⟩
    rw [reply?_rounds_next hallows, hround]
    simp only [Option.bind_some, Reply.next, if_true, Setting.roundsReply_idle hfill]
  have hsecond : s.Replies (.rounds node bounds (done ++ [value])) pos after skip (.success
      (.list (done ++ value :: List.replicate (bounds.least - (done.length + 1)) value)) pos
      after) := by
    refine ⟨depth, ?_⟩
    rw [reply?_rounds_next hnext, reply?_again hround]
    simp only [Option.bind_some, Reply.next, if_true, Setting.roundsReply_idle hsmaller]
    have hcount : bounds.least - (done.length + 1)
        = bounds.least - ((done ++ [value]).length + 1) + 1 := by omega
    rw [hcount, List.replicate_succ, ← List.append_cons]
  rcases hrest with ⟨f, hover⟩ | hreplies
  · exact absurd (hsecond.unique hover.raises) (by simp)
  · rwa [hreplies.unique hsecond]

/-- What can be derived is what the evaluator replies, unless it overflows. -/
theorem overflows_or_replies {task : Task} {pos : Int} {tags : Tags} {skip : Bool} {reply : Reply}
    (h : s.Derives task pos tags skip reply) : s.Fulfills task pos tags skip reply := by
  induction h with
  | @token t pos tags => exact Or.inr ⟨0, reply?_token_false 0 t pos tags⟩
  | tokenSpace _ ih =>
      exact ih.lift (fun f hover => .inside .space hover) fun depth hspace =>
        ⟨depth, by rw [reply?_token_true, hspace]; rfl⟩
  | tokenNoSpace _ ih =>
      exact ih.lift (fun f hover => .inside .space hover) fun depth hspace =>
        ⟨depth, by rw [reply?_token_true, hspace]; rfl⟩
  | tokenRaised _ ih =>
      exact ih.lift (fun f hover => .inside .space hover) fun depth hspace =>
        ⟨depth, by rw [reply?_token_true, hspace]; rfl⟩
  | undefined hnone => exact Or.inr ⟨0, reply?_undefined hnone 0 _ _ _⟩
  | ref hbody _ ih =>
      exact ih.lift (fun f hover => .inside (.body hbody) hover) fun depth hreply =>
        ⟨depth + 1, by rw [reply?_ref_succ hbody, hreply]; rfl⟩
  | refFail hbody _ ih =>
      exact ih.lift (fun f hover => .inside (.body hbody) hover) fun depth hreply =>
        ⟨depth + 1, by rw [reply?_ref_succ hbody, hreply]; rfl⟩
  | refRaised hbody _ ih =>
      exact ih.lift (fun f hover => .inside (.body hbody) hover) fun depth hreply =>
        ⟨depth + 1, by rw [reply?_ref_succ hbody, hreply]; rfl⟩
  | seq _ ih =>
      refine ih.lift (fun f hover => ?_) fun depth hreply => ⟨depth, by rw [reply?_seq, hreply]⟩
      obtain ⟨c, hstart, hc⟩ := hover
      exact .inside (.item hstart) hc
  | @itemsDone done pos tags skip => exact Or.inr ⟨0, reply?_items_nil 0 done pos tags skip⟩
  | item _ _ ihitem ihrest =>
      rcases ihitem with ⟨f, hover⟩ | hitem
      · exact Or.inl ⟨f, hover.item⟩
      · refine ihrest.lift (fun f hover => hover.laterItem hitem.gives) fun depth hrest => ?_
        -- the item and the rest may need different depths; the greater one does for both
        obtain ⟨depth, hreply, hmore⟩ := hitem.both ⟨depth, hrest⟩
        exact ⟨depth, by rw [reply?_items_cons, hreply]; exact hmore⟩
  | itemFail _ ih =>
      exact ih.lift (fun f hover => hover.item) fun depth hreply =>
        ⟨depth, by rw [reply?_items_cons, hreply]; rfl⟩
  | itemRaised _ ih =>
      exact ih.lift (fun f hover => hover.item) fun depth hreply =>
        ⟨depth, by rw [reply?_items_cons, hreply]; rfl⟩
  | tagged _ ih =>
      exact ih.lift (fun f hover => .inside .inner hover) fun depth hreply =>
        ⟨depth, by rw [reply?_tagged, hreply]; rfl⟩
  | taggedFail _ ih =>
      exact ih.lift (fun f hover => .inside .inner hover) fun depth hreply =>
        ⟨depth, by rw [reply?_tagged, hreply]; rfl⟩
  | taggedRaised _ ih =>
      exact ih.lift (fun f hover => .inside .inner hover) fun depth hreply =>
        ⟨depth, by rw [reply?_tagged, hreply]; rfl⟩
  | choice _ ih =>
      refine ih.lift (fun f hover => ?_) fun depth hreply => ⟨depth, by rw [reply?_choice, hreply]⟩
      obtain ⟨c, hstart, hc⟩ := hover
      exact .inside (.alternative hstart) hc
  | @noAlternative pos tags skip => exact Or.inr ⟨0, reply?_alternatives_nil 0 pos tags skip⟩
  | alternative _ ih =>
      exact ih.lift (fun f hover => hover.alternative) fun depth hreply =>
        ⟨depth, by rw [reply?_alternatives_cons, hreply]; rfl⟩
  | alternativeFail _ _ ihalt ihrest =>
      rcases ihalt with ⟨f, hover⟩ | halt
      · exact Or.inl ⟨f, hover.alternative⟩
      · refine ihrest.lift (fun f hover => hover.laterAlternative halt) fun depth hrest => ?_
        obtain ⟨depth, hreply, hmore⟩ := halt.both ⟨depth, hrest⟩
        exact ⟨depth, by rw [reply?_alternatives_cons, hreply]; exact hmore⟩
  | alternativeRaised _ ih =>
      exact ih.lift (fun f hover => hover.alternative) fun depth hreply =>
        ⟨depth, by rw [reply?_alternatives_cons, hreply]; rfl⟩
  | repetition _ ih =>
      exact ih.lift (fun f hover => hover.repetition) fun depth hreply =>
        ⟨depth, by rw [reply?_repetition, hreply]⟩
  | roundsFull hfull => exact Or.inr ⟨0, reply?_rounds_full hfull 0 _ _ _ _⟩
  | roundFail hallows _ ih =>
      exact ih.lift (fun f hover => .round hallows hover) fun depth hreply =>
        ⟨depth, by rw [reply?_rounds_next hallows, hreply]; rfl⟩
  | @roundIdle node bounds done pos tags after skip value hallows _ hleast ih =>
      refine ih.lift (fun f hover => .round hallows hover) fun depth hreply => ⟨depth, ?_⟩
      have hnone : bounds.least - (done.length + 1) = 0 := by omega
      have hfill : fillFault? s.capacity (done.length + 1) bounds.least = none :=
        fillFault?_of_le (by omega)
      rw [reply?_rounds_next hallows, hreply]
      simp only [Option.bind_some, Reply.next, if_true, Setting.roundsReply_idle hfill, hnone,
        List.replicate_zero]
  | @round node bounds done pos mid tags after skip value reply hallows _ hgoes _ ihround ihrest =>
      rcases ihround with ⟨f, hover⟩ | hround
      · exact Or.inl ⟨f, .round hallows hover⟩
      · by_cases heq : mid = pos
        · -- the reference makes another round, the evaluator fills it in
          subst heq
          have hlt : done.length + 1 < bounds.least := hgoes.resolve_left fun h => h rfl
          cases hfill : fillFault? s.capacity (done.length + 1) bounds.least with
          | some f => exact Or.inl ⟨f, Or.inl (.idle hallows hround.gives hfill)⟩
          | none => exact Or.inr (replies_idle hround hlt hfill ihrest)
        · refine ihrest.lift (fun f hover => hover.laterRound hallows hround.gives heq)
            fun depth hrest => ?_
          obtain ⟨depth, hreply, hmore⟩ := hround.both ⟨depth, hrest⟩
          refine ⟨depth, ?_⟩
          rw [reply?_rounds_next hallows, hreply]
          simp only [Option.bind_some, Reply.next, if_neg heq]
          exact hmore
  | roundRaised hallows _ ih =>
      exact ih.lift (fun f hover => .round hallows hover) fun depth hreply =>
        ⟨depth, by rw [reply?_rounds_next hallows, hreply]; rfl⟩
  | @unknown value pos tags skip => exact Or.inr ⟨0, reply?_unknown 0 value pos tags skip⟩

/-- A task that overflows raises the fault of that; any other has the reply that can be derived. -/
theorem replies_iff {task : Task} {pos : Int} {tags : Tags} {skip : Bool} {reply : Reply} :
    s.Replies task pos tags skip reply ↔
      (∃ f, task.Overflows s f pos tags skip ∧ reply = .raised f)
        ∨ ((∀ f, ¬task.Overflows s f pos tags skip) ∧ s.Derives task pos tags skip reply) := by
  constructor
  · intro h
    by_cases hover : ∃ f, task.Overflows s f pos tags skip
    · obtain ⟨f, hover⟩ := hover
      exact Or.inl ⟨f, hover, h.unique hover.raises⟩
    · obtain ⟨depth, hreply⟩ := h
      rw [not_exists] at hover
      have hderives := (accounts_of_reply? hreply).resolve_right fun ⟨f, h, _⟩ => hover f h
      exact Or.inr ⟨hover, hderives⟩
  · rintro (⟨f, hover, rfl⟩ | ⟨hover, hderives⟩)
    · exact hover.raises
    · exact (overflows_or_replies hderives).resolve_left fun ⟨f, h⟩ => hover f h

/-! ## At the top -/

/-- The reply of an evaluation by name is what the evaluator replies to a reference. -/
theorem replies_first_iff {name : String} {pos : Int} {reply : Reply} :
    s.Replies (.rule (.ref name)) pos [] true reply ↔
      (s.apply name pos).ending.reply? (fun v => Outcome.reply ⟨v, []⟩) = some reply := by
  constructor
  · rintro ⟨depth, h⟩
    rw [reply?_ref_enter] at h
    have hends : (enter s depth name pos true).ending ≠ .runaway := by
      intro hrun
      simp [hrun, Ending.reply?] at h
    rwa [enter_eq_apply hends] at h
  · intro h
    refine ⟨s.depthBound pos, ?_⟩
    rwa [reply?_ref_enter]

section Verdicts

variable {x : Ending Verdict}

theorem reply?_verdict_success_iff {value : Value} {stop : Int} :
    x.reply? (fun v => Outcome.reply ⟨v, []⟩) = some (.success value stop []) ↔
      x = .done (.success value stop) := by
  rcases x with ⟨v | v⟩ | f | _ <;> simp [Ending.reply?, Outcome.reply]

theorem reply?_verdict_fail_iff :
    x.reply? (fun v => Outcome.reply ⟨v, []⟩) = some .fail ↔ ∃ stop, x = .done (.failure stop) := by
  rcases x with ⟨v | v⟩ | f | _ <;> simp [Ending.reply?, Outcome.reply]

theorem reply?_verdict_raised_iff {f : Fault} :
    x.reply? (fun v => Outcome.reply ⟨v, []⟩) = some (.raised f) ↔ x = .raised f := by
  rcases x with ⟨v | v⟩ | f | _ <;> simp [Ending.reply?, Outcome.reply]

theorem reply?_verdict_runaway_iff :
    (∀ reply, x.reply? (fun v => Outcome.reply ⟨v, []⟩) ≠ some reply) ↔ x = .runaway := by
  rcases x with ⟨v | v⟩ | f | _ <;> simp [Ending.reply?]

end Verdicts

/-- The bounds that ask for `2 ^ 63 + 1` rounds. -/
def countlessBounds : Bounds := ⟨some (2 ^ 63 + 1), none, by simp⟩

/-- A rule that repeats what takes nothing more often than can be counted. -/
def countlessSetting : Setting :=
  ⟨[("$begin", .repetition (.seq []) countlessBounds)], fun _ => none, [], Fault.listCapacity⟩

end TextGrammar
