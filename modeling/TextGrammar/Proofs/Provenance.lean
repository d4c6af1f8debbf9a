import TextGrammar.Proofs.Agreement

/-!
# Where tagged parts come from

When the body of a rule matches, it has been read along one path: all items of a sequence,
the alternative that was taken, the rounds that were made. A `Trail` is that path as a tree.
It has no room for anything else: not for alternatives or rounds that failed, not for what
was skipped as space, and a reference is a leaf.

`Setting.Follows` says which trail an evaluation follows. Nothing in it depends on tagged
parts, and there is at most one trail (`Setting.Follows.unique`).

The parts that the rule is given are those that are tagged on the trail, written in the
order in which they are completed: inner tags before the outer one, left before right. A
part with tags inside keeps these for itself too (`Trail.writes`).
-/

namespace TextGrammar

variable {s : Setting}

/-! ## Trails -/

/-- The path along which a rule was read. -/
inductive Trail where
  /-- A token or a reference, with its value. -/
  | leaf (value : Value)
  /-- The items of a sequence or the rounds of a repetition. -/
  | series (parts : List Trail)
  | tagged (tag : String) (inner : Trail)

namespace Trail

mutual

/-- The value of what was read. -/
def value : Trail → Value
  | .leaf v => v
  | .series parts => .list (values parts)
  | .tagged _ inner => inner.value
termination_by structural t => t

/-- The values of what was read, in order. -/
def values : List Trail → List Value
  | [] => []
  | t :: rest => t.value :: values rest
termination_by structural ts => ts

end

mutual

/--
The parts that are tagged on the trail, in the order in which they are completed. Each
is the value of what was read, with the parts that were tagged inside.
-/
def writes : Trail → Tags
  | .leaf _ => []
  | .series parts => writesAll parts
  | .tagged tag inner => inner.writes ++ [(tag, inner.value.merge (Table.ofList inner.writes))]
termination_by structural t => t

/-- The parts that are tagged on several trails. -/
def writesAll : List Trail → Tags
  | [] => []
  | t :: rest => t.writes ++ writesAll rest
termination_by structural ts => ts

end

theorem values_eq (parts : List Trail) : values parts = parts.map value := by
  induction parts with
  | nil => rfl
  | cons t rest ih => rw [values, ih, List.map_cons]

theorem writesAll_eq (parts : List Trail) : writesAll parts = parts.flatMap writes := by
  induction parts with
  | nil => rfl
  | cons t rest ih => rw [writesAll, ih, List.flatMap_cons]

@[simp] theorem value_series (parts : List Trail) :
    (series parts).value = .list (parts.map value) := by
  rw [value, values_eq]

@[simp] theorem writes_series (parts : List Trail) :
    (series parts).writes = parts.flatMap writes := by
  rw [writes, writesAll_eq]

@[simp] theorem value_tagged (tag : String) (inner : Trail) :
    (tagged tag inner).value = inner.value := rfl

@[simp] theorem writes_tagged (tag : String) (inner : Trail) :
    (tagged tag inner).writes
      = inner.writes ++ [(tag, inner.value.merge (Table.ofList inner.writes))] := rfl

/-- One more trail is replayed behind the others. -/
theorem replay_concat (tags : Tags) (done : List Trail) (part : Trail) :
    Table.update tags ((done ++ [part]).flatMap writes) =
      Table.update (Table.update tags (done.flatMap writes)) part.writes := by
  rw [List.flatMap_append, List.flatMap_singleton, Table.update_append]

/-- Reading the same again changes no tagged parts. -/
theorem replay_replicate (tags : Tags) (part : Trail) (n : Nat) :
    Table.update (Table.update tags part.writes) ((List.replicate n part).flatMap writes) =
      Table.update tags part.writes := by
  induction n with
  | zero => rfl
  | succ n ih =>
      rw [List.replicate_succ, List.flatMap_cons, Table.update_append, Table.update_update_self, ih]

end Trail

/-! ## The trail that is followed -/

/-- What is left to be read. -/
inductive Way where
  | rule (r : Rule)
  /-- The rest of a sequence, behind items that were read along these trails. -/
  | items (done : List Trail) (rest : List Rule)
  /-- The alternatives that are left. -/
  | alternatives (rest : List Rule)
  /-- More rounds of a repetition, behind rounds that were read along these trails. -/
  | rounds (node : Rule) (bounds : Bounds) (done : List Trail)

/--
`s.Follows skip way pos trail stop`: from the position on, with or without skipping, what is
left is read along the trail, which stops where given.
-/
inductive Setting.Follows (s : Setting) (skip : Bool) : Way → Int → Trail → Int → Prop where
  | token {t : Token} {pos stop : Int} {value : Value} :
      s.Replies (.rule (.token t)) pos [] skip (.success value stop []) →
      Follows s skip (.rule (.token t)) pos (.leaf value) stop
  | ref {name : String} {pos stop : Int} {value : Value} :
      s.Replies (.rule (.ref name)) pos [] skip (.success value stop []) →
      Follows s skip (.rule (.ref name)) pos (.leaf value) stop
  | seq {items : List Rule} {pos stop : Int} {trail : Trail} :
      Follows s skip (.items [] items) pos trail stop →
      Follows s skip (.rule (.seq items)) pos trail stop
  | itemsDone {done : List Trail} {pos : Int} :
      Follows s skip (.items done []) pos (.series done) pos
  | item {done : List Trail} {r : Rule} {rest : List Rule} {pos mid stop : Int}
      {part trail : Trail} :
      Follows s skip (.rule r) pos part mid →
      Follows s skip (.items (done ++ [part]) rest) mid trail stop →
      Follows s skip (.items done (r :: rest)) pos trail stop
  | tagged {tag : String} {node : Rule} {pos stop : Int} {inner : Trail} :
      Follows s skip (.rule node) pos inner stop →
      Follows s skip (.rule (.tagged tag node)) pos (.tagged tag inner) stop
  | choice {alts : List Rule} {pos stop : Int} {trail : Trail} :
      Follows s skip (.alternatives alts) pos trail stop →
      Follows s skip (.rule (.choice alts)) pos trail stop
  | alternative {r : Rule} {rest : List Rule} {pos stop : Int} {trail : Trail} :
      Follows s skip (.rule r) pos trail stop →
      Follows s skip (.alternatives (r :: rest)) pos trail stop
  /-- Nothing of an alternative that failed is on the trail. -/
  | alternativeFail {r : Rule} {rest : List Rule} {pos stop : Int} {trail : Trail} :
      s.Replies (.rule r) pos [] skip .fail →
      Follows s skip (.alternatives rest) pos trail stop →
      Follows s skip (.alternatives (r :: rest)) pos trail stop
  | repetition {node : Rule} {bounds : Bounds} {pos stop : Int} {trail : Trail} :
      Follows s skip (.rounds node bounds []) pos trail stop →
      Follows s skip (.rule (.repetition node bounds)) pos trail stop
  | roundsFull {node : Rule} {bounds : Bounds} {done : List Trail} {pos : Int} :
      ¬bounds.Allows done.length → bounds.least ≤ done.length →
      Follows s skip (.rounds node bounds done) pos (.series done) pos
  /-- Nothing of a round that failed is on the trail. -/
  | roundFail {node : Rule} {bounds : Bounds} {done : List Trail} {pos : Int} :
      bounds.Allows done.length → s.Replies (.rule node) pos [] skip .fail →
      bounds.least ≤ done.length →
      Follows s skip (.rounds node bounds done) pos (.series done) pos
  | roundIdle {node : Rule} {bounds : Bounds} {done : List Trail} {pos : Int} {part : Trail} :
      bounds.Allows done.length → Follows s skip (.rule node) pos part pos →
      bounds.least ≤ done.length + 1 →
      Follows s skip (.rounds node bounds done) pos (.series (done ++ [part])) pos
  | round {node : Rule} {bounds : Bounds} {done : List Trail} {pos mid stop : Int}
      {part trail : Trail} :
      bounds.Allows done.length → Follows s skip (.rule node) pos part mid →
      mid ≠ pos ∨ done.length + 1 < bounds.least →
      Follows s skip (.rounds node bounds (done ++ [part])) mid trail stop →
      Follows s skip (.rounds node bounds done) pos trail stop

namespace Way

/-- What is left to be read as a task. -/
def task : Way → Task
  | .rule r => .rule r
  | .items done rest => .items (done.map Trail.value) rest
  | .alternatives rest => .alternatives rest
  | .rounds node bounds done => .rounds node bounds (done.map Trail.value)

/-- The parts that were tagged before what is left. -/
def writes : Way → Tags
  | .rule _ | .alternatives _ => []
  | .items done _ | .rounds _ _ done => done.flatMap Trail.writes

end Way

/-! ## What is read along a trail can be derived -/

/-- The same reply where other parts were tagged before. -/
def Reply.over (tags : Tags) : Reply → Reply
  | .success value stop inner => .success value stop (Table.update tags inner)
  | .fail => .fail
  | .raised f => .raised f

/-- The reply to a rule is that where nothing was tagged before. -/
theorem reply?_over (depth : Nat) (r : Rule) (pos : Int) (tags : Tags) (skip : Bool) :
    Task.reply? s depth (.rule r) pos tags skip =
      (Task.reply? s depth (.rule r) pos [] skip).map (Reply.over tags) := by
  rw [Task.reply?, Task.reply?, eval_eq_update]
  rcases eval s (enter s depth) r pos [] skip with ⟨es, ⟨⟨v | v, inner⟩⟩ | f | _⟩ <;> rfl

theorem Setting.Replies.over {r : Rule} {pos : Int} {skip : Bool} {reply : Reply}
    (h : s.Replies (.rule r) pos [] skip reply) (tags : Tags) :
    s.Replies (.rule r) pos tags skip (reply.over tags) := by
  obtain ⟨depth, hreply⟩ := h
  exact ⟨depth, by rw [reply?_over, hreply, Option.map_some]⟩

/-- A value that the evaluator replies with can be derived. -/
theorem Setting.Replies.success {task : Task} {pos stop : Int} {tags after : Tags} {skip : Bool}
    {value : Value} (h : s.Replies task pos tags skip (.success value stop after)) :
    s.Derives task pos tags skip (.success value stop after) := by
  obtain ⟨depth, hreply⟩ := h
  exact (accounts_of_reply? hreply).success

theorem Setting.Replies.fail {task : Task} {pos : Int} {tags : Tags} {skip : Bool}
    (h : s.Replies task pos tags skip .fail) : s.Derives task pos tags skip .fail := by
  obtain ⟨depth, hreply⟩ := h
  exact (accounts_of_reply? hreply).fail

/-- What is read along a trail has the value of the trail and adds what is tagged on it. -/
theorem Setting.Follows.derives {skip : Bool} {way : Way} {pos stop : Int} {trail : Trail}
    (h : s.Follows skip way pos trail stop) (tags : Tags) :
    s.Derives way.task pos (Table.update tags way.writes) skip
      (.success trail.value stop (Table.update tags trail.writes)) := by
  induction h generalizing tags with
  | token hreply => exact (hreply.over tags).success
  | ref hreply => exact (hreply.over tags).success
  | seq _ ih => exact .seq (ih tags)
  | @itemsDone done pos =>
      rw [Trail.value_series, Trail.writes_series]
      exact .itemsDone
  | @item done r rest pos mid stop part trail _ _ ihitem ihrest =>
      have hrest := ihrest tags
      simp only [Way.task, Way.writes, Trail.replay_concat, List.map_append, List.map_singleton]
        at hrest
      exact .item (ihitem (Table.update tags (done.flatMap Trail.writes))) hrest
  | @tagged tag node pos stop inner _ ih =>
      have hinner : s.Derives (.rule node) pos [] skip
          (.success inner.value stop (Table.ofList inner.writes)) := ih []
      rw [Trail.value_tagged, Trail.writes_tagged, Table.update_append, Table.update_singleton,
        ← Table.update_ofList tags inner.writes]
      exact .tagged hinner
  | choice _ ih => exact .choice (ih tags)
  | alternative _ ih => exact .alternative (ih tags)
  | alternativeFail hfail _ ih => exact .alternativeFail (hfail.over tags).fail (ih tags)
  | repetition _ ih => exact .repetition (ih tags)
  -- as many trails as values, so both count the same rounds
  | @roundsFull node bounds done pos hfull hleast =>
      rw [← done.length_map Trail.value] at hfull hleast
      rw [Trail.value_series, Trail.writes_series, ← Bounds.reply_of_le hleast]
      exact .roundsFull hfull
  | @roundFail node bounds done pos hallows hfail hleast =>
      rw [← done.length_map Trail.value] at hallows hleast
      rw [Trail.value_series, Trail.writes_series, ← Bounds.reply_of_le hleast]
      exact .roundFail hallows (hfail.over _).fail
  | @roundIdle node bounds done pos part hallows _ hleast ih =>
      have hround := ih (Table.update tags (done.flatMap Trail.writes))
      rw [← done.length_map Trail.value] at hallows hleast
      rw [Trail.value_series, Trail.writes_series, Trail.replay_concat, List.map_append,
        List.map_singleton]
      exact .roundIdle hallows hround hleast
  | @round node bounds done pos mid stop part trail hallows _ hgoes _ ihround ihrest =>
      have hround := ihround (Table.update tags (done.flatMap Trail.writes))
      have hrest := ihrest tags
      rw [← done.length_map Trail.value] at hallows hgoes
      simp only [Way.task, Way.writes, Trail.replay_concat, List.map_append, List.map_singleton]
        at hrest
      exact .round hallows hround hgoes hrest

/-! ## There is at most one trail -/

/-- What can be read along a trail does not fail. -/
theorem Setting.Follows.not_fail {skip : Bool} {r : Rule} {pos stop : Int} {trail : Trail}
    (h : s.Follows skip (.rule r) pos trail stop)
    (hfail : s.Replies (.rule r) pos [] skip .fail) : False := by
  rcases overflows_or_replies (h.derives []) with ⟨f, hover⟩ | hreply
  · exact absurd (hfail.unique hover.raises) (by simp)
  · exact absurd (hfail.unique hreply) (by simp)

/-- The trail that is followed and where it stops are determined. -/
theorem Setting.Follows.unique {skip : Bool} {way : Way} {pos stop stop' : Int}
    {trail trail' : Trail} (h : s.Follows skip way pos trail stop)
    (h' : s.Follows skip way pos trail' stop') : trail = trail' ∧ stop = stop' := by
  induction h generalizing trail' stop' with
  | token hreply =>
      cases h' with
      | token hreply' =>
          obtain ⟨rfl, rfl, -⟩ := Reply.success.inj (hreply.unique hreply')
          exact ⟨rfl, rfl⟩
  | ref hreply =>
      cases h' with
      | ref hreply' =>
          obtain ⟨rfl, rfl, -⟩ := Reply.success.inj (hreply.unique hreply')
          exact ⟨rfl, rfl⟩
  | seq _ ih => cases h' with | seq hitems => exact ih hitems
  | itemsDone => cases h' with | itemsDone => exact ⟨rfl, rfl⟩
  | item _ _ ihitem ihrest =>
      cases h' with
      | item hitem hrest =>
          obtain ⟨rfl, rfl⟩ := ihitem hitem
          exact ihrest hrest
  | tagged _ ih =>
      cases h' with
      | tagged hinner =>
          obtain ⟨rfl, rfl⟩ := ih hinner
          exact ⟨rfl, rfl⟩
  | choice _ ih => cases h' with | choice halts => exact ih halts
  | alternative halt ih =>
      cases h' with
      | alternative halt' => exact ih halt'
      | alternativeFail hfail _ => exact absurd hfail halt.not_fail
  | alternativeFail hfail _ ih =>
      cases h' with
      | alternative halt => exact absurd hfail halt.not_fail
      | alternativeFail _ hrest => exact ih hrest
  | repetition _ ih => cases h' with | repetition hrounds => exact ih hrounds
  | roundsFull hfull _ =>
      cases h' with
      | roundsFull _ _ => exact ⟨rfl, rfl⟩
      | roundFail hallows _ _ => exact absurd hallows hfull
      | roundIdle hallows _ _ => exact absurd hallows hfull
      | round hallows _ _ _ => exact absurd hallows hfull
  | roundFail hallows hfail _ =>
      cases h' with
      | roundsFull hfull _ => exact absurd hallows hfull
      | roundFail _ _ _ => exact ⟨rfl, rfl⟩
      | roundIdle _ hround _ => exact absurd hfail hround.not_fail
      | round _ hround _ _ => exact absurd hfail hround.not_fail
  -- the first round is the same on both trails, so both stop behind it or both go on
  | roundIdle hallows hround hleast ih =>
      cases h' with
      | roundsFull hfull _ => exact absurd hallows hfull
      | roundFail _ hfail _ => exact absurd hfail hround.not_fail
      | roundIdle _ hround' _ =>
          obtain ⟨rfl, -⟩ := ih hround'
          exact ⟨rfl, rfl⟩
      | round _ hround' hgoes _ =>
          obtain ⟨rfl, rfl⟩ := ih hround'
          omega
  | round hallows hround hgoes _ ihround ihrest =>
      cases h' with
      | roundsFull hfull _ => exact absurd hallows hfull
      | roundFail _ hfail _ => exact absurd hfail hround.not_fail
      | roundIdle _ hround' hleast =>
          obtain ⟨rfl, rfl⟩ := ihround hround'
          omega
      | round _ hround' _ hrest =>
          obtain ⟨rfl, rfl⟩ := ihround hround'
          exact ihrest hrest

/-! ## What has a value was read along a trail -/

/-- What the evaluator replies with at this depth is the value of a trail that it follows. -/
def Way.Traced (s : Setting) (depth : Nat) (skip : Bool) (way : Way) (pos : Int) : Prop :=
  ∀ tags value stop after,
    way.task.reply? s depth pos (Table.update tags way.writes) skip
        = some (.success value stop after) →
    ∃ trail, s.Follows skip way pos trail stop ∧ value = trail.value
      ∧ after = Table.update tags trail.writes

/-- A token tags nothing. -/
theorem token_tags {depth : Nat} {t : Token} {pos stop : Int} {tags after : Tags} {skip : Bool}
    {value : Value}
    (h : Task.reply? s depth (.rule (.token t)) pos tags skip
      = some (.success value stop after)) : after = tags := by
  rw [Task.reply?, Ending.reply?_eq_success_iff, eval_token_ending,
    Ending.andThen_eq_done_iff] at h
  obtain ⟨start, -, hdone⟩ := h
  exact (congrArg Outcome.tags (Ending.done.inj hdone)).symm

/-- What a rule tags is not seen by those that refer to it. -/
theorem ref_tags {depth : Nat} {name : String} {pos stop : Int} {tags after : Tags} {skip : Bool}
    {value : Value}
    (h : Task.reply? s depth (.rule (.ref name)) pos tags skip
      = some (.success value stop after)) : after = tags := by
  rw [Task.reply?, Ending.reply?_eq_success_iff, eval_ref_ending,
    Ending.andThen_eq_done_iff] at h
  obtain ⟨v, -, hdone⟩ := h
  exact (congrArg Outcome.tags (Ending.done.inj hdone)).symm

/-- A rule that adds nothing to any tagged parts adds nothing to none. -/
theorem replies_leaf {depth : Nat} {r : Rule} {pos stop : Int} {tags after : Tags} {skip : Bool}
    {value : Value}
    (htags : ∀ inner, Task.reply? s depth (.rule r) pos [] skip
      = some (.success value stop inner) → inner = [])
    (h : Task.reply? s depth (.rule r) pos tags skip = some (.success value stop after)) :
    s.Replies (.rule r) pos [] skip (.success value stop []) := by
  rw [reply?_over, Option.map_eq_some_iff] at h
  obtain ⟨reply, hreply, hover⟩ := h
  cases reply with
  | success value' stop' inner =>
      obtain ⟨rfl, rfl, -⟩ := Reply.success.inj hover
      exact ⟨depth, by rw [hreply, htags inner hreply]⟩
  | fail => cases hover
  | raised f => cases hover

/-- Whether a rule fails does not depend on what was tagged before. -/
theorem replies_fail_nil {depth : Nat} {r : Rule} {pos : Int} {tags : Tags} {skip : Bool}
    (h : Task.reply? s depth (.rule r) pos tags skip = some .fail) :
    s.Replies (.rule r) pos [] skip .fail := by
  rw [reply?_over, Option.map_eq_some_iff] at h
  obtain ⟨reply, hreply, hover⟩ := h
  cases reply with
  | fail => exact ⟨depth, hreply⟩
  | success value stop inner => cases hover
  | raised f => cases hover

theorem traced_items {depth : Nat} {skip : Bool} {items : List Rule}
    (hitems : ∀ r ∈ items, ∀ pos, (Way.rule r).Traced s depth skip pos) (done : List Trail)
    (pos : Int) : (Way.items done items).Traced s depth skip pos := by
  induction items generalizing done pos with
  | nil =>
      intro tags value stop after h
      rw [Way.task, reply?_items_nil] at h
      obtain ⟨rfl, rfl, rfl⟩ := Reply.success.inj (Option.some.inj h)
      exact ⟨.series done, .itemsDone, by rw [Trail.value_series], by
        rw [Trail.writes_series, Way.writes]⟩
  | cons r rest ih =>
      intro tags value stop after h
      rw [Way.task, reply?_items_cons, bind_next_eq_some] at h
      rcases h with ⟨v, mid, inner, hitem, hrest⟩ | ⟨-, hfail⟩ | ⟨f, -, hraised⟩
      · obtain ⟨part, hpart, rfl, rfl⟩ := hitems r List.mem_cons_self pos
          (Table.update tags (done.flatMap Trail.writes)) v mid inner hitem
        have hmore := ih (fun r' hr' => hitems r' (List.mem_cons_of_mem _ hr')) (done ++ [part]) mid
        obtain ⟨trail, htrail, hvalue, hafter⟩ := hmore tags value stop after (by
          simpa [Way.task, Way.writes, Trail.replay_concat] using hrest)
        exact ⟨trail, .item hpart htrail, hvalue, hafter⟩
      · cases hfail
      · cases hraised

theorem traced_alternatives {depth : Nat} {skip : Bool} {alts : List Rule}
    (halts : ∀ r ∈ alts, ∀ pos, (Way.rule r).Traced s depth skip pos) (pos : Int) :
    (Way.alternatives alts).Traced s depth skip pos := by
  induction alts with
  | nil =>
      intro tags value stop after h
      rw [Way.task, reply?_alternatives_nil] at h
      cases h
  | cons r rest ih =>
      intro tags value stop after h
      rw [Way.task, reply?_alternatives_cons, bind_next_eq_some] at h
      rcases h with ⟨v, mid, inner, halt, hdone⟩ | ⟨halt, hrest⟩ | ⟨f, -, hraised⟩
      · obtain ⟨rfl, rfl, rfl⟩ := Reply.success.inj (Option.some.inj hdone)
        obtain ⟨trail, htrail, hvalue, hafter⟩ := halts r List.mem_cons_self pos tags _ _ _ halt
        exact ⟨trail, .alternative htrail, hvalue, hafter⟩
      · obtain ⟨trail, htrail, hvalue, hafter⟩ :=
          ih (fun r' hr' => halts r' (List.mem_cons_of_mem _ hr')) tags value stop after hrest
        have hfail := replies_fail_nil halt
        exact ⟨trail, .alternativeFail hfail htrail, hvalue, hafter⟩
      · cases hraised

/-- A round that takes nothing is read again and again along the same trail. -/
theorem follows_idle {node : Rule} {bounds : Bounds} {pos : Int} {skip : Bool} {part : Trail}
    (hround : s.Follows skip (.rule node) pos part pos) (missing : Nat) {done : List Trail}
    (hallows : bounds.Allows done.length) (hmissing : missing = bounds.least - (done.length + 1)) :
    s.Follows skip (.rounds node bounds done) pos
      (.series (done ++ part :: List.replicate missing part)) pos := by
  induction missing generalizing done with
  | zero => exact .roundIdle hallows hround (by omega)
  | succ missing ih =>
      have hlt : done.length + 1 < bounds.least := by omega
      have hlength : (done ++ [part]).length = done.length + 1 := by simp
      have hnext : bounds.Allows (done ++ [part]).length := by
        rw [hlength]
        exact Bounds.allows_of_lt_least hlt
      have hrest := ih hnext (by omega)
      rw [← List.append_cons, ← List.replicate_succ] at hrest
      exact .round hallows hround (Or.inr hlt) hrest

theorem traced_rounds {depth : Nat} {skip : Bool} {node : Rule}
    (hnode : ∀ pos, (Way.rule node).Traced s depth skip pos) (bounds : Bounds) (done : List Trail)
    (pos : Int) : (Way.rounds node bounds done).Traced s depth skip pos := by
  induction hroom : s.room pos using Nat.strong_induction_on generalizing done pos with
  | _ room ih =>
      intro tags value stop after h
      have hlength : (done.map Trail.value).length = done.length := List.length_map _
      by_cases hallows : bounds.Allows done.length
      · rw [Way.task, reply?_rounds_next (hlength ▸ hallows), bind_next_eq_some] at h
        rcases h with ⟨v, mid, inner, hround, hrest⟩ | ⟨hround, hstop⟩ | ⟨f, -, hraised⟩
        · obtain ⟨part, hpart, rfl, rfl⟩ :=
            hnode pos (Table.update tags (done.flatMap Trail.writes)) v mid inner hround
          by_cases heq : mid = pos
          · -- the evaluator fills in what the trail makes round by round
            subst heq
            rw [if_pos rfl, Option.some.injEq] at hrest
            cases hfill : fillFault? s.capacity ((done.map Trail.value).length + 1)
                bounds.least with
            | some f =>
                rw [Setting.roundsReply_overflow hfill] at hrest
                cases hrest
            | none =>
                rw [Setting.roundsReply_idle hfill, hlength] at hrest
                obtain ⟨rfl, rfl, rfl⟩ := Reply.success.inj hrest
                refine ⟨_, follows_idle hpart _ hallows rfl, ?_, ?_⟩
                · rw [Trail.value_series, List.map_append, List.map_cons, List.map_replicate]
                · rw [Trail.writes_series, List.append_cons, List.flatMap_append,
                    Table.update_append, Trail.replay_concat, Trail.replay_replicate]
          · rw [if_neg heq] at hrest
            have hgives := Setting.Replies.gives ⟨depth, hround⟩
            -- a round that took something leaves less room
            have hlt : s.room mid < room := hroom ▸ hgives.within.room_lt heq
            obtain ⟨trail, htrail, hvalue, hafter⟩ :=
              ih (s.room mid) hlt (done ++ [part]) mid rfl tags value stop after (by
                simpa [Way.task, Way.writes, Trail.replay_concat] using hrest)
            exact ⟨trail, .round hallows hpart (Or.inl heq) htrail, hvalue, hafter⟩
        · obtain ⟨hleast, rfl, rfl, rfl⟩ := Bounds.reply_eq_success (Option.some.inj hstop)
          rw [hlength] at hleast
          exact ⟨.series done, .roundFail hallows (replies_fail_nil hround) hleast, by
            rw [Trail.value_series], by rw [Trail.writes_series, Way.writes]⟩
        · cases hraised
      · rw [Way.task, reply?_rounds_full (hlength ▸ hallows)] at h
        obtain ⟨hleast, rfl, rfl, rfl⟩ := Bounds.reply_eq_success (Option.some.inj h)
        rw [hlength] at hleast
        exact ⟨.series done, .roundsFull hallows hleast, by rw [Trail.value_series], by
          rw [Trail.writes_series, Way.writes]⟩

/-- A rule that has a value was read along a trail. -/
theorem traced_rule {depth : Nat} {skip : Bool} (r : Rule) (pos : Int) :
    (Way.rule r).Traced s depth skip pos := by
  induction r generalizing pos with
  | token t =>
      intro tags value stop after h
      obtain rfl := token_tags h
      exact ⟨.leaf value, .token (replies_leaf (fun _ => token_tags) h), rfl, rfl⟩
  | ref name =>
      intro tags value stop after h
      obtain rfl := ref_tags h
      exact ⟨.leaf value, .ref (replies_leaf (fun _ => ref_tags) h), rfl, rfl⟩
  | seq items ih =>
      intro tags value stop after h
      rw [Way.task, reply?_seq] at h
      obtain ⟨trail, htrail, hvalue, hafter⟩ := traced_items ih [] pos tags value stop after h
      exact ⟨trail, .seq htrail, hvalue, hafter⟩
  | tagged tag node ih =>
      intro tags value stop after h
      rw [Way.task, reply?_tagged, bind_next_eq_some] at h
      rcases h with ⟨v, mid, inner, hnode, hdone⟩ | ⟨-, hfail⟩ | ⟨f, -, hraised⟩
      · obtain ⟨trail, htrail, rfl, rfl⟩ := ih pos [] v mid inner hnode
        obtain ⟨rfl, rfl, rfl⟩ := Reply.success.inj (Option.some.inj hdone)
        refine ⟨.tagged tag trail, .tagged htrail, rfl, ?_⟩
        rw [Trail.writes_tagged, Table.update_append, Table.update_singleton,
          ← Table.update_ofList tags trail.writes]
        rfl
      · cases hfail
      · cases hraised
  | choice alts ih =>
      intro tags value stop after h
      rw [Way.task, reply?_choice] at h
      obtain ⟨trail, htrail, hvalue, hafter⟩ := traced_alternatives ih pos tags value stop after h
      exact ⟨trail, .choice htrail, hvalue, hafter⟩
  | repetition node bounds ih =>
      intro tags value stop after h
      rw [Way.task, reply?_repetition] at h
      obtain ⟨trail, htrail, hvalue, hafter⟩ :=
        traced_rounds ih bounds [] pos tags value stop after h
      exact ⟨trail, .repetition htrail, hvalue, hafter⟩
  | unknown value =>
      intro tags value stop after h
      rw [Way.task, reply?_unknown] at h
      cases h

/-- The value of a rule is merged with the parts that its body was tagged with. -/
theorem Setting.Gives.ref {name : String} {body : Rule} (hbody : s.rules.get? name = some body)
    {pos stop : Int} {skip : Bool} {value : Value} {inner : Tags}
    (h : s.Gives ⟨body, pos, [], skip⟩ ⟨.success value stop, inner⟩) (tags : Tags) :
    s.Replies (.rule (.ref name)) pos tags skip
      (s.refReply name (value.merge inner) stop tags) := by
  obtain ⟨depth, hreply⟩ := h.replies
  exact ⟨depth + 1, by rw [reply?_ref_succ hbody, hreply]; rfl⟩

/--
**The tagged parts that a rule's value is merged with are those on the trail**, written in
the order in which they are completed. The body follows one trail only. Of the parts with
one tag the last one is found, and the tags are in the order in which they were first
written. Whoever refers to the rule keeps the parts from before.
-/
theorem tags_eq_writes {name : String} {body : Rule} (hbody : s.rules.get? name = some body)
    {pos stop : Int} {skip : Bool} {value : Value} {inner : Tags}
    (h : s.Gives ⟨body, pos, [], skip⟩ ⟨.success value stop, inner⟩) :
    ∃ trail, (∀ t q, s.Follows skip (.rule body) pos t q ↔ t = trail ∧ q = stop)
      ∧ value = trail.value
      ∧ inner = Table.ofList trail.writes
      ∧ (∀ tag, inner.get? tag = Table.get? trail.writes.reverse tag)
      ∧ inner.keys = trail.writes.keys.eraseDups
      ∧ ∀ tags, s.Replies (.rule (.ref name)) pos tags skip
          (s.refReply name (trail.value.merge (Table.ofList trail.writes)) stop tags) := by
  obtain ⟨depth, hreply⟩ := h.replies
  obtain ⟨trail, htrail, rfl, hinner⟩ := traced_rule body pos [] _ _ _ hreply
  have hofList : inner = Table.ofList trail.writes := hinner
  refine ⟨trail, fun t q => ⟨fun ht => ?_, ?_⟩, rfl, hofList, fun tag => ?_, ?_, fun tags => ?_⟩
  · exact ht.unique htrail
  · rintro ⟨rfl, rfl⟩
    exact htrail
  · rw [hofList, Table.get?_ofList]
  · rw [hofList, Table.keys_ofList]
  · exact hofList ▸ h.ref hbody tags

/-- A part is tagged, and then again with a part inside; the outer one counts. -/
def retaggedRule : Rule :=
  .seq [.tagged "a" (.seq []), .tagged "b" (.tagged "a" (.seq [.seq []]))]

def retaggedSetting : Setting :=
  ⟨[("$begin", retaggedRule)], fun _ => none, [], Fault.listCapacity⟩

theorem retagged_tags_eq_writes :
    retaggedSetting.rules.get? "$begin" = some retaggedRule
      ∧ retaggedSetting.Gives ⟨retaggedRule, 0, [], true⟩
          ⟨.success (.list [.list [], .list [.list []]]) 0,
            [("a", .list [.list []]),
              ("b", .matched (.list [.list []]) [("a", .list [.list []])])]⟩
      ∧ ∃ trail, retaggedSetting.Follows true (.rule retaggedRule) 0 trail 0
          ∧ Table.ofList trail.writes = [("a", .list [.list []]),
              ("b", .matched (.list [.list []]) [("a", .list [.list []])])] := by
  have hbody : retaggedSetting.rules.get? "$begin" = some retaggedRule := rfl
  have hgives : retaggedSetting.Gives ⟨retaggedRule, 0, [], true⟩
      ⟨.success (.list [.list [], .list [.list []]]) 0,
        [("a", .list [.list []]),
          ("b", .matched (.list [.list []]) [("a", .list [.list []])])]⟩ := ⟨0, rfl⟩
  obtain ⟨trail, hfollows, -, hwrites, -⟩ := tags_eq_writes hbody hgives
  exact ⟨hbody, hgives, trail, (hfollows trail 0).mpr ⟨rfl, rfl⟩, hwrites.symm⟩

end TextGrammar
