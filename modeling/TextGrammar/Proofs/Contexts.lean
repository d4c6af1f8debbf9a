import TextGrammar.Proofs.Comparison

/-!
# Places in a rule

`Rule.Context` is a rule with one place left open, so `place.fill r` is a rule in which `r` occurs,
at that place. If two evaluators agree on what is put there and on the rules that stand beside the
way to it, they agree on the whole (`Agree.fill`).
-/

namespace TextGrammar

/-- A rule with one place left open. -/
inductive Rule.Context where
  | here
  | seq (before : List Rule) (inner : Context) (after : List Rule)
  | tagged (tag : String) (inner : Context)
  | choice (before : List Rule) (inner : Context) (after : List Rule)
  | repetition (inner : Context) (bounds : Bounds)

namespace Rule.Context

/-- The rule with another one put into the open place. -/
def fill : Context → Rule → Rule
  | .here, r => r
  | .seq before inner after, r => .seq (before ++ inner.fill r :: after)
  | .tagged tag inner, r => .tagged tag (inner.fill r)
  | .choice before inner after, r => .choice (before ++ inner.fill r :: after)
  | .repetition inner bounds, r => .repetition (inner.fill r) bounds

/-- The rules that stand beside the way to the open place. -/
def beside : Context → List Rule
  | .here => []
  | .seq before inner after => before ++ after ++ inner.beside
  | .tagged _ inner => inner.beside
  | .choice before inner after => before ++ after ++ inner.beside
  | .repetition inner _ => inner.beside

/-- What is put into a place is part of the rule. -/
theorem mem_nodes_fill (place : Context) {r n : Rule} (h : n ∈ r.nodes) :
    n ∈ (place.fill r).nodes := by
  induction place with
  | here => exact h
  | seq before inner after ih | choice before inner after ih =>
      exact mem_nodes_of_part (List.mem_append_right _ List.mem_cons_self) ih
  | tagged _ inner ih | repetition inner _ ih =>
      exact mem_nodes_of_part List.mem_cons_self ih

/-- The rules beside a place are parts of the rule. -/
theorem mem_nodes_of_beside {place : Context} {r side n : Rule} (hside : side ∈ place.beside)
    (h : n ∈ side.nodes) : n ∈ (place.fill r).nodes := by
  induction place with
  | here => cases hside
  | seq before inner after ih | choice before inner after ih =>
      rcases List.mem_append.mp hside with hside | hside
      · rcases List.mem_append.mp hside with hmem | hmem
        · exact mem_nodes_of_part (List.mem_append_left _ hmem) h
        · exact mem_nodes_of_part (List.mem_append_right _ (List.mem_cons_of_mem _ hmem)) h
      · exact mem_nodes_of_part (List.mem_append_right _ List.mem_cons_self) (ih hside)
  | tagged _ inner ih | repetition inner _ ih =>
      exact mem_nodes_of_part List.mem_cons_self (ih hside)

end Rule.Context

variable {C : Run.Comparison} {A : Alignment} {x y : Evaluator} {skip : Bool}

/-- Evaluators that agree on what is put into a place and beside it agree on the whole. -/
theorem Agree.fill {place : Rule.Context} {r r' : Rule} (h : Agree C A x y skip r r')
    (hcapacity : x.setting.capacity = y.setting.capacity)
    (hbeside : ∀ side ∈ place.beside, Agree C A x y skip side side) :
    Agree C A x y skip (place.fill r) (place.fill r') := by
  have hlist : ∀ {before after : List Rule} {a a' : Rule}, Agree C A x y skip a a' →
      (∀ side ∈ before ++ after, Agree C A x y skip side side) →
      List.Forall₂ (Agree C A x y skip) (before ++ a :: after) (before ++ a' :: after) := by
    intro before after a a' ha hsides
    have hbefore := fun side hside => hsides side (List.mem_append_left after hside)
    have hafter := fun side hside => hsides side (List.mem_append_right before hside)
    exact List.rel_append (List.forall₂_same.mpr hbefore)
      (.cons ha (List.forall₂_same.mpr hafter))
  induction place with
  | here => exact h
  | seq before inner after ih =>
      refine .seq (hlist (ih fun side hside => ?_) fun side hside => ?_)
      · exact hbeside side (List.mem_append_right _ hside)
      · exact hbeside side (List.mem_append_left _ hside)
  | tagged tag inner ih => exact .tagged (ih hbeside) tag
  | choice before inner after ih =>
      refine .choice (hlist (ih fun side hside => ?_) fun side hside => ?_)
      · exact hbeside side (List.mem_append_right _ hside)
      · exact hbeside side (List.mem_append_left _ hside)
  | repetition inner bounds ih => exact .repetition (ih hbeside) hcapacity bounds

end TextGrammar
