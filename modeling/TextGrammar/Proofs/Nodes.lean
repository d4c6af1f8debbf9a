import TextGrammar.Proofs.Endings

/-!
# The nodes of a rule

A rule is a tree. `Rule.nodes` lists its nodes, the rule itself first and then those of its
parts from left to right, which is the order in which they are written down (`Rule.nodes_eq`).
So what holds of every node (`Rule.All`) holds of the rule and of all nodes of its parts, and the
other way round (`Rule.all_iff`). `Rule.AllTokens` is about the tokens among the nodes.
-/

namespace TextGrammar

namespace Rule

/-- The rules right below a rule. -/
def parts : Rule → List Rule
  | .seq items => items
  | .choice alts => alts
  | .tagged _ node => [node]
  | .repetition node _ => [node]
  | .token _ | .ref _ | .unknown _ => []

mutual

/-- The rule and all rules inside it. -/
def nodes : Rule → List Rule
  | .token t => [.token t]
  | .ref name => [.ref name]
  | .seq items => .seq items :: nodesAll items
  | .tagged tag node => .tagged tag node :: node.nodes
  | .choice alts => .choice alts :: nodesAll alts
  | .repetition node bounds => .repetition node bounds :: node.nodes
  | .unknown value => [.unknown value]
termination_by structural r => r

def nodesAll : List Rule → List Rule
  | [] => []
  | r :: rest => r.nodes ++ nodesAll rest
termination_by structural rs => rs

end

theorem nodesAll_eq (rs : List Rule) : nodesAll rs = rs.flatMap nodes := by
  induction rs with
  | nil => rfl
  | cons r rest ih => rw [nodesAll, ih, List.flatMap_cons]

theorem nodes_eq (r : Rule) : r.nodes = r :: r.parts.flatMap nodes := by
  rw [← nodesAll_eq]
  cases r with
  | token t => rfl
  | ref name => rfl
  | seq items => rfl
  | tagged tag node => rw [nodes, parts, nodesAll, nodesAll, List.append_nil]
  | choice alts => rfl
  | repetition node bounds => rw [nodes, parts, nodesAll, nodesAll, List.append_nil]
  | unknown value => rfl

theorem mem_nodes_self (r : Rule) : r ∈ r.nodes := by
  rw [nodes_eq]
  exact List.mem_cons_self

theorem mem_nodes_of_part {r part n : Rule} (hpart : part ∈ r.parts) (h : n ∈ part.nodes) :
    n ∈ r.nodes := by
  rw [nodes_eq]
  exact List.mem_cons_of_mem _ (List.mem_flatMap.mpr ⟨part, hpart, h⟩)

/-! ## Properties of all nodes -/

/-- The property holds of the rule and of every rule inside it. -/
def All (P : Rule → Prop) (r : Rule) : Prop := ∀ n ∈ r.nodes, P n

section All

variable {P Q : Rule → Prop} {r node : Rule}

theorem All.imp (h : r.All P) (himp : ∀ n, P n → Q n) : r.All Q :=
  fun n hn => himp n (h n hn)

theorem all_iff : r.All P ↔ P r ∧ ∀ part ∈ r.parts, part.All P := by
  rw [All, nodes_eq, List.forall_mem_cons, List.forall_mem_flatMap]
  rfl

theorem all_leaf (h : r.parts = []) : r.All P ↔ P r := by
  rw [all_iff, h]
  exact and_iff_left fun _ hpart => absurd hpart List.not_mem_nil

theorem all_single (h : r.parts = [node]) : r.All P ↔ P r ∧ node.All P := by
  rw [all_iff, h, List.forall_mem_singleton]

end All

/-! ## Tokens -/

/-- Every token of the rule has the property. -/
def AllTokens (P : Token → Prop) (r : Rule) : Prop := ∀ t, .token t ∈ r.nodes → P t

section AllTokens

variable {P : Token → Prop} {r part : Rule} {t : Token}

theorem AllTokens.self (h : (Rule.token t).AllTokens P) : P t := h t (mem_nodes_self _)

theorem AllTokens.of_part (h : r.AllTokens P) (hpart : part ∈ r.parts) : part.AllTokens P :=
  fun t ht => h t (mem_nodes_of_part hpart ht)

end AllTokens

/-! ## Tags -/

/-- The tag of a tagged rule. -/
def tag? : Rule → Option String
  | .tagged tag _ => some tag
  | _ => none

/-- The tags in a rule, in the order in which they are written. -/
def tags (r : Rule) : List String := r.nodes.filterMap tag?

/-- The tag of a rule stands before those in its parts. -/
theorem tags_eq (r : Rule) : r.tags = r.tag?.toList ++ r.parts.flatMap tags := by
  have htags : (fun n : Rule => n.nodes.filterMap tag?) = tags := rfl
  rw [tags, nodes_eq, List.filterMap_cons, List.filterMap_flatMap, htags]
  cases r.tag? <;> rfl

theorem tags_single {r node : Rule} (h : r.parts = [node]) :
    r.tags = r.tag?.toList ++ node.tags := by
  rw [tags_eq, h, List.flatMap_singleton]

end Rule

/-- Every token of the rules has the property. -/
def Rules.AllTokens (P : Token → Prop) (rules : Rules) : Prop := ∀ e ∈ rules, e.2.AllTokens P

theorem Rules.AllTokens.get? {P : Token → Prop} {rules : Rules} (h : rules.AllTokens P)
    {name : String} {body : Rule} (hbody : rules.get? name = some body) : body.AllTokens P :=
  h _ (Table.mem_of_get? hbody)

end TextGrammar
