import TextGrammar.Proofs.Coercion
import Mathlib.Tactic.FinCases

/-!
# Flawed declarations

Coercion looks at a declaration from the outside in and from left to right. The places that it may
come to are listed in that order by `Declaration.places`: the declaration itself, then the places
of its parts. A dictionary with one entry has that entry for a part; one with more entries or
without any has no parts, so nothing inside it is ever looked at.

What can be wrong at a place does not depend on what is around it (`Declaration.Flaw`). So coercion
fails exactly if there is a flaw at some place, and with the fault of the first one
(`coerce_fails_at_first_flaw`).
-/

namespace TextGrammar

/-! ## Computations that fail -/

/-- The fault of a computation that fails. -/
def faultOf {α : Type} : Except Fault α → Option Fault
  | .ok _ => none
  | .error f => some f

section FaultOf

variable {α β : Type}

theorem faultOf_eq_some_iff {x : Except Fault α} {f : Fault} : faultOf x = some f ↔ x = .error f := by
  cases x <;> simp [faultOf]

theorem faultOf_bind (x : Except Fault α) (g : α → Except Fault β) (last : Option Fault)
    (h : ∀ a, faultOf (g a) = last) : faultOf (x >>= g) = (faultOf x).or last := by
  cases x with
  | ok a => exact h a
  | error f => rfl

/-- What is done with a result, if it cannot fail, does not change what fails. -/
theorem faultOf_map (x : Except Fault α) (g : α → β) :
    faultOf (do return g (← x)) = faultOf x := by
  cases x <;> rfl

end FaultOf

/-- What is first found below the parts is first found among all places below them. -/
theorem findSome?_flatMap {α β γ : Type} {g : α → Option γ} {below : α → List β}
    {p : β → Option γ} {as : List α} (h : ∀ a ∈ as, g a = (below a).findSome? p) :
    as.findSome? g = (as.flatMap below).findSome? p := by
  induction as with
  | nil => rfl
  | cons a rest ih =>
      obtain ⟨ha, hrest⟩ := List.forall_mem_cons.mp h
      rw [List.findSome?_cons, List.flatMap_cons, List.findSome?_append, ← ih hrest, ha]
      cases (below a).findSome? p <;> rfl

namespace Declaration

/-! ## Places -/

/-- The declarations right below one that may be a rule. -/
def parts : Declaration → List Declaration
  | .list items | .tuple items | .seq items | .choice items => items
  | .dict [(_, d)] => [d]
  | .tagged _ node => [node]
  | .repetition node _ => [node]
  | _ => []

/-- The second declaration is the first one or lies inside it, at whatever depth. -/
inductive Reaches : Declaration → Declaration → Prop where
  | here {d : Declaration} : Reaches d d
  | inside {d part place : Declaration} : part ∈ d.parts → Reaches part place → Reaches d place

mutual

/-- The declaration and all that it reaches, from the outside in and from left to right. -/
def places : Declaration → List Declaration
  | .null => [.null]
  | .bool b => [.bool b]
  | .int n => [.int n]
  | .text s => [.text s]
  | .pattern p => [.pattern p]
  | .list items => .list items :: placesAll items
  | .tuple items => .tuple items :: placesAll items
  | .dict entries => .dict entries :: placesTagged entries
  | .token t => [.token t]
  | .ref name => [.ref name]
  | .seq items => .seq items :: placesAll items
  | .tagged tag node => .tagged tag node :: node.places
  | .choice alts => .choice alts :: placesAll alts
  | .repetition node bounds => .repetition node bounds :: node.places
termination_by structural d => d

def placesAll : List Declaration → List Declaration
  | [] => []
  | d :: rest => d.places ++ placesAll rest
termination_by structural ds => ds

/-- The places below a dictionary. -/
def placesTagged : List (Key × Declaration) → List Declaration
  | [] => []
  | (_, d) :: rest =>
    match rest with
    | [] => d.places
    | _ => []
termination_by structural es => es

end

theorem placesAll_eq (ds : List Declaration) : placesAll ds = ds.flatMap places := by
  induction ds with
  | nil => rfl
  | cons d rest ih => rw [placesAll, ih, List.flatMap_cons]

theorem places_eq (d : Declaration) : d.places = d :: d.parts.flatMap places := by
  cases d with
  | list items => rw [places, parts, placesAll_eq]
  | tuple items => rw [places, parts, placesAll_eq]
  | seq items => rw [places, parts, placesAll_eq]
  | choice alts => rw [places, parts, placesAll_eq]
  | dict entries =>
      rcases entries with _ | ⟨⟨k, d⟩, _ | ⟨second, rest⟩⟩
      · rfl
      · rw [parts, List.flatMap_singleton]
        rfl
      · rfl
  | tagged tag node => rw [places, parts, List.flatMap_singleton]
  | repetition node bounds => rw [places, parts, List.flatMap_singleton]
  | null | bool | int | text | pattern | token | ref => rfl

/-- What holds of a declaration if it holds of the parts right below holds of every declaration. -/
theorem induct_parts {motive : Declaration → Prop}
    (step : ∀ d, (∀ part ∈ d.parts, motive part) → motive d) (d : Declaration) : motive d := by
  induction d with
  | list items ih => exact step _ ih
  | tuple items ih => exact step _ ih
  | seq items ih => exact step _ ih
  | choice alts ih => exact step _ ih
  | dict entries ih =>
      refine step _ fun part hpart => ?_
      match entries, ih, hpart with
      | [(k, d)], ih, hpart =>
          rw [List.mem_singleton.mp hpart]
          exact ih (k, d) List.mem_cons_self
  | tagged tag node ih => exact step _ (List.forall_mem_singleton.mpr ih)
  | repetition node bounds ih => exact step _ (List.forall_mem_singleton.mpr ih)
  | null | bool | int | text | pattern | token | ref =>
      exact step _ fun _ hpart => absurd hpart List.not_mem_nil

/-- The places are what the declaration reaches. -/
theorem mem_places_iff {d place : Declaration} : place ∈ d.places ↔ d.Reaches place := by
  constructor
  · intro h
    induction d using induct_parts with
    | step d ih =>
        rw [places_eq] at h
        rcases List.mem_cons.mp h with rfl | h
        · exact .here
        · obtain ⟨part, hpart, hplace⟩ := List.mem_flatMap.mp h
          exact .inside hpart (ih part hpart hplace)
  · intro h
    induction h with
    | here =>
        rw [places_eq]
        exact List.mem_cons_self
    | inside hpart _ ih =>
        rw [places_eq]
        exact List.mem_cons_of_mem _ (List.mem_flatMap.mpr ⟨_, hpart, ih⟩)

/-! ## Flaws -/

/-- Whether the value is a form of a rule, whatever there is below it. -/
def IsForm : Declaration → Prop
  | .null | .bool _ | .int _ => False
  | _ => True

variable [PatternEngine]

/-- What is wrong at a place, no matter what is above or below it. -/
inductive Flaw : Declaration → Fault → Prop where
  /-- The value is no form of a rule. -/
  | noForm {d : Declaration} : ¬d.IsForm → Flaw d (.rule (.unusable d.typeName d.shown))
  /-- There is no tag in the dictionary, or there are several. -/
  | tagCount {entries : List (Key × Declaration)} :
      entries.length ≠ 1 →
      Flaw (.dict entries) (.rule (.tagCount (shownList (entries.map fun e => e.1.shown))))
  /-- The pattern cannot be compiled again with the flags that it reports. -/
  | pattern {p : Precompiled} {e : PatternFault} :
      PatternEngine.compile p.source.toList p.flags.bits = .error e →
      Flaw (.pattern p) (.ofPattern p.source.toList e)

/-- The flaw at a place, if there is one. -/
def flaw? : Declaration → Option Fault
  | .null => some (.rule (.unusable "NoneType" "None"))
  | .bool b => some (.rule (.unusable "bool" (shownBool b)))
  | .int n => some (.rule (.unusable "int" (toString n)))
  | .pattern p => faultOf (Token.make p.source p.flags)
  | .dict entries =>
    if entries.length = 1 then none
    else some (.rule (.tagCount (shownList (entries.map fun e => e.1.shown))))
  | _ => none

theorem flaw?_eq_some_iff {d : Declaration} {f : Fault} : d.flaw? = some f ↔ d.Flaw f := by
  constructor
  · intro h
    cases d with
    | null =>
        cases h
        exact .noForm id
    | bool b =>
        cases h
        exact .noForm id
    | int n =>
        cases h
        exact .noForm id
    | pattern p =>
        obtain ⟨e, hcompile, rfl⟩ := Token.make_eq_error_iff.mp (faultOf_eq_some_iff.mp h)
        exact .pattern hcompile
    | dict entries =>
        rw [flaw?] at h
        split at h
        · cases h
        · rename_i hlength
          cases h
          exact .tagCount hlength
    | text | list | tuple | token | ref | seq | tagged | choice | repetition => cases h
  · intro h
    cases h with
    | noForm hform =>
        cases d with
        | null | bool | int => rfl
        | text | pattern | list | tuple | dict | token | ref | seq | tagged | choice
          | repetition => exact absurd trivial hform
    | tagCount hlength => rw [flaw?, if_neg hlength]
    | pattern hcompile =>
        exact faultOf_eq_some_iff.mpr (Token.make_eq_error_iff.mpr ⟨_, hcompile, rfl⟩)

theorem flaw?_eq_none_iff {d : Declaration} : d.flaw? = none ↔ ∀ f, ¬d.Flaw f := by
  rw [Option.eq_none_iff_forall_ne_some]
  exact forall_congr' fun f => not_congr flaw?_eq_some_iff

/-! ## What coercion fails with -/

theorem faultOf_coerceAll (ds : List Declaration) :
    faultOf (coerceAll ds) = ds.findSome? fun d => faultOf d.coerce := by
  induction ds with
  | nil => rfl
  | cons d rest ih =>
      rw [coerceAll, faultOf_bind _ _ _ fun r => (faultOf_map (coerceAll rest) (r :: ·)).trans ih,
        List.findSome?_cons]
      cases faultOf d.coerce <;> rfl

/-- Coercion fails with the flaw of the declaration itself, or else as it does for its parts. -/
theorem faultOf_coerce (d : Declaration) :
    faultOf d.coerce = d.flaw?.or (d.parts.findSome? fun part => faultOf part.coerce) := by
  cases d with
  | null | bool | int | text | token | ref => rfl
  | pattern p =>
      have hparts : (Declaration.pattern p).parts = [] := rfl
      rw [coerce, faultOf_map, hparts, List.findSome?_nil, Option.or_none]
      rfl
  | list items => rw [coerce, faultOf_map, faultOf_coerceAll]; rfl
  | tuple items => rw [coerce, faultOf_map, faultOf_coerceAll]; rfl
  | seq items => rw [coerce, faultOf_map, faultOf_coerceAll]; rfl
  | choice alts => rw [coerce, faultOf_map, faultOf_coerceAll]; rfl
  | dict entries =>
      rcases entries with _ | ⟨⟨k, d⟩, _ | ⟨second, rest⟩⟩
      · rfl
      · rw [coerce, coerceTagged, faultOf_map, parts, List.findSome?_singleton]
        rfl
      · rfl
  | tagged tag node => rw [coerce, faultOf_map, parts, List.findSome?_singleton]; rfl
  | repetition node bounds => rw [coerce, faultOf_map, parts, List.findSome?_singleton]; rfl

/-- **Coercion fails with the first flaw among the places.** -/
theorem faultOf_coerce_eq (d : Declaration) : faultOf d.coerce = d.places.findSome? flaw? := by
  induction d using induct_parts with
  | step d ih =>
      rw [faultOf_coerce, findSome?_flatMap ih, places_eq, List.findSome?_cons]
      cases d.flaw? <;> rfl

end Declaration

/-- A dictionary with two entries, the first of which is no rule, and a truth value behind it. -/
def flawedDeclaration : Declaration :=
  .list [.text "a",
    .tagged "t" (.tuple [.ref "b", .dict [(.text "u", .null), (.int 1, .text "c")]]), .bool true]

end TextGrammar
