import TextGrammar.Text.Case
import TextGrammar.Text.Word
import TextGrammar.Text.Blank

/-!
# Patterns

The syntax tree of a pattern. Flags leave no trace in it except inside the leaves:
each set of characters knows how it treats case, each anchor which line breaks it
respects. `Pattern` takes the type of its back-references as a parameter: a pattern
that has just been read refers to groups as they are written, and a pattern that is
ready to match refers to them by number.
-/

namespace TextGrammar

/-- How characters are compared. -/
inductive CaseRule where
  /-- Only equal characters agree. -/
  | exact
  /-- Case is ignored in all scripts. -/
  | folded
  /-- Case is ignored among ASCII letters. -/
  | asciiFolded
  deriving DecidableEq, Repr

/-- The code points that agree with a given one. -/
def CaseRule.variants : CaseRule → Nat → List Nat
  | .exact, n => [n]
  | .folded, n => caseVariants n
  | .asciiFolded, n => asciiCaseVariants n

inductive CharClass where
  | digit
  | word
  | space
  deriving DecidableEq, Repr

/-- Membership in a class; `ascii` leaves only its ASCII members. -/
def CharClass.has (cls : CharClass) (ascii : Bool) (n : Nat) : Bool :=
  let c := Char.ofNat n
  (!ascii || n < 0x80) &&
    match cls with
    | .digit => isDecimal c
    | .word => isWord c
    | .space => isWhiteSpace c

inductive SetItem where
  /-- The code points from one to another, both included. -/
  | range (low high : Nat)
  /-- The members of a class, or all others. -/
  | cls (name : CharClass) (ascii negated : Bool)
  deriving DecidableEq, Repr

/-- Whether the code point belongs to the item. -/
def SetItem.has : SetItem → Nat → Bool
  | .range low high, n => low ≤ n && n ≤ high
  | .cls name ascii negated, n => name.has ascii n != negated

structure CharSet where
  items : List SetItem
  negated : Bool
  rule : CaseRule
  deriving DecidableEq, Repr

/-- A character is in the set if a variant of it is; a negated set has all the others. -/
def CharSet.has (s : CharSet) (c : Char) : Bool :=
  ((s.rule.variants c.toNat).any fun n => s.items.any (·.has n)) != s.negated

def CharSet.single (n : Nat) (rule : CaseRule) : CharSet := ⟨[.range n n], false, rule⟩

inductive Anchor where
  | textStart
  | textEnd
  /-- The end of the text, or the line feed that ends it. -/
  | lastLineEnd
  | lineStart
  | lineEnd
  | wordEdge (ascii : Bool)
  | noWordEdge (ascii : Bool)
  deriving DecidableEq, Repr

/-- In which order numbers of repetitions are tried. -/
inductive RepeatMode where
  | greedy
  | reluctant
  /-- The greedy choice is final. -/
  | possessive
  deriving DecidableEq, Repr

/-- A pattern whose back-references are of type `ρ`. -/
inductive Pattern (ρ : Type) where
  | empty
  | one (set : CharSet)
  | anchor (place : Anchor)
  | seq (first second : Pattern ρ)
  | either (first second : Pattern ρ)
  | times (body : Pattern ρ) (min : Nat) (max : Option Nat) (mode : RepeatMode)
  | group (index : Nat) (body : Pattern ρ)
  | sameAs (target : ρ) (rule : CaseRule)
  | look (ahead positive : Bool) (body : Pattern ρ)
  | atomic (body : Pattern ρ)
  /-- What has been taken so far does not count as part of the match. -/
  | keep
  deriving DecidableEq, Repr

/-- The pattern that matches its parts one after the other. -/
def Pattern.ofList {ρ : Type} (parts : List (Pattern ρ)) : Pattern ρ := parts.foldr .seq .empty

/-- The pattern that tries its branches in order; there is at least one. -/
def Pattern.branches {ρ : Type} : Pattern ρ → List (Pattern ρ) → Pattern ρ
  | first, [] => first
  | first, second :: rest => .either first (Pattern.branches second rest)

def Pattern.literal {ρ : Type} (n : Nat) (rule : CaseRule) : Pattern ρ := .one (.single n rule)

/-- Replaces each back-reference, from left to right. -/
def Pattern.mapRefs {ρ σ ε : Type} (f : ρ → Except ε σ) : Pattern ρ → Except ε (Pattern σ)
  | .empty => .ok .empty
  | .one set => .ok (.one set)
  | .anchor place => .ok (.anchor place)
  | .seq a b => do return .seq (← a.mapRefs f) (← b.mapRefs f)
  | .either a b => do return .either (← a.mapRefs f) (← b.mapRefs f)
  | .times p min max mode => do return .times (← p.mapRefs f) min max mode
  | .group i p => do return .group i (← p.mapRefs f)
  | .sameAs target rule => do return .sameAs (← f target) rule
  | .look ahead positive p => do return .look ahead positive (← p.mapRefs f)
  | .atomic p => do return .atomic (← p.mapRefs f)
  | .keep => .ok .keep

end TextGrammar
