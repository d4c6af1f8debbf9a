import TextGrammar.Evaluation.Event

/-!
# Runs

A run records events and then ends in one of three ways: with a result, with a fault
that an action raised, or not at all. The events before a fault stay recorded.
-/

namespace TextGrammar

/-- How a run ends. -/
inductive Ending (α : Type) where
  | done (result : α)
  | raised (f : Fault)
  /-- The evaluation goes ever deeper without taking anything. -/
  | runaway

/-- Events and how they end. -/
structure Run (α : Type) where
  events : List Event
  ending : Ending α

namespace Run

def result {α : Type} (a : α) : Run α := ⟨[], .done a⟩

/-- A run and then, if it has a result, another. -/
def andThen {α β : Type} (x : Run α) (f : α → Run β) : Run β :=
  match x.ending with
  | .done a =>
    let y := f a
    ⟨x.events ++ y.events, y.ending⟩
  | .raised e => ⟨x.events, .raised e⟩
  | .runaway => ⟨x.events, .runaway⟩

instance : Monad Run where
  pure := result
  bind := andThen

def emit (e : Event) : Run Unit := ⟨[e], .done ()⟩

def raise {α : Type} (f : Fault) : Run α := ⟨[], .raised f⟩

def diverge {α : Type} : Run α := ⟨[], .runaway⟩

def ofExcept {α : Type} : Except Fault α → Run α
  | .ok a => result a
  | .error f => raise f

@[simp] theorem pure_eq {α : Type} (a : α) : (pure a : Run α) = ⟨[], .done a⟩ := rfl

@[simp] theorem bind_done {α β : Type} (es : List Event) (a : α) (f : α → Run β) :
    (⟨es, .done a⟩ : Run α) >>= f = ⟨es ++ (f a).events, (f a).ending⟩ := rfl

@[simp] theorem bind_raised {α β : Type} (es : List Event) (e : Fault) (f : α → Run β) :
    (⟨es, .raised e⟩ : Run α) >>= f = ⟨es, .raised e⟩ := rfl

@[simp] theorem bind_runaway {α β : Type} (es : List Event) (f : α → Run β) :
    (⟨es, .runaway⟩ : Run α) >>= f = ⟨es, .runaway⟩ := rfl

theorem id_map_run {α : Type} (x : Run α) : id <$> x = x := by
  obtain ⟨es, e⟩ := x
  cases e <;> simp [Functor.map, andThen, result]

theorem pure_bind_run {α β : Type} (a : α) (f : α → Run β) : pure a >>= f = f a := rfl

theorem bind_assoc_run {α β γ : Type} (x : Run α) (f : α → Run β) (g : β → Run γ) :
    x >>= f >>= g = x >>= fun a => f a >>= g := by
  obtain ⟨es, e⟩ := x
  cases e with
  | done a =>
    simp only [bind_done]
    cases h : f a with
    | mk es' e' => cases e' <;> simp
  | raised e => rfl
  | runaway => rfl

instance : LawfulMonad Run :=
  LawfulMonad.mk' Run id_map_run pure_bind_run bind_assoc_run

end Run

end TextGrammar
