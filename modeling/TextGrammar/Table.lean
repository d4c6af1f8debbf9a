/-!
# Tables in order of insertion

A table is a list of keys with their values. Writing to a key that is present
replaces the value and leaves the key where it is; a new key goes to the end.
Keys are compared by the `BEq` instance of their type.
-/

namespace TextGrammar

/-- Keys with their values, in the order in which the keys were first written. -/
abbrev Table (κ α : Type) := List (κ × α)

namespace Table

variable {κ α : Type} [BEq κ]

def get? : Table κ α → κ → Option α
  | [], _ => none
  | (k, v) :: rest, key => if k == key then some v else get? rest key

def has (t : Table κ α) (key : κ) : Bool := (t.get? key).isSome

/-- Writes a value: in place if the key is present, at the end otherwise. -/
def insert : Table κ α → κ → α → Table κ α
  | [], key, value => [(key, value)]
  | (k, v) :: rest, key, value =>
    if k == key then (k, value) :: rest else (k, v) :: insert rest key value

def erase : Table κ α → κ → Table κ α
  | [], _ => []
  | (k, v) :: rest, key => if k == key then rest else (k, v) :: erase rest key

/-- Writes all entries of the second table to the first, in order. -/
def update (t more : Table κ α) : Table κ α := more.foldl (fun t e => t.insert e.1 e.2) t

/-- The table that results from writing the entries in order. -/
def ofList (entries : List (κ × α)) : Table κ α := update [] entries

def keys (t : Table κ α) : List κ := t.map (·.1)

@[simp] theorem get?_nil (key : κ) : get? ([] : Table κ α) key = none := rfl

@[simp] theorem update_nil (t : Table κ α) : update t [] = t := rfl

@[simp] theorem update_cons (t : Table κ α) (e : κ × α) (more : Table κ α) :
    update t (e :: more) = update (t.insert e.1 e.2) more := rfl

/-- What is found is the value of an entry under the same key. -/
theorem exists_of_get? {t : Table κ α} {key : κ} {value : α} (h : t.get? key = some value) :
    ∃ k, (k, value) ∈ t ∧ (k == key) = true := by
  induction t with
  | nil => cases h
  | cons e rest ih =>
      rw [get?] at h
      split at h
      · rename_i hkey
        cases h
        exact ⟨e.1, List.mem_cons_self, hkey⟩
      · obtain ⟨k, hmem, hk⟩ := ih h
        exact ⟨k, List.mem_cons_of_mem _ hmem, hk⟩

/-- What is found under a key is an entry of the table. -/
theorem mem_of_get? [LawfulBEq κ] {t : Table κ α} {key : κ} {value : α}
    (h : t.get? key = some value) : (key, value) ∈ t := by
  obtain ⟨k, hmem, hk⟩ := exists_of_get? h
  exact LawfulBEq.eq_of_beq hk ▸ hmem

/-- What has been written to a key is found there. -/
theorem get?_insert_self [LawfulBEq κ] (t : Table κ α) (key : κ) (value : α) :
    (t.insert key value).get? key = some value := by
  induction t with
  | nil => simp [insert, get?]
  | cons e rest ih =>
    obtain ⟨k, v⟩ := e
    by_cases h : k == key
    · simp [insert, get?, h]
    · simp [insert, get?, h, ih]

/-- Writing to one key leaves the others as they are. -/
theorem get?_insert_of_ne [LawfulBEq κ] (t : Table κ α) {key other : κ} (value : α)
    (hne : key ≠ other) : (t.insert key value).get? other = t.get? other := by
  induction t with
  | nil => simp [insert, get?, hne]
  | cons e rest ih =>
    obtain ⟨k, v⟩ := e
    by_cases h : k = key
    · subst h
      simp [insert, get?, hne]
    · simp [insert, get?, h, ih]

/-- What is added at the end is found there if the key was not there before. -/
theorem get?_concat_self [LawfulBEq κ] {t : Table κ α} {key : κ}
    (h : t.has key = false) (value : α) : get? (t ++ [(key, value)]) key = some value := by
  induction t with
  | nil => simp [get?]
  | cons e rest ih =>
      obtain ⟨k, v⟩ := e
      by_cases hk : k == key
      · simp [has, get?, hk] at h
      · rw [List.cons_append, get?, if_neg hk]
        rw [has, get?, if_neg hk] at h
        exact ih h

end Table

end TextGrammar
