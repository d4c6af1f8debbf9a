import TextGrammar.Table
import Mathlib.Data.List.Induction

/-!
# Replaying writes to a table

`Table.update` writes a list of entries to a table, one after the other. The last write to
a key is the one that counts (`get?_ofList`), the first one takes its place (`keys_ofList`).

Writes to different keys commute as soon as one of the two keys is present, because only a
new key takes a place. Two facts follow, and evaluations rest on both:

* replaying entries on a table, or replaying on it what they make of the empty table,
  is the same (`update_ofList`);
* replaying entries for a second time changes nothing (`update_update_self`).
-/

namespace TextGrammar.Table

variable {κ α : Type}

@[simp] theorem keys_nil : keys ([] : Table κ α) = [] := rfl

@[simp] theorem keys_cons (e : κ × α) (rest : Table κ α) :
    keys (e :: rest) = e.1 :: keys rest := rfl

@[simp] theorem keys_append (t more : Table κ α) : keys (t ++ more) = keys t ++ keys more :=
  List.map_append

/-- Every key is written once. -/
def Distinct (t : Table κ α) : Prop := t.keys.Nodup

/-- Of different keys, one that comes later is not among those before it. -/
theorem Distinct.not_mem_keys {t rest : Table κ α} {e : κ × α} (h : (t ++ e :: rest).Distinct) :
    e.1 ∉ t.keys := by
  rw [Distinct, keys_append, List.nodup_append] at h
  exact fun hmem => h.2.2 e.1 hmem e.1 List.mem_cons_self rfl

/-- A new key may be put after different keys. -/
theorem Distinct.concat {t : Table κ α} {key : κ} (h : t.Distinct) (value : α)
    (hnew : key ∉ t.keys) : (t ++ [(key, value)]).Distinct := by
  rw [Distinct, keys_append, List.nodup_append]
  refine ⟨h, List.pairwise_singleton _ key, fun other hother last hlast => ?_⟩
  rw [List.mem_singleton.mp hlast]
  rintro rfl
  exact hnew hother

variable [BEq κ]

@[simp] theorem update_append (t more rest : Table κ α) :
    update t (more ++ rest) = update (update t more) rest := List.foldl_append

@[simp] theorem update_singleton (t : Table κ α) (e : κ × α) :
    update t [e] = t.insert e.1 e.2 := rfl

/-- An entry that is there after a write was there before, or has the value written. -/
theorem mem_insert {t : Table κ α} {key : κ} {value : α} {e : κ × α}
    (h : e ∈ t.insert key value) : e ∈ t ∨ e.2 = value := by
  induction t with
  | nil => exact .inr (by rw [List.mem_singleton.mp h])
  | cons first rest ih =>
      obtain ⟨k, v⟩ := first
      rw [insert] at h
      split at h
      · rcases List.mem_cons.mp h with rfl | hrest
        · exact .inr rfl
        · exact .inl (List.mem_cons_of_mem _ hrest)
      · rcases List.mem_cons.mp h with rfl | hrest
        · exact .inl List.mem_cons_self
        · exact (ih hrest).imp (List.mem_cons_of_mem _) id

variable [LawfulBEq κ]

/-! ## Keys -/

theorem mem_keys_insert {t : Table κ α} {key other : κ} {value : α} :
    other ∈ (t.insert key value).keys ↔ other = key ∨ other ∈ t.keys := by
  induction t with
  | nil => simp [insert]
  | cons e rest ih =>
      obtain ⟨k, v⟩ := e
      by_cases h : k = key
      · subst h
        simp [insert]
      · simp only [insert, beq_iff_eq, h, if_false, keys_cons, List.mem_cons, ih]
        exact or_left_comm

theorem mem_keys_update {more t : Table κ α} {other : κ} :
    other ∈ (update t more).keys ↔ other ∈ t.keys ∨ other ∈ more.keys := by
  induction more generalizing t with
  | nil => simp
  | cons e rest ih =>
      rw [update_cons, ih, mem_keys_insert, keys_cons, List.mem_cons, or_assoc]
      exact or_left_comm

theorem Distinct.insert {t : Table κ α} (h : t.Distinct) (key : κ) (value : α) :
    (t.insert key value).Distinct := by
  induction t with
  | nil => simp [Distinct, Table.insert]
  | cons e rest ih =>
      obtain ⟨k, v⟩ := e
      obtain ⟨hk, hrest⟩ := List.nodup_cons.mp h
      by_cases he : k = key
      · subst he
        simpa [Distinct, Table.insert] using h
      · simp only [Table.insert, beq_iff_eq, he, if_false]
        refine List.nodup_cons.mpr ⟨fun hm => ?_, ih hrest⟩
        rcases mem_keys_insert.mp hm with h' | h'
        · exact he h'
        · exact hk h'

/-- Whatever is written, a table that was empty at first has every key once. -/
theorem distinct_ofList (entries : Table κ α) : (ofList entries).Distinct := by
  induction entries using List.reverseRecOn with
  | nil => exact List.nodup_nil
  | append_singleton rest e ih =>
      have hstep : ofList (rest ++ [e]) = (ofList rest).insert e.1 e.2 := update_append [] rest [e]
      rw [hstep]
      exact ih.insert e.1 e.2

/-! ## Which write counts, and which one takes the place -/

/-- A write to a key that is present leaves the keys as they are. -/
theorem keys_insert_of_mem {t : Table κ α} {key : κ} (value : α) (h : key ∈ t.keys) :
    (t.insert key value).keys = t.keys := by
  induction t with
  | nil => cases h
  | cons e rest ih =>
      obtain ⟨k, v⟩ := e
      by_cases hk : k = key
      · simp [insert, hk]
      · rcases List.mem_cons.mp h with rfl | hrest
        · exact absurd rfl hk
        · simp [insert, hk, ih hrest]

/-- A new key goes to the end. -/
theorem insert_of_not_mem {t : Table κ α} {key : κ} (value : α) (h : key ∉ t.keys) :
    t.insert key value = t ++ [(key, value)] := by
  induction t with
  | nil => rfl
  | cons e rest ih =>
      obtain ⟨k, v⟩ := e
      obtain ⟨hk, hrest⟩ := List.ne_and_not_mem_of_not_mem_cons h
      simp [insert, hk.symm, ih hrest]

theorem keys_insert_of_not_mem {t : Table κ α} {key : κ} (value : α) (h : key ∉ t.keys) :
    (t.insert key value).keys = t.keys ++ [key] := by
  rw [insert_of_not_mem value h, keys_append]
  rfl

/-- Entries under new and different keys are put after those that are there. -/
theorem update_eq_append {t more : Table κ α} (h : (t ++ more).Distinct) :
    update t more = t ++ more := by
  induction more generalizing t with
  | nil => exact (List.append_nil t).symm
  | cons e rest ih =>
      have hsplit : t ++ e :: rest = (t ++ [e]) ++ rest := by simp
      rw [update_cons, insert_of_not_mem e.2 h.not_mem_keys, hsplit]
      exact ih (hsplit ▸ h)

/-- The last write to a key is the one that is found. -/
theorem get?_ofList (entries : Table κ α) (key : κ) :
    (ofList entries).get? key = get? entries.reverse key := by
  induction entries using List.reverseRecOn with
  | nil => rfl
  | append_singleton rest e ih =>
      obtain ⟨k, v⟩ := e
      have hstep : ofList (rest ++ [(k, v)]) = (ofList rest).insert k v :=
        update_append [] rest [(k, v)]
      rw [hstep, List.reverse_append]
      by_cases h : k = key
      · subst h
        simp [get?_insert_self, get?]
      · simp [get?_insert_of_ne _ v h, get?, h, ih]

/-- The keys are in the order in which they were first written. -/
theorem keys_ofList (entries : Table κ α) : (ofList entries).keys = entries.keys.eraseDups := by
  induction entries using List.reverseRecOn with
  | nil => rfl
  | append_singleton rest e ih =>
      have hstep : ofList (rest ++ [e]) = (ofList rest).insert e.1 e.2 := update_append [] rest [e]
      have hmem : e.1 ∈ (ofList rest).keys ↔ e.1 ∈ keys rest := by
        rw [ih, List.mem_eraseDups]
      rw [hstep, keys_append, List.eraseDups_append]
      by_cases h : e.1 ∈ keys rest
      · rw [keys_insert_of_mem e.2 (hmem.mpr h), ih]
        simp [List.removeAll, h]
      · rw [keys_insert_of_not_mem e.2 (fun hm => h (hmem.mp hm)), ih]
        simp [List.removeAll, h, List.eraseDups_cons]

/-! ## What is there after entries were written over a table -/

theorem get?_of_not_mem {t : Table κ α} {key : κ} (h : key ∉ t.keys) : t.get? key = none := by
  cases hget : t.get? key with
  | none => rfl
  | some value => exact absurd (List.mem_map_of_mem (mem_of_get? hget)) h

/-- What was written is found, and what was there before where nothing was written. -/
theorem get?_update {more : Table κ α} (h : more.Distinct) (t : Table κ α) (key : κ) :
    (update t more).get? key = (more.get? key).or (t.get? key) := by
  induction more generalizing t with
  | nil => rfl
  | cons e rest ih =>
      obtain ⟨k, v⟩ := e
      obtain ⟨hk, hrest⟩ := List.nodup_cons.mp h
      rw [update_cons, ih hrest]
      by_cases hkey : k = key
      · subst hkey
        simp [get?_of_not_mem hk, get?_insert_self, get?]
      · simp [get?_insert_of_ne t v hkey, get?, hkey]

/-- The keys that were there keep their places, and the new ones follow them. -/
theorem keys_update {more : Table κ α} (h : more.Distinct) (t : Table κ α) :
    (update t more).keys = t.keys ++ more.keys.filter fun key => key ∉ t.keys := by
  induction more generalizing t with
  | nil => simp
  | cons e rest ih =>
      obtain ⟨k, v⟩ := e
      obtain ⟨hk, hrest⟩ := List.nodup_cons.mp h
      rw [update_cons, ih hrest, keys_cons]
      by_cases hmem : k ∈ t.keys
      · simp [keys_insert_of_mem v hmem, hmem]
      · rw [keys_insert_of_not_mem v hmem, List.append_assoc, List.filter_cons_of_pos (by simpa)]
        rw [List.singleton_append]
        congr 2
        refine List.filter_congr fun key hin => ?_
        have hne : key ≠ k := fun heq => hk (heq ▸ hin)
        simp [hne]

/-! ## The order of writes -/

/-- Of two writes to the same key the second one counts. -/
@[simp] theorem insert_insert_self (t : Table κ α) (key : κ) (v w : α) :
    (t.insert key v).insert key w = t.insert key w := by
  induction t with
  | nil => simp [insert]
  | cons e rest ih =>
      obtain ⟨k, u⟩ := e
      by_cases h : k = key
      · simp [insert, h]
      · simp [insert, h, ih]

/-- Writes to different keys commute if the second key is present. -/
theorem insert_comm {t : Table κ α} {key other : κ} (v w : α) (hne : key ≠ other)
    (hmem : other ∈ t.keys) :
    (t.insert key v).insert other w = (t.insert other w).insert key v := by
  induction t with
  | nil => cases hmem
  | cons e rest ih =>
      obtain ⟨k, u⟩ := e
      by_cases h : k = key
      · subst h
        simp [insert, hne]
      · by_cases h' : k = other
        · subst h'
          simp [insert, h]
        · have hrest : other ∈ keys rest := by
            rcases List.mem_cons.mp hmem with he | hm
            · exact absurd he.symm h'
            · exact hm
          simp [insert, h, h', ih hrest]

/-- A write may be put off until after others if its key is present and they do not write to it. -/
theorem update_insert_comm {more t : Table κ α} {key : κ} (v : α) (hmem : key ∈ t.keys)
    (hnot : key ∉ more.keys) : update (t.insert key v) more = (update t more).insert key v := by
  induction more generalizing t with
  | nil => rfl
  | cons e rest ih =>
      obtain ⟨k, w⟩ := e
      have hk : k ≠ key := fun he => hnot (he ▸ List.mem_cons_self)
      have hrest : key ∉ keys rest := fun hm => hnot (List.mem_cons_of_mem _ hm)
      rw [update_cons, update_cons]
      dsimp only
      rw [← insert_comm w v hk hmem, ih (mem_keys_insert.mpr (Or.inr hmem)) hrest]

/-- Replaying a table that one more entry was written to writes that entry last. -/
theorem update_insert {u : Table κ α} (hu : u.Distinct) (t : Table κ α) (key : κ) (v : α) :
    update t (u.insert key v) = (update t u).insert key v := by
  induction u generalizing t with
  | nil => rfl
  | cons e rest ih =>
      obtain ⟨k, w⟩ := e
      obtain ⟨hk, hrest⟩ := List.nodup_cons.mp hu
      by_cases h : k = key
      · subst h
        have hmem : k ∈ (t.insert k w).keys := mem_keys_insert.mpr (Or.inl rfl)
        have hput := update_insert_comm v hmem hk
        rw [insert_insert_self] at hput
        simpa [insert] using hput
      · simp [insert, h, ih hrest]

/-- Entries may be collected in an empty table first. -/
theorem update_ofList (t entries : Table κ α) : update t (ofList entries) = update t entries := by
  induction entries using List.reverseRecOn with
  | nil => rfl
  | append_singleton rest e ih =>
      have hstep : ofList (rest ++ [e]) = (ofList rest).insert e.1 e.2 := update_append [] rest [e]
      rw [hstep, update_insert (distinct_ofList rest), ih, update_append, update_singleton]

/-- An earlier write is lost if the same key is written again and all keys in between are present. -/
theorem insert_update_insert {more t : Table κ α} (key : κ) (v w : α)
    (hmem : ∀ k ∈ more.keys, k ∈ t.keys) :
    (update (t.insert key v) more).insert key w = (update t more).insert key w := by
  induction more generalizing t with
  | nil => simp
  | cons e rest ih =>
      obtain ⟨k, u⟩ := e
      have hk : k ∈ t.keys := hmem k List.mem_cons_self
      have hrest : ∀ k' ∈ keys rest, k' ∈ (t.insert k u).keys := fun k' h =>
        mem_keys_insert.mpr (Or.inr (hmem k' (List.mem_cons_of_mem _ h)))
      rw [update_cons, update_cons]
      dsimp only
      by_cases h : k = key
      · subst h
        simp
      · rw [insert_comm v u (fun he => h he.symm) hk, ih hrest]

/-- Replaying entries for a second time changes nothing. -/
theorem update_update_self (t entries : Table κ α) :
    update (update t entries) entries = update t entries := by
  induction entries using List.reverseRecOn with
  | nil => rfl
  | append_singleton rest e ih =>
      have hmem : ∀ k ∈ keys rest, k ∈ (update t rest).keys := fun k h =>
        mem_keys_update.mpr (Or.inr h)
      calc update (update t (rest ++ [e])) (rest ++ [e])
          = (update ((update t rest).insert e.1 e.2) rest).insert e.1 e.2 := by simp
        _ = (update (update t rest) rest).insert e.1 e.2 := insert_update_insert _ _ _ hmem
        _ = (update t rest).insert e.1 e.2 := by rw [ih]
        _ = update t (rest ++ [e]) := by simp

end TextGrammar.Table
