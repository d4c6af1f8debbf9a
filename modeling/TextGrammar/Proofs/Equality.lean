import TextGrammar.Proofs.Replay
import TextGrammar.Value.Equal
import Mathlib.Data.List.Forall2
import Mathlib.Data.List.Perm.Subperm

/-!
# Equality of values is an equivalence

Equality compares dictionaries and tagged parts as finite maps, counts truth values as numbers, and
goes down into lists, dictionaries and matched values. It is reflexive, symmetric and transitive,
sets matched values apart from all others, and does not see the order of tags, however deep they are
(`same_equivalence`).

What is needed of a value is that no key is there twice in any map inside it (`Value.Proper`). Keys
are the same if they stand for the same (`Key.standard`), which a truth value and its number do.

One lemma for each kind of value says what is equal to it, and the rest is by induction on proper
values. For maps it rests on three facts about finding the entries of one table in another one: this
goes on from table to table (`Table.Covers.trans`), it holds where every entry has its counterpart
(`Table.Covers.of_mem`), and it turns round between tables of the same length
(`Table.Covers.symm`). The last one is where distinct keys count: as many keys as there are in the
other table leave none of them out.
-/

namespace TextGrammar

/-! ## Entries of one table found in another -/

namespace Table

variable {κ γ α : Type} [BEq κ]

/-- Every entry has one under the same key in the other table, with a related value. -/
def Covers (R : α → α → Prop) (t u : Table κ α) : Prop :=
  ∀ e ∈ t, ∃ w, u.get? e.1 = some w ∧ R e.2 w

variable {R S : α → α → Prop} {t u : Table κ α}

section Standing

-- keys are the same if they stand for the same
variable {code : κ → γ} (hcode : ∀ a b : κ, (a == b) = true ↔ code a = code b)
include hcode

theorem get?_congr (t : Table κ α) {key other : κ} (h : code key = code other) :
    t.get? key = t.get? other := by
  induction t with
  | nil => rfl
  | cons e rest ih =>
      have hsame : (e.1 == key) = (e.1 == other) := by
        rw [Bool.eq_iff_iff, hcode, hcode, h]
      rw [get?, get?, hsame, ih]

/-- Where no key is there twice, every entry is found. -/
theorem get?_of_mem (hdistinct : (t.keys.map code).Nodup) {e : κ × α} (h : e ∈ t) :
    t.get? e.1 = some e.2 := by
  induction t with
  | nil => cases h
  | cons first rest ih =>
      obtain ⟨hnew, hrest⟩ := List.nodup_cons.mp hdistinct
      rcases List.mem_cons.mp h with rfl | hmem
      · rw [get?, if_pos ((hcode _ _).mpr rfl)]
      · have hne : ¬(first.1 == e.1) = true := by
          rw [hcode]
          intro hsame
          exact hnew (hsame ▸ List.mem_map_of_mem (List.mem_map_of_mem hmem))
        rw [get?, if_neg hne, ih hrest hmem]

theorem Covers.of_mem (hdistinct : (u.keys.map code).Nodup)
    (h : ∀ e ∈ t, ∃ w, (e.1, w) ∈ u ∧ R e.2 w) : Covers R t u := by
  intro e he
  obtain ⟨w, hmem, hw⟩ := h e he
  exact ⟨w, get?_of_mem hcode hdistinct hmem, hw⟩

theorem Covers.refl (hdistinct : (t.keys.map code).Nodup) (hrefl : ∀ e ∈ t, R e.2 e.2) :
    Covers R t t := .of_mem hcode hdistinct fun e he => ⟨e.2, he, hrefl e he⟩

theorem Covers.trans {x : Table κ α} (htrans : ∀ e ∈ t, ∀ v w, R e.2 v → R v w → R e.2 w)
    (h : Covers R t u) (h' : Covers R u x) : Covers R t x := by
  intro e he
  obtain ⟨v, hv, hev⟩ := h e he
  obtain ⟨k, hmem, hk⟩ := exists_of_get? hv
  obtain ⟨w, hw, hvw⟩ := h' (k, v) hmem
  exact ⟨w, (get?_congr hcode x ((hcode _ _).mp hk)).symm.trans hw, htrans e he v w hev hvw⟩

/-- As many different keys as there are in the other table leave none of them out. -/
theorem Covers.keys_perm (hdistinct : (t.keys.map code).Nodup) (hlength : t.length = u.length)
    (h : Covers R t u) : (t.keys.map code).Perm (u.keys.map code) := by
  have hsubset : t.keys.map code ⊆ u.keys.map code := by
    intro c hc
    obtain ⟨key, hkey, rfl⟩ := List.mem_map.mp hc
    obtain ⟨e, he, rfl⟩ := List.mem_map.mp hkey
    obtain ⟨w, hw, -⟩ := h e he
    obtain ⟨k, hmem, hk⟩ := exists_of_get? hw
    exact (hcode _ _).mp hk ▸ List.mem_map_of_mem (List.mem_map_of_mem hmem)
  exact (List.subperm_of_subset hdistinct hsubset).perm_of_length_le (by simp [keys, hlength])

theorem Covers.symm (ht : (t.keys.map code).Nodup) (hu : (u.keys.map code).Nodup)
    (hlength : t.length = u.length) (hsymm : ∀ e ∈ t, ∀ e' ∈ u, R e.2 e'.2 → S e'.2 e.2)
    (h : Covers R t u) : Covers S u t := by
  intro e he
  have hcovered : code e.1 ∈ t.keys.map code :=
    (h.keys_perm hcode ht hlength).mem_iff.mpr (List.mem_map_of_mem (List.mem_map_of_mem he))
  obtain ⟨key, hkey, hsame⟩ := List.mem_map.mp hcovered
  obtain ⟨first, hfirst, rfl⟩ := List.mem_map.mp hkey
  obtain ⟨w, hw, hrelated⟩ := h first hfirst
  -- the only entry of the other table under this key is the one at hand
  have hvalue : w = e.2 := by
    rw [get?_congr hcode u hsame, get?_of_mem hcode hu he] at hw
    exact (Option.some.inj hw).symm
  refine ⟨first.2, ?_, hsymm first hfirst e he (hvalue ▸ hrelated)⟩
  rw [← get?_congr hcode t hsame, get?_of_mem hcode ht hfirst]

/-- Another value under one of the keys. -/
theorem Covers.of_replaced {before after : Table κ α} {key : κ} {v w : α}
    (hdistinct : ((keys (before ++ (key, w) :: after)).map code).Nodup) (hvw : R v w)
    (hrefl : ∀ e ∈ before ++ (key, v) :: after, R e.2 e.2) :
    Covers R (before ++ (key, v) :: after) (before ++ (key, w) :: after) := by
  refine .of_mem hcode hdistinct fun e he => ?_
  have hself := hrefl e he
  rcases List.mem_append.mp he with hbefore | hrest
  · exact ⟨e.2, List.mem_append_left _ hbefore, hself⟩
  · rcases List.mem_cons.mp hrest with rfl | hafter
    · exact ⟨w, List.mem_append_right _ List.mem_cons_self, hvw⟩
    · exact ⟨e.2, List.mem_append_right _ (List.mem_cons_of_mem _ hafter), hself⟩

end Standing

section Lawful

variable [LawfulBEq κ]

/-- Here keys stand for themselves. -/
theorem beq_iff_id (a b : κ) : (a == b) = true ↔ id a = id b := beq_iff_eq

omit [BEq κ] [LawfulBEq κ] in
theorem Distinct.standing (h : t.Distinct) : (t.keys.map id).Nodup := by
  rwa [List.map_id]

theorem get?_eq_some_iff (ht : t.Distinct) {key : κ} {value : α} :
    t.get? key = some value ↔ (key, value) ∈ t :=
  ⟨mem_of_get?, fun h => get?_of_mem beq_iff_id ht.standing h⟩

/-- Two tables of the same length that cover each other have the same keys, and related values
under each of them. -/
theorem covers_iff (ht : t.Distinct) (hu : u.Distinct) :
    t.length = u.length ∧ Covers R t u ↔ (∀ key, key ∈ t.keys ↔ key ∈ u.keys)
      ∧ ∀ key v w, t.get? key = some v → u.get? key = some w → R v w := by
  constructor
  · rintro ⟨hlength, h⟩
    have hperm := h.keys_perm beq_iff_id ht.standing hlength
    rw [List.map_id, List.map_id] at hperm
    refine ⟨fun key => hperm.mem_iff, fun key v w hv hw => ?_⟩
    obtain ⟨w', hw', hrelated⟩ := h (key, v) (mem_of_get? hv)
    rwa [Option.some.inj (hw.symm.trans hw')]
  · rintro ⟨hkeys, h⟩
    have hlength := ((List.perm_ext_iff_of_nodup ht hu).mpr hkeys).length_eq
    refine ⟨by simpa [keys] using hlength, fun e he => ?_⟩
    obtain ⟨e', he', hsame⟩ := List.mem_map.mp ((hkeys e.1).mp (List.mem_map_of_mem he))
    have hfound : u.get? e.1 = some e'.2 := (get?_eq_some_iff hu).mpr (hsame ▸ he')
    exact ⟨e'.2, hfound, h e.1 e.2 e'.2 ((get?_eq_some_iff ht).mpr he) hfound⟩

end Lawful

end Table

/-! ## Keys -/

/-- The key as which a key counts: a number for a truth value. -/
def Key.standard : Key → Key
  | .bool b => .int (if b then 1 else 0)
  | key => key

theorem Key.beq_iff (a b : Key) : (a == b) = true ↔ a.standard = b.standard := by
  change a.same b = true ↔ _
  cases a <;> cases b <;> simp [Key.same, Key.number?, Key.standard]

/-! ## Lists -/

section Lists

variable {α : Type} {R : α → α → Prop} {l m n : List α}

theorem forall₂_symm (hsymm : ∀ a ∈ l, ∀ b ∈ m, R a b → R b a) (h : List.Forall₂ R l m) :
    List.Forall₂ R m l := by
  induction h with
  | nil => exact .nil
  | cons hab _ ih =>
      exact .cons (hsymm _ List.mem_cons_self _ List.mem_cons_self hab)
        (ih fun a ha b hb => hsymm a (List.mem_cons_of_mem _ ha) b (List.mem_cons_of_mem _ hb))

theorem forall₂_trans (htrans : ∀ a ∈ l, ∀ b c, R a b → R b c → R a c) (h : List.Forall₂ R l m)
    (h' : List.Forall₂ R m n) : List.Forall₂ R l n := by
  induction h generalizing n with
  | nil => exact h'
  | cons hab _ ih =>
      cases h' with
      | cons hbc hrest =>
          exact .cons (htrans _ List.mem_cons_self _ _ hab hbc)
            (ih (fun a ha => htrans a (List.mem_cons_of_mem _ ha)) hrest)

theorem forall_mem_replaced {P : α → Prop} {before after : List α} {a b : α}
    (h : ∀ x ∈ before ++ a :: after, P x) (hb : P b) : ∀ x ∈ before ++ b :: after, P x := by
  rw [List.forall_mem_append, List.forall_mem_cons] at h ⊢
  exact ⟨h.1, hb, h.2.2⟩

end Lists

/-! ## What is equal to a value -/

namespace Value

/-- Equality as a relation. -/
def Same (v w : Value) : Prop := v.same w = true

theorem sameItems_iff {items others : List Value} :
    sameItems items others = true ↔ List.Forall₂ Same items others := by
  induction items generalizing others with
  | nil => cases others <;> simp [sameItems]
  | cons v rest ih => cases others <;> simp [sameItems, ih, Same]

theorem sameEntries_iff {entries others : List (Key × Value)} :
    sameEntries entries others = true ↔ Table.Covers Same entries others := by
  induction entries with
  | nil => simp [sameEntries, Table.Covers]
  | cons e rest ih =>
      rw [sameEntries, Bool.and_eq_true, ih, Table.Covers, Table.Covers, List.forall_mem_cons]
      cases Table.get? others e.1 <;> simp [Same]

theorem sameTags_iff {tags others : List (String × Value)} :
    sameTags tags others = true ↔ Table.Covers Same tags others := by
  induction tags with
  | nil => simp [sameTags, Table.Covers]
  | cons e rest ih =>
      rw [sameTags, Bool.and_eq_true, ih, Table.Covers, Table.Covers, List.forall_mem_cons]
      cases Table.get? others e.1 <;> simp [Same]

theorem same_null_iff {w : Value} : Same .null w ↔ w = .null := by
  cases w <;> simp [Same, same]

theorem same_number_iff {v w : Value} {n : Int} (hv : v.number? = some n) :
    Same v w ↔ w.number? = some n := by
  cases v with
  | bool b => rw [← hv]; exact beq_iff_eq
  | int m => rw [← hv]; exact beq_iff_eq
  | _ => cases hv

theorem same_text_iff {s : String} {w : Value} : Same (.text s) w ↔ .text s = w := by
  cases w <;> simp [Same, same]

theorem same_list_iff {items : List Value} {w : Value} :
    Same (.list items) w ↔ ∃ others, w = .list others ∧ List.Forall₂ Same items others := by
  cases w <;> simp [Same, same, sameItems_iff]

theorem same_dict_iff {entries : List (Key × Value)} {w : Value} :
    Same (.dict entries) w ↔ ∃ others, w = .dict others ∧ entries.length = others.length
      ∧ Table.Covers Same entries others := by
  cases w <;> simp [Same, same, sameEntries_iff]

theorem same_matched_iff {raw : Value} {tags : Tags} {w : Value} :
    Same (.matched raw tags) w ↔ ∃ raw' others, w = .matched raw' others ∧ Same raw raw'
      ∧ tags.length = others.length ∧ Table.Covers Same tags others := by
  cases w <;> simp [Same, same, sameTags_iff, and_assoc]

/-! ## Values with proper maps -/

/-- Values as they can be built: no two keys of a dictionary count as the same, and no tag is there
twice. -/
inductive Proper : Value → Prop
  | null : Proper .null
  | bool (b : Bool) : Proper (.bool b)
  | int (n : Int) : Proper (.int n)
  | text (s : String) : Proper (.text s)
  | list {items : List Value} (hitems : ∀ v ∈ items, Proper v) : Proper (.list items)
  | dict {entries : List (Key × Value)} (hkeys : ((Table.keys entries).map Key.standard).Nodup)
      (hentries : ∀ e ∈ entries, Proper e.2) : Proper (.dict entries)
  | matched {raw : Value} {tags : List (String × Value)} (hraw : Proper raw)
      (hkeys : Table.Distinct tags) (htags : ∀ e ∈ tags, Proper e.2) : Proper (.matched raw tags)

theorem Proper.same_refl {v : Value} (h : v.Proper) : Same v v := by
  induction h with
  | null => exact same_null_iff.mpr rfl
  | bool b => exact (same_number_iff rfl).mpr rfl
  | int n => exact (same_number_iff rfl).mpr rfl
  | text s => exact same_text_iff.mpr rfl
  | list _ ih => exact same_list_iff.mpr ⟨_, rfl, List.forall₂_same.mpr ih⟩
  | dict hkeys _ ih =>
      exact same_dict_iff.mpr ⟨_, rfl, rfl, .refl Key.beq_iff hkeys ih⟩
  | matched _ hkeys _ ihraw ih =>
      exact same_matched_iff.mpr ⟨_, _, rfl, ihraw, rfl,
        .refl Table.beq_iff_id hkeys.standing ih⟩

theorem Proper.same_symm {v w : Value} (hv : v.Proper) (hw : w.Proper) (h : Same v w) :
    Same w v := by
  induction hv generalizing w with
  | null => exact same_null_iff.mp h ▸ h
  | bool b => exact (same_number_iff ((same_number_iff rfl).mp h)).mpr rfl
  | int n => exact (same_number_iff ((same_number_iff rfl).mp h)).mpr rfl
  | text s => exact same_text_iff.mp h ▸ h
  | list _ ih =>
      obtain ⟨others, rfl, hitems⟩ := same_list_iff.mp h
      cases hw with
      | list hothers =>
          exact same_list_iff.mpr ⟨_, rfl,
            forall₂_symm (fun v hv w hw => ih v hv (hothers w hw)) hitems⟩
  | dict hkeys _ ih =>
      obtain ⟨others, rfl, hlength, hentries⟩ := same_dict_iff.mp h
      cases hw with
      | dict hotherKeys hothers =>
          exact same_dict_iff.mpr ⟨_, rfl, hlength.symm,
            hentries.symm Key.beq_iff hkeys hotherKeys hlength
              fun e he e' he' => ih e he (hothers e' he')⟩
  | matched _ hkeys _ ihraw ih =>
      obtain ⟨raw', others, rfl, hraw, hlength, htags⟩ := same_matched_iff.mp h
      cases hw with
      | matched hproper hotherKeys hothers =>
          exact same_matched_iff.mpr ⟨_, _, rfl, ihraw hproper hraw, hlength.symm,
            htags.symm Table.beq_iff_id hkeys.standing hotherKeys.standing hlength
              fun e he e' he' => ih e he (hothers e' he')⟩

theorem Proper.same_trans {u v w : Value} (hu : u.Proper) (h : Same u v) (h' : Same v w) :
    Same u w := by
  induction hu generalizing v w with
  | null => exact same_null_iff.mp h ▸ h'
  | bool b =>
      have hv := (same_number_iff rfl).mp h
      exact (same_number_iff rfl).mpr ((same_number_iff hv).mp h')
  | int n =>
      have hv := (same_number_iff rfl).mp h
      exact (same_number_iff rfl).mpr ((same_number_iff hv).mp h')
  | text s => exact same_text_iff.mp h ▸ h'
  | list _ ih =>
      obtain ⟨others, rfl, hitems⟩ := same_list_iff.mp h
      obtain ⟨last, rfl, hothers⟩ := same_list_iff.mp h'
      exact same_list_iff.mpr ⟨_, rfl, forall₂_trans (fun u hu _ _ => ih u hu) hitems hothers⟩
  | dict _ _ ih =>
      obtain ⟨others, rfl, hlength, hentries⟩ := same_dict_iff.mp h
      obtain ⟨last, rfl, hlength', hothers⟩ := same_dict_iff.mp h'
      exact same_dict_iff.mpr ⟨_, rfl, hlength.trans hlength',
        hentries.trans Key.beq_iff (fun e he _ _ => ih e he) hothers⟩
  | matched _ _ _ ihraw ih =>
      obtain ⟨raw', others, rfl, hraw, hlength, htags⟩ := same_matched_iff.mp h
      obtain ⟨raw'', last, rfl, hraw', hlength', hothers⟩ := same_matched_iff.mp h'
      exact same_matched_iff.mpr ⟨_, _, rfl, ihraw hraw hraw', hlength.trans hlength',
        htags.trans Table.beq_iff_id (fun e he _ _ => ih e he) hothers⟩

/-! ## The order of tags -/

/-- Values that differ in the order of the tags of matched values inside them. -/
inductive Reordered : Value → Value → Prop
  | refl (v : Value) : Reordered v v
  | trans {v w x : Value} (h : Reordered v w) (h' : Reordered w x) : Reordered v x
  | tags (raw : Value) {tags tags' : List (String × Value)} (h : tags.Perm tags') :
      Reordered (.matched raw tags) (.matched raw tags')
  | item (before after : List Value) {v w : Value} (h : Reordered v w) :
      Reordered (.list (before ++ v :: after)) (.list (before ++ w :: after))
  | entry (before after : List (Key × Value)) (key : Key) {v w : Value} (h : Reordered v w) :
      Reordered (.dict (before ++ (key, v) :: after)) (.dict (before ++ (key, w) :: after))
  | raw (tags : List (String × Value)) {v w : Value} (h : Reordered v w) :
      Reordered (.matched v tags) (.matched w tags)
  | part (raw : Value) (before after : List (String × Value)) (tag : String) {v w : Value}
      (h : Reordered v w) :
      Reordered (.matched raw (before ++ (tag, v) :: after))
        (.matched raw (before ++ (tag, w) :: after))

/-- Reordering tags leaves a value proper, and equal to what it was. -/
theorem Reordered.same {v w : Value} (h : Reordered v w) (hv : v.Proper) :
    w.Proper ∧ Same v w := by
  induction h with
  | refl v => exact ⟨hv, hv.same_refl⟩
  | trans _ _ ih ih' =>
      obtain ⟨hw, hvw⟩ := ih hv
      obtain ⟨hx, hwx⟩ := ih' hw
      exact ⟨hx, hv.same_trans hvw hwx⟩
  | tags raw hperm =>
      cases hv with
      | matched hraw hkeys htags =>
          have hkeys' := (hperm.map Prod.fst).nodup_iff.mp hkeys
          refine ⟨.matched hraw hkeys' fun e he => htags e (hperm.mem_iff.mpr he), ?_⟩
          exact same_matched_iff.mpr ⟨_, _, rfl, hraw.same_refl, hperm.length_eq,
            .of_mem Table.beq_iff_id (Table.Distinct.standing hkeys') fun e he =>
              ⟨e.2, hperm.mem_iff.mp he, (htags e he).same_refl⟩⟩
  | item before after _ ih =>
      cases hv with
      | list hitems =>
          obtain ⟨hw, hvw⟩ := ih (hitems _ (List.mem_append_right _ List.mem_cons_self))
          refine ⟨.list (forall_mem_replaced hitems hw), same_list_iff.mpr ⟨_, rfl, ?_⟩⟩
          rw [List.forall_mem_append, List.forall_mem_cons] at hitems
          obtain ⟨hbefore, -, hafter⟩ := hitems
          exact List.rel_append (List.forall₂_same.mpr fun v hv => (hbefore v hv).same_refl)
            (.cons hvw (List.forall₂_same.mpr fun v hv => (hafter v hv).same_refl))
  | @entry before after key x y _ ih =>
      cases hv with
      | dict hkeys hentries =>
          obtain ⟨hw, hvw⟩ := ih (hentries _ (List.mem_append_right _ List.mem_cons_self))
          have hkeys' : ((Table.keys (before ++ (key, y) :: after)).map Key.standard).Nodup := by
            simpa using hkeys
          refine ⟨.dict hkeys' (forall_mem_replaced hentries hw), ?_⟩
          exact same_dict_iff.mpr ⟨_, rfl, by simp,
            .of_replaced Key.beq_iff hkeys' hvw fun e he => (hentries e he).same_refl⟩
  | raw tags _ ih =>
      cases hv with
      | matched hraw hkeys htags =>
          obtain ⟨hw, hvw⟩ := ih hraw
          exact ⟨.matched hw hkeys htags, same_matched_iff.mpr ⟨_, _, rfl, hvw, rfl,
            .refl Table.beq_iff_id hkeys.standing fun e he => (htags e he).same_refl⟩⟩
  | @part raw before after tag x y _ ih =>
      cases hv with
      | matched hraw hkeys htags =>
          obtain ⟨hw, hvw⟩ := ih (htags _ (List.mem_append_right _ List.mem_cons_self))
          have hkeys' : Table.Distinct (before ++ (tag, y) :: after) := by
            simpa [Table.Distinct] using hkeys
          refine ⟨.matched hraw hkeys' (forall_mem_replaced htags hw), ?_⟩
          exact same_matched_iff.mpr ⟨_, _, rfl, hraw.same_refl, by simp,
            .of_replaced Table.beq_iff_id hkeys'.standing hvw fun e he => (htags e he).same_refl⟩

/-- So no comparison comes out differently. -/
theorem Reordered.same_eq {v v' w : Value} (h : Reordered v v') (hv : v.Proper) (hw : w.Proper) :
    v.same w = v'.same w ∧ w.same v = w.same v' := by
  obtain ⟨hv', hsame⟩ := h.same hv
  have hback : Same v' v := hv.same_symm hv' hsame
  constructor
  · rw [Bool.eq_iff_iff]
    exact ⟨hv'.same_trans hback, hv.same_trans hsame⟩
  · rw [Bool.eq_iff_iff]
    exact ⟨fun hwv => hw.same_trans hwv hsame, fun hwv => hw.same_trans hwv hback⟩

/-! ## Equality -/

/-- A matched value is equal to matched values only. -/
theorem matched_same_eq_false {raw w : Value} {tags : Tags}
    (hw : ∀ raw' tags', w ≠ .matched raw' tags') :
    (Value.matched raw tags).same w = false ∧ w.same (.matched raw tags) = false := by
  cases w with
  | matched raw' tags' => exact absurd rfl (hw raw' tags')
  | _ => exact ⟨rfl, rfl⟩

/-- Matched values are equal if their raw values are, they have the same tags, and what stands
under each tag is equal. -/
theorem same_matched_iff_parts {raw raw' : Value} {tags tags' : Tags} (ht : tags.Distinct)
    (ht' : tags'.Distinct) :
    Same (.matched raw tags) (.matched raw' tags')
      ↔ Same raw raw' ∧ (∀ tag, tag ∈ tags.keys ↔ tag ∈ tags'.keys)
        ∧ ∀ tag part part', tags.get? tag = some part → tags'.get? tag = some part' →
          Same part part' := by
  rw [← Table.covers_iff ht ht', same_matched_iff]
  constructor
  · rintro ⟨_, _, hsame, h⟩
    cases hsame
    exact h
  · exact fun h => ⟨raw', tags', rfl, h⟩

/--
**Equality is an equivalence, and does not see the order of tags.** Between proper values, however
deep they are, it is reflexive, symmetric and transitive. A matched value is equal to matched values
only: to those with an equal raw value, the same tags and an equal value under each tag. So when the
tags of matched values anywhere inside a value are put in another order, no comparison comes out
differently.
-/
theorem same_equivalence :
    (Equivalence fun v w : { v : Value // v.Proper } => v.1.same w.1 = true)
      ∧ (∀ (raw w : Value) (tags : Tags), (∀ raw' tags', w ≠ .matched raw' tags') →
          (Value.matched raw tags).same w = false ∧ w.same (.matched raw tags) = false)
      ∧ (∀ (raw raw' : Value) (tags tags' : Tags), tags.Distinct → tags'.Distinct →
          ((Value.matched raw tags).same (.matched raw' tags') = true
            ↔ raw.same raw' = true ∧ (∀ tag, tag ∈ tags.keys ↔ tag ∈ tags'.keys)
              ∧ ∀ tag part part', tags.get? tag = some part → tags'.get? tag = some part' →
                part.same part' = true))
      ∧ ∀ v v' w : Value, v.Proper → w.Proper → v.Reordered v' →
          v'.Proper ∧ v.same w = v'.same w ∧ w.same v = w.same v' := by
  refine ⟨⟨?_, ?_, ?_⟩, ?_, ?_, ?_⟩
  · exact fun v => v.2.same_refl
  · exact fun {v w} h => v.2.same_symm w.2 h
  · exact fun {u _ _} h h' => u.2.same_trans h h'
  · exact fun _ _ _ hw => matched_same_eq_false hw
  · exact fun _ _ _ _ ht ht' => same_matched_iff_parts ht ht'
  · exact fun v v' w hv hw h => ⟨(h.same hv).1, h.same_eq hv hw⟩

/-- A value with a truth value for a key. -/
def counted : Value :=
  .list [.matched (.text "x") [("a", .dict [(.bool true, .int 0)]), ("b", .null)]]

/-- The same with the tags in the other order. -/
def countedTurned : Value :=
  .list [.matched (.text "x") [("b", .null), ("a", .dict [(.bool true, .int 0)])]]

/-- Here the key is a number, and the number a truth value. -/
def recounted : Value :=
  .list [.matched (.text "x") [("b", .null), ("a", .dict [(.int 1, .bool false)])]]

/-- Neither truth values nor the order of tags make a difference. -/
theorem same_equivalence_counted :
    counted.Proper ∧ recounted.Proper ∧ counted.Reordered countedTurned
      ∧ counted.same recounted = true ∧ recounted.same counted = true
      ∧ countedTurned.same recounted = true
      ∧ (Value.matched .null [("a", .int 1)]).same (.matched (.bool false) [("a", .int 1)]) = false
      ∧ (Value.matched .null [("a", .int 1)]).same .null = false := by
  have hcounted : counted.Proper := by
    refine .list (List.forall_mem_singleton.mpr
      (.matched (.text "x") (by simp [Table.Distinct]) ?_))
    rw [List.forall_mem_cons, List.forall_mem_singleton]
    exact ⟨.dict (List.pairwise_singleton _ _) (List.forall_mem_singleton.mpr (.int 0)), .null⟩
  have hrecounted : recounted.Proper := by
    refine .list (List.forall_mem_singleton.mpr
      (.matched (.text "x") (by simp [Table.Distinct]) ?_))
    rw [List.forall_mem_cons, List.forall_mem_singleton]
    exact ⟨.null,
      .dict (List.pairwise_singleton _ _) (List.forall_mem_singleton.mpr (.bool false))⟩
  have hreordered : counted.Reordered countedTurned := .item [] [] (.tags _ (.swap _ _ []))
  have hsame : counted.same recounted = true := rfl
  have hone : Table.Distinct [("a", Value.int 1)] := List.pairwise_singleton _ _
  obtain ⟨hequivalence, hother, hparts, hturned⟩ := same_equivalence
  refine ⟨hcounted, hrecounted, hreordered, hsame, ?_, ?_, ?_, ?_⟩
  · exact hequivalence.symm (x := ⟨counted, hcounted⟩) (y := ⟨recounted, hrecounted⟩) hsame
  · rw [← (hturned _ _ _ hcounted hrecounted hreordered).2.1, hsame]
  · rw [Bool.eq_false_iff, ne_eq, hparts _ _ _ _ hone hone]
    rintro ⟨hraw, -⟩
    cases hraw
  · refine (hother _ .null _ fun raw' tags' h => ?_).1
    cases h

end Value

end TextGrammar
