import Checkpoint.Table
import Mathlib.Data.List.Forall2
import Mathlib.Data.List.Nodup

/-! Laws of tables: what is found after an entry, and where it stands. -/

namespace Checkpoint.Table

variable {κ ν : Type} [BEq κ]

theorem contains_eq_isSome (t : Table κ ν) (key : κ) : t.contains key = (t.get? key).isSome := by
  simp only [contains, get?, Option.isSome_map, List.isSome_find?]

theorem get?_eq_none_iff (t : Table κ ν) (key : κ) : t.get? key = none ↔ t.contains key = false := by
  rw [contains_eq_isSome]
  simp

theorem exists_get?_of_contains {t : Table κ ν} {key : κ} (h : t.contains key = true) :
    ∃ v, t.get? key = some v := by
  rw [contains_eq_isSome] at h
  exact Option.isSome_iff_exists.1 h

theorem length_insertInto (key : κ) (value : ν) (entries : List (κ × ν)) :
    (insertInto key value entries).length =
      if entries.any (·.1 == key) then entries.length else entries.length + 1 := by
  induction entries with
  | nil => rfl
  | cons entry rest ih =>
    cases h : entry.1 == key
    · simp only [insertInto, h, List.any_cons, List.length_cons, ih, Bool.false_or,
        Bool.false_eq_true, if_false]
      split <;> rfl
    · simp [insertInto, h]

theorem size_insert (t : Table κ ν) (key : κ) (value : ν) :
    (t.insert key value).size = if t.contains key then t.size else t.size + 1 :=
  length_insertInto key value t.entries

theorem insertInto_of_absent {key : κ} {entries : List (κ × ν)}
    (h : entries.any (·.1 == key) = false) (value : ν) :
    insertInto key value entries = entries ++ [(key, value)] := by
  induction entries with
  | nil => rfl
  | cons entry rest ih =>
    simp only [List.any_cons, Bool.or_eq_false_iff] at h
    simp [insertInto, h.1, ih h.2]

theorem entries_insert_of_absent {t : Table κ ν} {key : κ} (h : t.contains key = false)
    (value : ν) : (t.insert key value).entries = t.entries ++ [(key, value)] :=
  insertInto_of_absent h value

/-- What holds of the keys and of the values holds when an entry is made of such. -/
theorem forall_entries_insert {t : Table κ ν} {P : κ → Prop} {Q : ν → Prop} {key : κ} {value : ν}
    (h : ∀ e ∈ t.entries, P e.1 ∧ Q e.2) (hk : P key) (hv : Q value) :
    ∀ e ∈ (t.insert key value).entries, P e.1 ∧ Q e.2 := by
  obtain ⟨entries⟩ := t
  change ∀ e ∈ insertInto key value entries, P e.1 ∧ Q e.2
  induction entries with
  | nil => exact List.forall_mem_singleton.2 ⟨hk, hv⟩
  | cons first rest ih =>
    obtain ⟨here, behind⟩ := List.forall_mem_cons.1 h
    unfold insertInto
    split
    · exact List.forall_mem_cons.2 ⟨⟨here.1, hv⟩, behind⟩
    · exact List.forall_mem_cons.2 ⟨here, ih behind⟩

variable [LawfulBEq κ]

theorem find?_insertInto (key key' : κ) (value : ν) (entries : List (κ × ν)) :
    ((insertInto key value entries).find? (·.1 == key')).map Prod.snd =
      if key == key' then some value else (entries.find? (·.1 == key')).map Prod.snd := by
  induction entries with
  | nil => by_cases h : key == key' <;> simp [insertInto, List.find?, h]
  | cons entry rest ih =>
    by_cases h : entry.1 == key
    · obtain rfl := eq_of_beq h
      by_cases h' : entry.1 == key' <;> simp [insertInto, List.find?, h']
    · by_cases h' : entry.1 == key'
      · obtain rfl := eq_of_beq h'
        have : (key == entry.1) = false := by
          simp only [beq_eq_false_iff_ne]
          rintro rfl
          simp at h
        simp [insertInto, List.find?, h, this]
      · simpa [insertInto, List.find?, h, h'] using ih

theorem get?_insert (t : Table κ ν) (key key' : κ) (value : ν) :
    (t.insert key value).get? key' = if key == key' then some value else t.get? key' :=
  find?_insertInto key key' value t.entries

@[simp] theorem get?_insert_self (t : Table κ ν) (key : κ) (value : ν) :
    (t.insert key value).get? key = some value := by
  simp [get?_insert]

theorem get?_insert_of_ne {key key' : κ} (h : key ≠ key') (t : Table κ ν) (value : ν) :
    (t.insert key value).get? key' = t.get? key' := by
  simp [get?_insert, h]

theorem contains_insert (t : Table κ ν) (key key' : κ) (value : ν) :
    (t.insert key value).contains key' = (key == key' || t.contains key') := by
  simp only [contains_eq_isSome, get?_insert]
  by_cases h : key == key' <;> simp [h]

theorem mem_entries_of_get? {t : Table κ ν} {key : κ} {value : ν} (h : t.get? key = some value) :
    (key, value) ∈ t.entries := by
  simp only [get?, Option.map_eq_some_iff] at h
  obtain ⟨⟨k, v⟩, h, rfl⟩ := h
  have hk := List.find?_some h
  obtain rfl := eq_of_beq hk
  exact List.mem_of_find?_eq_some h

theorem contains_iff_mem_keys {t : Table κ ν} {key : κ} : t.contains key = true ↔ key ∈ t.keys := by
  simp [contains, keys]

omit [LawfulBEq κ] in
theorem map_fst_insertInto (key : κ) (value : ν) (entries : List (κ × ν)) :
    (insertInto key value entries).map Prod.fst =
      if entries.any (fun entry => entry.1 == key) then entries.map Prod.fst
      else entries.map Prod.fst ++ [key] := by
  induction entries with
  | nil => rfl
  | cons entry rest ih =>
    unfold insertInto
    by_cases h : entry.1 == key
    · simp [h]
    · simp only [h, Bool.false_eq_true, if_false, List.map_cons, ih, List.any_cons, Bool.false_or]
      split <;> rfl

omit [LawfulBEq κ] in
theorem keys_insert (t : Table κ ν) (key : κ) (value : ν) :
    (t.insert key value).keys = if t.contains key then t.keys else t.keys ++ [key] :=
  map_fst_insertInto key value t.entries

theorem nodup_keys_insert {t : Table κ ν} (distinct : t.keys.Nodup) (key : κ) (value : ν) :
    (t.insert key value).keys.Nodup := by
  rw [keys_insert]
  split
  · exact distinct
  · next absent =>
    rw [contains_iff_mem_keys] at absent
    exact List.nodup_append.2 ⟨distinct, List.nodup_singleton key, by
      rintro k hk _ hl rfl
      exact absent (List.mem_singleton.1 hl ▸ hk)⟩

theorem nodup_keys_insertAll {t : Table κ ν} (distinct : t.keys.Nodup) (entries : List (κ × ν)) :
    (t.insertAll entries).keys.Nodup := by
  induction entries generalizing t with
  | nil => exact distinct
  | cons entry entries ih => exact ih (nodup_keys_insert distinct _ _)

theorem nodup_keys_ofList (entries : List (κ × ν)) : (ofList entries).keys.Nodup :=
  nodup_keys_insertAll (t := {}) List.nodup_nil entries

omit [LawfulBEq κ] in
/-- What is found under a key is the value at the key's place. -/
theorem getElem?_values_idxOf (t : Table κ ν) (key : κ) : t.values[t.keys.idxOf key]? = t.get? key := by
  obtain ⟨entries⟩ := t
  simp only [values, keys, get?]
  induction entries with
  | nil => rfl
  | cons entry rest ih =>
    rw [List.map_cons, List.map_cons, List.idxOf_cons, List.find?_cons]
    cases entry.1 == key with
    | true => rfl
    | false => exact ih

theorem get?_of_mem {t : Table κ ν} {key : κ} {value : ν} (distinct : t.keys.Nodup)
    (h : (key, value) ∈ t.entries) : t.get? key = some value := by
  obtain ⟨found, hf⟩ : ∃ found, t.get? key = some found :=
    exists_get?_of_contains (contains_iff_mem_keys.2 (List.mem_map_of_mem (f := Prod.fst) h))
  have same := List.inj_on_of_nodup_map distinct (mem_entries_of_get? hf) h rfl
  rw [hf, (Prod.mk.inj same).2]

theorem entries_foldl_insert {t : Table κ ν} {entries : List (κ × ν)}
    (distinct : ((t.entries ++ entries).map Prod.fst).Nodup) :
    (entries.foldl (fun t entry => t.insert entry.1 entry.2) t).entries = t.entries ++ entries := by
  induction entries generalizing t with
  | nil => simp
  | cons entry entries ih =>
    have absent : t.contains entry.1 = false := by
      rw [← Bool.not_eq_true, contains_iff_mem_keys]
      intro h
      rw [List.map_append, List.nodup_append] at distinct
      exact distinct.2.2 _ h _ List.mem_cons_self rfl
    have step := entries_insert_of_absent absent entry.2
    rw [List.foldl_cons, ih (by simpa [step] using distinct), step]
    simp

theorem entries_ofList {entries : List (κ × ν)} (distinct : (entries.map Prod.fst).Nodup) :
    (ofList entries).entries = entries :=
  entries_foldl_insert (t := {}) distinct

/-! ### Tables with the same keys -/

section Related

variable {μ : Type} {V : κ → ν → μ → Prop} {t : Table κ ν} {u : Table κ μ} {key : κ}
  {entries : List (κ × ν)} {entries' : List (κ × μ)}

/-- The same keys in the same order, with values that are related. -/
def Related (V : κ → ν → μ → Prop) : List (κ × ν) → List (κ × μ) → Prop :=
  List.Forall₂ fun entry entry' => entry'.1 = entry.1 ∧ V entry.1 entry.2 entry'.2

omit [BEq κ] [LawfulBEq κ] in
theorem Related.keys_eq (h : Related V t.entries u.entries) : u.keys = t.keys := by
  unfold keys
  generalize t.entries = entries, u.entries = entries' at h
  induction h with
  | nil => rfl
  | cons h _ ih => exact congrArg₂ List.cons h.1 ih

theorem Related.get?_eq (h : Related V t.entries u.entries) (key : κ) :
    (t.get? key = none ∧ u.get? key = none) ∨
      ∃ v w, t.get? key = some v ∧ u.get? key = some w ∧ V key v w := by
  unfold get?
  generalize t.entries = entries, u.entries = entries' at h
  induction h with
  | nil => exact .inl ⟨rfl, rfl⟩
  | @cons entry entry' _ _ h _ ih =>
    rw [List.find?_cons, List.find?_cons, h.1]
    cases found : entry.1 == key with
    | true => exact .inr ⟨_, _, rfl, rfl, eq_of_beq found ▸ h.2⟩
    | false => exact ih

theorem Related.contains_eq (h : Related V t.entries u.entries) (key : κ) :
    u.contains key = t.contains key := by
  rw [contains_eq_isSome, contains_eq_isSome]
  obtain ⟨absent, absent'⟩ | ⟨v, w, found, found', -⟩ := h.get?_eq key
  · rw [absent, absent']
    rfl
  · rw [found, found', Option.isSome_some, Option.isSome_some]

theorem related_insertInto {v : ν} {w : μ} (h : Related V entries entries') (hv : V key v w) :
    Related V (insertInto key v entries) (insertInto key w entries') := by
  induction h with
  | nil => exact .cons ⟨rfl, hv⟩ .nil
  | @cons entry entry' _ _ h rest ih =>
    unfold insertInto
    rw [h.1]
    cases found : entry.1 == key with
    | true => exact .cons ⟨rfl, eq_of_beq found ▸ hv⟩ rest
    | false => exact .cons h ih

theorem related_ofList (h : Related V entries entries') :
    Related V (ofList entries).entries (ofList entries').entries := by
  have grown {t : Table κ ν} {u : Table κ μ} (start : Related V t.entries u.entries) :
      Related V (entries.foldl (fun t entry => t.insert entry.1 entry.2) t).entries
        (entries'.foldl (fun u entry => u.insert entry.1 entry.2) u).entries := by
    induction h generalizing t u with
    | nil => exact start
    | cons h _ ih =>
      rw [List.foldl_cons, List.foldl_cons, h.1]
      exact ih (related_insertInto start h.2)
  exact grown .nil

end Related

section MapKeys

variable {f : κ → κ}

omit [BEq κ] [LawfulBEq κ] in
/-- The same table under other keys. -/
def mapKeys (f : κ → κ) (t : Table κ ν) : Table κ ν := ⟨t.entries.map fun entry => (f entry.1, entry.2)⟩

omit [BEq κ] [LawfulBEq κ] in
theorem size_mapKeys (t : Table κ ν) : (t.mapKeys f).size = t.size := List.length_map ..

theorem get?_mapKeys (injective : Function.Injective f) (t : Table κ ν) (key : κ) :
    (t.mapKeys f).get? (f key) = t.get? key := by
  simp [get?, mapKeys, List.find?_map, Function.comp_def, injective.beq_eq]

theorem insert_mapKeys (injective : Function.Injective f) (t : Table κ ν) (key : κ) (value : ν) :
    (t.mapKeys f).insert (f key) value = (t.insert key value).mapKeys f := by
  obtain ⟨entries⟩ := t
  simp only [insert, mapKeys]
  congr 1
  induction entries with
  | nil => rfl
  | cons entry rest ih =>
    simp only [List.map_cons, insertInto, injective.beq_eq]
    split
    · rfl
    · rw [ih, List.map_cons]

end MapKeys

end Checkpoint.Table
