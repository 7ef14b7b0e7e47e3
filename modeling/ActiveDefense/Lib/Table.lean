import Mathlib.Data.List.AList
import Mathlib.Data.Set.Card

/-!
# Tables

A hash map with one value a key, as Mathlib's association list. `lookup`, `insert` and `erase` are
Mathlib's; what is added here is the number of entries, the removal of all entries that fail a test,
and tables of sets as indexes of a relation.
-/

namespace ActiveDefense

/-- A map from keys to values. -/
abbrev Table (κ υ : Type) := AList fun _ : κ => υ

namespace Table

variable {κ υ : Type}

/-- The number of entries. -/
def len (t : Table κ υ) : Nat := t.entries.length

/-- The table without the entries that fail the test. -/
def retain (p : κ → υ → Bool) (t : Table κ υ) : Table κ υ where
  entries := t.entries.filter fun e => p e.1 e.2
  nodupKeys := t.nodupKeys.sublist List.filter_sublist

variable [DecidableEq κ]

theorem lookup_retain {p : κ → υ → Bool} {t : Table κ υ} {k : κ} {v : υ} :
    (t.retain p).lookup k = some v ↔ t.lookup k = some v ∧ p k v = true := by
  rw [← Option.mem_def, ← Option.mem_def, AList.mem_lookup_iff, AList.mem_lookup_iff]
  simp [retain]

/-- A key has an entry if and only if it has a value. -/
theorem mem_iff_lookup {t : Table κ υ} {k : κ} : k ∈ t ↔ ∃ v, t.lookup k = some v := by
  rw [← AList.lookup_isSome, Option.isSome_iff_exists]

/-- A new key leaves the other values. -/
theorem lookup_insert_of_not_mem {t : Table κ υ} {k k' : κ} {v w : υ} (hnew : k ∉ t)
    (h : t.lookup k' = some v) : AList.lookup k' (AList.insert k w t) = some v := by
  rw [AList.lookup_insert_ne]
  · exact h
  · rintro rfl
    exact hnew (mem_iff_lookup.mpr ⟨v, h⟩)

/-- `retain` keeps the keys whose entry passes the test. -/
theorem mem_retain {p : κ → υ → Bool} {t : Table κ υ} {k : κ} :
    k ∈ t.retain p ↔ ∃ v, t.lookup k = some v ∧ p k v = true := by
  simp only [mem_iff_lookup, lookup_retain]

/-- An entry that `retain` keeps was there before. -/
theorem mem_of_mem_retain {p : κ → υ → Bool} {t : Table κ υ} {k : κ} (h : k ∈ t.retain p) :
    k ∈ t := by
  obtain ⟨v, hv, -⟩ := mem_retain.mp h
  exact mem_iff_lookup.mpr ⟨v, hv⟩

/-- The set of keys has as many elements as the table has entries. -/
theorem encard_keys {t : Table κ υ} : {k | k ∈ t}.encard = t.len := by
  have hkeys : {k | k ∈ t} = (t.keys.toFinset : Set κ) := by
    ext k
    simp [AList.mem_keys]
  rw [hkeys, Set.encard_coe_eq_coe_finsetCard, List.toFinset_card_of_nodup t.keys_nodup, len,
    AList.keys, List.keys, List.length_map]

/-- The values of a table. -/
theorem mem_values {t : Table κ υ} {v : υ} :
    v ∈ t.entries.map (·.2) ↔ ∃ k, t.lookup k = some v := by
  simp only [List.mem_map]
  constructor
  · rintro ⟨⟨k, w⟩, hentry, rfl⟩
    exact ⟨k, AList.mem_lookup_iff.mpr hentry⟩
  · rintro ⟨k, hk⟩
    exact ⟨⟨k, v⟩, AList.mem_lookup_iff.mp hk, rfl⟩

/-- Values that tell their own keys are told apart by them. -/
theorem nodup_map_values {t : Table κ υ} {f : υ → κ} (h : ∀ k v, t.lookup k = some v → f v = k) :
    ((t.entries.map (·.2)).map f).Nodup := by
  have hkeys : (t.entries.map (·.2)).map f = t.keys := by
    rw [List.map_map]
    exact List.map_congr_left fun e he => h e.1 e.2 (AList.mem_lookup_iff.mpr he)
  rw [hkeys]
  exact t.keys_nodup

/-! ## Indexes

A table of sets, each a list without duplicates. A key without a set has the empty one.
-/

variable {ν : Type} {r r' : κ → ν → Prop}

/-- The set of a key. -/
def bucket (t : Table κ (List ν)) (k : κ) : List ν := (t.lookup k).getD []

theorem bucket_of_lookup {t : Table κ (List ν)} {k : κ} {vs : List ν} (h : t.lookup k = some vs) :
    t.bucket k = vs := by
  rw [bucket, h]
  rfl

theorem bucket_of_not_mem {t : Table κ (List ν)} {k : κ} (h : t.lookup k = none) :
    t.bucket k = [] := by
  rw [bucket, h]
  rfl

theorem bucket_insert {t : Table κ (List ν)} {k : κ} {vs : List ν} :
    bucket (AList.insert k vs t) k = vs := bucket_of_lookup (AList.lookup_insert t)

theorem bucket_insert_ne {t : Table κ (List ν)} {k k' : κ} {vs : List ν} (h : k' ≠ k) :
    bucket (AList.insert k vs t) k' = t.bucket k' := by
  rw [bucket, AList.lookup_insert_ne h, bucket]

/-- The set of each key is what the relation has it related to. -/
def Indexes (t : Table κ (List ν)) (r : κ → ν → Prop) : Prop :=
  ∀ k, (t.bucket k).Nodup ∧ ∀ v, v ∈ t.bucket k ↔ r k v

/-- The empty table is an index of the empty relation. -/
theorem indexes_empty (h : ∀ k v, ¬ r k v) : (∅ : Table κ (List ν)).Indexes r :=
  fun k => ⟨.nil, fun v => iff_of_false List.not_mem_nil (h k v)⟩

/-- A table in which the set of one key is another one. -/
theorem Indexes.insert {t : Table κ (List ν)} (h : t.Indexes r) {k : κ} {vs : List ν}
    (hnodup : vs.Nodup) (hmem : ∀ v, v ∈ vs ↔ r' k v)
    (hother : ∀ k' v, k' ≠ k → (r' k' v ↔ r k' v)) :
    Indexes (AList.insert k vs t) r' := by
  intro k'
  by_cases hk : k' = k
  · rw [hk, bucket_insert]
    exact ⟨hnodup, hmem⟩
  · rw [bucket_insert_ne hk]
    exact ⟨(h k').1, fun v => ((h k').2 v).trans (hother k' v hk).symm⟩

end Table

end ActiveDefense
