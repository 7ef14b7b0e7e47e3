import Mathlib.Data.List.Basic

/-!
# Address prefixes and longest-prefix-match maps

A `PrefixKey` names the `len` leading bits of an address. Two keys are the same prefix when they
have one length and agree on that many bits, whatever their host bits are; a key covers the
addresses that agree with it on its leading bits.

`PrefixMap` is the interface of a map keyed by prefixes whose lookup answers with the most specific
stored prefix, and `LawfulPrefixMap` is what such a map documents. `ListTrie` is a reference
implementation with a capacity: its invariant, that no prefix is stored twice, is a field.
-/

namespace ActiveDefense

variable {w : Nat} {V : Type}

/-! ## Agreement on leading bits -/

/-- `a` and `b` agree on their `n` leading bits. -/
def SamePrefix (n : Nat) (a b : BitVec w) : Prop := a >>> (w - n) = b >>> (w - n)

instance (n : Nat) (a b : BitVec w) : Decidable (SamePrefix n a b) :=
  inferInstanceAs (Decidable (_ = _))

theorem SamePrefix.symm {n : Nat} {a b : BitVec w} (h : SamePrefix n a b) : SamePrefix n b a :=
  Eq.symm h

theorem SamePrefix.trans {n : Nat} {a b c : BitVec w} (h₁ : SamePrefix n a b)
    (h₂ : SamePrefix n b c) : SamePrefix n a c :=
  Eq.trans h₁ h₂

/-- Agreement on more leading bits is agreement on fewer. -/
theorem SamePrefix.mono {m n : Nat} {a b : BitVec w} (hmn : m ≤ n) (h : SamePrefix n a b) :
    SamePrefix m a b := by
  have hsplit : w - m = (w - n) + (w - m - (w - n)) := by omega
  unfold SamePrefix at h ⊢
  rw [hsplit, BitVec.shiftRight_add, BitVec.shiftRight_add, h]

/-! ## Keys -/

/-- A prefix as a map key: the `prefixLen` leading bits of `data`. The length is unchecked here;
it is the map that refuses a key longer than its addresses. -/
structure PrefixKey (w : Nat) where
  prefixLen : Nat
  data : BitVec w
deriving DecidableEq, Repr

namespace PrefixKey

/-- The key covers the address: they agree on the key's leading bits. -/
def Covers (k : PrefixKey w) (a : BitVec w) : Prop := SamePrefix k.prefixLen k.data a

/-- The two keys are one prefix; their host bits may differ. -/
def Same (k l : PrefixKey w) : Prop :=
  k.prefixLen = l.prefixLen ∧ SamePrefix k.prefixLen k.data l.data

/-- Some address is covered by both keys. -/
def Overlaps (k l : PrefixKey w) : Prop := ∃ a, k.Covers a ∧ l.Covers a

instance (k : PrefixKey w) (a : BitVec w) : Decidable (k.Covers a) :=
  inferInstanceAs (Decidable (SamePrefix _ _ _))

instance (k l : PrefixKey w) : Decidable (k.Same l) :=
  inferInstanceAs (Decidable (_ ∧ _))

theorem covers_self (k : PrefixKey w) : k.Covers k.data := rfl

theorem Same.refl (k : PrefixKey w) : k.Same k := ⟨rfl, rfl⟩

theorem Same.symm {k l : PrefixKey w} (h : k.Same l) : l.Same k :=
  ⟨h.1.symm, h.1 ▸ h.2.symm⟩

/-- Keys that are one prefix cover the same addresses. -/
theorem Same.covers_iff {k l : PrefixKey w} (h : k.Same l) (a : BitVec w) :
    k.Covers a ↔ l.Covers a := by
  unfold Covers
  rw [← h.1]
  exact ⟨fun hk => h.2.symm.trans hk, fun hl => h.2.trans hl⟩

/-- Two keys of one length that cover a common address are one prefix. -/
theorem Same.of_covers {k l : PrefixKey w} {a : BitVec w} (hlen : k.prefixLen = l.prefixLen)
    (hk : k.Covers a) (hl : l.Covers a) : k.Same l :=
  ⟨hlen, hk.trans (hlen ▸ SamePrefix.symm hl)⟩

theorem overlaps_iff (k l : PrefixKey w) :
    k.Overlaps l ↔ SamePrefix (min k.prefixLen l.prefixLen) k.data l.data := by
  constructor
  · rintro ⟨a, hk, hl⟩
    exact (SamePrefix.mono (Nat.min_le_left ..) hk).trans
      (SamePrefix.mono (Nat.min_le_right ..) (SamePrefix.symm hl))
  · intro h
    rcases Nat.le_total k.prefixLen l.prefixLen with hle | hle
    · rw [Nat.min_eq_left hle] at h
      exact ⟨l.data, h, l.covers_self⟩
    · rw [Nat.min_eq_right hle] at h
      exact ⟨k.data, k.covers_self, h.symm⟩

instance (k l : PrefixKey w) : Decidable (k.Overlaps l) :=
  decidable_of_iff _ (overlaps_iff k l).symm

end PrefixKey

/-! ## Longest-prefix-match maps -/

/-- A map from prefixes to values with longest-prefix lookup. `insert` and `remove` may fail. -/
class PrefixMap (M : Type) (w : outParam Nat) (V : outParam Type) where
  empty : M
  entries : M → List (PrefixKey w × V)
  get : M → PrefixKey w → Option V
  insert : M → PrefixKey w → V → Option M
  remove : M → PrefixKey w → Option M

/-- The stored entry `e` is the most specific one that covers `a`. -/
def IsLongest (es : List (PrefixKey w × V)) (a : BitVec w) (e : PrefixKey w × V) : Prop :=
  e ∈ es ∧ e.1.Covers a ∧ ∀ f ∈ es, f.1.Covers a → f.1.prefixLen ≤ e.1.prefixLen

/-- What a longest-prefix-match map documents. -/
class LawfulPrefixMap (M : Type) {w : outParam Nat} {V : outParam Type} [PrefixMap M w V] :
    Prop where
  /-- A new map is empty. -/
  entries_empty : PrefixMap.entries (PrefixMap.empty : M) = []
  /-- No prefix is stored twice. -/
  distinct : ∀ m : M, (PrefixMap.entries m).Pairwise fun e f => ¬ e.1.Same f.1
  /-- A full-length lookup answers with the most specific stored prefix that covers the address. -/
  get_eq_some : ∀ (m : M) (a : BitVec w) (v : V),
    PrefixMap.get m ⟨w, a⟩ = some v ↔ ∃ k, IsLongest (PrefixMap.entries m) a (k, v)
  /-- A successful insert replaces the entry of its prefix, or adds one. -/
  mem_insert : ∀ {m m' : M} {k : PrefixKey w} {v : V}, PrefixMap.insert m k v = some m' →
    ∀ e, e ∈ PrefixMap.entries m' ↔ e = (k, v) ∨ e ∈ PrefixMap.entries m ∧ ¬ e.1.Same k
  /-- A key longer than the addresses is refused. -/
  le_of_insert : ∀ {m m' : M} {k : PrefixKey w} {v : V}, PrefixMap.insert m k v = some m' →
    k.prefixLen ≤ w
  /-- A successful remove deletes the entry of its prefix and no other. -/
  mem_remove : ∀ {m m' : M} {k : PrefixKey w}, PrefixMap.remove m k = some m' →
    ∀ e, e ∈ PrefixMap.entries m' ↔ e ∈ PrefixMap.entries m ∧ ¬ e.1.Same k
  /-- Removing a stored prefix succeeds. -/
  remove_isSome : ∀ {m : M} {k : PrefixKey w} {e : PrefixKey w × V},
    e ∈ PrefixMap.entries m → e.1.Same k → (PrefixMap.remove m k).isSome

/-- Among entries no two of which share a prefix, a prefix determines its entry. -/
theorem eq_of_pairwise_not_same {es : List (PrefixKey w × V)}
    (hd : es.Pairwise fun e f => ¬ e.1.Same f.1) {e f : PrefixKey w × V} (he : e ∈ es)
    (hf : f ∈ es) (h : e.1.Same f.1) : e = f := by
  induction es with
  | nil => cases he
  | cons g es ih =>
    obtain ⟨hg, hd⟩ := List.pairwise_cons.mp hd
    rcases List.mem_cons.mp he with rfl | he' <;> rcases List.mem_cons.mp hf with rfl | hf'
    · rfl
    · exact absurd h (hg f hf')
    · exact absurd h.symm (hg e he')
    · exact ih hd he' hf'

/-- The most specific of such entries that covers an address is unique. -/
theorem IsLongest.unique {es : List (PrefixKey w × V)}
    (hd : es.Pairwise fun e f => ¬ e.1.Same f.1) {a : BitVec w} {e f : PrefixKey w × V}
    (he : IsLongest es a e) (hf : IsLongest es a f) : e = f := by
  have hlen : e.1.prefixLen = f.1.prefixLen :=
    Nat.le_antisymm (hf.2.2 e he.1 he.2.1) (he.2.2 f hf.1 hf.2.1)
  exact eq_of_pairwise_not_same hd he.1 hf.1 (.of_covers hlen he.2.1 hf.2.1)

/-- If some entry covers the address, one of them is the most specific. -/
theorem exists_isLongest {es : List (PrefixKey w × V)} {a : BitVec w} {e : PrefixKey w × V}
    (he : e ∈ es) (hc : e.1.Covers a) : ∃ f, IsLongest es a f := by
  induction es generalizing e with
  | nil => cases he
  | cons g es ih =>
    by_cases hg : ∃ f ∈ es, f.1.Covers a
    · obtain ⟨f, hf, hfc⟩ := hg
      obtain ⟨f, hf⟩ := ih hf hfc
      by_cases hgf : g.1.Covers a ∧ f.1.prefixLen < g.1.prefixLen
      · refine ⟨g, .head _, hgf.1, fun x hx hxc => ?_⟩
        rcases List.mem_cons.mp hx with rfl | hx
        · exact Nat.le_refl _
        · exact Nat.le_trans (hf.2.2 x hx hxc) (Nat.le_of_lt hgf.2)
      · refine ⟨f, List.mem_cons_of_mem _ hf.1, hf.2.1, fun x hx hxc => ?_⟩
        rcases List.mem_cons.mp hx with rfl | hx
        · exact Nat.not_lt.mp fun hlt => hgf ⟨hxc, hlt⟩
        · exact hf.2.2 x hx hxc
    · have hge : e = g := by
        rcases List.mem_cons.mp he with rfl | he
        · rfl
        · exact absurd ⟨e, he, hc⟩ hg
      subst hge
      refine ⟨e, .head _, hc, fun x hx hxc => ?_⟩
      rcases List.mem_cons.mp hx with rfl | hx
      · exact Nat.le_refl _
      · exact absurd ⟨x, hx, hxc⟩ hg

/-! ## A reference implementation -/

/-- A list of prefixes and values, no prefix twice, of at most `cap` entries. -/
structure ListTrie (w : Nat) (V : Type) (cap : Nat) where
  entries : List (PrefixKey w × V)
  bounded : ∀ e ∈ entries, e.1.prefixLen ≤ w
  distinct : entries.Pairwise fun e f => ¬ e.1.Same f.1

namespace ListTrie

variable {cap : Nat}

/-- The most specific entry that covers `a`. -/
def longest (a : BitVec w) : List (PrefixKey w × V) → Option (PrefixKey w × V)
  | [] => none
  | e :: es =>
    match longest a es with
    | none => if e.1.Covers a then some e else none
    | some f => if e.1.Covers a ∧ f.1.prefixLen < e.1.prefixLen then some e else some f

/-- The entries of other prefixes than `k`. -/
def others (k : PrefixKey w) (es : List (PrefixKey w × V)) : List (PrefixKey w × V) :=
  es.filter fun e => ¬ e.1.Same k

theorem mem_others {k : PrefixKey w} {es : List (PrefixKey w × V)} {e : PrefixKey w × V} :
    e ∈ others k es ↔ e ∈ es ∧ ¬ e.1.Same k := by
  simp [others]

def insert (t : ListTrie w V cap) (k : PrefixKey w) (v : V) : Option (ListTrie w V cap) :=
  if hk : k.prefixLen ≤ w then
    if (∃ e ∈ t.entries, e.1.Same k) ∨ t.entries.length < cap then
      some
        { entries := (k, v) :: others k t.entries
          bounded := by
            intro e he
            rcases List.mem_cons.mp he with rfl | he
            · exact hk
            · exact t.bounded e (mem_others.mp he).1
          distinct := by
            refine List.pairwise_cons.mpr ⟨fun e he hs => ?_, t.distinct.filter _⟩
            exact (mem_others.mp he).2 hs.symm }
    else none
  else none

def remove (t : ListTrie w V cap) (k : PrefixKey w) : Option (ListTrie w V cap) :=
  if ∃ e ∈ t.entries, e.1.Same k then
    some
      { entries := others k t.entries
        bounded := fun e he => t.bounded e (mem_others.mp he).1
        distinct := t.distinct.filter _ }
  else none

instance : PrefixMap (ListTrie w V cap) w V where
  empty := ⟨[], by simp, .nil⟩
  entries := entries
  get t k := (longest k.data (t.entries.filter fun e => e.1.prefixLen ≤ k.prefixLen)).map (·.2)
  insert := insert
  remove := remove

/-- `longest` finds an entry exactly when one covers the address. -/
theorem longest_eq_none {a : BitVec w} {es : List (PrefixKey w × V)} :
    longest a es = none ↔ ∀ e ∈ es, ¬ e.1.Covers a := by
  induction es with
  | nil => simp [longest]
  | cons e es ih =>
    rw [longest]
    cases h : longest a es with
    | none =>
      rw [List.forall_mem_cons]
      by_cases hc : e.1.Covers a
      · simp [hc]
      · simp only [hc, if_false, true_iff]
        exact ⟨not_false, ih.mp h⟩
    | some f =>
      have hex : ¬ ∀ e ∈ es, ¬ e.1.Covers a := fun hn => by simp [ih.mpr hn] at h
      rw [List.forall_mem_cons]
      refine iff_of_false ?_ fun hn => hex hn.2
      simp only
      split <;> simp

/-- What `longest` finds is the most specific covering entry. -/
theorem isLongest_of_longest {a : BitVec w} {es : List (PrefixKey w × V)} {e : PrefixKey w × V}
    (h : longest a es = some e) : IsLongest es a e := by
  induction es generalizing e with
  | nil => simp [longest] at h
  | cons g es ih =>
    rw [longest] at h
    cases hl : longest a es with
    | none =>
      rw [hl] at h
      simp only at h
      split at h
      · cases h
        rename_i hc
        refine ⟨.head _, hc, fun x hx hxc => ?_⟩
        rcases List.mem_cons.mp hx with rfl | hx
        · exact Nat.le_refl _
        · exact absurd hxc (longest_eq_none.mp hl x hx)
      · cases h
    | some f =>
      rw [hl] at h
      simp only at h
      have hf := ih hl
      split at h
      · cases h
        rename_i hc
        refine ⟨.head _, hc.1, fun x hx hxc => ?_⟩
        rcases List.mem_cons.mp hx with rfl | hx
        · exact Nat.le_refl _
        · exact Nat.le_trans (hf.2.2 x hx hxc) (Nat.le_of_lt hc.2)
      · cases h
        rename_i hc
        refine ⟨List.mem_cons_of_mem _ hf.1, hf.2.1, fun x hx hxc => ?_⟩
        rcases List.mem_cons.mp hx with rfl | hx
        · exact Nat.not_lt.mp fun hlt => hc ⟨hxc, hlt⟩
        · exact hf.2.2 x hx hxc

/-- A full-length lookup sees every entry. -/
theorem filter_full (t : ListTrie w V cap) :
    (t.entries.filter fun e => e.1.prefixLen ≤ w) = t.entries :=
  List.filter_eq_self.mpr fun e he => decide_eq_true (t.bounded e he)

instance : LawfulPrefixMap (ListTrie w V cap) where
  entries_empty := rfl
  distinct := distinct
  get_eq_some t a v := by
    show (longest a (t.entries.filter fun e => e.1.prefixLen ≤ w)).map (·.2) = some v ↔ _
    rw [t.filter_full]
    constructor
    · intro h
      obtain ⟨⟨k, _⟩, he, rfl⟩ := Option.map_eq_some_iff.mp h
      exact ⟨k, isLongest_of_longest he⟩
    · rintro ⟨k, hk⟩
      cases hl : longest a t.entries with
      | none => exact absurd hk.2.1 (longest_eq_none.mp hl _ hk.1)
      | some e => rw [(isLongest_of_longest hl).unique t.distinct hk]; rfl
  mem_insert {t t' k v} h e := by
    change t.insert k v = some t' at h
    unfold insert at h
    split at h
    · split at h
      · cases h
        exact List.mem_cons.trans (or_congr_right mem_others)
      · cases h
    · cases h
  le_of_insert {t t' k v} h := by
    change t.insert k v = some t' at h
    unfold insert at h
    split at h
    · assumption
    · cases h
  mem_remove {t t' k} h e := by
    change t.remove k = some t' at h
    unfold remove at h
    split at h
    · cases h
      exact mem_others
    · cases h
  remove_isSome {t k e} he hs := by
    show (t.remove k).isSome
    rw [remove, if_pos ⟨e, he, hs⟩]
    rfl

end ListTrie

end ActiveDefense
