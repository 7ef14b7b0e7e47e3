import Mathlib.Algebra.Ring.Nat
import Mathlib.Data.List.Basic

/-!
# Checked arithmetic and indexing

A `usize` is a natural number below `2 ^ 64`. An addition or subtraction that leaves the range, and
an index past the end, is a panic; a computation that may panic is an `Except Panic`, or an `Exec`
where it changes a state. In a build without overflow checks an addition or subtraction wraps
instead (`OverflowChecks`), so such a build does the same wherever one with the checks does not
panic (`Extends`).
-/

namespace ActiveDefense

/-- Why a computation panics. -/
inductive Panic where
  | overflow
  | outOfBounds
  | charBoundary
deriving DecidableEq, Repr

/-- `usize::MAX`. -/
def usizeMax : Nat := 2 ^ 64 - 1

/-- `isize::MAX`, the longest a slice can be in bytes. -/
def isizeMax : Nat := 2 ^ 63 - 1

/-- A byte slice. -/
structure Slice where
  bytes : List UInt8
  length_le : bytes.length ≤ isizeMax
deriving DecidableEq

/-- `slice::len`. -/
def Slice.len (s : Slice) : Nat := s.bytes.length

/-- The lengths of two parts of a slice add up without overflow. -/
theorem Slice.add_le_usizeMax {s : Slice} {m n : Nat} (hm : m ≤ s.len) (hn : n ≤ s.len) :
    m + n ≤ usizeMax := by
  have hlen : s.len ≤ isizeMax := s.length_le
  simp only [isizeMax, usizeMax] at *
  omega

/-- A position in a slice and the length of another one add up without overflow. -/
theorem Slice.add_isize_le_usizeMax {s : Slice} {m n : Nat} (hm : m ≤ s.len) (hn : n ≤ isizeMax) :
    m + n ≤ usizeMax := by
  have hlen : s.len ≤ isizeMax := s.length_le
  simp only [isizeMax, usizeMax] at *
  omega

/-- A position in a slice is a `usize`. -/
theorem Slice.le_usizeMax {s : Slice} {n : Nat} (h : n ≤ s.len) : n ≤ usizeMax :=
  s.add_le_usizeMax h (Nat.zero_le _)

/-- `a + b` on `usize`. -/
def checkedAdd (a b : Nat) : Except Panic Nat :=
  if a + b ≤ usizeMax then .ok (a + b) else .error .overflow

/-- `a - b` on `usize`. -/
def checkedSub (a b : Nat) : Except Panic Nat :=
  if b ≤ a then .ok (a - b) else .error .overflow

/-- `usize::saturating_add`. -/
def saturatingAdd (a b : Nat) : Nat := min (a + b) usizeMax

/-- `usize::saturating_sub`. -/
def saturatingSub (a b : Nat) : Nat := a - b

/-- A computation that changes a state and may panic; the state at the panic is kept. -/
abbrev Exec (σ α : Type) : Type := EStateM Panic σ α

/-- `a + b` on `u32`. -/
def addU32 {σ : Type} (a b : UInt32) : Exec σ UInt32 :=
  if a.toNat + b.toNat < 2 ^ 32 then pure (a + b) else throw .overflow

/-- `a + b` on `u64`. -/
def addU64 {σ : Type} (a b : UInt64) : Exec σ UInt64 :=
  if a.toNat + b.toNat < 2 ^ 64 then pure (a + b) else throw .overflow

/-- `a + b` on `u16`, where nothing changes a state. -/
def sumU16 (a b : UInt16) : Except Panic UInt16 :=
  if a.toNat + b.toNat < 2 ^ 16 then .ok (a + b) else .error .overflow

/-- `a + b` on `u32`, where nothing changes a state. -/
def sumU32 (a b : UInt32) : Except Panic UInt32 :=
  if a.toNat + b.toNat < 2 ^ 32 then .ok (a + b) else .error .overflow

/-- `a + b` on `u64`, where nothing changes a state. -/
def sumU64 (a b : UInt64) : Except Panic UInt64 :=
  if a.toNat + b.toNat < 2 ^ 64 then .ok (a + b) else .error .overflow

/-- Indexing. -/
def index {α : Type} (xs : List α) (i : Nat) : Except Panic α :=
  match xs[i]? with
  | some x => .ok x
  | none => .error .outOfBounds

/-- `Iterator::find` with a predicate that may panic. -/
def findM {α : Type} (p : α → Except Panic Bool) : List α → Except Panic (Option α)
  | [] => .ok none
  | x :: xs => do
    if ← p x then .ok (some x) else findM p xs

/-- `Iterator::all` with a predicate that may panic. -/
def allM {α : Type} (p : α → Except Panic Bool) : List α → Except Panic Bool
  | [] => .ok true
  | x :: xs => do
    if ← p x then allM p xs else .ok false

/-- A computation in two parts succeeds if both do. -/
theorem bind_eq_ok {ε α β : Type} {x : Except ε α} {f : α → Except ε β} {b : β} :
    x >>= f = .ok b ↔ ∃ a, x = .ok a ∧ f a = .ok b := by
  cases x <;> simp [bind, Except.bind]

theorem checkedAdd_of_le {a b : Nat} (h : a + b ≤ usizeMax) : checkedAdd a b = .ok (a + b) :=
  if_pos h

theorem checkedSub_of_le {a b : Nat} (h : b ≤ a) : checkedSub a b = .ok (a - b) :=
  if_pos h

theorem sumU16_of_lt {a b : UInt16} (h : a.toNat + b.toNat < 2 ^ 16) : sumU16 a b = .ok (a + b) :=
  if_pos h

theorem sumU32_of_lt {a b : UInt32} (h : a.toNat + b.toNat < 2 ^ 32) : sumU32 a b = .ok (a + b) :=
  if_pos h

theorem sumU64_of_lt {a b : UInt64} (h : a.toNat + b.toNat < 2 ^ 64) : sumU64 a b = .ok (a + b) :=
  if_pos h

theorem toNat_of_sumU32 {a b c : UInt32} (h : sumU32 a b = .ok c) :
    c.toNat = a.toNat + b.toNat := by
  rw [sumU32] at h
  split at h
  · next hlt =>
    cases h
    rw [UInt32.toNat_add, Nat.mod_eq_of_lt hlt]
  · cases h

theorem index_of_getElem? {α : Type} {xs : List α} {i : Nat} {x : α} (h : xs[i]? = some x) :
    index xs i = .ok x := by
  simp [index, h]

theorem getElem?_of_index {α : Type} {xs : List α} {i : Nat} {x : α} (h : index xs i = .ok x) :
    xs[i]? = some x := by
  rw [index] at h
  split at h
  · next hget => exact Except.ok.inj h ▸ hget
  · cases h

/-- Where the predicate does not panic, the search is `List.find?`. -/
theorem findM_of_ok {α : Type} {p : α → Except Panic Bool} {q : α → Bool} {xs : List α}
    (h : ∀ x ∈ xs, p x = .ok (q x)) : findM p xs = .ok (xs.find? q) := by
  induction xs with
  | nil => rfl
  | cons x xs ih =>
    have htail := ih fun y hy => h y (List.mem_cons_of_mem _ hy)
    rw [findM, h x (.head _)]
    cases hq : q x with
    | true => simp [hq, bind, Except.bind]
    | false => simp [hq, htail, bind, Except.bind]

/-- Where the predicate does not panic, `allM` is `List.all`. -/
theorem allM_of_ok {α : Type} {p : α → Except Panic Bool} {q : α → Bool} {xs : List α}
    (h : ∀ x ∈ xs, p x = .ok (q x)) : allM p xs = .ok (xs.all q) := by
  induction xs with
  | nil => rfl
  | cons x xs ih =>
    have htail := ih fun y hy => h y (List.mem_cons_of_mem _ hy)
    rw [allM, h x (.head _)]
    cases hq : q x with
    | true => simp [hq, htail, bind, Except.bind]
    | false => simp [hq, bind, Except.bind]

/-! ## Builds without overflow checks -/

/-- Whether a build checks for overflow: by default a debug build does and a release build does
not. -/
inductive OverflowChecks where
  | on
  | off
deriving DecidableEq, Repr

/-- `a + b` on `usize`. -/
def addUsize : OverflowChecks → Nat → Nat → Except Panic Nat
  | .on, a, b => checkedAdd a b
  | .off, a, b => .ok ((a + b) % (usizeMax + 1))

/-- `a - b` on `usize`. -/
def subUsize : OverflowChecks → Nat → Nat → Except Panic Nat
  | .on, a, b => checkedSub a b
  | .off, a, b => .ok ((a + (usizeMax + 1) - b) % (usizeMax + 1))

/-- What is in the range does not wrap. -/
theorem mod_usize_of_le {n : Nat} (h : n ≤ usizeMax) : n % (usizeMax + 1) = n :=
  Nat.mod_eq_of_lt (Nat.lt_add_one_of_le h)

/-- Wherever `x` does not panic, `y` gives what it gives. -/
def Extends {α : Type} (x y : Except Panic α) : Prop := ∀ a, x = .ok a → y = .ok a

namespace Extends

variable {α β : Type}

theorem refl (x : Except Panic α) : Extends x x := fun _ => id

/-- Two computations in a row. -/
theorem bind {x y : Except Panic α} {f g : α → Except Panic β} (h : Extends x y)
    (hnext : ∀ a, Extends (f a) (g a)) : Extends (x >>= f) (y >>= g) := by
  intro b hb
  obtain ⟨a, ha, hfa⟩ := bind_eq_ok.mp hb
  exact bind_eq_ok.mpr ⟨a, h a ha, hnext a b hfa⟩

/-- A choice that both make. -/
theorem ite {p : Prop} [Decidable p] {x y x' y' : Except Panic α} (h : Extends x y)
    (h' : Extends x' y') : Extends (if p then x else x') (if p then y else y') := by
  split
  · exact h
  · exact h'

theorem addUsize (checks : OverflowChecks) {a b : Nat} :
    Extends (checkedAdd a b) (addUsize checks a b) := by
  intro c hc
  cases checks with
  | on => exact hc
  | off =>
    rw [checkedAdd] at hc
    split at hc
    · next hle =>
      cases hc
      exact congrArg Except.ok (mod_usize_of_le hle)
    · cases hc

theorem subUsize (checks : OverflowChecks) {a b : Nat} (ha : a ≤ usizeMax) :
    Extends (checkedSub a b) (subUsize checks a b) := by
  intro c hc
  cases checks with
  | on => exact hc
  | off =>
    rw [checkedSub] at hc
    split at hc
    · next hle =>
      cases hc
      have hsum : a + (usizeMax + 1) - b = a - b + (usizeMax + 1) := by omega
      rw [ActiveDefense.subUsize, hsum, Nat.add_mod_right, mod_usize_of_le (by omega)]
    · cases hc

theorem findM {p q : α → Except Panic Bool} (h : ∀ x, Extends (p x) (q x)) {xs : List α} :
    Extends (findM p xs) (findM q xs) := by
  induction xs with
  | nil => exact refl _
  | cons x xs ih => exact (h x).bind fun _ => .ite (refl _) ih

theorem allM {p q : α → Except Panic Bool} (h : ∀ x, Extends (p x) (q x)) {xs : List α} :
    Extends (allM p xs) (allM q xs) := by
  induction xs with
  | nil => exact refl _
  | cons x xs ih => exact (h x).bind fun _ => .ite ih (refl _)

end Extends

end ActiveDefense
