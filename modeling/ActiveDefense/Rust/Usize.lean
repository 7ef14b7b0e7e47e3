import ActiveDefense.Rust.Arith

/-!
# Targets with a `usize` of 32 or of 64 bits

An addition or multiplication that leaves the range of its type is a panic, and so is a range that
is not within the slice; `checked_add`, `checked_mul` and `get` give `none` instead.
-/

namespace ActiveDefense

/-- `n`, on an unsigned type with this greatest value. -/
def inRange (greatest n : Nat) : Except Panic Nat :=
  if n ≤ greatest then .ok n else .error .overflow

theorem inRange_of_le {greatest n : Nat} (h : n ≤ greatest) : inRange greatest n = .ok n := if_pos h

/-- `u32::MAX`. -/
def u32Max : Nat := 2 ^ 32 - 1

/-- `u64::MAX`. -/
def u64Max : Nat := 2 ^ 64 - 1

/-- The width of a `usize`. -/
inductive UsizeWidth where
  | w32
  | w64
deriving DecidableEq, Repr

namespace UsizeWidth

def bits : UsizeWidth → Nat
  | .w32 => 32
  | .w64 => 64

variable (w : UsizeWidth)

/-- `usize::MAX`. -/
def usizeMax : Nat := 2 ^ w.bits - 1

/-- `isize::MAX`, the longest a slice can be in bytes. -/
def isizeMax : Nat := 2 ^ (w.bits - 1) - 1

/-- `a + b`. -/
def add (a b : Nat) : Except Panic Nat := inRange w.usizeMax (a + b)

/-- `a * b`. -/
def mul (a b : Nat) : Except Panic Nat := inRange w.usizeMax (a * b)

/-- `usize::checked_add`. -/
def checkedAdd (a b : Nat) : Option Nat := if a + b ≤ w.usizeMax then some (a + b) else none

/-- `usize::checked_mul`. -/
def checkedMul (a b : Nat) : Option Nat := if a * b ≤ w.usizeMax then some (a * b) else none

/-- `usize::saturating_add`. -/
def saturatingAdd (a b : Nat) : Nat := min (a + b) w.usizeMax

/-- `usize::saturating_mul`. -/
def saturatingMul (a b : Nat) : Nat := min (a * b) w.usizeMax

variable {w}

theorem add_of_le {a b : Nat} (h : a + b ≤ w.usizeMax) : w.add a b = .ok (a + b) := inRange_of_le h

theorem mul_of_le {a b : Nat} (h : a * b ≤ w.usizeMax) : w.mul a b = .ok (a * b) := inRange_of_le h

theorem eq_add_of_checkedAdd {a b c : Nat} (h : w.checkedAdd a b = some c) : c = a + b := by
  unfold checkedAdd at h
  split at h <;> cases h
  rfl

theorem eq_mul_of_checkedMul {a b c : Nat} (h : w.checkedMul a b = some c) : c = a * b := by
  unfold checkedMul at h
  split at h <;> cases h
  rfl

/-- A length is a `usize`, and fits a `u64` with room to spare. -/
theorem isizeMax_le : w.isizeMax ≤ w.usizeMax ∧ w.isizeMax ≤ u64Max := by
  cases w <;> decide

end UsizeWidth

/-- A byte slice of such a target. -/
structure Buffer (w : UsizeWidth) where
  bytes : List UInt8
  length_le : bytes.length ≤ w.isizeMax
deriving DecidableEq

namespace Buffer

variable {w : UsizeWidth} (buf : Buffer w)

/-- `slice::len`. -/
def len : Nat := buf.bytes.length

/-- `buf.get(first..last)`. -/
def get (first last : Nat) : Option (List UInt8) :=
  if first ≤ last ∧ last ≤ buf.len then some ((buf.bytes.drop first).take (last - first)) else none

/-- `&buf[first..last]`. -/
def slice (first last : Nat) : Except Panic (List UInt8) :=
  match buf.get first last with
  | some s => .ok s
  | none => .error .outOfBounds

variable {buf} {first last : Nat}

/-- A position in a buffer is a `usize`. -/
theorem le_usizeMax {n : Nat} (h : n ≤ buf.len) : n ≤ w.usizeMax :=
  Nat.le_trans (Nat.le_trans h buf.length_le) UsizeWidth.isizeMax_le.1

theorem len_le_u64Max : buf.len ≤ u64Max :=
  Nat.le_trans buf.length_le UsizeWidth.isizeMax_le.2

theorem get_of_le (h : first ≤ last) (hlast : last ≤ buf.len) :
    buf.get first last = some ((buf.bytes.drop first).take (last - first)) := if_pos ⟨h, hlast⟩

/-- What `get` gives is a part of the buffer. -/
theorem length_of_get {s : List UInt8} (h : buf.get first last = some s) :
    first + s.length = last ∧ last ≤ buf.len := by
  unfold get at h
  split at h
  · next hle =>
    cases h
    have hlen : buf.len = buf.bytes.length := rfl
    rw [List.length_take, List.length_drop]
    omega
  · cases h

theorem slice_of_le (h : first ≤ last) (hlast : last ≤ buf.len) :
    buf.slice first last = .ok ((buf.bytes.drop first).take (last - first)) := by
  rw [slice, get_of_le h hlast]

end Buffer

end ActiveDefense
