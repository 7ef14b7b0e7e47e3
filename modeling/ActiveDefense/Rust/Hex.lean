import ActiveDefense.Rust.Utf8
import Mathlib.Tactic.IntervalCases

/-!
# Hexadecimal text

The `hex` crate: two lower-case digits for each byte; digits of either case are read.
-/

namespace ActiveDefense

/-- `hex::encode`. -/
def hexEncode (bytes : List UInt8) : Str :=
  bytes.flatMap fun b => [Nat.digitChar (b.toNat / 16), Nat.digitChar (b.toNat % 16)]

theorem exists_of_mem_hexEncode {c : Char} {bytes : List UInt8} (h : c ∈ hexEncode bytes) :
    ∃ n < 16, c = Nat.digitChar n := by
  obtain ⟨b, -, hc⟩ := List.mem_flatMap.mp h
  have hlt := b.toNat_lt
  rcases List.mem_cons.mp hc with rfl | hc
  · exact ⟨b.toNat / 16, by omega, rfl⟩
  · exact ⟨b.toNat % 16, by omega, List.mem_singleton.mp hc⟩

/-- `hex::FromHexError`, as far as decoding to a vector comes to it. -/
inductive FromHexError where
  | invalidHexCharacter (c : UInt8) (index : Nat)
  | oddLength
deriving DecidableEq, Repr

/-- The value of one digit. -/
def hexVal (c : UInt8) (index : Nat) : Except FromHexError UInt8 :=
  if 65 ≤ c ∧ c ≤ 70 then .ok (c - 65 + 10)
  else if 97 ≤ c ∧ c ≤ 102 then .ok (c - 97 + 10)
  else if 48 ≤ c ∧ c ≤ 57 then .ok (c - 48)
  else .error (.invalidHexCharacter c index)

/-- The digits from an index on, in pairs. -/
def hexPairs (index : Nat) : List UInt8 → Except FromHexError (List UInt8)
  | hi :: lo :: rest => do
    let h ← hexVal hi index
    let l ← hexVal lo (index + 1)
    return (h <<< 4 ||| l) :: (← hexPairs (index + 2) rest)
  | _ => return []

/-- `hex::decode`. -/
def hexDecode (text : List UInt8) : Except FromHexError (List UInt8) :=
  if text.length % 2 ≠ 0 then .error .oddLength else hexPairs 0 text

/-- The digit of a value is one byte, which is read as the value. -/
theorem hexVal_digitChar {n : Nat} (h : n < 16) (index : Nat) :
    ∃ c, String.utf8EncodeChar (Nat.digitChar n) = [c] ∧ hexVal c index = .ok (UInt8.ofNat n) := by
  refine ⟨UInt8.ofNat (Nat.digitChar n).toNat, ?_, ?_⟩
  · revert h
    revert n
    decide
  · interval_cases n <;> rfl

/-- The two halves of a byte. -/
theorem halves_eq (b : UInt8) :
    UInt8.ofNat (b.toNat / 16) <<< 4 ||| UInt8.ofNat (b.toNat % 16) = b := by
  have hall : ∀ n < 256, UInt8.ofNat (n / 16) <<< 4 ||| UInt8.ofNat (n % 16) = UInt8.ofNat n := by
    decide +kernel
  rw [hall b.toNat b.toNat_lt, UInt8.ofNat_toNat]

/-- A byte is encoded as two digits, which are read as its halves. -/
theorem exists_utf8_hexEncode_cons (b : UInt8) (rest : List UInt8) (index : Nat) :
    ∃ hi lo, utf8 (hexEncode (b :: rest)) = hi :: lo :: utf8 (hexEncode rest) ∧
      hexVal hi index = .ok (UInt8.ofNat (b.toNat / 16)) ∧
      hexVal lo (index + 1) = .ok (UInt8.ofNat (b.toNat % 16)) := by
  have hlt := b.toNat_lt
  obtain ⟨hi, hhi, hval⟩ := hexVal_digitChar (n := b.toNat / 16) (by omega) index
  obtain ⟨lo, hlo, hval'⟩ := hexVal_digitChar (n := b.toNat % 16) (by omega) (index + 1)
  exact ⟨hi, lo, by simp [hexEncode, utf8, hhi, hlo], hval, hval'⟩

theorem hexPairs_hexEncode (bytes : List UInt8) (index : Nat) :
    hexPairs index (utf8 (hexEncode bytes)) = .ok bytes := by
  induction bytes generalizing index with
  | nil => rfl
  | cons b rest ih =>
    obtain ⟨hi, lo, htext, hhi, hlo⟩ := exists_utf8_hexEncode_cons b rest index
    rw [htext, hexPairs, hhi, hlo, ih]
    exact congrArg (fun b => Except.ok (b :: rest)) (halves_eq b)

/-- What is encoded is decoded. -/
theorem hexDecode_hexEncode (bytes : List UInt8) :
    hexDecode (utf8 (hexEncode bytes)) = .ok bytes := by
  have heven : (utf8 (hexEncode bytes)).length % 2 = 0 := by
    induction bytes with
    | nil => rfl
    | cons b rest ih =>
      obtain ⟨hi, lo, htext, -⟩ := exists_utf8_hexEncode_cons b rest 0
      rw [htext, List.length_cons, List.length_cons]
      omega
  rw [hexDecode, if_neg (not_not.mpr heven), hexPairs_hexEncode]

end ActiveDefense
