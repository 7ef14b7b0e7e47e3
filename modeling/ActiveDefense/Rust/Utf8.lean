import ActiveDefense.Rust.Arith
import ActiveDefense.Rust.Text
import Mathlib.Data.List.Flatten

/-!
# UTF-8

The bytes of a string, and the decoding of bytes. A newline byte occurs in the bytes of a string
only as the newline character, so lines can be cut before they are decoded. A string is sliced by
byte offsets, and a slice that would cut a character is a panic.
-/

namespace ActiveDefense

/-- `str::as_bytes`. -/
def utf8 (s : Str) : List UInt8 := s.flatMap String.utf8EncodeChar

/-- `str::from_utf8`; `none` is its error. -/
def fromUtf8 (b : List UInt8) : Option Str := b.toByteArray.utf8Decode?.map Array.toList

/-- Whether `b` can follow the leading byte `a` of a sequence of three or four bytes. -/
def isLongPrefix (a b : UInt8) : Bool :=
  let within (lo hi : UInt8) : Bool := lo ≤ b && b ≤ hi
  if a = 0xE0 then within 0xA0 0xBF
  else if a = 0xED then within 0x80 0x9F
  else if 0xE1 ≤ a && a ≤ 0xEF then within 0x80 0xBF
  else if a = 0xF0 then within 0x90 0xBF
  else if a = 0xF4 then within 0x80 0x8F
  else if 0xF1 ≤ a && a ≤ 0xF3 then within 0x80 0xBF
  else false

/-- `String::from_utf8_lossy` of two bytes: each invalid part, as long as it could begin a
character, is one replacement character. -/
def fromUtf8LossyPair (a b : UInt8) : Str :=
  match fromUtf8 [a, b] with
  | some s => s
  | none =>
    if isLongPrefix a b then ['\uFFFD']
    else
      let lossy (x : UInt8) : Char := if x < 0x80 then Char.ofNat x.toNat else '\uFFFD'
      [lossy a, lossy b]

/-- Whether the byte goes on with a sequence after its second byte. -/
def isContinuation (b : UInt8) : Bool := 0x80 ≤ b && b ≤ 0xBF

/-- How many bytes of the front make up one character or one invalid part. -/
def utf8PartLength : List UInt8 → Nat
  | [] => 0
  | a :: rest =>
    if 0xC2 ≤ a && a ≤ 0xDF then 1 + (rest.take 1 |>.takeWhile isContinuation).length
    else
      match rest with
      | b :: rest' =>
        if isLongPrefix a b then
          2 + (rest'.take (if a < 0xF0 then 1 else 2) |>.takeWhile isContinuation).length
        else 1
      | [] => 1

/-- The parts of bytes, each as its character or as one replacement character. -/
def fromUtf8LossyParts : Nat → List UInt8 → Str
  | 0, _ => []
  | _ + 1, [] => []
  | turns + 1, bytes =>
    let part := bytes.take (utf8PartLength bytes)
    (fromUtf8 part).getD ['\uFFFD'] ++
      fromUtf8LossyParts turns (bytes.drop (utf8PartLength bytes))

/-- `String::from_utf8_lossy`. -/
def fromUtf8Lossy (bytes : List UInt8) : Str := fromUtf8LossyParts bytes.length bytes

theorem utf8_append (s t : Str) : utf8 (s ++ t) = utf8 s ++ utf8 t := List.flatMap_append

theorem utf8_cons (c : Char) (s : Str) : utf8 (c :: s) = String.utf8EncodeChar c ++ utf8 s :=
  List.flatMap_cons

/-- A part of a string is no longer than the string. -/
theorem utf8_length_le {s t : Str} (h : s.Sublist t) : (utf8 s).length ≤ (utf8 t).length :=
  (h.flatMap String.utf8EncodeChar).length_le

/-- The bytes of a string decode to it. -/
theorem fromUtf8_utf8 (s : Str) : fromUtf8 (utf8 s) = some s := by
  have hdec : (utf8 s).toByteArray.utf8Decode? = some s.toArray := List.utf8Decode?_utf8Encode
  simp [fromUtf8, hdec]

theorem utf8_inj {s t : Str} (h : utf8 s = utf8 t) : s = t := by
  have hdec := congrArg fromUtf8 h
  rw [fromUtf8_utf8, fromUtf8_utf8] at hdec
  exact Option.some.inj hdec

/-- Bytes that decode are those of the string. -/
theorem utf8_of_fromUtf8 {b : List UInt8} {s : Str} (h : fromUtf8 b = some s) : utf8 s = b := by
  obtain ⟨chars, hchars, -⟩ := Option.map_eq_some_iff.mp h
  obtain ⟨m, hm⟩ := ByteArray.isSome_utf8Decode?_iff.mp (Option.isSome_of_eq_some hchars)
  have hbytes : b.toByteArray = (utf8 m).toByteArray := hm
  have hb : b = utf8 m := by simpa using congrArg (fun x => x.data.toList) hbytes
  rw [hb, fromUtf8_utf8] at h
  rw [hb, Option.some.inj h]

/-- A string whose bytes are the first of another one begins it. -/
theorem prefix_of_utf8_append {s t : Str} {b : List UInt8} (h : utf8 s ++ b = utf8 t) : s <+: t := by
  refine List.isPrefix_of_utf8Encode_append_eq_utf8Encode b.toByteArray ?_
  change (utf8 s).toByteArray ++ b.toByteArray = (utf8 t).toByteArray
  rw [← h, List.toByteArray_append]

/-- A byte below 0x80 belongs to the character of its value only. -/
theorem toNat_of_mem_utf8EncodeChar {c : Char} {b : UInt8} (hb : b.toNat < 128)
    (h : b ∈ String.utf8EncodeChar c) : c.toNat = b.toNat := by
  change c.val.toNat = b.toNat
  simp only [String.utf8EncodeChar] at h
  generalize c.val.toNat = n at h ⊢
  repeat' split at h
  all_goals
    simp only [List.mem_cons, List.not_mem_nil, or_false, ← UInt8.toNat_inj,
      UInt8.toNat_ofNat'] at h
    omega

theorem not_mem_utf8 {s : Str} {a : Char} {b : UInt8} (hb : b.toNat < 128)
    (hab : a.toNat = b.toNat) (h : a ∉ s) : b ∉ utf8 s := by
  intro hmem
  obtain ⟨c, hc, hbc⟩ := List.mem_flatMap.mp hmem
  have hca : c.toNat = a.toNat := (toNat_of_mem_utf8EncodeChar hb hbc).trans hab.symm
  exact h (Char.ext (UInt32.toNat_inj.mp hca) ▸ hc)

/-- The first byte of a string is that of its first character. -/
theorem head?_utf8_ne {s : Str} {a : Char} {b : UInt8} (hb : b.toNat < 128)
    (hab : a.toNat = b.toNat) (h : s.head? ≠ some a) : (utf8 s).head? ≠ some b := by
  cases s with
  | nil => exact nofun
  | cons c s =>
    have hmem : b ∉ utf8 [c] := not_mem_utf8 hb hab (by simpa using Ne.symm (by simpa using h))
    have hne : String.utf8EncodeChar c ≠ [] := String.utf8EncodeChar_ne_nil
    rw [utf8_cons] at hmem ⊢
    rw [List.head?_append_of_ne_nil _ hne]
    exact fun hhead => hmem (List.mem_append_left _ (List.mem_of_mem_head? hhead))

theorem newline_not_mem_utf8 {s : Str} (h : '\n' ∉ s) : (10 : UInt8) ∉ utf8 s :=
  not_mem_utf8 (by decide) rfl h

/-- The bytes of a character below 0x80. -/
theorem utf8EncodeChar_of_ascii {a : Char} {b : UInt8} (hb : b.toNat < 128)
    (hab : a.toNat = b.toNat) : String.utf8EncodeChar a = [b] := by
  have hval : a.val.toNat = b.toNat := hab
  have hle : b.toNat ≤ 127 := Nat.le_of_lt_succ hb
  rw [String.utf8EncodeChar, hval, if_pos hle, List.singleton_inj, ← UInt8.toNat_inj]
  simp

/-- Where a character below 0x80 is in the bytes of a string, the string can be cut. -/
theorem exists_of_utf8_eq_append {a : Char} {b : UInt8} (hb : b.toNat < 128)
    (hab : a.toNat = b.toNat) {s : Str} {xs ys : List UInt8} (h : utf8 s = xs ++ b :: ys) :
    ∃ t u, s = t ++ a :: u ∧ utf8 t = xs ∧ utf8 u = ys := by
  induction s generalizing xs with
  | nil => simp [utf8] at h
  | cons c s ih =>
    by_cases hc : c = a
    · rw [hc, utf8_cons, utf8EncodeChar_of_ascii hb hab] at h
      cases xs with
      | nil => exact ⟨[], s, by rw [hc]; rfl, rfl, (List.cons.inj h).2⟩
      | cons x xs =>
        obtain ⟨hx, hrest⟩ := List.cons.inj h
        obtain ⟨t, u, rfl, ht, hu⟩ := ih hrest
        refine ⟨c :: t, u, rfl, ?_, hu⟩
        rw [utf8_cons, hc, utf8EncodeChar_of_ascii hb hab, ht, ← hx]
        rfl
    · rw [utf8_cons] at h
      rcases List.append_eq_append_iff.mp h with ⟨zs, rfl, hrest⟩ | ⟨zs, hchar, hrest⟩
      · obtain ⟨t, u, rfl, ht, hu⟩ := ih hrest
        exact ⟨c :: t, u, rfl, by rw [utf8_cons, ht], hu⟩
      · cases zs with
        | nil =>
          have hrest : utf8 s = [] ++ b :: ys := hrest.symm
          obtain ⟨t, u, rfl, ht, hu⟩ := ih hrest
          refine ⟨c :: t, u, rfl, ?_, hu⟩
          rw [utf8_cons, ht, hchar, List.append_nil, List.append_nil]
        | cons z zs =>
          obtain ⟨rfl, -⟩ := List.cons.inj hrest
          have hmem : b ∈ String.utf8EncodeChar c := hchar ▸ List.mem_append_right _ (.head _)
          have hsame : c.toNat = a.toNat := (toNat_of_mem_utf8EncodeChar hb hmem).trans hab.symm
          exact absurd (Char.ext (UInt32.toNat_inj.mp hsame)) hc

/-! ## Slicing -/

/-- The characters from a byte offset on, which must be a character boundary. -/
def dropBytes : Str → Nat → Option Str
  | s, 0 => some s
  | [], _ + 1 => none
  | c :: s, n + 1 => if c.utf8Size ≤ n + 1 then dropBytes s (n + 1 - c.utf8Size) else none

/-- The characters before a byte offset, which must be a character boundary. -/
def takeBytes : Str → Nat → Option Str
  | _, 0 => some []
  | [], _ + 1 => none
  | c :: s, n + 1 =>
    if c.utf8Size ≤ n + 1 then (takeBytes s (n + 1 - c.utf8Size)).map (c :: ·) else none

/-- `&s[first..last]`. -/
def strSlice (s : Str) (first last : Nat) : Except Panic Str :=
  if last < first then .error .outOfBounds
  else
    match (dropBytes s first).bind (takeBytes · (last - first)) with
    | some t => .ok t
    | none => .error .charBoundary

theorem utf8_cons_length (c : Char) (s : Str) :
    (utf8 (c :: s)).length = c.utf8Size + (utf8 s).length := by
  rw [utf8, List.flatMap_cons, List.length_append, String.length_utf8EncodeChar]
  rfl

/-- After a beginning of the string comes the rest. -/
theorem dropBytes_append (s t : Str) : dropBytes (s ++ t) (utf8 s).length = some t := by
  induction s with
  | nil => exact dropBytes.eq_1 t
  | cons c s ih =>
    obtain ⟨n, hn⟩ : ∃ n, (utf8 (c :: s)).length = n + 1 := by
      have hpos := c.utf8Size_pos
      exact ⟨_, (Nat.sub_add_cancel (by rw [utf8_cons_length]; omega)).symm⟩
    have hlen := utf8_cons_length c s
    have hrest : n + 1 - c.utf8Size = (utf8 s).length := by omega
    rw [hn, List.cons_append, dropBytes, if_pos (by omega), hrest, ih]

/-- Before the rest of the string comes its beginning. -/
theorem takeBytes_append (s t : Str) : takeBytes (s ++ t) (utf8 s).length = some s := by
  induction s with
  | nil => cases t <;> rfl
  | cons c s ih =>
    obtain ⟨n, hn⟩ : ∃ n, (utf8 (c :: s)).length = n + 1 := by
      have hpos := c.utf8Size_pos
      exact ⟨_, (Nat.sub_add_cancel (by rw [utf8_cons_length]; omega)).symm⟩
    have hlen := utf8_cons_length c s
    have hrest : n + 1 - c.utf8Size = (utf8 s).length := by omega
    rw [hn, List.cons_append, takeBytes, if_pos (by omega), hrest, ih]
    rfl

/-- A slice between the ends of two characters. -/
theorem strSlice_append {s t : Str} {n : Nat} :
    strSlice (s ++ t) (utf8 s).length ((utf8 s).length + n) =
      match takeBytes t n with
      | some u => .ok u
      | none => .error .charBoundary := by
  rw [strSlice, if_neg (by omega), dropBytes_append, Nat.add_sub_cancel_left]
  rfl

/-- A part of a string is sliced out at its ends. -/
theorem strSlice_part (before part after : Str) :
    strSlice (before ++ part ++ after) (utf8 before).length (utf8 (before ++ part)).length =
      .ok part := by
  rw [utf8_append, List.length_append, List.append_assoc, strSlice_append, takeBytes_append]

end ActiveDefense
