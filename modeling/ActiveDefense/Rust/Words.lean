import ActiveDefense.Rust.Utf8

/-!
# The text and the words of a request

The start of a text is taken off, or compared regardless of case. A reader takes the bytes of a
stream up to its first newline, and none of those after it. `String::from_utf8_lossy` of the bytes
of a string is that string (`fromUtf8Lossy_utf8`): the bytes of a character are one part, and
nothing of it is replaced.
-/

namespace ActiveDefense

/-- `str::strip_prefix` of a text. -/
def stripWord (w s : Str) : Option Str := if w.isPrefixOf s then some (s.drop w.length) else none

/-- `str::eq_ignore_ascii_case`. -/
def eqIgnoreAsciiCase (s t : Str) : Bool := s.map toAsciiUppercase = t.map toAsciiUppercase

theorem stripWord_append (w s : Str) : stripWord w (w ++ s) = some s := by
  rw [stripWord, if_pos (List.isPrefixOf_iff_prefix.mpr (List.prefix_append w s)), List.drop_left]

theorem eq_append_of_stripWord {w s rest : Str} (h : stripWord w s = some rest) :
    s = w ++ rest := by
  rw [stripWord] at h
  split at h
  · next hprefix =>
    obtain ⟨rest', rfl⟩ := List.isPrefixOf_iff_prefix.mp hprefix
    rw [List.drop_left] at h
    rw [Option.some.inj h]
  · cases h

/-- A text with a character that the other one has in neither case is a different one. -/
theorem eqIgnoreAsciiCase_eq_false {s t : Str} {c : Char} (hs : c ∈ s)
    (ht : toAsciiUppercase c ∉ t.map toAsciiUppercase) : eqIgnoreAsciiCase s t = false := by
  rw [eqIgnoreAsciiCase, decide_eq_false_iff_not]
  exact fun heq => ht (heq ▸ List.mem_map_of_mem hs)

/-! ## Lines -/

/-- The newline byte. -/
def lineEnd : UInt8 := 10

/-- The bytes that `read_line` takes of a stream. -/
def takeLine (bytes : List UInt8) : List UInt8 :=
  match splitOnce lineEnd bytes with
  | some (line, _) => line ++ [lineEnd]
  | none => bytes

theorem takeLine_append {line : List UInt8} (h : lineEnd ∉ line) (rest : List UInt8) :
    takeLine (line ++ lineEnd :: rest) = line ++ [lineEnd] := by
  rw [takeLine, splitOnce_append h]

theorem takeLine_of_not_mem {bytes : List UInt8} (h : lineEnd ∉ bytes) :
    takeLine bytes = bytes := by
  rw [takeLine, splitOnce_of_not_mem h]

/-! ## The parts of lossy decoding -/

section
variable {a b c d : UInt8} {rest : List UInt8}

theorem utf8PartLength_one (ha : a < 0x80) : utf8PartLength (a :: rest) = 1 := by
  have hlow : ¬ (0xC2 ≤ a ∧ a ≤ 0xDF) := by
    simp only [UInt8.le_iff_toNat_le, UInt8.lt_iff_toNat_lt, UInt8.reduceToNat] at ha ⊢
    omega
  have hno : ∀ b, isLongPrefix a b = false := by
    intro b
    simp only [isLongPrefix, ← UInt8.toNat_inj, UInt8.le_iff_toNat_le, UInt8.lt_iff_toNat_lt,
      UInt8.reduceToNat, Bool.and_eq_true, decide_eq_true_eq] at ha ⊢
    repeat' split
    all_goals first | rfl | omega
  cases rest with
  | nil => simp [utf8PartLength, hlow]
  | cons b rest => simp [utf8PartLength, hlow, hno]

theorem utf8PartLength_two (ha : 0xC2 ≤ a) (ha' : a ≤ 0xDF) (hb : isContinuation b = true) :
    utf8PartLength (a :: b :: rest) = 2 := by
  simp [utf8PartLength, ha, ha', hb]

/-- A byte from 0xE0 on begins more than two bytes. -/
theorem not_two (ha : 0xE0 ≤ a) : ¬ (0xC2 ≤ a ∧ a ≤ 0xDF) := by
  simp only [UInt8.le_iff_toNat_le, UInt8.reduceToNat] at ha ⊢
  omega

theorem utf8PartLength_three (ha : 0xE0 ≤ a) (ha' : a < 0xF0) (hlong : isLongPrefix a b = true)
    (hc : isContinuation c = true) : utf8PartLength (a :: b :: c :: rest) = 3 := by
  simp [utf8PartLength, not_two ha, ha', hlong, hc]

theorem utf8PartLength_four (ha : 0xF0 ≤ a) (hlong : isLongPrefix a b = true)
    (hc : isContinuation c = true) (hd : isContinuation d = true) :
    utf8PartLength (a :: b :: c :: d :: rest) = 4 := by
  have hmany : 0xE0 ≤ a := UInt8.le_trans (by decide) ha
  simp [utf8PartLength, not_two hmany, UInt8.not_lt.mpr ha, hlong, hc, hd]

end

/-! ## The bytes of a character -/

/-- A byte after the first one of a character goes on with it. -/
theorem isContinuation_ofNat (n : Nat) : isContinuation (UInt8.ofNat (n % 0x40 + 0x80)) = true := by
  simp only [isContinuation, Bool.and_eq_true, decide_eq_true_eq, UInt8.le_iff_toNat_le,
    UInt8.toNat_ofNat', UInt8.reduceToNat]
  omega

/-- The second byte of a character of three bytes can follow the first. -/
theorem isLongPrefix_three {n : Nat} (h : 0x7ff < n) (hn : n ≤ 0xffff)
    (hvalid : n < 0xd800 ∨ 0xdfff < n) :
    isLongPrefix (UInt8.ofNat (n / 4096 % 0x10 + 0xe0)) (UInt8.ofNat (n / 64 % 0x40 + 0x80)) =
      true := by
  simp only [isLongPrefix, ← UInt8.toNat_inj, UInt8.le_iff_toNat_le, UInt8.toNat_ofNat',
    UInt8.reduceToNat, Bool.and_eq_true, decide_eq_true_eq]
  repeat' split
  all_goals
    try simp only [Bool.and_eq_true, decide_eq_true_eq]
    omega

/-- So can that of a character of four. -/
theorem isLongPrefix_four {n : Nat} (h : 0xffff < n) (hmax : n < 0x110000) :
    isLongPrefix (UInt8.ofNat (n / 262144 % 0x08 + 0xf0))
      (UInt8.ofNat (n / 4096 % 0x40 + 0x80)) = true := by
  simp only [isLongPrefix, ← UInt8.toNat_inj, UInt8.le_iff_toNat_le, UInt8.toNat_ofNat',
    UInt8.reduceToNat, Bool.and_eq_true, decide_eq_true_eq]
  repeat' split
  all_goals
    try simp only [Bool.and_eq_true, decide_eq_true_eq]
    omega

/-- The bytes of a character are one part. -/
theorem utf8PartLength_append (c : Char) (rest : List UInt8) :
    utf8PartLength (String.utf8EncodeChar c ++ rest) = (String.utf8EncodeChar c).length := by
  have hvalid : c.val.toNat < 0xd800 ∨ 0xdfff < c.val.toNat ∧ c.val.toNat < 0x110000 := c.valid
  simp only [String.utf8EncodeChar]
  generalize c.val.toNat = n at hvalid
  have hlead : ∀ k lo : Nat, k + lo < 256 → lo ≤ (UInt8.ofNat (k + lo)).toNat ∧
      (UInt8.ofNat (k + lo)).toNat = k + lo := by
    intro k lo hlt
    rw [UInt8.toNat_ofNat']
    omega
  split
  · refine utf8PartLength_one ?_
    simp only [UInt8.lt_iff_toNat_lt, UInt8.toNat_ofNat', UInt8.reduceToNat]
    omega
  · split
    · obtain ⟨hlow, hvalue⟩ := hlead (n / 64 % 0x20) 0xc0 (by omega)
      refine utf8PartLength_two ?_ ?_ (isContinuation_ofNat n)
      all_goals
        simp only [UInt8.le_iff_toNat_le, UInt8.reduceToNat, hvalue]
        omega
    · split
      · obtain ⟨hlow, hvalue⟩ := hlead (n / 4096 % 0x10) 0xe0 (by omega)
        refine utf8PartLength_three (UInt8.le_iff_toNat_le.mpr hlow) ?_
          (isLongPrefix_three (by omega) (by omega) (by omega)) (isContinuation_ofNat n)
        simp only [UInt8.lt_iff_toNat_lt, hvalue, UInt8.reduceToNat]
        omega
      · obtain ⟨hlow, -⟩ := hlead (n / 262144 % 0x08) 0xf0 (by omega)
        exact utf8PartLength_four (UInt8.le_iff_toNat_le.mpr hlow)
          (isLongPrefix_four (n := n) (by omega) (by omega)) (isContinuation_ofNat _)
          (isContinuation_ofNat n)

/-! ## Strings -/

theorem fromUtf8LossyParts_cons (turns : Nat) (c : Char) (rest : List UInt8) :
    fromUtf8LossyParts (turns + 1) (String.utf8EncodeChar c ++ rest) =
      c :: fromUtf8LossyParts turns rest := by
  have hpart := utf8PartLength_append c rest
  have hchar : fromUtf8 (String.utf8EncodeChar c) = some [c] := by
    simpa [utf8] using fromUtf8_utf8 [c]
  have hne : String.utf8EncodeChar c ++ rest ≠ [] :=
    List.append_ne_nil_of_left_ne_nil String.utf8EncodeChar_ne_nil _
  rw [fromUtf8LossyParts.eq_3 _ _ hne, hpart, List.take_left, List.drop_left, hchar]
  rfl

/-- A character has at least one byte. -/
theorem length_le_utf8 (s : Str) : s.length ≤ (utf8 s).length := by
  induction s with
  | nil => exact Nat.le_refl 0
  | cons c s ih =>
    have hone : 0 < (String.utf8EncodeChar c).length :=
      List.length_pos_of_ne_nil String.utf8EncodeChar_ne_nil
    rw [utf8_cons, List.length_append, List.length_cons]
    omega

/-- The bytes of a string decode to it, part by part. -/
theorem fromUtf8Lossy_utf8 (s : Str) : fromUtf8Lossy (utf8 s) = s := by
  have hparts : ∀ turns, s.length ≤ turns → fromUtf8LossyParts turns (utf8 s) = s := by
    induction s with
    | nil =>
      intro turns _
      cases turns <;> rfl
    | cons c s ih =>
      intro turns hturns
      obtain ⟨turns, rfl⟩ := Nat.exists_eq_add_one.mpr (Nat.lt_of_lt_of_le (Nat.succ_pos _) hturns)
      rw [utf8_cons, fromUtf8LossyParts_cons, ih turns (Nat.le_of_succ_le_succ hturns)]
  exact hparts _ (length_le_utf8 s)

end ActiveDefense
