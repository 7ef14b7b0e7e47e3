import ActiveDefense.Clam.Engine

/-!
# Which hash databases load as they should

`load_hdb` hands its lines to `add_line` one after another, up to the first that is refused. It
should read any text without panicking, and take in a line only if its hash field is 32, 40 or 64
hexadecimal digits. There are two ways in which the decoding of a hash field falls short of that: it
slices the field where a character does not end (`HashDb.Cut`), and it takes a sign for the first of
two digits (`HashDb.Signed`). `loadHdb_proper_iff` says that these are the only two, of the lines
that the load comes to.
-/

namespace ActiveDefense.Clam

namespace HashDb

/-- The field is 32, 40 or 64 hexadecimal digits. -/
def IsDigest (hash : Str) : Prop := hash.length ∈ [32, 40, 64] ∧ ∀ c ∈ hash, IsHexDigit c

/-- The hash field of the line is taken for a digest, and has a sign among its digits. -/
def Signed (line : Str) : Prop :=
  ∃ hash, HasHash line hash ∧ HexPairs hash ∧ hash.length ∈ [32, 40, 64] ∧ '+' ∈ hash

/-- What is read pair by pair is not cut. -/
theorem HexPairs.not_cutsCharacter {s : Str} (h : HexPairs s) : ¬ CutsCharacter s := by
  induction h with
  | nil => exact nofun
  | cons hpair _ ih =>
    rw [cutsCharacter_cons hpair.utf8Size.1 hpair.utf8Size.2]
    exact fun hcut => ih hcut.2

theorem Taken.not_cut {line : Str} (h : Taken line) : ¬ Cut line := by
  obtain ⟨hash, hhash, hread, -⟩ := h
  rw [hhash.cut_iff]
  exact fun hcut => hread.not_cutsCharacter hcut.2

/-- Pairs without a sign are digits. -/
theorem HexPairs.isHexDigit_iff {s : Str} (h : HexPairs s) :
    (∀ c ∈ s, IsHexDigit c) ↔ '+' ∉ s := by
  have hplus : ¬ IsHexDigit '+' := by decide
  induction h with
  | nil => simp
  | @cons c d rest hpair _ ih =>
    have hc : IsHexDigit c ↔ '+' ≠ c := by
      refine ⟨fun h heq => hplus (heq ▸ h), fun hne => ?_⟩
      exact hpair.1.resolve_left (Ne.symm hne)
    have hd : IsHexDigit d ↔ '+' ≠ d :=
      iff_of_true hpair.2 fun heq => hplus (heq ▸ hpair.2)
    rw [List.forall_mem_cons, List.forall_mem_cons, List.mem_cons, List.mem_cons, not_or, not_or]
    exact and_congr hc (and_congr hd ih)

/-- A line is taken in if and only if its hash field is read as a digest. -/
theorem addLine_eq_ok_iff (db : HashDb) (lineNo : Nat) {line : Str} :
    (∃ db', db.addLine lineNo line = .ok (.ok db')) ↔ Taken line := by
  obtain ⟨hcut, hrun⟩ | ⟨-, htaken, hrun⟩ | ⟨-, htaken, e, hrun⟩ := db.addLine_cases lineNo line
  · refine iff_of_false (fun ⟨db', h⟩ => ?_) fun h => h.not_cut hcut
    rw [hrun] at h
    cases h
  · exact iff_of_true hrun htaken
  · refine iff_of_false (fun ⟨db', h⟩ => ?_) htaken
    rw [hrun] at h
    cases h

/-- The hash field of a line that is taken in is a digest, if and only if it has no sign. -/
theorem Taken.isDigest_iff {line hash : Str} (h : Taken line) (hhash : HasHash line hash) :
    IsDigest hash ↔ ¬ Signed line := by
  obtain ⟨hread, hlen⟩ := hhash.taken_iff.mp h
  rw [IsDigest, hread.isHexDigit_iff, and_iff_right hlen]
  refine not_congr ⟨fun hplus => ⟨hash, hhash, hread, hlen, hplus⟩, fun ⟨hash', h', _, _, hplus⟩ => ?_⟩
  rw [hhash.inj h']
  exact hplus

end HashDb

open HashDb

namespace SignatureEngineBuilder

/-- The load goes on after the line: it passes over it or takes it in. -/
def Passes (rawLine : Str) : Prop := IsSkipped (trim rawLine) ∨ Taken (trim rawLine)

/-- The load of some lines goes on with those that follow. -/
theorem loadHdbLines_append {b b' : SignatureEngineBuilder} {ls ls' : List (Str × Nat)}
    (h : b.loadHdbLines ls = .ok (.ok b')) :
    b.loadHdbLines (ls ++ ls') = b'.loadHdbLines ls' := by
  induction ls generalizing b with
  | nil =>
    cases h
    rfl
  | cons l ls ih =>
    rw [loadHdbLines] at h
    rw [List.cons_append, loadHdbLines]
    split at h
    · next hskip =>
      rw [if_pos hskip]
      exact ih h
    · next hskip =>
      rw [if_neg hskip]
      obtain ⟨r, hr, h⟩ := bind_eq_ok.mp h
      cases r with
      | error e => cases h
      | ok hashDb =>
        rw [hr]
        exact ih h

/-- A line that the load takes in. -/
theorem loadHdbLines_cons_of_ok {b : SignatureEngineBuilder} {rawLine : Str} {i : Nat}
    {rest : List (Str × Nat)} (hskip : ¬ IsSkipped (trim rawLine)) {hashDb : HashDb}
    (h : b.hashDb.addLine (i + 1) (trim rawLine) = .ok (.ok hashDb)) :
    b.loadHdbLines ((rawLine, i) :: rest) = loadHdbLines { b with hashDb } rest := by
  rw [loadHdbLines, if_neg hskip, h]
  rfl

/-- Lines are all loaded if and only if the load goes on after each of them. -/
theorem loadHdbLines_eq_ok_iff {b : SignatureEngineBuilder} {ls : List Str} {k : Nat} :
    (∃ b', b.loadHdbLines (ls.zipIdx k) = .ok (.ok b')) ↔ ∀ l ∈ ls, Passes l := by
  induction ls generalizing b k with
  | nil => exact iff_of_true ⟨b, rfl⟩ fun _ hline => absurd hline List.not_mem_nil
  | cons l ls ih =>
    rw [List.forall_mem_cons, List.zipIdx_cons]
    by_cases hskip : IsSkipped (trim l)
    · rw [loadHdbLines, if_pos hskip, ih, and_iff_right (.inl hskip)]
    · have hpass : Passes l ↔ Taken (trim l) := or_iff_right hskip
      rw [hpass, ← addLine_eq_ok_iff b.hashDb (k + 1)]
      constructor
      · rintro ⟨b', h⟩
        rw [loadHdbLines, if_neg hskip] at h
        obtain ⟨r, hr, h⟩ := bind_eq_ok.mp h
        cases r with
        | error e => cases h
        | ok hashDb => exact ⟨⟨hashDb, hr⟩, ih.mp ⟨b', h⟩⟩
      · rintro ⟨⟨hashDb, hr⟩, hls⟩
        rw [loadHdbLines_cons_of_ok hskip hr]
        exact ih.mpr hls

/-- The load does not panic if and only if no line that it comes to is cut. -/
theorem loadHdbLines_total_iff {b : SignatureEngineBuilder} {ls : List Str} {k : Nat} :
    (∃ r, b.loadHdbLines (ls.zipIdx k) = .ok r) ↔
      ∀ before line after, ls = before ++ line :: after → (∀ l ∈ before, Passes l) →
        ¬ IsSkipped (trim line) → ¬ Cut (trim line) := by
  constructor
  · rintro ⟨r, hr⟩ before line after rfl hbefore hskip hcut
    obtain ⟨b', hb'⟩ := (loadHdbLines_eq_ok_iff (b := b) (k := k)).mpr hbefore
    rw [List.zipIdx_append, loadHdbLines_append hb', List.zipIdx_cons, loadHdbLines,
      if_neg hskip] at hr
    obtain ⟨_, hline, -⟩ := bind_eq_ok.mp hr
    obtain ⟨-, hpanic⟩ | ⟨hnot, -⟩ | ⟨hnot, -⟩ := b'.hashDb.addLine_cases
      (k + before.length + 1) (trim line)
    · rw [hpanic] at hline
      cases hline
    · exact hnot hcut
    · exact hnot hcut
  · intro h
    induction ls generalizing b k with
    | nil => exact ⟨_, rfl⟩
    | cons l ls ih =>
      have hrest : Passes l → ∀ before line after, ls = before ++ line :: after →
          (∀ l ∈ before, Passes l) → ¬ IsSkipped (trim line) → ¬ Cut (trim line) := by
        rintro hl before line after rfl hbefore
        exact h (l :: before) line after rfl (List.forall_mem_cons.mpr ⟨hl, hbefore⟩)
      rw [List.zipIdx_cons]
      by_cases hskip : IsSkipped (trim l)
      · rw [loadHdbLines, if_pos hskip]
        exact ih (hrest (.inl hskip))
      · obtain ⟨hcut, -⟩ | ⟨-, htaken, hashDb, hrun⟩ | ⟨-, -, e, hrun⟩ :=
          b.hashDb.addLine_cases (k + 1) (trim l)
        · have hnone : ∀ l ∈ ([] : List Str), Passes l := fun _ hl => absurd hl List.not_mem_nil
          exact absurd hcut (h [] l ls rfl hnone hskip)
        · rw [loadHdbLines_cons_of_ok hskip hrun]
          exact ih (hrest (.inr htaken))
        · rw [loadHdbLines, if_neg hskip, hrun]
          exact ⟨_, rfl⟩

end SignatureEngineBuilder

open SignatureEngineBuilder

/-- `load_hdb` reads a text without panicking and takes in only lines whose hash field is 32, 40 or
64 hexadecimal digits, if and only if of the lines that it comes to, none has a hash field whose
decoding cuts a character, and none has one that is read with a sign for a digit. -/
theorem loadHdb_proper_iff (b : SignatureEngineBuilder) (text : Str) :
    ((∃ r, b.loadHdb text = .ok r) ∧
      ∀ before line after b' db', lines text = before ++ line :: after →
        b.loadHdbLines before.zipIdx = .ok (.ok b') → ¬ IsSkipped (trim line) →
          b'.hashDb.addLine (before.length + 1) (trim line) = .ok (.ok db') →
            ∀ hash ∈ (splitn ':' 3 (trim line)).head?, IsDigest hash) ↔
      ∀ before line after, lines text = before ++ line :: after → (∀ l ∈ before, Passes l) →
        ¬ IsSkipped (trim line) → ¬ Cut (trim line) ∧ ¬ Signed (trim line) := by
  rw [loadHdb, loadHdbLines_total_iff]
  constructor
  · rintro ⟨htotal, hdigest⟩ before line after htext hbefore hskip
    refine ⟨htotal before line after htext hbefore hskip, fun hsigned => ?_⟩
    obtain ⟨hash, hhash, hread, hlen, -⟩ := id hsigned
    have htaken : Taken (trim line) := ⟨hash, hhash, hread, hlen⟩
    obtain ⟨b', hb'⟩ := (loadHdbLines_eq_ok_iff (b := b) (k := 0)).mpr hbefore
    obtain ⟨db', hdb'⟩ := (addLine_eq_ok_iff _ _).mpr htaken
    have hhead : hash ∈ (splitn ':' 3 (trim line)).head? := hhash.mem_head?
    exact (htaken.isDigest_iff hhash).mp
      (hdigest before line after b' db' htext hb' hskip hdb' hash hhead) hsigned
  · intro h
    refine ⟨fun before line after htext hbefore hskip => (h before line after htext hbefore hskip).1,
      fun before line after b' db' htext hb' hskip hdb' hash hhead => ?_⟩
    have hbefore := loadHdbLines_eq_ok_iff.mp ⟨b', hb'⟩
    have htaken : Taken (trim line) := (addLine_eq_ok_iff _ _).mp ⟨db', hdb'⟩
    obtain ⟨hash', hhash', -⟩ := id htaken
    obtain rfl : hash' = hash := Option.some.inj (hhash'.mem_head?.symm.trans hhead)
    exact (htaken.isDigest_iff hhash').mpr (h before line after htext hbefore hskip).2

/-- A pair over and over. -/
theorem HashDb.hexPairs_replicate {c d : Char} (h : IsPair c d) (n : Nat) :
    HexPairs (List.replicate n [c, d]).flatten := by
  induction n with
  | zero => exact .nil
  | succ n ih => exact .cons h ih

/-- On the line `aéb:*:x` the load panics, and it takes in the line whose hash field is `+f` sixteen
times. -/
theorem not_loadHdb_proper :
    ¬ (∀ (b : SignatureEngineBuilder) (text : Str), ∃ r, b.loadHdb text = .ok r) ∧
      ¬ ∀ (db db' : HashDb) (lineNo : Nat) (line : Str), db.addLine lineNo line = .ok (.ok db') →
        ∀ hash ∈ (splitn ':' 3 line).head?, IsDigest hash := by
  constructor
  · intro h
    have hcut : Cut "aéb:*:x".toList :=
      ⟨"aéb".toList, ⟨['*'], ['x'], by decide, .inl rfl⟩, by decide,
        .second (by decide) (by decide)⟩
    have htrim : trim "aéb:*:x".toList = "aéb:*:x".toList := by decide
    refine loadHdbLines_total_iff.mp (h .new "aéb:*:x".toList) [] "aéb:*:x".toList [] ?_ nofun ?_
      (htrim.symm ▸ hcut)
    · decide
    · decide
  · intro h
    have htaken : Taken ((List.replicate 16 ['+', 'f']).flatten ++ ":*:x".toList) :=
      ⟨(List.replicate 16 ['+', 'f']).flatten, ⟨['*'], ['x'], by decide, .inl rfl⟩,
        hexPairs_replicate (by decide) 16, by decide⟩
    obtain ⟨db', hdb'⟩ := (addLine_eq_ok_iff .new 1).mpr htaken
    have hdigest := (h _ _ _ _ hdb' (List.replicate 16 ['+', 'f']).flatten (by decide)).2
    exact absurd (hdigest '+' (by decide)) (by decide)

end ActiveDefense.Clam
