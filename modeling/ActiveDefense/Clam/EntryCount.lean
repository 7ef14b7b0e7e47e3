import ActiveDefense.Clam.Depth
import ActiveDefense.Rust.Utf8

/-!
# What the limit on entries counts

`charge_entry` stands in the read loop, so it counts the non-empty reads of an archive, not its
entries. An entry without bytes is not counted, and an entry that comes out in several reads counts
several times. The extraction stops in the first read beyond the limit (`extractItems_count`), and
`entryCount_iff` says for which archives that amounts to the limit on entries that the name
promises.
-/

namespace ActiveDefense.Clam

/-! ## Reads -/

/-- How many reads, from the `i`-th on, give bytes before one gives none; only the first `n` are
looked at. -/
def nonemptyReads (reader : Reader) (len : UInt64) : Nat → Nat → Nat
  | 0, _ => 0
  | n + 1, i =>
    match reader.read len i with
    | none | some [] => 0
    | some (_ :: _) => nonemptyReads reader len n (i + 1) + 1

/-- What a charge that returns does to the chunks that are left. -/
theorem chargeEntry_count {n : UInt64} {b b' : GuardBudget} {r : Except GuardError Unit}
    (h : chargeEntry n b = .ok r b') :
    b'.limits = b.limits ∧
      ((b.chunksLeft = 0 ∧ r = .error (.entryCountExceeded b.limits.maxEntries)) ∨
        (b.chunksLeft = b'.chunksLeft + 1 ∧
          (r = .ok () ∨ r = .error (.totalSizeExceeded b.limits.maxTotalUncompressed)))) := by
  have hone : (1 : UInt64).toNat = 1 := rfl
  simp only [chargeEntry_run] at h
  split at h
  · next hseen =>
    have hsum : (b.entriesSeen + 1).toNat = b.entriesSeen.toNat + 1 := by
      rw [UInt64.toNat_add, hone, Nat.mod_eq_of_lt hseen]
    split at h
    · next hmax =>
      cases h
      rw [UInt64.lt_iff_toNat_lt, hsum] at hmax
      refine ⟨rfl, .inl ⟨?_, rfl⟩⟩
      unfold GuardBudget.chunksLeft
      omega
    · next hmax =>
      rw [UInt64.lt_iff_toNat_lt, hsum] at hmax
      have hleft : b.chunksLeft = b.limits.maxEntries.toNat - (b.entriesSeen + 1).toNat + 1 := by
        unfold GuardBudget.chunksLeft
        omega
      split at h
      · split at h
        · cases h
          exact ⟨rfl, .inr ⟨hleft, .inr rfl⟩⟩
        · cases h
          exact ⟨rfl, .inr ⟨hleft, .inl rfl⟩⟩
      · cases h
  · cases h

/-- The limit on the total size was not what stopped an extraction. -/
def NotBySize (limits : GuardLimits) (hit : Option GuardError) : Prop :=
  hit ≠ some (.totalSizeExceeded limits.maxTotalUncompressed)

/-- What a turn of the read loop that returns has come to: no more bytes, or a charge that ends the
loop, or the next turn. -/
theorem readLoop_cases {reader : Reader} {i : Nat} {data data' : List UInt8}
    {hit : Option GuardError} {b b' : GuardBudget}
    (h : readLoop reader i data b = .ok (data', hit) b') :
    ((∀ c cs, reader.read b.limits.readChunk i ≠ some (c :: cs)) ∧ hit = none ∧ b' = b) ∨
      ∃ c cs, reader.read b.limits.readChunk i = some (c :: cs) ∧
        ((∃ e, chargeEntry (.ofNat (c :: cs).length) b = .ok (.error e) b' ∧ hit = some e) ∨
          ∃ b₁, chargeEntry (.ofNat (c :: cs).length) b = .ok (.ok ()) b₁ ∧
            readLoop reader (i + 1) (data ++ c :: cs) b₁ = .ok (data', hit) b') := by
  rw [readLoop_eq, readTurn, get_bind_run] at h
  cases hread : reader.read b.limits.readChunk i with
  | none =>
    rw [hread] at h
    cases h
    exact .inl ⟨fun _ _ hcons => (by cases hcons), rfl, rfl⟩
  | some bs =>
    cases bs with
    | nil =>
      rw [hread] at h
      cases h
      exact .inl ⟨fun _ _ hcons => (by cases hcons), rfl, rfl⟩
    | cons c cs =>
      rw [hread] at h
      obtain ⟨r, b₁, hcharge, h⟩ := exists_of_bind_ok h
      refine .inr ⟨c, cs, rfl, ?_⟩
      cases r with
      | error e =>
        cases h
        exact .inl ⟨e, hcharge, rfl⟩
      | ok u => exact .inr ⟨b₁, hcharge, h⟩

/-- The read loop takes a chunk for every read, and stops in the first one beyond those left. -/
theorem readLoop_count {reader : Reader} {n i : Nat} {data data' : List UInt8}
    {hit : Option GuardError} {b b' : GuardBudget} (hn : b.chunksLeft < n)
    (h : readLoop reader i data b = .ok (data', hit) b') (hsize : NotBySize b.limits hit) :
    b'.limits = b.limits ∧
      ((hit = none ∧ b.chunksLeft = nonemptyReads reader b.limits.readChunk n i + b'.chunksLeft) ∨
        (hit = some (.entryCountExceeded b.limits.maxEntries) ∧
          b.chunksLeft < nonemptyReads reader b.limits.readChunk n i)) := by
  induction n generalizing i data b with
  | zero => exact absurd hn (Nat.not_lt_zero _)
  | succ n ih =>
    obtain ⟨hempty, rfl, rfl⟩ | ⟨c, cs, hread, hrest⟩ := readLoop_cases h
    · have hnone : nonemptyReads reader b'.limits.readChunk (n + 1) i = 0 := by
        rw [nonemptyReads]
        split
        · rfl
        · rfl
        · next c cs hread => exact absurd hread (hempty c cs)
      exact ⟨rfl, .inl ⟨rfl, by omega⟩⟩
    · have hreads : nonemptyReads reader b.limits.readChunk (n + 1) i =
          nonemptyReads reader b.limits.readChunk n (i + 1) + 1 := by
        rw [nonemptyReads, hread]
      obtain ⟨e, hcharge, rfl⟩ | ⟨b₁, hcharge, hrun⟩ := hrest
      · obtain ⟨hlimits, ⟨hnone, he⟩ | ⟨-, he | he⟩⟩ := chargeEntry_count hcharge
        · cases he
          exact ⟨hlimits, .inr ⟨rfl, by omega⟩⟩
        · cases he
        · cases he
          exact absurd rfl hsize
      · obtain ⟨hlimits, ⟨-, he⟩ | ⟨hleft, -⟩⟩ := chargeEntry_count hcharge
        · cases he
        · obtain ⟨hlimits', hcount⟩ := ih (by omega) hrun (hlimits ▸ hsize)
          rw [hlimits] at hlimits' hcount
          refine ⟨hlimits', ?_⟩
          obtain ⟨hnone, hcount⟩ | ⟨hhit, hcount⟩ := hcount
          · exact .inl ⟨hnone, by omega⟩
          · exact .inr ⟨hhit, by omega⟩

/-! ## Entries -/

/-- The entries that are opened, up to the first that is refused. -/
def opened : List Item → List Reader
  | [] => []
  | .skip :: items => opened items
  | .refuse _ :: _ => []
  | .extract _ reader :: items => reader :: opened items

/-- The non-empty reads of some entries together; of each, no more than the first `n`. -/
def totalReads (len : UInt64) (n : Nat) (readers : List Reader) : Nat :=
  (readers.map fun reader => nonemptyReads reader len n 0).sum

theorem totalReads_take_le (len : UInt64) (n : Nat) {j k : Nat} (readers : List Reader)
    (h : j ≤ k) :
    totalReads len n (readers.take j) ≤ totalReads len n (readers.take k) := by
  have hsplit := List.take_append_drop j (readers.take k)
  rw [List.take_take, Nat.min_eq_left h] at hsplit
  rw [← hsplit, totalReads, totalReads, List.map_append, List.sum_append]
  exact Nat.le_add_right _ _

theorem totalReads_cons {len : UInt64} {n : Nat} {reader : Reader} {readers : List Reader} :
    totalReads len n (reader :: readers) =
      nonemptyReads reader len n 0 + totalReads len n readers := rfl

/-- The loop over the entries returns those that are opened, where the chunks left suffice for their
reads. Otherwise it stops at the entry with the first read beyond them, and returns it too. -/
theorem extractItems_count {items : List Item} {n : Nat} {entries : List ExtractedEntry}
    {hit : Option GuardError} {b b' : GuardBudget} (hn : b.chunksLeft < n)
    (h : extractItems items b = .ok (entries, hit) b') (hsize : NotBySize b.limits hit) :
    (entries.length = (opened items).length ∧
        totalReads b.limits.readChunk n (opened items) ≤ b.chunksLeft ∧
          ∀ e, hit = some e → .refuse e ∈ items) ∨
      (hit = some (.entryCountExceeded b.limits.maxEntries) ∧
        totalReads b.limits.readChunk n ((opened items).take (entries.length - 1)) ≤ b.chunksLeft ∧
          b.chunksLeft < totalReads b.limits.readChunk n ((opened items).take entries.length)) := by
  induction items generalizing b entries hit with
  | nil =>
    cases h
    exact .inl ⟨rfl, Nat.zero_le _, nofun⟩
  | cons item items ih =>
    cases item with
    | skip =>
      obtain ⟨hlen, hreads, hhit⟩ | hcount := ih hn h hsize
      · exact .inl ⟨hlen, hreads, fun e he => List.mem_cons_of_mem _ (hhit e he)⟩
      · exact .inr hcount
    | refuse e =>
      cases h
      refine .inl ⟨rfl, Nat.zero_le _, fun e' he => ?_⟩
      cases he
      exact List.mem_cons_self
    | extract name reader =>
      obtain ⟨⟨data, hitFirst⟩, b₁, hread, h⟩ := exists_of_bind_ok h
      cases hitFirst with
      | some e =>
        cases h
        obtain ⟨-, ⟨he, -⟩ | ⟨he, hreads⟩⟩ := readLoop_count hn hread hsize
        · cases he
        · exact .inr ⟨he, Nat.zero_le _, hreads⟩
      | none =>
        obtain ⟨⟨out, hitRest⟩, b₂, hrest, h⟩ := exists_of_bind_ok h
        cases h
        obtain ⟨hlimits, ⟨-, hreads⟩ | ⟨he, -⟩⟩ := readLoop_count hn hread nofun
        · obtain ⟨hlen, htotal, hhit⟩ | ⟨hhit, hbefore, htotal⟩ :=
            ih (by omega) hrest (hlimits ▸ hsize)
          · rw [hlimits] at htotal
            refine .inl ⟨by simp [opened, hlen], ?_, fun e he => List.mem_cons_of_mem _ (hhit e he)⟩
            rw [opened, totalReads_cons]
            omega
          · rw [hlimits] at hhit hbefore htotal
            -- a read beyond the chunks left belongs to an entry that is returned
            obtain ⟨k, hk⟩ : ∃ k, out.length = k + 1 := by
              refine Nat.exists_eq_succ_of_ne_zero fun hzero => ?_
              rw [hzero] at htotal
              exact absurd htotal (Nat.not_lt_zero _)
            rw [hk] at hbefore htotal
            refine .inr ⟨hhit, ?_, ?_⟩
            · simp only [List.length_cons, hk, opened, Nat.add_sub_cancel, List.take_succ_cons,
                totalReads_cons]
              rw [Nat.add_sub_cancel] at hbefore
              omega
            · simp only [List.length_cons, hk, opened, List.take_succ_cons, totalReads_cons]
              omega
        · cases he

/-! ## The formats -/

namespace Decoders

variable (d : Decoders)

/-- What becomes of the entries of an archive, as the loop of its format comes to them. -/
def items (limits : GuardLimits) : Format → List UInt8 → List Item
  | .zip, buf => ((d.zip buf).toOption.getD []).map (zipItem limits)
  | .gzip, _ => []
  | .tar, buf => ((d.tar buf).toOption.getD []).map tarItem
  | .sevenZ, buf => (((d.sevenZ buf).toOption.map (·.1)).getD []).map sevenZItem
  | .cab, buf => ((d.cab buf).toOption.getD []).map cabItem

variable {d}

theorem extractItems_of_return {items : List Item} {b b' : GuardBudget} {entries : Entries}
    (h : (do return .ok (← extractItems items) : Exec GuardBudget Extracted) b =
      .ok (.ok entries) b') : extractItems items b = .ok entries b' := by
  obtain ⟨r, b₁, hr, h⟩ := exists_of_bind_ok h
  cases h
  exact hr

/-- An extraction of several entries that returns them is the loop over the entries. -/
theorem extractItems_of_extract {f : Format} (hf : f ≠ .gzip) {buf : List UInt8}
    {b b' : GuardBudget} {entries : Entries} (h : d.extract f buf b = .ok (.ok entries) b') :
    extractItems (d.items b.limits f buf) b = .ok entries b' := by
  cases f with
  | gzip => exact absurd rfl hf
  | zip =>
    simp only [extract, extractZip, get_bind_run] at h
    rw [items]
    cases hzip : d.zip buf with
    | error e =>
      rw [hzip] at h
      cases h
    | ok es =>
      rw [hzip] at h
      exact extractItems_of_return h
  | tar =>
    simp only [extract, extractTar] at h
    rw [items]
    cases htar : d.tar buf with
    | error e =>
      rw [htar] at h
      cases h
    | ok es =>
      rw [htar] at h
      exact extractItems_of_return h
  | sevenZ =>
    simp only [extract, extract7z] at h
    rw [items]
    cases hseven : d.sevenZ buf with
    | error e =>
      rw [hseven] at h
      cases h
    | ok es =>
      obtain ⟨es, failure⟩ := es
      rw [hseven] at h
      obtain ⟨⟨out, hit⟩, b₁, hr, h⟩ := exists_of_bind_ok h
      -- a failure of the decoder counts only where no limit was hit before
      cases failure <;> cases hit <;> cases h <;> exact hr
  | cab =>
    simp only [extract, extractCab] at h
    rw [items]
    cases hcab : d.cab buf with
    | error e =>
      rw [hcab] at h
      cases h
    | ok es =>
      rw [hcab] at h
      exact extractItems_of_return h

/-- An entry is refused for its ratio only. -/
theorem ratioExceeded_of_refuse {limits : GuardLimits} {f : Format} {buf : List UInt8}
    {e : GuardError} (h : .refuse e ∈ d.items limits f buf) :
    ∃ name ratio, e = .ratioExceeded name ratio := by
  cases f with
  | gzip => cases h
  | zip =>
    obtain ⟨entry, -, hitem⟩ := List.mem_map.mp h
    cases entry with
    | none => cases hitem
    | some entry =>
      simp only [zipItem] at hitem
      split at hitem
      · cases hitem
        exact ⟨_, _, rfl⟩
      · cases hitem
  | tar =>
    obtain ⟨entry, -, hitem⟩ := List.mem_map.mp h
    cases entry with
    | none => cases hitem
    | some entry =>
      simp only [tarItem] at hitem
      split at hitem <;> cases hitem
  | sevenZ =>
    obtain ⟨entry, -, hitem⟩ := List.mem_map.mp h
    simp only [sevenZItem] at hitem
    split at hitem <;> cases hitem
  | cab =>
    obtain ⟨⟨name, reader⟩, -, hitem⟩ := List.mem_map.mp h
    cases reader <;> cases hitem

end Decoders

/-- An extraction with a fresh budget, which the limit on the total size does not stop, returns no
more than `max_entries` entries, and reports the limit on entries only of an archive with more than
that, if and only if one of two things holds. Where the opened entries come out in no more than
`max_entries` non-empty reads, there are no more than `max_entries` of them. Where they take more
reads, the archive has more than `max_entries` entries, and already the first `max_entries` opened
ones take more reads than that. -/
theorem entryCount_iff {d : Decoders} {limits : GuardLimits} {f : Format} (hf : f ≠ .gzip)
    {buf : List UInt8} {entries : List ExtractedEntry} {hit : Option GuardError} {b' : GuardBudget}
    (hrun : d.extract f buf (.new limits) = .ok (.ok (entries, hit)) b')
    (hsize : NotBySize limits hit) :
    (entries.length ≤ limits.maxEntries.toNat ∧
        ((d.items limits f buf).length ≤ limits.maxEntries.toNat →
          hit ≠ some (.entryCountExceeded limits.maxEntries))) ↔
      let most := limits.maxEntries.toNat
      let readers := opened (d.items limits f buf)
      if totalReads limits.readChunk (most + 1) readers ≤ most then readers.length ≤ most
      else most < (d.items limits f buf).length ∧
        most < totalReads limits.readChunk (most + 1) (readers.take most) := by
  have hleft : (GuardBudget.new limits).chunksLeft = limits.maxEntries.toNat := Nat.sub_zero _
  have hcount := extractItems_count (n := limits.maxEntries.toNat + 1) (by omega)
    (Decoders.extractItems_of_extract hf hrun) hsize
  rw [hleft, show (GuardBudget.new limits).limits = limits from rfl] at hcount
  dsimp only
  obtain ⟨hlen, hreads, hhit⟩ | ⟨hhit, hbefore, hreads⟩ := hcount
  · rw [if_pos hreads, hlen]
    refine ⟨fun h => h.1, fun h => ⟨h, fun _ heq => ?_⟩⟩
    obtain ⟨_, _, he⟩ := Decoders.ratioExceeded_of_refuse (hhit _ heq)
    cases he
  · have htotal := totalReads_take_le limits.readChunk (limits.maxEntries.toNat + 1)
      (opened (d.items limits f buf)) (Nat.le_max_left entries.length
        (opened (d.items limits f buf)).length)
    rw [List.take_of_length_le (Nat.le_max_right _ _)] at htotal
    rw [if_neg (by omega)]
    constructor
    · rintro ⟨hlen, hitems⟩
      have hmore := totalReads_take_le limits.readChunk (limits.maxEntries.toNat + 1)
        (opened (d.items limits f buf)) hlen
      exact ⟨Nat.lt_of_not_le fun h => hitems h hhit, by omega⟩
    · rintro ⟨hitems, hmore⟩
      refine ⟨Nat.le_of_not_lt fun hlen => ?_, fun h => absurd h (by omega)⟩
      have hfewer := totalReads_take_le limits.readChunk (limits.maxEntries.toNat + 1)
        (opened (d.items limits f buf)) (Nat.le_sub_one_of_lt hlen)
      omega

/-- A header field, filled up with zeros. -/
def tarField (width : Nat) (text : String) : List UInt8 :=
  utf8 text.toList ++ List.replicate (width - (utf8 text.toList).length) 0

/-- The header of a regular file in a tar archive. -/
def tarHeader (name size checksum : String) : List UInt8 :=
  tarField 100 name ++ tarField 8 "0000644" ++ tarField 8 "0000000" ++ tarField 8 "0000000" ++
    tarField 12 size ++ tarField 12 "00000000000" ++ tarField 7 checksum ++ tarField 102 " 0" ++
    tarField 6 "ustar" ++ tarField 249 "00"

/-- A tar archive of two files without bytes. -/
def emptyFilesTar : List UInt8 :=
  tarHeader "a" "00000000000" "006076" ++ tarHeader "b" "00000000000" "006077" ++
    List.replicate 1024 0

/-- A tar archive of one file of two bytes. -/
def twoBytesTar : List UInt8 :=
  tarHeader "a" "00000000002" "006100" ++ tarField 512 "xy" ++ List.replicate 1024 0

/-- Decoders that open no archive but these two. -/
def sampleTarDecoders : Decoders where
  zip _ := .error []
  gzip _ := .failing
  tar buf :=
    if buf = emptyFilesTar then
      .ok [some ⟨true, some "a".toList, .ofBytes []⟩, some ⟨true, some "b".toList, .ofBytes []⟩]
    else if buf = twoBytesTar then
      .ok [some ⟨true, some "a".toList, .ofBytes (utf8 "xy".toList)⟩]
    else .error []
  sevenZ _ := .error []
  cab _ := .error []

/-- Limits that allow a number of entries, and read byte by byte. -/
def entryLimits (maxEntries : UInt64) : GuardLimits :=
  { (default : GuardLimits) with maxEntries, readChunk := 1 }

theorem tar_emptyFilesTar : sampleTarDecoders.tar emptyFilesTar =
    .ok [some ⟨true, some "a".toList, .ofBytes []⟩, some ⟨true, some "b".toList, .ofBytes []⟩] := by
  simp only [sampleTarDecoders, if_true]

theorem tar_twoBytesTar : sampleTarDecoders.tar twoBytesTar =
    .ok [some ⟨true, some "a".toList, .ofBytes (utf8 "xy".toList)⟩] := by
  have hne : twoBytesTar ≠ emptyFilesTar := by decide
  simp only [sampleTarDecoders, hne, if_false, if_true]

theorem extract_emptyFilesTar : ∃ b', sampleTarDecoders.extract .tar emptyFilesTar
    (.new (entryLimits 1)) = .ok (.ok ([⟨"a".toList, []⟩, ⟨"b".toList, []⟩], none)) b' := by
  simp only [Decoders.extract, Decoders.extractTar, tar_emptyFilesTar]
  exact ⟨_, rfl⟩

theorem extract_twoBytesTar : ∃ b', sampleTarDecoders.extract .tar twoBytesTar
    (.new (entryLimits 1)) =
      .ok (.ok ([⟨"a".toList, [0x78]⟩], some (.entryCountExceeded 1))) b' := by
  simp only [Decoders.extract, Decoders.extractTar, tar_twoBytesTar]
  exact ⟨_, rfl⟩

theorem extract_twoBytesTar_two : ∃ b', sampleTarDecoders.extract .tar twoBytesTar
    (.new (entryLimits 2)) = .ok (.ok ([⟨"a".toList, [0x78, 0x79]⟩], none)) b' := by
  simp only [Decoders.extract, Decoders.extractTar, tar_twoBytesTar]
  exact ⟨_, rfl⟩

/-- Two reads of one file are within a limit of two. -/
theorem entryCount_twoBytesTar : 1 ≤ 2 ∧
    ((sampleTarDecoders.items (entryLimits 2) .tar twoBytesTar).length ≤ 2 →
      (none : Option GuardError) ≠ some (.entryCountExceeded 2)) := by
  obtain ⟨b', hrun⟩ := extract_twoBytesTar_two
  refine (entryCount_iff (by decide) hrun nofun).mpr ?_
  simp only [Decoders.items, tar_twoBytesTar]
  decide

/-- With a limit of one entry, both files without bytes are returned, and the file that takes two
reads is refused. -/
theorem not_entryCount :
    (¬ ∀ (d : Decoders) (limits : GuardLimits) (f : Format) (buf : List UInt8)
        (entries : List ExtractedEntry) (hit : Option GuardError) (b' : GuardBudget),
      f ≠ .gzip → d.extract f buf (.new limits) = .ok (.ok (entries, hit)) b' →
        NotBySize limits hit → entries.length ≤ limits.maxEntries.toNat) ∧
      ¬ ∀ (d : Decoders) (limits : GuardLimits) (f : Format) (buf : List UInt8)
          (entries : List ExtractedEntry) (hit : Option GuardError) (b' : GuardBudget),
        f ≠ .gzip → d.extract f buf (.new limits) = .ok (.ok (entries, hit)) b' →
          NotBySize limits hit → (d.items limits f buf).length ≤ limits.maxEntries.toNat →
            hit ≠ some (.entryCountExceeded limits.maxEntries) := by
  constructor
  · intro h
    obtain ⟨b', hrun⟩ := extract_emptyFilesTar
    exact absurd (h _ _ _ _ _ _ _ (by decide) hrun nofun) (by decide)
  · intro h
    obtain ⟨b', hrun⟩ := extract_twoBytesTar
    have hone : (sampleTarDecoders.items (entryLimits 1) .tar twoBytesTar).length ≤ 1 := by
      simp only [Decoders.items, tar_twoBytesTar]
      decide
    exact h _ _ _ _ _ _ _ (by decide) hrun (by simp [NotBySize]) hone rfl

end ActiveDefense.Clam
