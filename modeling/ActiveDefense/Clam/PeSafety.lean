import ActiveDefense.Clam.Pe

/-!
# Parsing a PE file is safe

Every offset that `parse` adds up, and every range that it indexes, lies before an end that it has
compared with the length of the buffer: the offsets of the file header before `pe_header_end`, those
of the optional header before its end, and those of a section header before `sections_end`. So no
read goes out of the buffer and no sum out of the range of a `usize`, of either width
(`parse_parsed`), and what is returned are the fields of the headers. The counts of the entropy stay
below the length of the section.
-/

namespace ActiveDefense.Clam

/-! ## Reading a number -/

theorem leNat_lt : ∀ bytes : List UInt8, leNat bytes < 256 ^ bytes.length
  | [] => Nat.one_pos
  | b :: bytes => by
    have hb := b.toNat_lt
    have hrest := leNat_lt bytes
    change b.toNat + 256 * leNat bytes < 256 ^ (bytes.length + 1)
    rw [Nat.pow_succ]
    omega

section
variable {w : UsizeWidth} {buf : Buffer w} {off : Nat}

theorem Buffer.field_lt {n : Nat} : Buffer.field buf off n < 256 ^ n :=
  Nat.lt_of_lt_of_le (leNat_lt _)
    (Nat.pow_le_pow_right (by decide) (List.length_take_le _ _))

/-- Within the buffer, a range of `n` bytes is got. -/
theorem Buffer.exists_get {n : Nat} (h : off + n ≤ buf.len) :
    ∃ s : List UInt8, buf.get off (off + n) = some s ∧ s.length = n ∧
      leNat s = Buffer.field buf off n := by
  refine ⟨(buf.bytes.drop off).take n, ?_, ?_, rfl⟩
  · rw [Buffer.get_of_le (Nat.le_add_right _ _) h, Nat.add_sub_cancel_left]
  · have hlen : buf.len = buf.bytes.length := rfl
    rw [List.length_take, List.length_drop]
    omega

/-- Two bytes within the buffer are read. -/
theorem u16At_of_le (h : off + 2 ≤ buf.len) :
    ∃ v : UInt16, u16At buf off = .ok (some v) ∧ v.toNat = Buffer.field buf off 2 := by
  obtain ⟨s, hget, hlen, hfield⟩ := Buffer.exists_get h
  obtain ⟨a, b, rfl⟩ := List.length_eq_two.mp hlen
  refine ⟨.ofNat (leNat [a, b]), ?_, ?_⟩
  · simp only [u16At, UsizeWidth.add_of_le (Buffer.le_usizeMax h), hget, bind, Except.bind, index,
      List.getElem?_cons_zero, List.getElem?_cons_succ]
    rfl
  · rw [hfield]
    exact UInt16.toNat_ofNat_of_lt Buffer.field_lt

/-- Four bytes within the buffer are read. -/
theorem u32At_of_le (h : off + 4 ≤ buf.len) :
    ∃ v : UInt32, u32At buf off = .ok (some v) ∧ v.toNat = Buffer.field buf off 4 := by
  obtain ⟨s, hget, hlen, hfield⟩ := Buffer.exists_get h
  match s, hlen with
  | [a, b, c, d], _ =>
    refine ⟨.ofNat (leNat [a, b, c, d]), ?_, ?_⟩
    · simp only [u32At, UsizeWidth.add_of_le (Buffer.le_usizeMax h), hget, bind, Except.bind, index,
        List.getElem?_cons_zero, List.getElem?_cons_succ]
      rfl
    · rw [hfield]
      exact UInt32.toNat_ofNat_of_lt Buffer.field_lt

end

/-! ## The entropy -/

/-- The counts have a place for each byte, and room for `n` more bytes. -/
def RoomFor (n : Nat) (counts : List Nat) : Prop :=
  counts.length = 256 ∧ ∀ c ∈ counts, c + n ≤ u64Max

/-- A byte is counted where there is room for it. -/
theorem countByte_succeeds {counts : List Nat} {n : Nat} {b : UInt8}
    (h : RoomFor (n + 1) counts) : Returns (RoomFor n) (countByte counts b) := by
  obtain ⟨hlen, hroom⟩ := h
  have hb : b.toNat < counts.length := hlen ▸ b.toNat_lt
  have hc : counts[b.toNat] + (n + 1) ≤ u64Max := hroom _ (List.getElem_mem hb)
  have hindex : index counts b.toNat = .ok counts[b.toNat] :=
    index_of_getElem? (List.getElem?_eq_getElem hb)
  have hrange : inRange u64Max (counts[b.toNat] + 1) = .ok (counts[b.toNat] + 1) :=
    inRange_of_le (by omega)
  unfold countByte
  rw [hindex]
  change Returns _ (inRange u64Max (counts[b.toNat] + 1) >>= _)
  rw [hrange]
  refine .pure ⟨by rw [List.length_set, hlen], fun c hmem => ?_⟩
  rcases List.mem_or_eq_of_mem_set hmem with hmem | rfl
  · have := hroom c hmem
    omega
  · omega

section
variable {φ : Type} [Log2Arith φ]

/-- The entropy of what is no longer than `u64::MAX` does not panic. -/
theorem shannonEntropy_of_le {data : List UInt8} (h : data.length ≤ u64Max) :
    ∃ e : φ, shannonEntropy data = .ok e := by
  have hzero : RoomFor data.length (List.replicate 256 0) := by
    refine ⟨List.length_replicate, fun c hc => ?_⟩
    rw [List.eq_of_mem_replicate hc, Nat.zero_add]
    exact h
  obtain ⟨counts, hcounts, -⟩ := Returns.foldlM (I := fun rest => RoomFor rest.length) hzero
    fun _ _ _ hroom => countByte_succeeds hroom
  unfold shannonEntropy
  rw [hcounts]
  exact ⟨_, rfl⟩

/-! ## The headers -/

variable {w : UsizeWidth} {buf : Buffer w}

/-- A section with the fields of a header. -/
structure Buffer.ReadsHeader (buf : Buffer w) (i : Nat) (s : SectionInfo φ) : Prop where
  virtualSize : s.virtualSize.toNat = Buffer.virtualSize buf i
  rawSize : s.rawSize.toNat = Buffer.sizeOfRawData buf i
  rawOffset : s.rawOffset.toNat = Buffer.pointerToRawData buf i

/-- One turn of the loop, on a header within the buffer. -/
theorem parseSection_safe {off i : Nat}
    (hoff : off + i * sectionHeaderSize = Buffer.sectionHeader buf i)
    (hend : Buffer.sectionHeader buf i + 40 ≤ buf.len) :
    Safe (Buffer.ReadsHeader buf i) (parseSection (φ := φ) buf off i) := by
  have hmul : w.mul i sectionHeaderSize = .ok (i * sectionHeaderSize) :=
    UsizeWidth.mul_of_le (Buffer.le_usizeMax (show i * sectionHeaderSize ≤ buf.len by omega))
  have hadd {a b : Nat} (h : a + b ≤ buf.len) : w.add a b = .ok (a + b) :=
    UsizeWidth.add_of_le (Buffer.le_usizeMax h)
  have hslice := Buffer.slice_of_le (Nat.le_add_right (Buffer.sectionHeader buf i) 8)
    (show Buffer.sectionHeader buf i + 8 ≤ buf.len by omega)
  obtain ⟨virtualSize, hvirtual, hvirtualSize⟩ :=
    u32At_of_le (show Buffer.sectionHeader buf i + 8 + 4 ≤ buf.len by omega)
  obtain ⟨rawSize, hraw, hrawSize⟩ :=
    u32At_of_le (show Buffer.sectionHeader buf i + 16 + 4 ≤ buf.len by omega)
  obtain ⟨rawOffset, hrawAt, hrawOffset⟩ :=
    u32At_of_le (show Buffer.sectionHeader buf i + 20 + 4 ≤ buf.len by omega)
  obtain ⟨characteristics, hchar, -⟩ :=
    u32At_of_le (show Buffer.sectionHeader buf i + 36 + 4 ≤ buf.len by omega)
  unfold parseSection
  refine .lift hmul (.lift (hadd (by omega)) ?_)
  rw [hoff]
  refine .lift (hadd (by omega)) (.lift hslice (.lift (hadd (by omega)) (.lift hvirtual ?_)))
  refine .lift (hadd (by omega)) (.lift hraw (.lift (hadd (by omega)) (.lift hrawAt ?_)))
  refine .lift (hadd (by omega)) (.lift hchar ?_)
  have hreads (name : Str) (entropy : φ) : Buffer.ReadsHeader buf i
      { name, virtualSize, rawSize, rawOffset, characteristics, entropy } :=
    ⟨hvirtualSize, hrawSize, hrawOffset⟩
  simp only [Option.getD_some]
  split
  · next s hget =>
    split
    · exact .pure (hreads _ _)
    · obtain ⟨hlen, hlast⟩ := Buffer.length_of_get hget
      have hfits : s.length ≤ u64Max :=
        Nat.le_trans (show s.length ≤ buf.len by omega) Buffer.len_le_u64Max
      obtain ⟨e, hentropy⟩ := shannonEntropy_of_le (φ := φ) hfits
      exact .lift hentropy (.pure (hreads _ _))
  · exact .pure (hreads _ _)

/-- What `parse` returns for a buffer: the fields of the headers, all of which are within the
buffer. -/
structure Parsed (buf : Buffer w) (info : PeInfo φ) : Prop where
  numberOfSections : info.numberOfSections.toNat = Buffer.declaredSections buf
  entryPointRva : info.entryPointRva.toNat = Buffer.entryPoint buf
  table : Buffer.sectionHeader buf (Buffer.declaredSections buf) ≤ buf.len
  sections : List.Forall₂ (Buffer.ReadsHeader buf) (List.range (Buffer.declaredSections buf))
    info.sections

/-- `parse` does not panic, and returns the fields of the headers. -/
theorem parse_parsed (buf : Buffer w) : Safe (Parsed buf) (parse (φ := φ) buf) := by
  have hadd {a b : Nat} (h : a + b ≤ buf.len) : w.add a b = .ok (a + b) :=
    UsizeWidth.add_of_le (Buffer.le_usizeMax h)
  unfold parse
  refine .guard fun hdos => ?_
  have hmagic := Buffer.slice_of_le (Nat.zero_le 2) (show 2 ≤ buf.len by omega)
  refine .lift hmagic (.guard fun _ => ?_)
  obtain ⟨lfanew, hlfanew, hlfanewField⟩ := u32At_of_le (show 0x3C + 4 ≤ buf.len by omega)
  refine .lift hlfanew (.okOr fun _ h => ?_)
  cases h
  have hlfanewEq : lfanew.toNat = Buffer.lfanew buf := hlfanewField
  simp only [hlfanewEq]
  -- the file header is before `pe_header_end`
  refine .okOr fun peHeaderEnd hpeHeaderEnd => .guard fun hpe => ?_
  cases UsizeWidth.eq_add_of_checkedAdd hpeHeaderEnd
  have hsignature := Buffer.slice_of_le (Nat.le_add_right (Buffer.lfanew buf) 4)
    (show Buffer.lfanew buf + 4 ≤ buf.len by omega)
  refine .lift (hadd (by omega)) (.lift hsignature (.guard fun _ => ?_))
  refine .okOr fun coffOff hcoffOff => ?_
  cases UsizeWidth.eq_add_of_checkedAdd hcoffOff
  obtain ⟨machine, hmachine, -⟩ := u16At_of_le (show Buffer.lfanew buf + 4 + 2 ≤ buf.len by omega)
  refine .lift hmachine (.okOr fun _ h => ?_)
  cases h
  obtain ⟨numberOfSections, hnumber, hnumberField⟩ :=
    u16At_of_le (show Buffer.lfanew buf + 4 + 2 + 2 ≤ buf.len by omega)
  refine .lift (hadd (by omega)) (.lift hnumber (.okOr fun _ h => ?_))
  cases h
  have hnumberEq : numberOfSections.toNat = Buffer.declaredSections buf := hnumberField
  obtain ⟨size, hsize, hsizeField⟩ :=
    u16At_of_le (show Buffer.lfanew buf + 4 + 16 + 2 ≤ buf.len by omega)
  refine .lift (hadd (by omega)) (.lift hsize (.okOr fun _ h => ?_))
  cases h
  have hsizeEq : size.toNat = Buffer.optionalHeaderSize buf := hsizeField
  simp only [hnumberEq, hsizeEq]
  -- the entry point is before the end of the optional header
  refine .okOr fun optHeaderOff hoptHeaderOff => .guard fun hlarge => .guard fun hopt => ?_
  cases UsizeWidth.eq_add_of_checkedAdd hoptHeaderOff
  have hoptEnd : Buffer.lfanew buf + 4 + 20 + Buffer.optionalHeaderSize buf ≤ buf.len := by
    unfold UsizeWidth.checkedAdd at hopt
    split at hopt
    · simpa using hopt
    · exact absurd rfl hopt
  obtain ⟨entryPointRva, hentry, hentryField⟩ :=
    u32At_of_le (show Buffer.lfanew buf + 4 + 20 + 16 + 4 ≤ buf.len by omega)
  refine .lift (hadd (by omega)) (.lift hentry (.okOr fun _ h => ?_))
  cases h
  -- the section headers are before `sections_end`
  refine .okOr fun sectionTableOff htableOff => .okOr fun tableBytes htableBytes => ?_
  cases UsizeWidth.eq_add_of_checkedAdd htableOff
  cases UsizeWidth.eq_mul_of_checkedMul htableBytes
  refine .okOr fun sectionsEnd hsectionsEnd => .guard fun hsections => ?_
  cases UsizeWidth.eq_add_of_checkedAdd hsectionsEnd
  have htable : Buffer.sectionHeader buf (Buffer.declaredSections buf) ≤ buf.len := by
    unfold Buffer.sectionHeader
    omega
  refine (Safe.mapM fun i hi => parseSection_safe (i := i) rfl ?_).bind fun sections hread => ?_
  · have hlt := List.mem_range.mp hi
    unfold Buffer.sectionHeader sectionHeaderSize at htable ⊢
    omega
  · exact .pure ⟨hnumberEq, hentryField, htable, hread⟩

theorem parsed_of_parse {info : PeInfo φ} (h : (parse buf).run = .ok (.ok info)) :
    Parsed buf info := by
  obtain ⟨r, hrun, hparsed⟩ := parse_parsed (φ := φ) buf
  rw [hrun] at h
  cases h
  exact hparsed info rfl

/-! ## The number of sections -/

/-- On either width of `usize`, parsing a buffer does not panic; and where it returns, there are as
many sections as the file header declares, each with its header within the buffer. -/
theorem parse_safe {w : UsizeWidth} {φ : Type} [Log2Arith φ] (buf : Buffer w) :
    ∃ r : Except PeError (PeInfo φ), (parse buf).run = .ok r ∧ ∀ info, r = .ok info →
      info.numberOfSections.toNat = Buffer.declaredSections buf ∧
        info.sections.length = info.numberOfSections.toNat ∧
        ∀ i < info.sections.length,
          Buffer.sectionHeader buf i + sectionHeaderSize ≤ buf.len := by
  obtain ⟨r, hrun, hparsed⟩ := parse_parsed (φ := φ) buf
  refine ⟨r, hrun, fun info hinfo => ?_⟩
  obtain ⟨hnumber, -, htable, hsections⟩ := hparsed info hinfo
  have hlen : info.sections.length = info.numberOfSections.toNat := by
    rw [← hsections.length_eq, List.length_range, hnumber]
  refine ⟨hnumber, hlen, fun i hi => ?_⟩
  unfold Buffer.sectionHeader sectionHeaderSize at htable ⊢
  omega

end

end ActiveDefense.Clam
