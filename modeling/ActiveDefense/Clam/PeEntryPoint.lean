import ActiveDefense.Clam.PeSafety

/-!
# The entry point of a PE file

`heuristics` flags a file whose entry point is in none of its sections. The address is compared with
the range from `raw_offset` on, which is the place of the section in the file and not the one in
memory, and the end of the range is capped at `u32::MAX`; a file without sections is not flagged.
The scores of a parsed file do not overflow (`heuristics_of_parsed`). Where the two places of every
section are the same, the flag says what it should of each range that does not end beyond the cap
(`entryPointOutside_iff`).
-/

namespace ActiveDefense.Clam

section
variable {φ : Type} [Log2Arith φ]

/-! ## The scores -/

/-- Room for as many points more, and the flag of the entry point as given. -/
def Scored (room : Nat) (flag : Bool) (h : Heuristics) : Prop :=
  h.score + room ≤ u32Max ∧ h.entryPointOutsideSections = flag

/-- A check takes the room for its points. -/
theorem Heuristics.scoreIf_scored {h flagged : Heuristics} {c flag : Bool} {points room : Nat}
    (hfalse : c = false → Scored (room + points) flag h)
    (htrue : c = true → Scored (room + points) flag flagged) :
    Returns (Scored room flag) (h.scoreIf c flagged points) := by
  unfold scoreIf
  cases c with
  | false =>
    obtain ⟨hroom, hflag⟩ := hfalse rfl
    exact .pure ⟨by omega, hflag⟩
  | true =>
    obtain ⟨hroom, hflag⟩ := htrue rfl
    have hsum : flagged.score + points ≤ u32Max := by omega
    simp only [if_true, inRange_of_le hsum]
    refine .pure ⟨?_, hflag⟩
    show flagged.score + points + room ≤ u32Max
    omega

/-- A section adds at most 70 points, and leaves the flag. -/
theorem scoreSection_scored {h : Heuristics} {s : SectionInfo φ} {room : Nat} {flag : Bool}
    (hscored : Scored (room + 70) flag h) : Returns (Scored room flag) (scoreSection h s) := by
  unfold scoreSection
  have hentropy : Returns (Scored (room + 40) flag)
      (h.scoreIf (decide ((7.2 : φ) ≤ s.entropy) && decide (256 ≤ s.rawSize))
        { h with highEntropySections := h.highEntropySections ++ [s.name] } 30) :=
    Heuristics.scoreIf_scored (fun _ => hscored) fun _ => hscored
  exact hentropy.bind fun h₁ hscored₁ =>
    Heuristics.scoreIf_scored (fun _ => hscored₁) fun _ => hscored₁

/-- As many sections as a file can declare are scored without overflow. -/
theorem heuristics_succeeds {info : PeInfo φ} (hle : info.sections.length < 2 ^ 16) :
    Returns (fun h => h.entryPointOutsideSections =
        (!info.sections.any (fun s => s.holds info.entryPointRva) && !info.sections.isEmpty))
      (heuristics info) := by
  have hroom : 70 * info.sections.length + 35 ≤ u32Max := by
    unfold u32Max
    omega
  have hstart : Scored (70 * info.sections.length + 35) false default :=
    ⟨by simpa [default] using hroom, rfl⟩
  have hloop : Returns (Scored 35 false) (info.sections.foldlM scoreSection default) :=
    Returns.foldlM (I := fun rest => Scored (70 * rest.length + 35) false) hstart
      fun s rest h hscored => scoreSection_scored (by
        rw [List.length_cons, Nat.mul_add, Nat.add_right_comm] at hscored
        exact hscored)
  unfold heuristics
  refine hloop.bind fun h₁ hscored₁ => ?_
  have hflagged : Scored 35 true { h₁ with entryPointOutsideSections := true } :=
    ⟨hscored₁.1, rfl⟩
  have hentry {c : Bool} : Returns (Scored 10 c)
      (h₁.scoreIf c { h₁ with entryPointOutsideSections := true } 25) :=
    Heuristics.scoreIf_scored (fun hc => hc ▸ hscored₁) fun hc => hc ▸ hflagged
  refine hentry.bind fun h₂ hscored₂ => ?_
  have hfew : Returns (Scored 0 _)
      (h₂.scoreIf (decide (info.numberOfSections ≤ 2))
        { h₂ with suspiciouslyFewSections := true } 10) :=
    Heuristics.scoreIf_scored (fun _ => hscored₂) fun _ => hscored₂
  obtain ⟨h₃, hrun, -, hflag⟩ := hfew
  exact ⟨h₃, hrun, hflag⟩

/-! ## The sections of a parsed file -/

section
variable {w : UsizeWidth} {buf : Buffer w} {info : PeInfo φ}

/-- What holds of all elements of a list holds of all of one that is related to it place by place. -/
theorem forall_mem_iff_of_forall₂ {α β : Type} {R : α → β → Prop} {p : α → Prop} {q : β → Prop}
    {as : List α} {bs : List β} (h : List.Forall₂ R as bs) (hpq : ∀ a b, R a b → (p a ↔ q b)) :
    (∀ a ∈ as, p a) ↔ ∀ b ∈ bs, q b := by
  induction h with
  | nil => exact ⟨fun _ => nofun, fun _ => nofun⟩
  | cons hab _ ih => rw [List.forall_mem_cons, List.forall_mem_cons, hpq _ _ hab, ih]

/-- Whether the entry point is in a range of addresses that begins there, as long as the larger of
the sizes of a section, and capped. -/
def Buffer.EntryIn (buf : Buffer w) (start i : Nat) : Prop :=
  start ≤ Buffer.entryPoint buf ∧
    Buffer.entryPoint buf <
      min (start + max (Buffer.virtualSize buf i) (Buffer.sizeOfRawData buf i)) u32Max

instance {start i : Nat} : Decidable (Buffer.EntryIn buf start i) :=
  inferInstanceAs (Decidable (_ ∧ _))

omit [Log2Arith φ] in
/-- The range of a section is taken from its place in the file. -/
theorem SectionInfo.holds_iff {s : SectionInfo φ} {rva : UInt32} {i : Nat}
    (hreads : Buffer.ReadsHeader buf i s) (hrva : rva.toNat = Buffer.entryPoint buf) :
    s.holds rva = true ↔ Buffer.EntryIn buf (Buffer.pointerToRawData buf i) i := by
  have hmax : (max s.virtualSize s.rawSize).toNat =
      max (Buffer.virtualSize buf i) (Buffer.sizeOfRawData buf i) := by
    rw [← hreads.virtualSize, ← hreads.rawSize]
    exact UInt32.toNat_max ..
  simp only [holds, Bool.and_eq_true, decide_eq_true_eq, hrva, hreads.rawOffset, hmax]
  rfl

/-- The flag of a parsed file, by the places of its sections in the file. -/
theorem heuristics_of_parsed (hparsed : Parsed buf info) :
    Returns (fun h => h.entryPointOutsideSections = true ↔ Buffer.declaredSections buf ≠ 0 ∧
        ∀ i < Buffer.declaredSections buf,
          ¬ Buffer.EntryIn buf (Buffer.pointerToRawData buf i) i) (heuristics info) := by
  obtain ⟨hnumber, hentry, -, hsections⟩ := hparsed
  have hlen : Buffer.declaredSections buf = info.sections.length := by
    rw [← hsections.length_eq, List.length_range]
  have hshort : info.sections.length < 2 ^ 16 := by
    rw [← hlen, ← hnumber]
    exact info.numberOfSections.toNat_lt
  obtain ⟨h, hrun, hflag⟩ := heuristics_succeeds hshort
  have hempty : Buffer.declaredSections buf ≠ 0 ↔ info.sections ≠ [] := by
    rw [hlen, Ne, List.length_eq_zero_iff]
  have hnone : (∀ i ∈ List.range (Buffer.declaredSections buf),
        ¬ Buffer.EntryIn buf (Buffer.pointerToRawData buf i) i) ↔
      ∀ s ∈ info.sections, ¬ s.holds info.entryPointRva = true :=
    forall_mem_iff_of_forall₂ hsections fun i s hreads =>
      not_congr (SectionInfo.holds_iff hreads hentry).symm
  refine ⟨h, hrun, ?_⟩
  show h.entryPointOutsideSections = true ↔ _
  rw [hflag, hempty, Bool.and_eq_true, Bool.not_eq_true', List.any_eq_false, ← hnone, and_comm]
  simp only [List.mem_range, Bool.not_eq_true', List.isEmpty_eq_false_iff]

end

end

/-- A parsed file without sections is not flagged; one whose sections are all at the same place in
the file and in memory is flagged if and only if its entry point is in none of their ranges of
addresses, each without what is beyond the cap. -/
theorem entryPointOutside_iff {w : UsizeWidth} {φ : Type} [Log2Arith φ] (buf : Buffer w)
    (info : PeInfo φ) (hparse : (parse buf).run = .ok (.ok info)) :
    ∃ h, heuristics info = .ok h ∧
      (Buffer.declaredSections buf = 0 → h.entryPointOutsideSections = false) ∧
      (Buffer.declaredSections buf ≠ 0 →
        (∀ i < Buffer.declaredSections buf,
          Buffer.pointerToRawData buf i = Buffer.virtualAddress buf i) →
        (h.entryPointOutsideSections = true ↔ ∀ i < Buffer.declaredSections buf,
          ¬ (Buffer.virtualAddress buf i ≤ Buffer.entryPoint buf ∧
            Buffer.entryPoint buf < min (Buffer.virtualAddress buf i +
              max (Buffer.virtualSize buf i) (Buffer.sizeOfRawData buf i)) u32Max))) := by
  obtain ⟨h, hheuristics, hflag⟩ := heuristics_of_parsed (parsed_of_parse hparse)
  refine ⟨h, hheuristics, fun hnone => ?_, fun hsome hsame => ?_⟩
  · cases hset : h.entryPointOutsideSections with
    | false => rfl
    | true => exact absurd hnone (hflag.mp hset).1
  · refine hflag.trans ⟨fun hout i hi => ?_, fun hout => ⟨hsome, fun i hi => ?_⟩⟩
    · rw [← hsame i hi]
      exact hout.2 i hi
    · rw [hsame i hi]
      exact hout i hi

/-- A file for an x86-64 machine, with the PE signature after the header of 64 bytes and an optional
header of 20 bytes, before the section headers. -/
def peFile (sections : UInt8) (entryPoint sectionHeaders : List UInt8) : List UInt8 :=
  [0x4D, 0x5A] ++ List.replicate 58 0 ++ [64, 0, 0, 0] ++ [0x50, 0x45, 0, 0] ++
    [0x64, 0x86, sections, 0] ++ List.replicate 12 0 ++ [20, 0, 2, 1] ++ List.replicate 16 0 ++
    entryPoint ++ sectionHeaders

/-- A section of 512 bytes at the address 4096, which is also its place in the file, and the entry
point after it. -/
def textSectionFile : Buffer .w64 where
  bytes := peFile 1 [0, 0x30, 0, 0]
    ([0x2E, 0x74, 0x65, 0x78, 0x74, 0, 0, 0] ++ [0, 2, 0, 0] ++ [0, 0x10, 0, 0] ++ [0, 2, 0, 0] ++
      [0, 0x10, 0, 0] ++ List.replicate 12 0 ++ [0x20, 0, 0, 0x60])
  length_le := by decide +kernel

/-- Whether `parse` returns the fields of a file. -/
def accepts {w : UsizeWidth} (buf : Buffer w) : Bool :=
  match (parse (φ := Float) buf).run with
  | .ok (.ok _) => true
  | _ => false

theorem exists_of_accepts {w : UsizeWidth} {buf : Buffer w} (h : accepts buf = true) :
    ∃ info : PeInfo Float, (parse buf).run = .ok (.ok info) := by
  unfold accepts at h
  split at h
  · next info hrun => exact ⟨info, hrun⟩
  · cases h

theorem entryPointOutside_textSection :
    ∃ (info : PeInfo Float) (h : Heuristics), (parse textSectionFile).run = .ok (.ok info) ∧
      heuristics info = .ok h ∧ h.entryPointOutsideSections = true := by
  have haccepts : accepts textSectionFile = true := by decide +kernel
  have hone : Buffer.declaredSections textSectionFile = 1 := by decide +kernel
  obtain ⟨info, hparse⟩ := exists_of_accepts haccepts
  obtain ⟨h, hheuristics, -, hflag⟩ := entryPointOutside_iff textSectionFile info hparse
  rw [hone] at hflag
  refine ⟨info, h, hparse, hheuristics, (hflag Nat.one_ne_zero ?_).mpr ?_⟩ <;> decide

/-- A file without sections. -/
def noSectionFile : Buffer .w64 where
  bytes := peFile 0 [0, 0x30, 0, 0] []
  length_le := by decide +kernel

/-- Its entry point is in no section, and it is not flagged. -/
theorem not_entryPointOutside :
    ¬ ∀ (w : UsizeWidth) (buf : Buffer w) (info : PeInfo Float),
      (parse buf).run = .ok (.ok info) →
      ∃ h, heuristics info = .ok h ∧ (h.entryPointOutsideSections = true ↔
        ∀ i < Buffer.declaredSections buf,
          ¬ (Buffer.virtualAddress buf i ≤ Buffer.entryPoint buf ∧
            Buffer.entryPoint buf < Buffer.virtualAddress buf i +
              max (Buffer.virtualSize buf i) (Buffer.sizeOfRawData buf i))) := by
  intro hclaim
  have haccepts : accepts noSectionFile = true := by decide
  have hnone : Buffer.declaredSections noSectionFile = 0 := by decide
  obtain ⟨info, hparse⟩ := exists_of_accepts haccepts
  obtain ⟨h, hheuristics, hset⟩ := hclaim .w64 noSectionFile info hparse
  have hflag : h.entryPointOutsideSections = true := by
    refine hset.mpr fun i hi => ?_
    rw [hnone] at hi
    exact absurd hi (Nat.not_lt_zero i)
  obtain ⟨h', hheuristics', hsome⟩ := heuristics_of_parsed (parsed_of_parse hparse)
  rw [hheuristics] at hheuristics'
  cases hheuristics'
  exact (hsome.mp hflag).1 hnone

end ActiveDefense.Clam
