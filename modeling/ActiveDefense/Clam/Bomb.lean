import ActiveDefense.Clam.Scanner

/-!
# A scan hands on no more bytes than its limit

The room in the budget is a potential. A chunk is paid for out of it before it is kept
(`chargeEntry_pays`), so an extraction gains its bytes from the room that the budget loses
(`Decoders.extract_pays`); handing an entry on takes them again. Over a scan the bytes handed on and
the room together never grow (`Scanner.scanBytesWith_pays`), whatever the decoders give.
-/

namespace ActiveDefense.Clam

/-! ## Extraction -/

/-- Where a chunk is let through, its bytes are paid for. -/
theorem chargeEntry_pays {n : UInt64} :
    Pays GuardBudget.room 0 (fun res => if res.isOk then n.toNat else 0) (chargeEntry n) := by
  intro b
  simp only [chargeEntry_run]
  split
  · split
    · exact Nat.le_refl _
    · split
      · next htotal =>
        have hsum : (b.totalUncompressed + n).toNat = b.totalUncompressed.toNat + n.toNat := by
          rw [UInt64.toNat_add, Nat.mod_eq_of_lt htotal]
        split
        · show b.limits.maxTotalUncompressed.toNat - (b.totalUncompressed + n).toNat + 0 ≤
            b.room + 0
          unfold GuardBudget.room
          omega
        · next hmax =>
          rw [UInt64.lt_iff_toNat_lt] at hmax
          show b.limits.maxTotalUncompressed.toNat - (b.totalUncompressed + n).toNat + n.toNat ≤
            b.room + 0
          unfold GuardBudget.room
          omega
      · exact Nat.le_refl _
  · exact Nat.le_refl _

/-- One turn of the read loop pays for the bytes that it adds, if the turns after it do. -/
theorem readTurn_pays {reader : Reader} {next : Nat → List UInt8 → Exec GuardBudget Bounded}
    {i : Nat} {data : List UInt8}
    (hnext : ∀ i data, Pays GuardBudget.room 0 (fun r => r.1.length - data.length) (next i data)) :
    Pays GuardBudget.room 0 (fun r => r.1.length - data.length) (readTurn reader next i data) := by
  unfold readTurn
  refine .get fun b => ?_
  have hsame {hit : Option GuardError} {k : Nat} :
      Pays (ε := Panic) GuardBudget.room k (fun r => r.1.length - data.length)
        (pure (data, hit)) := .pure (by simp)
  split
  · exact hsame
  · exact hsame
  · next c cs hread =>
    have hfits : (c :: cs).length < 2 ^ 64 :=
      Nat.lt_of_le_of_lt (reader.length_le hread) (UInt64.toNat_lt _)
    have hchunk : (UInt64.ofNat (c :: cs).length).toNat = (c :: cs).length :=
      UInt64.toNat_ofNat_of_lt' hfits
    refine chargeEntry_pays.bind fun res => ?_
    cases res with
    | error e => exact hsame
    | ok u =>
      refine ((hnext (i + 1) (data ++ c :: cs)).frame (c :: cs).length).mono ?_ fun r => ?_
      · rw [Nat.zero_add]
        exact Nat.le_of_eq hchunk.symm
      · show r.1.length - data.length ≤ r.1.length - (data ++ c :: cs).length + (c :: cs).length
        rw [List.length_append]
        omega

theorem readTurns_pays {reader : Reader} {n i : Nat} {data : List UInt8} :
    Pays GuardBudget.room 0 (fun r => r.1.length - data.length) (readTurns reader n i data) := by
  induction n generalizing i data with
  | zero => exact readTurn_pays fun i data => .pure (by simp)
  | succ n ih => exact readTurn_pays fun i data => ih

/-- The read loop pays for what it reads. -/
theorem readLoop_pays {reader : Reader} :
    Pays GuardBudget.room 0 (fun r => r.1.length) (readLoop reader 0 []) := by
  refine .get fun b => ?_
  exact readTurns_pays.mono (Nat.le_refl 0) fun r => by simp

/-- The bytes of some entries. -/
def totalBytes (entries : List ExtractedEntry) : Nat := (entries.map fun e => e.data.length).sum

/-- The loop over the entries pays for their bytes. -/
theorem extractItems_pays {items : List Item} :
    Pays GuardBudget.room 0 (fun r => totalBytes r.1) (extractItems items) := by
  induction items with
  | nil => exact .pure (Nat.le_refl 0)
  | cons item items ih =>
    cases item with
    | skip => exact ih
    | refuse e => exact .pure (Nat.le_refl 0)
    | extract name reader =>
      refine readLoop_pays.bind fun r => ?_
      obtain ⟨data, hit⟩ := r
      cases hit with
      | some e => exact .pure (by simp [totalBytes])
      | none =>
        have hrest := ih.frame data.length
        rw [Nat.zero_add] at hrest
        exact hrest.bind fun r => .pure (by simp [totalBytes, Nat.add_comm])

/-- The bytes of the entries that an extraction gives. -/
def Extracted.bytes : Extracted → Nat
  | .ok (entries, _) => totalBytes entries
  | .error _ => 0

/-- An extraction pays for the bytes of its entries. -/
theorem Decoders.extract_pays {d : Decoders} {f : Format} {buf : List UInt8} :
    Pays GuardBudget.room 0 Extracted.bytes (d.extract f buf) := by
  have hitems {items : List Item} :
      Pays GuardBudget.room 0 Extracted.bytes (do return .ok (← extractItems items)) :=
    extractItems_pays.bind fun r => .pure (Nat.le_refl _)
  cases f with
  | zip =>
    refine .get fun b => ?_
    split
    · exact .pure (Nat.le_refl 0)
    · exact hitems
  | gzip =>
    refine readLoop_pays.bind fun r => .pure ?_
    simp [Extracted.bytes, totalBytes]
  | tar =>
    show Pays _ _ _ (d.extractTar buf)
    unfold Decoders.extractTar
    split
    · exact .pure (Nat.le_refl 0)
    · exact hitems
  | sevenZ =>
    show Pays _ _ _ (d.extract7z buf)
    unfold Decoders.extract7z
    split
    · exact .pure (Nat.le_refl 0)
    · refine extractItems_pays.bind fun ⟨out, hitLimit⟩ => ?_
      simp only
      split
      · exact .pure (Nat.zero_le _)
      · exact .pure (Nat.le_refl _)
  | cab =>
    show Pays _ _ _ (d.extractCab buf)
    unfold Decoders.extractCab
    split
    · exact .pure (Nat.le_refl 0)
    · exact hitems

/-! ## The scan -/

namespace ScanState

variable {δ η : Type}

/-- The bytes that were handed on, and the room that is left. -/
def potential (st : ScanState δ η) : Nat := st.handedBytes + st.budget.room

end ScanState

section
variable {δ η α : Type} {k : Nat}

/-- What the budget pays, the scan pays. -/
theorem onBudget_pays {gain : α → Nat} {x : Exec GuardBudget α}
    (h : Pays GuardBudget.room k gain x) :
    Pays (ScanState.potential (δ := δ) (η := η)) k gain (onBudget x) := by
  intro st
  have hb := h st.budget
  unfold onBudget
  cases hrun : x st.budget with
  | ok a b =>
    rw [hrun] at hb
    unfold Affords at hb ⊢
    show st.handedBytes + b.room + gain a ≤ st.handedBytes + st.budget.room + k
    omega
  | error e b =>
    rw [hrun] at hb
    unfold Affords at hb ⊢
    show st.handedBytes + b.room ≤ st.handedBytes + st.budget.room + k
    omega

theorem report_pays {r : FileReport δ η} : Pays ScanState.potential k (fun _ => 0) (report r) :=
  .modify fun _ => Nat.le_add_right _ _

/-- An entry is handed on for its bytes. -/
theorem handOn_pays {data : List UInt8} {nested : Exec (ScanState δ η) Unit}
    (hnested : Pays ScanState.potential 0 (fun _ => 0) nested) :
    Pays ScanState.potential data.length (fun _ => 0) (handOn data nested) := by
  refine Pays.bind (.modify fun st => ?_) fun _ => hnested.bind fun _ => .modify fun st => ?_
  · simp only [ScanState.potential, ScanState.handedBytes, ScanState.handOver, List.map_append,
      List.sum_append, List.map_cons, List.map_nil, List.sum_cons, List.sum_nil]
    omega
  · exact Nat.le_refl _

theorem enterArchive_pays : Pays GuardBudget.room 0 (fun _ => 0) enterArchive := by
  intro b
  rw [enterArchive_run]
  split
  · split <;> exact Nat.le_refl _
  · exact Nat.le_refl _

variable {s : Scanner δ η} {nested : List UInt8 → Str → Exec (ScanState δ η) Unit}
  {buf : List UInt8} {realPath logicalPath : Str}

/-- The entries are handed on for the bytes that their extraction paid for. -/
theorem Scanner.scanEntries_pays {f : Format}
    (hnested : ∀ data path, Pays ScanState.potential 0 (fun _ => 0) (nested data path)) :
    Pays ScanState.potential 0 (fun _ => 0)
      (s.scanEntries nested f buf realPath logicalPath) := by
  refine (onBudget_pays Decoders.extract_pays).bind fun res => ?_
  cases res with
  | error e => exact report_pays
  | ok r =>
    obtain ⟨entries, limitHit⟩ := r
    refine (Pays.forM fun entry _ => handOn_pays (hnested _ _)).bind fun _ => ?_
    cases limitHit with
    | none => exact .pure (Nat.le_refl 0)
    | some e => exact report_pays

theorem Scanner.scanArchive_pays {f : Format}
    (hnested : ∀ data path, Pays ScanState.potential 0 (fun _ => 0) (nested data path)) :
    Pays ScanState.potential 0 (fun _ => 0)
      (s.scanArchive nested f buf realPath logicalPath) := by
  refine (onBudget_pays enterArchive_pays).bind fun res => ?_
  cases res with
  | error e => exact report_pays
  | ok u => exact (scanEntries_pays hnested).bind fun _ => .modify fun _ => Nat.le_refl _

/-- The step lemma: one call pays for what it hands on, if its calls of itself do. -/
theorem Scanner.scanBytesWith_pays
    (hnested : ∀ data path, Pays ScanState.potential 0 (fun _ => 0) (nested data path)) :
    Pays ScanState.potential 0 (fun _ => 0)
      (s.scanBytesWith nested buf realPath logicalPath) := by
  refine report_pays.bind fun _ => ?_
  cases format buf with
  | none => exact .pure (Nat.le_refl 0)
  | some f => exact scanArchive_pays hnested

theorem Scanner.scanLevels_pays {n : Nat} :
    Pays ScanState.potential 0 (fun _ => 0) (s.scanLevels n buf realPath logicalPath) := by
  induction n generalizing buf logicalPath with
  | zero => exact scanBytesWith_pays fun _ _ => .pure (Nat.le_refl 0)
  | succ n ih => exact scanBytesWith_pays fun _ _ => ih

/-- A scan pays for what it hands on. -/
theorem Scanner.scanBytes_pays :
    Pays ScanState.potential 0 (fun _ => 0) (s.scanBytes buf realPath logicalPath) :=
  .get fun _ => scanLevels_pays

end

/-- Over a whole scan, whatever the decoders give and however archives are nested, the entries that
are handed to the scan have at most `max_total_uncompressed` bytes together, even where the scan
panics. -/
theorem handedBytes_le {δ η : Type} (s : Scanner δ η) (realPath : Str) (data : List UInt8) :
    (finalState (s.scanTop realPath data)).handedBytes ≤
      s.limits.maxTotalUncompressed.toNat := by
  have hpays : Affords ScanState.potential _ _ (s.scanTop realPath data) :=
    Scanner.scanBytes_pays (.start (.new s.limits))
  have hstart : (ScanState.start (.new s.limits) : ScanState δ η).potential =
      s.limits.maxTotalUncompressed.toNat := by
    simp [ScanState.potential, ScanState.start, ScanState.handedBytes, GuardBudget.room,
      GuardBudget.new]
  rw [hstart, Nat.add_zero] at hpays
  exact Nat.le_trans (Nat.le_add_right _ _) hpays.finalState_le

end ActiveDefense.Clam
