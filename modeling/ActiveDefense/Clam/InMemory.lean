import ActiveDefense.Clam.Scanner
import ActiveDefense.Lib.Effect
import ActiveDefense.Rust.Arith

/-!
# The two entries to a scan

`scan_path` compares the length of a file with `max_file_size` before it opens it; `scan_in_memory`,
which the on-access monitor calls with the bytes of the file, goes to `scan_bytes` at once. A scan
never takes back a report (`Scanner.scanLevels_adds`), and its first one is on the buffer itself,
clean or infected; so on a file beyond the limit, which `scan_path` reports as skipped, the two
cannot agree. `scanPath_agrees_iff` says that they agree on the paths and the verdicts of all
reports if and only if the file is within the limit.
-/

namespace ActiveDefense.Clam

section
variable {δ η α : Type}

/-! ## No report is taken back -/

/-- The reports of the first state come first. -/
def Reported (st st' : ScanState δ η) : Prop := st.reports <+: st'.reports

/-- Reports with `P` are added, and none is taken back. -/
def Adds (P : FileReport δ η → Prop) (st st' : ScanState δ η) : Prop :=
  ∃ new, st'.reports = st.reports ++ new ∧ ∀ r ∈ new, P r

section
variable {P : FileReport δ η → Prop}

theorem Adds.of_eq {st st' : ScanState δ η} (h : st'.reports = st.reports) : Adds P st st' :=
  ⟨[], by rw [h, List.append_nil], fun _ hr => absurd hr List.not_mem_nil⟩

instance adds_refl : Std.Refl (Adds P) := ⟨fun _ => .of_eq rfl⟩

instance adds_trans : IsTrans (ScanState δ η) (Adds P) := by
  refine ⟨fun st st' st'' h h' => ?_⟩
  obtain ⟨new, hnew, hP⟩ := h
  obtain ⟨new', hnew', hP'⟩ := h'
  refine ⟨new ++ new', by rw [hnew', hnew, List.append_assoc], fun r hr => ?_⟩
  rcases List.mem_append.mp hr with hr | hr
  · exact hP r hr
  · exact hP' r hr

theorem Adds.reported {st st' : ScanState δ η} (h : Adds P st st') : Reported st st' := by
  obtain ⟨new, hnew, -⟩ := h
  exact ⟨new, hnew.symm⟩

/-- The budget is not part of the reports. -/
theorem onBudget_adds {x : Exec GuardBudget α} :
    Moves (Adds P) (onBudget x : Exec (ScanState δ η) α) := by
  intro st
  unfold onBudget
  cases x st.budget with
  | ok a b => exact .of_eq rfl
  | error e b => exact .of_eq rfl

theorem report_adds {r : FileReport δ η} (h : P r) : Moves (Adds P) (report r) := by
  refine .modify fun _ => ⟨[r], rfl, fun r' hr' => ?_⟩
  rw [List.mem_singleton.mp hr']
  exact h

theorem handOn_adds {data : List UInt8} {nested : Exec (ScanState δ η) Unit}
    (hnested : Moves (Adds P) nested) : Moves (Adds P) (handOn data nested) := by
  refine Moves.bind (.modify fun _ => .of_eq rfl) fun _ => ?_
  exact hnested.bind fun _ => .modify fun _ => .of_eq rfl

end

namespace Scanner

variable {s : Scanner δ η} {nested : List UInt8 → Str → Exec (ScanState δ η) Unit} {f : Format}
  {buf : List UInt8} {realPath logicalPath : Str} {P : FileReport δ η → Prop}

section
variable (hlimit : ∀ path e, P (limitReport realPath path e))
include hlimit

theorem scanEntries_adds (hnested : ∀ data path, Moves (Adds P) (nested data path)) :
    Moves (Adds P) (s.scanEntries nested f buf realPath logicalPath) := by
  refine onBudget_adds.bind fun res => ?_
  cases res with
  | error e => exact report_adds (hlimit logicalPath e)
  | ok r =>
    obtain ⟨entries, limitHit⟩ := r
    refine (Moves.forM fun entry _ => handOn_adds (hnested _ _)).bind fun _ => ?_
    cases limitHit with
    | none => exact .pure
    | some e => exact report_adds (hlimit logicalPath e)

theorem scanArchive_adds (hnested : ∀ data path, Moves (Adds P) (nested data path)) :
    Moves (Adds P) (s.scanArchive nested f buf realPath logicalPath) := by
  refine onBudget_adds.bind fun res => ?_
  cases res with
  | error e => exact report_adds (hlimit logicalPath e)
  | ok u =>
    refine (scanEntries_adds hlimit hnested).bind fun _ => ?_
    exact .modify fun _ => .of_eq rfl

variable (hown : ∀ buf path, P (s.ownReport buf realPath path))
include hown

theorem scanBytesWith_adds (hnested : ∀ data path, Moves (Adds P) (nested data path)) :
    Moves (Adds P) (s.scanBytesWith nested buf realPath logicalPath) := by
  refine (report_adds (hown buf logicalPath)).bind fun _ => ?_
  cases format buf with
  | none => exact .pure
  | some f => exact scanArchive_adds hlimit hnested

/-- A scan adds reports on buffers and on limits. -/
theorem scanLevels_adds {n : Nat} :
    Moves (Adds P) (s.scanLevels n buf realPath logicalPath) := by
  induction n generalizing buf logicalPath with
  | zero => exact scanBytesWith_adds hlimit hown fun _ _ => .pure
  | succ n ih => exact scanBytesWith_adds hlimit hown fun _ _ => ih

end

/-- What holds of the reports on buffers and on limits holds of all that `scan_in_memory`
returns. -/
theorem scanInMemory_all {path : Str} {data : List UInt8} {reports : List (FileReport δ η)}
    (hlimit : ∀ logicalPath e, P (limitReport path logicalPath e))
    (hown : ∀ buf logicalPath, P (s.ownReport buf path logicalPath))
    (h : s.scanInMemory path data = .ok reports) : ∀ r ∈ reports, P r := by
  have hadds : Adds P (.start (.new s.limits)) (finalState (s.scanTop path data)) :=
    scanLevels_adds hlimit hown (.start (.new s.limits))
  unfold scanInMemory at h
  cases hrun : s.scanTop path data with
  | error e st =>
    rw [hrun] at h
    cases h
  | ok u st =>
    rw [hrun] at h hadds
    cases h
    obtain ⟨new, hnew, hP⟩ := hadds
    change st.reports = [] ++ new at hnew
    rw [List.nil_append] at hnew
    rwa [hnew]

/-- The first report of a scan is on the buffer itself. -/
theorem scanLevels_ownReport {n : Nat} (st : ScanState δ η) :
    st.reports ++ [s.ownReport buf realPath logicalPath] <+:
      (finalState (s.scanLevels n buf realPath logicalPath st)).reports := by
  have hcall : ∀ nested : List UInt8 → Str → Exec (ScanState δ η) Unit,
      (∀ data path, Moves (Adds fun _ => True) (nested data path)) →
        st.reports ++ [s.ownReport buf realPath logicalPath] <+:
          (finalState (s.scanBytesWith nested buf realPath logicalPath st)).reports := by
    intro nested hnested
    unfold scanBytesWith
    have hreport : report (s.ownReport buf realPath logicalPath) st =
      .ok () { st with reports := st.reports ++ [s.ownReport buf realPath logicalPath] } := rfl
    rw [bind_run_of_ok hreport]
    cases format buf with
    | none => exact List.prefix_refl _
    | some f =>
      have hrest : Moves (Adds fun _ => True) (s.scanArchive nested f buf realPath logicalPath) :=
        scanArchive_adds (fun _ _ => trivial) hnested
      exact (hrest { st with
        reports := st.reports ++ [s.ownReport buf realPath logicalPath] }).reported
  cases n with
  | zero => exact hcall _ fun _ _ => .pure
  | succ n => exact hcall _ fun _ _ => scanLevels_adds (fun _ _ => trivial) fun _ _ => trivial

/-- What `scan_in_memory` returns begins with the report on the buffer itself. -/
theorem scanInMemory_ownReport {path : Str} {data : List UInt8} {reports : List (FileReport δ η)}
    (h : s.scanInMemory path data = .ok reports) :
    ∃ rest, reports = s.ownReport data path path :: rest := by
  have hown : [s.ownReport data path path] <+: (finalState (s.scanTop path data)).reports :=
    scanLevels_ownReport (.start (.new s.limits))
  unfold scanInMemory at h
  cases hrun : s.scanTop path data with
  | error e st =>
    rw [hrun] at h
    cases h
  | ok u st =>
    rw [hrun] at h hown
    cases h
    obtain ⟨rest, hrest⟩ := hown
    exact ⟨rest, hrest.symm⟩

/-- The report on the buffer itself is not that it was skipped. -/
theorem ownReport_ne_skipped {reason : Str} :
    (s.ownReport buf realPath logicalPath).verdict ≠ .skipped reason := by
  intro h
  simp only [ownReport] at h
  split at h <;> cases h

end Scanner

/-! ## The same bytes at both entries -/

/-- What the filesystem answers about a regular file of these bytes, which opens and is mapped. -/
def regularFile (bytes : Slice) : FileView where
  metadata := .ok (true, .ofNat bytes.len)
  opened := .ok ()
  mapped := .ok bytes.bytes

/-- The logical path and the verdict of each report. -/
def outline (reports : List (FileReport δ η)) : List (Str × Verdict δ) :=
  reports.map fun r => (r.logicalPath, r.verdict)

/-- The length of a slice is the one that the metadata give. -/
theorem toNat_ofNat_len {bytes : Slice} : (UInt64.ofNat bytes.len).toNat = bytes.len := by
  have hlen : bytes.len ≤ isizeMax := bytes.length_le
  exact UInt64.toNat_ofNat_of_lt (Nat.lt_of_le_of_lt hlen (by decide))

/-- A file within the limit is scanned as its bytes are. -/
theorem Scanner.scanPath_of_le {s : Scanner δ η} {path : Str} {bytes : Slice}
    (h : bytes.len ≤ s.limits.maxFileSize.toNat) :
    s.scanPath path (regularFile bytes) = (s.scanInMemory path bytes.bytes).map .ok := by
  have hlimit : ¬ s.limits.maxFileSize < UInt64.ofNat bytes.len := by
    rw [UInt64.lt_iff_toNat_lt, toNat_ofNat_len]
    omega
  simp only [Scanner.scanPath, regularFile, Bool.not_true, Bool.false_eq_true, if_false, hlimit]
  split
  · next hzero =>
    -- an empty file is not mapped, but the bytes are the same
    have hlen : bytes.bytes.length = 0 := by
      have hlen := congrArg UInt64.toNat hzero
      rwa [toNat_ofNat_len] at hlen
    rw [List.eq_nil_of_length_eq_zero hlen]
  · rfl

/-- A file beyond the limit is skipped. -/
theorem Scanner.scanPath_of_lt (s : Scanner δ η) (path : Str) {bytes : Slice}
    (h : s.limits.maxFileSize.toNat < bytes.len) :
    ∃ reason, (s.scanPath path (regularFile bytes)).map (Except.map outline) =
      .ok (.ok [(path, .skipped reason)]) := by
  have hlimit : s.limits.maxFileSize < UInt64.ofNat bytes.len := by
    rw [UInt64.lt_iff_toNat_lt, toNat_ofNat_len]
    exact h
  simp only [Scanner.scanPath, regularFile, Bool.not_true, Bool.false_eq_true, if_false, hlimit,
    if_true]
  exact ⟨_, rfl⟩

end

/-- The two entries give the same logical paths and verdicts for the same bytes if and only if the
bytes are within `max_file_size`. -/
theorem scanPath_agrees_iff {δ η : Type} (s : Scanner δ η) (path : Str) (bytes : Slice) :
    (s.scanPath path (regularFile bytes)).map (Except.map outline) =
        (s.scanInMemory path bytes.bytes).map (fun reports => .ok (outline reports)) ↔
      bytes.len ≤ s.limits.maxFileSize.toNat := by
  constructor
  · intro hagree
    refine Nat.le_of_not_lt fun hlt => ?_
    obtain ⟨reason, hskipped⟩ := s.scanPath_of_lt path hlt
    rw [hskipped] at hagree
    cases hrun : s.scanInMemory path bytes.bytes with
    | error e =>
      rw [hrun] at hagree
      cases hagree
    | ok reports =>
      obtain ⟨rest, rfl⟩ := Scanner.scanInMemory_ownReport hrun
      rw [hrun] at hagree
      have hfirst : outline (s.ownReport bytes.bytes path path :: rest) =
          [(path, .skipped reason)] := (Except.ok.inj (Except.ok.inj hagree)).symm
      have hverdict : (s.ownReport bytes.bytes path path).verdict = .skipped reason :=
        congrArg Prod.snd (List.cons.inj hfirst).1
      exact Scanner.ownReport_ne_skipped hverdict
  · intro hle
    rw [Scanner.scanPath_of_le hle]
    cases s.scanInMemory path bytes.bytes <;> rfl

/-- A file of one byte, beyond a limit of no bytes: `scan_path` skips it, and `scan_in_memory` finds
what is in it. -/
theorem not_scanPath_agrees :
    ¬ ∀ (s : Scanner Unit Unit) (path : Str) (bytes : Slice),
      (s.scanPath path (regularFile bytes)).map (Except.map outline) =
        (s.scanInMemory path bytes.bytes).map (fun reports => .ok (outline reports)) := by
  intro h
  have hagree := h
    { scanBuffer := fun _ => [()]
      analyze := fun _ => none
      decoders :=
        { zip := fun _ => .error []
          gzip := fun _ => .failing
          tar := fun _ => .error []
          sevenZ := fun _ => .error []
          cab := fun _ => .error [] }
      limits := { (default : GuardLimits) with maxFileSize := 0 } }
    [] ⟨[0], by decide⟩
  exact absurd hagree (by decide)

end ActiveDefense.Clam
