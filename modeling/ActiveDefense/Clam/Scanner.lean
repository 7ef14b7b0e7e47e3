import ActiveDefense.Clam.Archive

/-!
# The recursive scan

`scan_bytes` reports on a buffer, and scans the entries of an archive in turn. The budget's depth is
counted by hand around the descent into an archive. The signature engine and the analysis of
executables are parameters. A scan also records what it hands on to the scan of an entry.
-/

namespace ActiveDefense.Clam

variable {δ η : Type}

/-- `Verdict`, for a type of detections. -/
inductive Verdict (δ : Type) where
  | clean
  | infected (detections : List δ)
  | skipped (reason : Str)
  | limitExceeded (detections : List δ) (reason : Str)
deriving DecidableEq, Repr

/-- `FileReport`, for types of detections and heuristics. A path is its text. -/
structure FileReport (δ η : Type) where
  path : Str
  logicalPath : Str
  verdict : Verdict δ
  peHeuristics : Option η
deriving DecidableEq, Repr

/-- `Scanner`, with what its engine and `pe_analyze` make of a buffer. -/
structure Scanner (δ η : Type) where
  scanBuffer : List UInt8 → List δ
  analyze : List UInt8 → Option η
  decoders : Decoders
  limits : GuardLimits

/-- An entry that is handed to the scan: its bytes, the archives around it, and the depth of the
budget. -/
structure Handed where
  data : List UInt8
  level : Nat
  depth : UInt32
deriving DecidableEq, Repr

/-- The budget and the reports, with a record of what was handed on and of the archives around what
is being scanned. -/
structure ScanState (δ η : Type) where
  budget : GuardBudget
  reports : List (FileReport δ η)
  handed : List Handed
  level : Nat
deriving DecidableEq, Repr

/-- The state at the start of a scan. -/
def ScanState.start (budget : GuardBudget) : ScanState δ η where
  budget := budget
  reports := []
  handed := []
  level := 0

/-- The bytes of all entries that were handed on. -/
def ScanState.handedBytes (st : ScanState δ η) : Nat := (st.handed.map fun h => h.data.length).sum

/-- A computation on the budget, within a scan. -/
def onBudget {α : Type} (x : Exec GuardBudget α) : Exec (ScanState δ η) α := fun st =>
  match x st.budget with
  | .ok a b => .ok a { st with budget := b }
  | .error e b => .error e { st with budget := b }

/-- A report is added. -/
def report (r : FileReport δ η) : Exec (ScanState δ η) Unit :=
  modify fun st => { st with reports := st.reports ++ [r] }

/-- The report on a limit that was hit. -/
def limitReport (realPath logicalPath : Str) (e : GuardError) : FileReport δ η where
  path := realPath
  logicalPath := logicalPath
  verdict := .limitExceeded [] e.toStr
  peHeuristics := none

/-- The record that an entry is handed on. -/
def ScanState.handOver (st : ScanState δ η) (data : List UInt8) : ScanState δ η :=
  { st with
    handed := st.handed ++ [{ data, level := st.level + 1, depth := st.budget.depth }]
    level := st.level + 1 }

/-- An entry is handed to the scan of it. -/
def handOn (data : List UInt8) (nested : Exec (ScanState δ η) Unit) :
    Exec (ScanState δ η) Unit := do
  modify fun st => st.handOver data
  nested
  modify fun st => { st with level := st.level - 1 }

namespace Scanner

variable (s : Scanner δ η)

/-- The report of `scan_bytes` on the buffer itself. -/
def ownReport (buf : List UInt8) (realPath logicalPath : Str) : FileReport δ η where
  path := realPath
  logicalPath := logicalPath
  verdict := if (s.scanBuffer buf).isEmpty then .clean else .infected (s.scanBuffer buf)
  peHeuristics :=
    if decide (64 ≤ buf.length) && buf.take 2 == [0x4D, 0x5A] then s.analyze buf else none

/-- The descent of `scan_bytes` into an archive; `nested` is the scan of an entry. -/
def scanEntries (nested : List UInt8 → Str → Exec (ScanState δ η) Unit) (f : Format)
    (buf : List UInt8) (realPath logicalPath : Str) : Exec (ScanState δ η) Unit := do
  match ← onBudget (s.decoders.extract f buf) with
  | .ok (entries, limitHit) =>
    entries.forM fun entry =>
      handOn entry.data (nested entry.data (logicalPath ++ " -> ".toList ++ entry.name))
    match limitHit with
    | some err => report (limitReport realPath logicalPath err)
    | none => return
  | .error e => report (limitReport realPath logicalPath e)

/-- The branch of `scan_bytes` for an archive. -/
def scanArchive (nested : List UInt8 → Str → Exec (ScanState δ η) Unit) (f : Format)
    (buf : List UInt8) (realPath logicalPath : Str) : Exec (ScanState δ η) Unit := do
  match ← onBudget enterArchive with
  | .error e => report (limitReport realPath logicalPath e)
  | .ok () =>
    s.scanEntries nested f buf realPath logicalPath
    modify fun st => { st with budget := st.budget.leaveArchive }

/-- `scan_bytes`, with `nested` for its calls of itself. -/
def scanBytesWith (nested : List UInt8 → Str → Exec (ScanState δ η) Unit) (buf : List UInt8)
    (realPath logicalPath : Str) : Exec (ScanState δ η) Unit := do
  report (s.ownReport buf realPath logicalPath)
  match format buf with
  | none => return
  | some f => s.scanArchive nested f buf realPath logicalPath

/-- `scan_bytes` through at most `n` archives around one another. -/
def scanLevels : Nat → List UInt8 → Str → Str → Exec (ScanState δ η) Unit
  | 0, buf, realPath, logicalPath => s.scanBytesWith (fun _ _ => return) buf realPath logicalPath
  | n + 1, buf, realPath, logicalPath =>
    s.scanBytesWith (fun data path => scanLevels n data realPath path) buf realPath logicalPath

/-- `scan_bytes`: through as many archives as there are levels left (`scanBytes_eq`). -/
def scanBytes (buf : List UInt8) (realPath logicalPath : Str) : Exec (ScanState δ η) Unit := do
  let st ← get
  s.scanLevels st.budget.levelsLeft buf realPath logicalPath

/-- The scan of `scan_in_memory`, from a new budget. -/
def scanTop (realPath : Str) (data : List UInt8) :
    EStateM.Result Panic (ScanState δ η) Unit :=
  s.scanBytes data realPath realPath (.start (.new s.limits))

/-- `scan_in_memory`. -/
def scanInMemory (realPath : Str) (data : List UInt8) : Except Panic (List (FileReport δ η)) :=
  match s.scanTop realPath data with
  | .ok () st => .ok st.reports
  | .error e _ => .error e

end Scanner

/-- `ScanError`. -/
inductive ScanError where
  | io (path source : Str)
  | guard (e : GuardError)
deriving DecidableEq, Repr

/-- The `Display` of a `ScanError`. -/
def ScanError.toStr : ScanError → Str
  | .io path source => "io error on ".toList ++ path ++ ": ".toList ++ source
  | .guard e => "archive guard tripped: ".toList ++ e.toStr

/-- What the filesystem answers about a path: whether it is a regular file and its length, whether
it opens, and its bytes once it is mapped. -/
structure FileView where
  metadata : Except Str (Bool × UInt64)
  opened : Except Str Unit
  mapped : Except Str (List UInt8)

/-- `scan_path`. -/
def Scanner.scanPath (s : Scanner δ η) (path : Str) (file : FileView) :
    Except Panic (Except ScanError (List (FileReport δ η))) :=
  let skipped (reason : Str) : List (FileReport δ η) :=
    [{ path, logicalPath := path, verdict := .skipped reason, peHeuristics := none }]
  match file.metadata with
  | .error e => .ok (.error (.io path e))
  | .ok (isFile, len) =>
    if !isFile then .ok (.ok (skipped "not a regular file".toList))
    else if s.limits.maxFileSize < len then
      .ok (.ok (skipped ("file size ".toList ++ decimal len.toNat ++
        " bytes exceeds max_file_size limit (".toList ++ decimal s.limits.maxFileSize.toNat ++
        " bytes)".toList)))
    else match file.opened with
      | .error e => .ok (.error (.io path e))
      | .ok () =>
        if len = 0 then (s.scanInMemory path []).map .ok
        else match file.mapped with
          | .error e => .ok (.error (.io path e))
          | .ok bytes => (s.scanInMemory path bytes).map .ok

end ActiveDefense.Clam
