import ActiveDefense.Clam.Depth
import ActiveDefense.Clam.Engine
import Mathlib.Data.List.Infix

/-!
# The response to a scan command

`run_scan` answers a path with a text: a line for each report, or for each detection of an infected
one, and a line that sums up. The paths in it are those of the reports, as they are. A client takes
the text apart again into its lines, and each line into a path and a verdict. It gets what was
written if no path, name or reason breaks the line and no path contains the mark between path and
verdict (`runScan_read`); names of archive entries may do both.
-/

namespace ActiveDefense.Clam

variable {η : Type}

/-! ## The command -/

/-- What the filesystem answers to the daemon. -/
structure ScanFs where
  /-- `std::fs::canonicalize` -/
  canonicalize : Str → Option Str
  isDir : Str → Bool
  /-- the regular files below a directory, in the order of the walk -/
  walk : Str → List Str
  file : Str → FileView

/-- The names in an absolute path. -/
def pathComponents (path : Str) : List Str := (path.splitOn '/').filter fun name => !name.isEmpty

inductive Denial where
  | noRootsConfigured
  | notPermitted
deriving DecidableEq, Repr

/-- `PathAllowlist`. -/
structure PathAllowlist where
  roots : List Str

/-- `PathAllowlist::check`. -/
def PathAllowlist.check (allowlist : PathAllowlist) (fs : ScanFs) (requested : Str) :
    Except Denial Str :=
  if allowlist.roots.isEmpty then .error .noRootsConfigured
  else match fs.canonicalize requested with
    | none => .error .notPermitted
    | some canon =>
      if allowlist.roots.any fun root =>
          (pathComponents root).isPrefixOf (pathComponents canon) then
        .ok canon
      else .error .notPermitted

/-- What `scan_directory` reports on one file. -/
def Scanner.scanFile {δ : Type} (s : Scanner δ η) (fs : ScanFs) (path : Str) :
    Except Panic (List (FileReport δ η)) := do
  match ← s.scanPath path (fs.file path) with
  | .ok reports => .ok reports
  | .error e =>
    .ok [{ path, logicalPath := path, verdict := .limitExceeded [] e.toStr, peHeuristics := none }]

/-- `scan_directory`. -/
def Scanner.scanDirectory {δ : Type} (s : Scanner δ η) (fs : ScanFs) (root : Str) :
    Except Panic (List (FileReport δ η)) := do
  let reports ← (fs.walk root).mapM (s.scanFile fs)
  .ok reports.flatten

/-- The scan of a path that is allowed. -/
def Scanner.scanAllowed {δ : Type} (s : Scanner δ η) (fs : ScanFs) (path : Str) :
    Except Panic (Except ScanError (List (FileReport δ η))) :=
  if fs.isDir path then (s.scanDirectory fs path).map .ok else s.scanPath path (fs.file path)

/-- What the loop of `run_scan` writes for a report. -/
def FileReport.render (r : FileReport Detection η) : Str :=
  match r.verdict with
  | .clean => r.logicalPath ++ ": OK\n".toList
  | .infected dets =>
    dets.flatMap fun d => r.logicalPath ++ ": ".toList ++ d.name ++ " FOUND\n".toList
  | .skipped reason => r.logicalPath ++ ": SKIPPED(".toList ++ reason ++ ")\n".toList
  | .limitExceeded _ reason =>
    r.logicalPath ++ ": LIMIT EXCEEDED(".toList ++ reason ++ ")\n".toList

/-- The report is counted as infected. -/
def FileReport.isInfected {δ : Type} (r : FileReport δ η) : Bool :=
  match r.verdict with
  | .infected _ => true
  | _ => false

/-- The response to a scan that succeeded. -/
def scanResponse (reports : List (FileReport Detection η)) : Str :=
  let out := reports.flatMap FileReport.render
  if 0 < reports.countP FileReport.isInfected then out ++ "SCAN SUMMARY: INFECTED\n".toList
  else out ++ "SCAN SUMMARY: OK\n".toList

/-- `run_scan`. -/
def runScan (s : Scanner Detection η) (allowlist : PathAllowlist) (fs : ScanFs) (path : Str) :
    Except Panic Str :=
  match allowlist.check fs path with
  | .error _ => .ok (path ++ ": ERROR access denied\n".toList)
  | .ok p => do
    match ← s.scanAllowed fs p with
    | .ok reports => .ok (scanResponse reports)
    | .error e => .ok (path ++ ": ERROR ".toList ++ e.toStr ++ ['\n'])

/-! ## Lines -/

/-- What a line says about its path. -/
inductive Finding where
  | ok
  | found (name : Str)
  | skipped (reason : Str)
  | limitExceeded (reason : Str)
deriving DecidableEq, Repr

/-- How it says it. -/
def Finding.text : Finding → Str
  | .ok => "OK".toList
  | .found name => name ++ " FOUND".toList
  | .skipped reason => "SKIPPED(".toList ++ reason ++ [')']
  | .limitExceeded reason => "LIMIT EXCEEDED(".toList ++ reason ++ [')']

/-- What the lines of a report say: one for each detection of an infected report, one for any
other. -/
def FileReport.findings (r : FileReport Detection η) : List (Str × Finding) :=
  match r.verdict with
  | .clean => [(r.logicalPath, .ok)]
  | .infected dets => dets.map fun d => (r.logicalPath, .found d.name)
  | .skipped reason => [(r.logicalPath, .skipped reason)]
  | .limitExceeded _ reason => [(r.logicalPath, .limitExceeded reason)]

/-- The mark between path and verdict. -/
def mark : Str := ": ".toList

/-- A line. -/
def findingLine (f : Str × Finding) : Str := f.1 ++ mark ++ f.2.text

/-- The last line. -/
def summaryLine (reports : List (FileReport Detection η)) : Str :=
  if 0 < reports.countP FileReport.isInfected then "SCAN SUMMARY: INFECTED".toList
  else "SCAN SUMMARY: OK".toList

/-- Nothing in the report breaks a line, and the mark is not in its path. -/
structure FileReport.Plain (r : FileReport Detection η) : Prop where
  path : '\n' ∉ r.logicalPath
  unmarked : ¬ mark <:+: r.logicalPath
  text : ∀ f ∈ r.findings, '\n' ∉ f.2.text

theorem findingLine_append (path : Str) (f : Finding) :
    findingLine (path, f) ++ ['\n'] = path ++ (mark ++ (f.text ++ ['\n'])) := by
  rw [findingLine, List.append_assoc, List.append_assoc]

/-- One line, and nothing else. -/
theorem flatMap_findingLine (path : Str) (f : Finding) :
    ([(path, f)].map findingLine).flatMap (· ++ ['\n']) = path ++ (mark ++ (f.text ++ ['\n'])) := by
  rw [List.map_singleton, List.flatMap_singleton, findingLine_append]

theorem render_eq (r : FileReport Detection η) :
    r.render = (r.findings.map findingLine).flatMap (· ++ ['\n']) := by
  have hsuffix (head tail line : Str) (x : Str) (h : tail = line ++ ['\n']) :
      r.logicalPath ++ head ++ x ++ tail = r.logicalPath ++ (head ++ (x ++ line ++ ['\n'])) := by
    rw [h, List.append_assoc, List.append_assoc, List.append_assoc]
  unfold FileReport.render FileReport.findings
  cases r.verdict with
  | clean =>
    rw [flatMap_findingLine]
    rfl
  | infected dets =>
    rw [List.flatMap_map, List.flatMap_map]
    refine List.flatMap_congr fun d _ => ?_
    rw [findingLine_append]
    exact hsuffix mark " FOUND\n".toList " FOUND".toList d.name rfl
  | skipped reason =>
    rw [flatMap_findingLine]
    exact hsuffix ": SKIPPED(".toList ")\n".toList [')'] reason rfl
  | limitExceeded _ reason =>
    rw [flatMap_findingLine]
    exact hsuffix ": LIMIT EXCEEDED(".toList ")\n".toList [')'] reason rfl

/-- The response is the lines of the reports in their order, and the last line. -/
theorem scanResponse_eq (reports : List (FileReport Detection η)) :
    scanResponse reports =
      ((reports.flatMap FileReport.findings).map findingLine ++ [summaryLine reports]).flatMap
        (· ++ ['\n']) := by
  have hout : reports.flatMap FileReport.render =
      ((reports.flatMap FileReport.findings).map findingLine).flatMap (· ++ ['\n']) := by
    rw [List.map_flatMap, List.flatMap_assoc]
    exact List.flatMap_congr fun r _ => render_eq r
  unfold scanResponse summaryLine
  rw [hout, List.flatMap_append]
  split <;> simp

/-! ## The client -/

/-- `str::strip_prefix`. -/
def withoutPrefix (pre s : Str) : Option Str :=
  if pre.isPrefixOf s then some (s.drop pre.length) else none

/-- `str::strip_suffix`. -/
def withoutSuffix (post s : Str) : Option Str :=
  (withoutPrefix post.reverse s.reverse).map List.reverse

/-- The text before the first mark, and the text after it. -/
def splitMark : Str → Option (Str × Str)
  | [] => none
  | c :: cs =>
    match withoutPrefix mark (c :: cs) with
    | some rest => some ([], rest)
    | none => (splitMark cs).map fun p => (c :: p.1, p.2)

/-- What the text after the mark says. -/
def readFinding (text : Str) : Option Finding :=
  if text = "OK".toList then some .ok
  else match withoutSuffix " FOUND".toList text with
    | some name => some (.found name)
    | none => do
      let body ← withoutSuffix [')'] text
      match withoutPrefix "SKIPPED(".toList body with
      | some reason => some (.skipped reason)
      | none => (withoutPrefix "LIMIT EXCEEDED(".toList body).map .limitExceeded

/-- What a line says, and about which path. -/
def readLine (line : Str) : Option (Str × Finding) := do
  let (path, text) ← splitMark line
  let f ← readFinding text
  some (path, f)

/-- What the lines of a response say, but for the last. -/
def readResponse (out : Str) : Option (List (Str × Finding)) := (lines out).dropLast.mapM readLine

theorem withoutPrefix_append (pre s : Str) : withoutPrefix pre (pre ++ s) = some s := by
  have hpre : pre.isPrefixOf (pre ++ s) = true := List.isPrefixOf_iff_prefix.mpr ⟨s, rfl⟩
  rw [withoutPrefix, if_pos hpre, List.drop_left]

theorem withoutPrefix_eq_some {pre s rest : Str} (h : withoutPrefix pre s = some rest) :
    s = pre ++ rest := by
  unfold withoutPrefix at h
  split at h
  · next hpre =>
    cases h
    exact List.prefix_iff_eq_append.mp (List.isPrefixOf_iff_prefix.mp hpre) |>.symm
  · cases h

theorem withoutSuffix_append (post s : Str) : withoutSuffix post (s ++ post) = some s := by
  rw [withoutSuffix, List.reverse_append, withoutPrefix_append, Option.map_some,
    List.reverse_reverse]

/-- The first mark is the one after the path. -/
theorem splitMark_append {path : Str} (h : ¬ mark <:+: path) (text : Str) :
    splitMark (path ++ (mark ++ text)) = some (path, text) := by
  induction path with
  | nil =>
    have hmark : withoutPrefix mark (':' :: ' ' :: text) = some text :=
      withoutPrefix_append mark text
    change splitMark (':' :: ' ' :: text) = _
    rw [splitMark, hmark]
  | cons c path ih =>
    have htail : ¬ mark <:+: path := fun hpath => h (hpath.trans (List.suffix_cons c path).isInfix)
    have hnone : withoutPrefix mark (c :: path ++ (mark ++ text)) = none := by
      rw [Option.eq_none_iff_forall_ne_some]
      intro rest hrest
      -- the mark would begin with the first character of the path
      have hsplit := withoutPrefix_eq_some hrest
      cases path with
      | nil => cases hsplit
      | cons d path =>
        have hpre : mark <+: c :: d :: path := by
          cases hsplit
          exact ⟨path, rfl⟩
        exact h hpre.isInfix
    rw [List.cons_append, splitMark, ← List.cons_append, hnone, ih htail]
    rfl

/-- A text with another last character is not that of a clean path. -/
theorem append_ne_ok {c : Char} (hc : c ≠ 'K') (s : Str) : s ++ [c] ≠ "OK".toList := by
  intro h
  have hlast := congrArg List.getLast? h
  rw [List.getLast?_concat] at hlast
  exact hc (Option.some.inj hlast)

theorem found_text (name : Str) :
    (Finding.found name).text = name ++ " FOUN".toList ++ ['D'] := by
  have hlast : " FOUND".toList = " FOUN".toList ++ ['D'] := rfl
  exact (congrArg (name ++ ·) hlast).trans (List.append_assoc ..).symm

theorem readFinding_text (f : Finding) : readFinding f.text = some f := by
  cases f with
  | ok =>
    change readFinding "OK".toList = _
    rw [readFinding, if_pos rfl]
  | found name =>
    have hne : (Finding.found name).text ≠ "OK".toList := by
      rw [found_text]
      exact append_ne_ok (by decide) _
    have hread : withoutSuffix " FOUND".toList (Finding.found name).text = some name :=
      withoutSuffix_append _ _
    rw [readFinding, if_neg hne, hread]
  | skipped reason =>
    have hfound : withoutSuffix " FOUND".toList ("SKIPPED(".toList ++ reason ++ [')']) = none := by
      rw [withoutSuffix, List.reverse_append]
      rfl
    change readFinding ("SKIPPED(".toList ++ reason ++ [')']) = _
    rw [readFinding, if_neg (append_ne_ok (by decide) _), hfound]
    dsimp only
    rw [withoutSuffix_append, Option.bind_eq_bind, Option.bind_some, withoutPrefix_append]
  | limitExceeded reason =>
    have hfound : withoutSuffix " FOUND".toList ("LIMIT EXCEEDED(".toList ++ reason ++ [')']) =
        none := by
      rw [withoutSuffix, List.reverse_append]
      rfl
    have hskipped :
        withoutPrefix "SKIPPED(".toList ("LIMIT EXCEEDED(".toList ++ reason) = none := rfl
    change readFinding ("LIMIT EXCEEDED(".toList ++ reason ++ [')']) = _
    rw [readFinding, if_neg (append_ne_ok (by decide) _), hfound]
    dsimp only
    rw [withoutSuffix_append, Option.bind_eq_bind, Option.bind_some, hskipped]
    dsimp only
    rw [withoutPrefix_append]
    rfl

/-- A line is read as what it says. -/
theorem readLine_findingLine {path : Str} (h : ¬ mark <:+: path) (f : Finding) :
    readLine (findingLine (path, f)) = some (path, f) := by
  rw [readLine, findingLine, List.append_assoc, splitMark_append h, Option.bind_eq_bind,
    Option.bind_some]
  dsimp only
  rw [readFinding_text]
  rfl

/-- The lines of a report are about its path. -/
theorem path_of_mem_findings {r : FileReport Detection η} {f : Str × Finding}
    (hf : f ∈ r.findings) : f.1 = r.logicalPath := by
  unfold FileReport.findings at hf
  split at hf <;> simp only [List.mem_singleton, List.mem_map] at hf
  · rw [hf]
  · obtain ⟨d, -, rfl⟩ := hf
    rfl
  · rw [hf]
  · rw [hf]

/-- No line ends in a carriage return. -/
theorem getLast?_findingLine (f : Str × Finding) : (findingLine f).getLast? ≠ some '\r' := by
  obtain ⟨path, f⟩ := f
  have hlast : ∃ s c, f.text = s ++ [c] ∧ c ≠ '\r' := by
    cases f with
    | ok => exact ⟨['O'], 'K', rfl, by decide⟩
    | found name => exact ⟨name ++ " FOUN".toList, 'D', found_text name, by decide⟩
    | skipped reason => exact ⟨_, ')', rfl, by decide⟩
    | limitExceeded reason => exact ⟨_, ')', rfl, by decide⟩
  obtain ⟨s, c, hs, hc⟩ := hlast
  rw [findingLine, hs, ← List.append_assoc, List.getLast?_concat]
  exact fun h => hc (Option.some.inj h)

/-- A plain report is written in whole lines, and each is read as what it says. -/
theorem FileReport.Plain.line {r : FileReport Detection η} (h : r.Plain) {f : Str × Finding}
    (hf : f ∈ r.findings) : '\n' ∉ findingLine f ∧ readLine (findingLine f) = some f := by
  have hmark : '\n' ∉ mark := by decide
  have hpath : '\n' ∉ f.1 := by
    rw [path_of_mem_findings hf]
    exact h.path
  have hunmarked : ¬ mark <:+: f.1 := by
    rw [path_of_mem_findings hf]
    exact h.unmarked
  refine ⟨?_, readLine_findingLine hunmarked f.2⟩
  rw [findingLine, List.mem_append, List.mem_append, not_or, not_or]
  exact ⟨⟨hpath, hmark⟩, h.text f hf⟩

theorem mapM_readLine {findings : List (Str × Finding)}
    (h : ∀ f ∈ findings, readLine (findingLine f) = some f) :
    (findings.map findingLine).mapM readLine = some findings := by
  induction findings with
  | nil => rfl
  | cons f findings ih =>
    rw [List.map_cons, List.mapM_cons, h f (.head _), Option.bind_eq_bind, Option.bind_some,
      ih fun g hg => h g (.tail _ hg)]
    rfl

/-- The response to a scan of plain reports has their lines in their order, and then the last one;
a client reads them as what the reports say. -/
theorem lines_scanResponse {reports : List (FileReport Detection η)} (h : ∀ r ∈ reports, r.Plain) :
    lines (scanResponse reports) =
        (reports.flatMap FileReport.findings).map findingLine ++ [summaryLine reports] ∧
      readResponse (scanResponse reports) = some (reports.flatMap FileReport.findings) := by
  have hline : ∀ f ∈ reports.flatMap FileReport.findings,
      '\n' ∉ findingLine f ∧ readLine (findingLine f) = some f := by
    intro f hf
    obtain ⟨r, hr, hf⟩ := List.mem_flatMap.mp hf
    exact (h r hr).line hf
  have hsummary : '\n' ∉ summaryLine reports ∧ (summaryLine reports).getLast? ≠ some '\r' := by
    unfold summaryLine
    split <;> decide +kernel
  have hlines : lines (scanResponse reports) =
      (reports.flatMap FileReport.findings).map findingLine ++ [summaryLine reports] := by
    rw [scanResponse_eq, lines_flatMap]
    · intro l hl
      rcases List.mem_append.mp hl with hl | hl
      · obtain ⟨f, hf, rfl⟩ := List.mem_map.mp hl
        exact (hline f hf).1
      · rw [List.mem_singleton.mp hl]
        exact hsummary.1
    · intro l hl
      rcases List.mem_append.mp hl with hl | hl
      · obtain ⟨f, -, rfl⟩ := List.mem_map.mp hl
        exact getLast?_findingLine f
      · rw [List.mem_singleton.mp hl]
        exact hsummary.2
  refine ⟨hlines, ?_⟩
  rw [readResponse, hlines, List.dropLast_concat]
  exact mapM_readLine fun f hf => (hline f hf).2

/-- What a client gets for a path that is allowed, if its scan succeeds: the lines of the reports in
their order and the last line, each ended by a line break. Of plain reports it is exactly these
lines, and the findings can be read back. -/
theorem runScan_read {s : Scanner Detection η} {allowlist : PathAllowlist} {fs : ScanFs}
    {path p : Str} {reports : List (FileReport Detection η)}
    (hallowed : allowlist.check fs path = .ok p)
    (hscan : s.scanAllowed fs p = .ok (.ok reports)) :
    ∃ out, runScan s allowlist fs path = .ok out ∧
      out = ((reports.flatMap FileReport.findings).map findingLine ++
        [summaryLine reports]).flatMap (· ++ ['\n']) ∧
      ((∀ r ∈ reports, r.Plain) →
        lines out = (reports.flatMap FileReport.findings).map findingLine ++ [summaryLine reports] ∧
          readResponse out = some (reports.flatMap FileReport.findings)) := by
  refine ⟨scanResponse reports, ?_, scanResponse_eq reports, lines_scanResponse⟩
  rw [runScan, hallowed]
  dsimp only
  rw [hscan]
  rfl

/-- A zip file with one entry, without bytes, whose name has a line break in it. -/
def forgingZip : List UInt8 :=
  [0x50, 0x4B, 3, 4, 20, 0, 0, 0, 0, 0, 0, 0, 0x21, 0, 0, 0, 0, 0, 0, 0, 0, 0, 0, 0, 0, 0,
    12, 0, 0, 0,
    0x78, 0x3A, 0x20, 0x4F, 0x4B, 0x0A, 0x2F, 0x73, 0x72, 0x76, 0x2F, 0x62,
    0x50, 0x4B, 1, 2, 20, 3, 20, 0, 0, 0, 0, 0, 0, 0, 0x21, 0, 0, 0, 0, 0, 0, 0, 0, 0, 0, 0, 0, 0,
    12, 0, 0, 0, 0, 0, 0, 0, 0, 0, 0, 0, 0x80, 1, 0, 0, 0, 0,
    0x78, 0x3A, 0x20, 0x4F, 0x4B, 0x0A, 0x2F, 0x73, 0x72, 0x76, 0x2F, 0x62,
    0x50, 0x4B, 5, 6, 0, 0, 0, 0, 1, 0, 1, 0, 58, 0, 0, 0, 42, 0, 0, 0, 0, 0]

/-- A scanner that opens this file and no other, and finds nothing. -/
def forgingScanner : Scanner Detection Unit where
  scanBuffer _ := []
  analyze _ := none
  decoders :=
    { zip := fun buf =>
        if buf = forgingZip then .ok [some ⟨"x: OK\n/srv/b".toList, 0, 0, .ofBytes []⟩]
        else .error []
      gzip := fun _ => .failing
      tar := fun _ => .error []
      sevenZ := fun _ => .error []
      cab := fun _ => .error [] }
  limits := default

/-- The path of this file, or that of another file with nothing in it. -/
def forgingFs : ScanFs where
  canonicalize path := some path
  isDir _ := false
  walk _ := []
  file path :=
    if path = "/srv/a.zip".toList then ⟨.ok (true, 122), .ok (), .ok forgingZip⟩
    else ⟨.ok (true, 0), .ok (), .ok []⟩

def cleanReport (logicalPath : String) (path : String) : FileReport Detection Unit where
  path := path.toList
  logicalPath := logicalPath.toList
  verdict := .clean
  peHeuristics := none

def infectedReport (logicalPath : String) (name : String) : FileReport Detection Unit where
  path := "/srv/a.zip".toList
  logicalPath := logicalPath.toList
  verdict := .infected [⟨name.toList, .hashSha256, none⟩]
  peHeuristics := none

theorem scanAllowed_forgingZip :
    forgingScanner.scanAllowed forgingFs "/srv/a.zip".toList = .ok (.ok
      [cleanReport "/srv/a.zip" "/srv/a.zip",
        cleanReport "/srv/a.zip -> x: OK\n/srv/b" "/srv/a.zip"]) := by
  decide +kernel

/-- The other file has one line, that it is clean. -/
theorem runScan_read_sample : ∃ out,
    runScan forgingScanner ⟨["/srv".toList]⟩ forgingFs "/srv/b".toList = .ok out ∧
      out = "/srv/b: OK\nSCAN SUMMARY: OK\n".toList ∧
      lines out = ["/srv/b: OK".toList, "SCAN SUMMARY: OK".toList] ∧
      readResponse out = some [("/srv/b".toList, .ok)] := by
  have hplain : ∀ r ∈ [cleanReport "/srv/b" "/srv/b"], r.Plain := by
    intro r hr
    rw [List.mem_singleton.mp hr]
    refine ⟨by decide +kernel, by decide +kernel, fun f hf => ?_⟩
    rw [List.mem_singleton.mp hf]
    decide +kernel
  have hallowed : PathAllowlist.check ⟨["/srv".toList]⟩ forgingFs "/srv/b".toList =
      .ok "/srv/b".toList := by
    decide +kernel
  have hscan : forgingScanner.scanAllowed forgingFs "/srv/b".toList =
      .ok (.ok [cleanReport "/srv/b" "/srv/b"]) := by
    decide
  obtain ⟨out, hout, hlines, hread⟩ := runScan_read hallowed hscan
  exact ⟨out, hout, hlines.trans (by decide +kernel), hread hplain⟩

/-- The name of the entry makes a line of its own, so there are more lines than reports; and without
any line break a mark in a path makes two scans look the same. -/
theorem not_line_per_report :
    (¬ ∀ (s : Scanner Detection Unit) (allowlist : PathAllowlist) (fs : ScanFs) (path p : Str)
        (reports : List (FileReport Detection Unit)) (out : Str),
      allowlist.check fs path = .ok p → s.scanAllowed fs p = .ok (.ok reports) →
        runScan s allowlist fs path = .ok out → (lines out).length = reports.length + 1) ∧
      ¬ ∀ reports reports' : List (FileReport Detection Unit),
        scanResponse reports = scanResponse reports' →
          reports.map (fun r => (r.logicalPath, r.verdict)) =
            reports'.map fun r => (r.logicalPath, r.verdict) := by
  constructor
  · intro hall
    have hallowed : PathAllowlist.check ⟨["/srv".toList]⟩ forgingFs "/srv/a.zip".toList =
        .ok "/srv/a.zip".toList := by
      decide +kernel
    have hout : runScan forgingScanner ⟨["/srv".toList]⟩ forgingFs "/srv/a.zip".toList =
        .ok (scanResponse [cleanReport "/srv/a.zip" "/srv/a.zip",
          cleanReport "/srv/a.zip -> x: OK\n/srv/b" "/srv/a.zip"]) := by
      decide +kernel
    exact absurd (hall _ _ _ _ _ _ _ hallowed scanAllowed_forgingZip hout) (by decide +kernel)
  · intro hall
    have hpaths := hall [infectedReport "/srv/a.zip -> x: Eicar" "Test"]
      [infectedReport "/srv/a.zip -> x" "Eicar: Test"] (by decide +kernel)
    exact absurd hpaths (by decide +kernel)

end ActiveDefense.Clam
