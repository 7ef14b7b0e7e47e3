import ActiveDefense.Clam.ScanResponse
import ActiveDefense.Lib.Machine
import ActiveDefense.Rust.Words

/-!
# The commands of the daemon

`handle_conn` reads one line of a connection, of at most 8192 bytes, and answers it. What comes
after the line is never looked at (`scan_command`, `long_line_refused`), and what a client is told,
over any number of connections, does not depend on what the filesystem holds outside of the allowed
roots (`replies_agree`): not even on whether a path exists.
-/

namespace ActiveDefense.Clam

variable {η : Type}

/-! ## Scans that are counted -/

/-- What `Metrics` counts of scans. -/
structure ScanMetrics where
  connectionsRejectedPath : UInt64 := 0
  scansTotal : UInt64 := 0
  filesScannedTotal : UInt64 := 0
  filesInfectedTotal : UInt64 := 0
  scanErrorsTotal : UInt64 := 0
deriving DecidableEq

/-- What a turn of the loop of `run_scan` counts. -/
def ScanMetrics.countReport (m : ScanMetrics) (r : FileReport Detection η) : ScanMetrics :=
  let m := { m with filesScannedTotal := m.filesScannedTotal + 1 }
  if r.isInfected then { m with filesInfectedTotal := m.filesInfectedTotal + 1 } else m

/-- `run_scan`, with what it counts. -/
def runScanCounted (s : Scanner Detection η) (allowlist : PathAllowlist) (fs : ScanFs)
    (m : ScanMetrics) (path : Str) : Except Panic Str × ScanMetrics :=
  let m := { m with scansTotal := m.scansTotal + 1 }
  match allowlist.check fs path with
  | .error _ =>
    (.ok (path ++ ": ERROR access denied\n".toList),
      { m with connectionsRejectedPath := m.connectionsRejectedPath + 1 })
  | .ok p =>
    match s.scanAllowed fs p with
    | .error panic => (.error panic, m)
    | .ok (.ok reports) => (.ok (scanResponse reports), reports.foldl ScanMetrics.countReport m)
    | .ok (.error e) =>
      (.ok (path ++ ": ERROR ".toList ++ e.toStr ++ ['\n']),
        { m with scanErrorsTotal := m.scanErrorsTotal + 1 })

/-- `render_stats`. -/
def renderStats (m : ScanMetrics) : Str :=
  "SCANS ".toList ++ decimal m.scansTotal.toNat ++ "\nFILES ".toList ++
    decimal m.filesScannedTotal.toNat ++ "\nINFECTED ".toList ++
    decimal m.filesInfectedTotal.toNat ++ "\nERRORS ".toList ++
    decimal m.scanErrorsTotal.toNat ++ "\nEND\n".toList

/-! ## Commands -/

/-- `MAX_COMMAND_LINE_BYTES`. -/
def maxCommandLineBytes : Nat := 8192

/-- What becomes of a connection. -/
inductive ConnReply where
  /-- the client has sent nothing -/
  | closed
  | text (response : Str)
  /-- `OK` is the response, and the process exits -/
  | exit
  /-- no response: the bytes are not UTF-8, or the task has panicked -/
  | lost
deriving DecidableEq

/-- The dispatch of `handle_conn`. -/
def dispatch (s : Scanner Detection η) (allowlist : PathAllowlist) (fs : ScanFs) (m : ScanMetrics)
    (cmd : Str) : ConnReply × ScanMetrics :=
  if eqIgnoreAsciiCase cmd "PING".toList then (.text "PONG\n".toList, m)
  else if eqIgnoreAsciiCase cmd "VERSION".toList then
    (.text "rclamd 0.1.0 / unified-hex-hash-engine\n".toList, m)
  else if eqIgnoreAsciiCase cmd "STATS".toList then (.text (renderStats m), m)
  else if eqIgnoreAsciiCase cmd "SHUTDOWN".toList then (.exit, m)
  else
    match (stripWord "SCAN ".toList cmd).or (stripWord "CONTSCAN ".toList cmd) with
    | some path =>
      match runScanCounted s allowlist fs m path with
      | (.ok response, m) => (.text response, m)
      | (.error _, m) => (.lost, m)
    | none => (.text ("ERROR unknown command: ".toList ++ cmd ++ ['\n']), m)

/-- `handle_conn`, for the bytes that the client sends. -/
def handleConn (s : Scanner Detection η) (allowlist : PathAllowlist) (fs : ScanFs) :
    Machine ScanMetrics (List UInt8) ConnReply := fun m bytes =>
  let taken := takeLine (bytes.take (maxCommandLineBytes + 1))
  match fromUtf8 taken with
  | none => (.lost, m)
  | some line =>
    if taken.isEmpty then (.closed, m)
    else if line.getLast? ≠ some '\n' ∧ maxCommandLineBytes < taken.length then
      (.text "ERROR command line too long\n".toList, m)
    else dispatch s allowlist fs m (trim line)

variable {s : Scanner Detection η} {allowlist : PathAllowlist} {fs fs' : ScanFs} {m : ScanMetrics}

/-- What is counted makes no difference to the response. -/
theorem runScanCounted_fst (path : Str) :
    (runScanCounted s allowlist fs m path).1 = runScan s allowlist fs path := by
  rw [runScanCounted, runScan]
  cases allowlist.check fs path with
  | error e => rfl
  | ok p =>
    dsimp only
    cases s.scanAllowed fs p with
    | error panic => rfl
    | ok result => cases result <;> rfl

/-! ## Outside of the roots -/

/-- A canonical path is below a root. -/
def PathAllowlist.Covers (allowlist : PathAllowlist) (canon : Str) : Prop :=
  allowlist.roots.any (fun root => (pathComponents root).isPrefixOf (pathComponents canon)) = true

/-- Two filesystems that are the same below the roots: the same paths lead there, and to the
same. Nothing is said of the others. -/
structure SameInside (allowlist : PathAllowlist) (fs fs' : ScanFs) : Prop where
  canonicalize : ∀ path canon, allowlist.Covers canon →
    (fs.canonicalize path = some canon ↔ fs'.canonicalize path = some canon)
  isDir : ∀ canon, allowlist.Covers canon → fs.isDir canon = fs'.isDir canon
  walk : ∀ canon, allowlist.Covers canon → fs.walk canon = fs'.walk canon
  file : ∀ canon, allowlist.Covers canon → fs.file canon = fs'.file canon ∧
    ∀ path ∈ fs.walk canon, fs.file path = fs'.file path

theorem check_eq_ok_iff {path p : Str} :
    allowlist.check fs path = .ok p ↔ fs.canonicalize path = some p ∧ allowlist.Covers p := by
  rw [PathAllowlist.check]
  split
  · next hempty =>
    refine iff_of_false nofun ?_
    rintro ⟨-, hcovers⟩
    rw [PathAllowlist.Covers, List.isEmpty_iff.mp hempty] at hcovers
    cases hcovers
  · cases fs.canonicalize path with
    | none => simp
    | some canon =>
      dsimp only
      split
      · next hcovers =>
        constructor
        · intro h
          cases h
          exact ⟨rfl, hcovers⟩
        · rintro ⟨h, -⟩
          rw [Option.some.inj h]
      · next hcovers =>
        refine iff_of_false nofun ?_
        rintro ⟨h, hp⟩
        exact hcovers (Option.some.inj h ▸ hp)

theorem mapM_congr_of_mem {ε α β : Type} {f g : α → Except ε β} {xs : List α}
    (h : ∀ x ∈ xs, f x = g x) : xs.mapM f = xs.mapM g := by
  induction xs with
  | nil => rfl
  | cons x xs ih =>
    rw [List.mapM_cons, List.mapM_cons, h x (.head _), ih fun y hy => h y (.tail _ hy)]

section
variable (h : SameInside allowlist fs fs')
include h

theorem SameInside.check_iff {path p : Str} :
    allowlist.check fs path = .ok p ↔ allowlist.check fs' path = .ok p := by
  rw [check_eq_ok_iff, check_eq_ok_iff]
  exact and_congr_left fun hcovers => h.canonicalize path p hcovers

theorem SameInside.scanAllowed_eq {path p : Str} (hp : allowlist.check fs path = .ok p) :
    s.scanAllowed fs p = s.scanAllowed fs' p := by
  obtain ⟨-, hcovers⟩ := check_eq_ok_iff.mp hp
  obtain ⟨hfile, hfiles⟩ := h.file p hcovers
  have hscan : (fs.walk p).mapM (s.scanFile fs) = (fs.walk p).mapM (s.scanFile fs') := by
    refine mapM_congr_of_mem fun path hpath => ?_
    rw [Scanner.scanFile, Scanner.scanFile, hfiles path hpath]
  simp only [Scanner.scanAllowed, Scanner.scanDirectory, h.isDir p hcovers, ← h.walk p hcovers,
    hscan, hfile]

theorem SameInside.runScanCounted_eq (path : Str) :
    runScanCounted s allowlist fs m path = runScanCounted s allowlist fs' m path := by
  rw [runScanCounted, runScanCounted]
  cases hcheck : allowlist.check fs path with
  | ok p =>
    rw [h.check_iff.mp hcheck]
    simp only [h.scanAllowed_eq hcheck]
  | error e =>
    cases hcheck' : allowlist.check fs' path with
    | error e' => rfl
    | ok p =>
      rw [h.check_iff.mpr hcheck'] at hcheck
      cases hcheck

theorem SameInside.dispatch_eq (cmd : Str) :
    dispatch s allowlist fs m cmd = dispatch s allowlist fs' m cmd := by
  simp only [dispatch, h.runScanCounted_eq]

/-- Clients get the same answers, and the same is counted, whatever the filesystem holds outside of
the roots. -/
theorem replies_agree (m : ScanMetrics) (connections : List (List UInt8)) :
    (handleConn s allowlist fs).run m connections =
      (handleConn s allowlist fs').run m connections := by
  have hconn : handleConn s allowlist fs = handleConn s allowlist fs' := by
    funext m bytes
    simp only [handleConn, h.dispatch_eq]
  rw [hconn]

end

/-- The files of `forgingFs`, with or without one that is not below the root. -/
def hiddenFs : ScanFs :=
  { forgingFs with canonicalize := fun path =>
      if path = "/etc/shadow".toList then none else some path }

theorem sameInside_hidden : SameInside ⟨["/srv".toList]⟩ forgingFs hiddenFs where
  canonicalize path canon hcovers := by
    change some path = some canon ↔
      (if path = "/etc/shadow".toList then none else some path) = some canon
    split
    · next hpath =>
      refine iff_of_false (fun heq => ?_) nofun
      rw [← Option.some.inj heq, hpath, PathAllowlist.Covers] at hcovers
      exact absurd hcovers (by decide +kernel)
    · exact Iff.rfl
  isDir _ _ := rfl
  walk _ _ := rfl
  file _ _ := ⟨rfl, fun _ _ => rfl⟩

theorem replies_agree_hidden :
    (handleConn forgingScanner ⟨["/srv".toList]⟩ forgingFs).run {}
        [utf8 "SCAN /etc/shadow\n".toList, utf8 "STATS\n".toList] =
      (handleConn forgingScanner ⟨["/srv".toList]⟩ hiddenFs).run {}
        [utf8 "SCAN /etc/shadow\n".toList, utf8 "STATS\n".toList] :=
  replies_agree sameInside_hidden _ _

/-! ## Lines -/

section
variable {line : Str} (hline : '\n' ∉ line)
include hline

/-- A line that is short enough is the command, whatever comes after it. -/
theorem handleConn_of_short (hlen : (utf8 line).length ≤ maxCommandLineBytes) (rest : List UInt8) :
    handleConn s allowlist fs m (utf8 line ++ lineEnd :: rest) =
      dispatch s allowlist fs m (trim line) := by
  obtain ⟨rest', hrest⟩ : ∃ rest', (utf8 line ++ lineEnd :: rest).take (maxCommandLineBytes + 1) =
      utf8 line ++ lineEnd :: rest' := by
    obtain ⟨k, hk⟩ := Nat.exists_eq_add_of_le hlen
    refine ⟨rest.take k, ?_⟩
    rw [hk, Nat.add_assoc, List.take_length_add_append, List.take_succ_cons]
  have hnl : utf8 ['\n'] = [lineEnd] := by decide
  have htaken : utf8 line ++ [lineEnd] = utf8 (line ++ ['\n']) := by
    rw [utf8_append, hnl]
  have hnonempty : (utf8 line ++ [lineEnd]).isEmpty = false := by simp
  simp only [handleConn, hrest, takeLine_append (newline_not_mem_utf8 hline), htaken,
    fromUtf8_utf8]
  rw [← htaken, hnonempty, trim_append_blank (by decide)]
  simp

/-- A line that is too long is refused, and nothing is counted; there is no answer if the reader
stops within a character. -/
theorem long_line_refused (hlen : maxCommandLineBytes < (utf8 line).length) (rest : List UInt8) :
    handleConn s allowlist fs m (utf8 line ++ rest) =
      (if (fromUtf8 ((utf8 line).take (maxCommandLineBytes + 1))).isSome then
        .text "ERROR command line too long\n".toList else .lost, m) := by
  have hend : lineEnd ∉ utf8 line := newline_not_mem_utf8 hline
  have htake : (utf8 line ++ rest).take (maxCommandLineBytes + 1) =
      (utf8 line).take (maxCommandLineBytes + 1) := List.take_append_of_le_length hlen
  have hseen : lineEnd ∉ (utf8 line).take (maxCommandLineBytes + 1) :=
    fun hmem => hend (List.mem_of_mem_take hmem)
  simp only [handleConn, htake, takeLine_of_not_mem hseen]
  cases hdecoded : fromUtf8 ((utf8 line).take (maxCommandLineBytes + 1)) with
  | none => rfl
  | some text =>
    have hcount : ((utf8 line).take (maxCommandLineBytes + 1)).length =
        maxCommandLineBytes + 1 := by
      rw [List.length_take]
      omega
    have hbegins : text <+: line := by
      refine prefix_of_utf8_append (b := (utf8 line).drop (maxCommandLineBytes + 1)) ?_
      rw [utf8_of_fromUtf8 hdecoded, List.take_append_drop]
    have hlast : text.getLast? ≠ some '\n' := fun hlast =>
      hline (hbegins.subset (List.mem_of_getLast? hlast))
    have hempty : ((utf8 line).take (maxCommandLineBytes + 1)).isEmpty = false := by
      rw [← Bool.not_eq_true, List.isEmpty_iff, ← List.length_eq_zero_iff, hcount]
      exact Nat.succ_ne_zero _
    have hlong : maxCommandLineBytes < ((utf8 line).take (maxCommandLineBytes + 1)).length := by
      omega
    dsimp only
    rw [hempty, if_neg Bool.false_ne_true, if_pos ⟨hlast, hlong⟩]
    rfl

end

/-- The command after a line that is too long is not carried out. -/
theorem long_line_refused_letters : handleConn forgingScanner ⟨["/srv".toList]⟩ forgingFs {}
    (utf8 (List.replicate 8193 'a') ++ utf8 "\nSHUTDOWN\n".toList) =
      (.text "ERROR command line too long\n".toList, {}) := by
  have hlen : ∀ n, utf8 (List.replicate n 'a') = List.replicate n 97 := by
    intro n
    induction n with
    | zero => rfl
    | succ n ih =>
      rw [List.replicate_succ, utf8_cons, ih]
      rfl
  have hlong : maxCommandLineBytes < (utf8 (List.replicate 8193 'a')).length := by
    rw [hlen, List.length_replicate]
    exact Nat.lt_succ_self _
  have hline : '\n' ∉ List.replicate 8193 'a' := fun h =>
    absurd (List.eq_of_mem_replicate h) (by decide)
  have htake : (utf8 (List.replicate 8193 'a')).take (maxCommandLineBytes + 1) =
      utf8 (List.replicate 8193 'a') := by
    rw [List.take_of_length_le]
    rw [hlen, List.length_replicate]
    exact le_refl _
  rw [long_line_refused hline hlong, htake, fromUtf8_utf8]
  rfl

/-! ## Scans -/

theorem dispatch_scan (path : Str) : dispatch s allowlist fs m ("SCAN ".toList ++ path) =
    match runScanCounted s allowlist fs m path with
    | (.ok response, m) => (.text response, m)
    | (.error _, m) => (.lost, m) := by
  have hblank : ' ' ∈ "SCAN ".toList ++ path := List.mem_append_left _ (by decide)
  have hother : ∀ w : Str, toAsciiUppercase ' ' ∉ w.map toAsciiUppercase →
      ¬ eqIgnoreAsciiCase ("SCAN ".toList ++ path) w = true := fun w hw =>
    Bool.eq_false_iff.mp (eqIgnoreAsciiCase_eq_false hblank hw)
  rw [dispatch, if_neg (hother _ (by decide)), if_neg (hother _ (by decide)),
    if_neg (hother _ (by decide)), if_neg (hother _ (by decide)), stripWord_append]
  rfl

theorem scansTotal_foldl (reports : List (FileReport Detection η)) (m : ScanMetrics) :
    (reports.foldl ScanMetrics.countReport m).scansTotal = m.scansTotal := by
  induction reports generalizing m with
  | nil => rfl
  | cons r reports ih =>
    rw [List.foldl_cons, ih, ScanMetrics.countReport]
    split <;> rfl

theorem scansTotal_runScanCounted (path : Str) :
    (runScanCounted s allowlist fs m path).2.scansTotal = m.scansTotal + 1 := by
  rw [runScanCounted]
  cases allowlist.check fs path with
  | error e => rfl
  | ok p =>
    dsimp only
    cases s.scanAllowed fs p with
    | error panic => rfl
    | ok result =>
      cases result with
      | error e => rfl
      | ok reports => exact scansTotal_foldl reports _

/-- A path as a client sends it, in a line that is short enough, is scanned as it is, whatever comes
after the line, and the scan is counted, once. -/
theorem scan_command {path : Str} (hne : path ≠ []) (hpath : '\n' ∉ path)
    (hlast : ∀ c ∈ path.getLast?, isWhitespace c = false)
    (hlen : (utf8 ("SCAN ".toList ++ path)).length ≤ maxCommandLineBytes) (rest : List UInt8) :
    ∃ m', m'.scansTotal = m.scansTotal + 1 ∧
      handleConn s allowlist fs m (utf8 ("SCAN ".toList ++ path) ++ lineEnd :: rest) =
        (match runScan s allowlist fs path with
          | .ok response => .text response
          | .error _ => .lost, m') := by
  have hline : '\n' ∉ "SCAN ".toList ++ path := by
    rw [List.mem_append]
    exact fun h => h.elim (by decide) hpath
  have htrim : trim ("SCAN ".toList ++ path) = "SCAN ".toList ++ path := by
    refine trim_eq_self (fun c hc => ?_) fun c hc => ?_
    · rw [← Option.some.inj hc]
      decide
    · rw [List.getLast?_append_of_ne_nil _ hne] at hc
      exact hlast c hc
  refine ⟨(runScanCounted s allowlist fs m path).2, scansTotal_runScanCounted path, ?_⟩
  rw [handleConn_of_short hline hlen, htrim, dispatch_scan, ← runScanCounted_fst (m := m)]
  obtain ⟨result, hresult⟩ : ∃ result, runScanCounted s allowlist fs m path = result := ⟨_, rfl⟩
  rw [hresult]
  obtain ⟨_ | response, m'⟩ := result <;> rfl

theorem scan_command_clean : ∃ m', m'.scansTotal = 1 ∧
    handleConn forgingScanner ⟨["/srv".toList]⟩ forgingFs {}
        (utf8 ("SCAN ".toList ++ "/srv/b".toList) ++ lineEnd :: utf8 "SHUTDOWN\n".toList) =
      (.text "/srv/b: OK\nSCAN SUMMARY: OK\n".toList, m') := by
  have hlast : ∀ c ∈ "/srv/b".toList.getLast?, isWhitespace c = false := by
    intro c hc
    rw [← Option.some.inj (show some 'b' = some c from hc)]
    decide
  obtain ⟨m', hcount, hreply⟩ := @scan_command Unit forgingScanner ⟨["/srv".toList]⟩ forgingFs {}
    "/srv/b".toList (by decide) (by decide) hlast (by decide +kernel)
    (utf8 "SHUTDOWN\n".toList)
  have hscan : runScan forgingScanner ⟨["/srv".toList]⟩ forgingFs "/srv/b".toList =
      .ok "/srv/b: OK\nSCAN SUMMARY: OK\n".toList := by
    decide +kernel
  rw [hscan] at hreply
  exact ⟨m', hcount, hreply⟩

end ActiveDefense.Clam
