import ActiveDefense.Clam.Engine
import ActiveDefense.Clam.InMemory
import ActiveDefense.Clam.QuarantineCrash
import ActiveDefense.Clam.QuarantineStore
import Mathlib.Data.Char
import Mathlib.Data.List.Destutter
import Mathlib.Data.List.Lex

/-!
# The reaction of the on-access monitor

`scan_and_react` reads a file once, scans what it read, and on a detection hands the same bytes to
the quarantine; then it removes the file, and if that fails the file stays. At each point of a run
the original is there, unless its bytes are stored with their record (`scanAndReact_sound`).
-/

namespace ActiveDefense.Clam

open QuarantineManager

variable {η : Type}

/-- `ReactionOutcome`. -/
inductive ReactionOutcome where
  | clean
  | quarantined (detections : List Str) (quarantineId : Str)
  | infectedNotQuarantined (detections : List Str)
  | skipped (reason : Str)
  | error (message : Str)
deriving DecidableEq, Repr

/-- `RealtimeMonitor`, as far as the reaction to one file needs it. -/
structure RealtimeMonitor (η : Type) where
  scanner : Scanner Detection η
  quarantine : QuarantineManager
  autoQuarantine : Bool

/-- The loop over the reports: the names of the detections, and the first reason to skip. -/
def collect (acc : List Str × Option Str) (r : FileReport Detection η) : List Str × Option Str :=
  match r.verdict with
  | .infected dets => (acc.1 ++ dets.map Detection.name, acc.2)
  | .limitExceeded detections reason =>
    (acc.1 ++ detections.map Detection.name, acc.2.or (some reason))
  | .skipped reason => (acc.1, acc.2.or (some reason))
  | .clean => acc

/-- `sort`, and `dedup` after it. -/
def sortDedup (names : List Str) : List Str :=
  (names.mergeSort fun a b => decide (a ≤ b)).destutter (· ≠ ·)

/-- A computation of the monitor. -/
abbrev Reaction (α : Type) := EStateM Panic (World Disk IoError) α

/-- The branch of `scan_and_react` for a file with detections. -/
def RealtimeMonitor.reactTo (mon : RealtimeMonitor η) (prims : Primitives) (draws : Draws)
    (path : PathBuf) (data : List UInt8) (allDetections : List Str) : Reaction ReactionOutcome := do
  let allDetections := sortDedup allDetections
  if mon.autoQuarantine then
    let sigName := ", ".toList.intercalate allDetections
    match ← attempt (mon.quarantine.quarantineBytes prims draws path data sigName) with
    | .ok record =>
      -- that the removal failed is only logged
      let _removed ← attempt (removeFile path)
      return .quarantined allDetections record.id
    | .error _ => return .infectedNotQuarantined allDetections
  else return .infectedNotQuarantined allDetections

/-- `scan_and_react`; `ioText` is the `Display` of an I/O error. -/
def RealtimeMonitor.scanAndReact (mon : RealtimeMonitor η) (prims : Primitives) (draws : Draws)
    (ioText : IoError → Str) (path : PathBuf) : Reaction ReactionOutcome := do
  match ← attempt (fsRead path) with
  | .error e => return .error (ioText e)
  | .ok data =>
    let reports ← ofExcept (mon.scanner.scanInMemory (fromUtf8Lossy path) data)
    let (allDetections, skippedReason) := reports.foldl collect ([], none)
    if allDetections ≠ [] then mon.reactTo prims draws path data allDetections
    else match skippedReason with
      | some reason => return .skipped reason
      | none => return .clean

/-! ## The loop over the reports -/

/-- The names of the detections that a report is about. -/
def FileReport.detectionNames (r : FileReport Detection η) : List Str :=
  match r.verdict with
  | .infected dets | .limitExceeded dets _ => dets.map Detection.name
  | .clean | .skipped _ => []

/-- The reason that the report was not complete. -/
def FileReport.reason {δ : Type} (r : FileReport δ η) : Option Str :=
  match r.verdict with
  | .limitExceeded _ reason | .skipped reason => some reason
  | .clean | .infected _ => none

theorem collect_eq (acc : List Str × Option Str) (r : FileReport Detection η) :
    collect acc r = (acc.1 ++ r.detectionNames, acc.2.or r.reason) := by
  unfold collect FileReport.detectionNames FileReport.reason
  cases r.verdict with
  | infected dets => rw [Option.or_none]
  | limitExceeded dets reason => rfl
  | skipped reason => rw [List.append_nil]
  | clean => rw [List.append_nil, Option.or_none]

/-- Nothing is collected only if no report has anything. -/
theorem foldl_collect_eq_nil {reports : List (FileReport Detection η)} {acc : List Str × Option Str}
    (h : reports.foldl collect acc = ([], none)) :
    acc = ([], none) ∧ ∀ r ∈ reports, r.detectionNames = [] ∧ r.reason = none := by
  induction reports generalizing acc with
  | nil => exact ⟨h, fun _ hr => absurd hr List.not_mem_nil⟩
  | cons r reports ih =>
    obtain ⟨hacc, hrest⟩ := ih h
    rw [collect_eq, Prod.mk.injEq, List.append_eq_nil_iff, Option.or_eq_none_iff] at hacc
    obtain ⟨⟨hnames, hr⟩, hreason, hr'⟩ := hacc
    refine ⟨Prod.ext hnames hreason, fun r' hmem => ?_⟩
    rcases List.mem_cons.mp hmem with rfl | hmem
    · exact ⟨hr, hr'⟩
    · exact hrest r' hmem

/-- No report of a scan says infected without a detection. -/
theorem ne_infected_nil {s : Scanner Detection η} {path : Str} {data : List UInt8}
    {reports : List (FileReport Detection η)} (h : s.scanInMemory path data = .ok reports) :
    ∀ r ∈ reports, r.verdict ≠ .infected [] := by
  refine Scanner.scanInMemory_all (P := fun r => r.verdict ≠ .infected [])
    (fun _ _ hverdict => by cases hverdict) (fun buf logicalPath => ?_) h
  unfold Scanner.ownReport
  dsimp only
  split
  · exact fun hverdict => by cases hverdict
  · next hdets =>
    intro hverdict
    rw [Verdict.infected.injEq] at hverdict
    exact hdets (by rw [hverdict]; rfl)

/-- Where nothing is collected from the reports of a scan, all of them are clean. -/
theorem clean_of_collect {s : Scanner Detection η} {path : Str} {data : List UInt8}
    {reports : List (FileReport Detection η)} (h : s.scanInMemory path data = .ok reports)
    (hnone : reports.foldl collect ([], none) = ([], none)) :
    ∀ r ∈ reports, r.verdict = .clean := by
  intro r hr
  obtain ⟨hnames, hreason⟩ := (foldl_collect_eq_nil hnone).2 r hr
  have hinfected := ne_infected_nil h r hr
  unfold FileReport.detectionNames at hnames
  unfold FileReport.reason at hreason
  cases hverdict : r.verdict with
  | clean => rfl
  | infected dets =>
    rw [hverdict] at hnames hinfected
    cases List.map_eq_nil_iff.mp hnames
    exact absurd rfl hinfected
  | skipped reason =>
    rw [hverdict] at hreason
    cases hreason
  | limitExceeded dets reason =>
    rw [hverdict] at hreason
    cases hreason

/-! ## The run -/

/-- The original is as it was. -/
def Untouched (path : PathBuf) (d s : Disk) : Prop := s.read path = d.read path

/-- The bytes of the original are stored with their record. -/
def RealtimeMonitor.Neutralized (mon : RealtimeMonitor η) (prims : Primitives) (draws : Draws)
    (path : PathBuf) (d s : Disk) : Prop :=
  ∃ data sigName, d.read path = some data ∧
    mon.quarantine.Holds prims draws path data sigName s

/-- What an outcome says of a run from a disk. -/
def RealtimeMonitor.Justified (mon : RealtimeMonitor η) (prims : Primitives) (draws : Draws)
    (path : PathBuf) (d : Disk) (outcome : ReactionOutcome) (w : World Disk IoError) : Prop :=
  match outcome with
  | .clean => Throughout (Untouched path d) w ∧ ∃ data reports, d.read path = some data ∧
      mon.scanner.scanInMemory (fromUtf8Lossy path) data = .ok reports ∧
      ∀ r ∈ reports, r.verdict = .clean
  | .quarantined _ quarantineId => quarantineId = hexEncode draws.id ∧
      mon.Neutralized prims draws path d w.state
  | .infectedNotQuarantined _ | .skipped _ | .error _ => Throughout (Untouched path d) w

section
variable {mon : RealtimeMonitor η} {prims : Primitives} {draws : Draws} {path : PathBuf}
  {data : List UInt8} {d s : Disk} {w : World Disk IoError}

/-- What is stored outlasts the removal of the original. -/
theorem RealtimeMonitor.Neutralized.unlink (h : mon.Neutralized prims draws path d s)
    (hunused : mon.quarantine.Unused draws d) :
    mon.Neutralized prims draws path d (s.unlink path) := by
  obtain ⟨data, sigName, hread, hholds⟩ := h
  have hne := hunused.ne (by rw [hread]; exact Option.some_ne_none data)
  exact ⟨data, sigName, hread, hholds.unlink hne⟩

/-- What happens to a file with detections. -/
theorem reactTo_run (hstate : w.state = d) (hpoints : Throughout (Untouched path d) w)
    (hread : d.read path = some data) (hunused : mon.quarantine.Unused draws d)
    (allDetections : List Str) :
    ∃ outcome w', mon.reactTo prims draws path data allDetections w = .ok outcome w' ∧
      (∀ s ∈ w'.points, Untouched path d s ∨ mon.Neutralized prims draws path d s) ∧
      mon.Justified prims draws path d outcome w' := by
  have hkept : ∀ s, mon.quarantine.ChangesStore draws d s → Untouched path d s := by
    intro s hs
    obtain ⟨hne, hne'⟩ := hunused.ne (by rw [hread]; exact Option.some_ne_none data)
    exact hs path hne hne'
  unfold RealtimeMonitor.reactTo
  dsimp only
  cases mon.autoQuarantine with
  | false => exact ⟨_, w, rfl, fun s hs => .inl (hpoints s hs), hpoints⟩
  | true =>
    rw [if_pos rfl]
    generalize hsig : ", ".toList.intercalate (sortDedup allDetections) = sigName
    have hstores : Survives (Untouched path d) (· = d)
        (mon.quarantine.quarantineBytes prims draws path data sigName) _ :=
      quarantineBytes_stores hunused hkept
    obtain ⟨hpoints', hdone⟩ := hstores w hstate hpoints
    cases hrun : mon.quarantine.quarantineBytes prims draws path data sigName w with
    | error e w' =>
      rw [hrun] at hpoints'
      rw [bind_run_of_ok (attempt_run_of_error hrun)]
      exact ⟨_, w', rfl, fun s hs => .inl (hpoints' s hs), hpoints'⟩
    | ok record w' =>
      rw [hrun] at hpoints'
      obtain ⟨rfl, -, hholds⟩ := hdone record w' hrun
      have hneutral : mon.Neutralized prims draws path d w'.state := ⟨data, sigName, hread, hholds⟩
      have hgone : mon.Neutralized prims draws path d (w'.state.unlink path) :=
        hneutral.unlink hunused
      have hboth : ∀ s ∈ w'.points,
          Untouched path d s ∨ mon.Neutralized prims draws path d s :=
        fun s hs => .inl (hpoints' s hs)
      rw [bind_run_of_ok (attempt_run_of_ok hrun)]
      dsimp only
      obtain ⟨hpoints'', hremoved⟩ :=
        removeFile_survives
          (C := fun s => Untouched path d s ∨ mon.Neutralized prims draws path d s)
          (.inr hgone) w' rfl hboth
      cases hremove : removeFile path w' with
      | ok _ w'' =>
        rw [hremove] at hpoints''
        rw [bind_run_of_ok (attempt_run_of_ok hremove)]
        refine ⟨_, w'', rfl, hpoints'', rfl, ?_⟩
        rw [hremoved _ w'' hremove]
        exact hgone
      | error e w'' =>
        rw [hremove] at hpoints''
        rw [bind_run_of_ok (attempt_run_of_error hremove)]
        -- a removal that fails leaves the disk as it was
        refine ⟨_, w'', rfl, hpoints'', rfl, ?_⟩
        have hsame : w''.state = w'.state := (List.cons.inj (points_of_call_error hremove)).1
        rw [hsame]
        exact hneutral

/-! ## What the monitor does to the file -/

/-- What holds of a run from a disk: at each point the original is there, unless its bytes are
stored with their record, and the outcome says what has happened. Where the scan panics the original
is there throughout. -/
structure RealtimeMonitor.Sound (mon : RealtimeMonitor η) (prims : Primitives) (draws : Draws)
    (path : PathBuf) (d : Disk)
    (result : EStateM.Result Panic (World Disk IoError) ReactionOutcome) : Prop where
  throughout : Throughout (fun s => Untouched path d s ∨ mon.Neutralized prims draws path d s)
    (finalState result)
  justified : ∀ outcome w, result = .ok outcome w → mon.Justified prims draws path d outcome w
  panicked : ∀ e w, result = .error e w → Throughout (Untouched path d) w

namespace RealtimeMonitor.Sound

theorem outcome {outcome : ReactionOutcome}
    (hpoints : ∀ s ∈ w.points, Untouched path d s ∨ mon.Neutralized prims draws path d s)
    (h : mon.Justified prims draws path d outcome w) :
    mon.Sound prims draws path d (.ok outcome w) where
  throughout := hpoints
  justified outcome w hrun := by
    cases hrun
    exact h
  panicked e w hrun := by cases hrun

theorem panic {e : Panic} (hpoints : Throughout (Untouched path d) w) :
    mon.Sound prims draws path d (.error e w) where
  throughout s hs := .inl (hpoints s hs)
  justified outcome w hrun := by cases hrun
  panicked e w hrun := by
    cases hrun
    exact hpoints

/-- Where the original is there throughout, it is enough that the outcome says why. -/
theorem of_untouched {outcome : ReactionOutcome} (hpoints : Throughout (Untouched path d) w)
    (h : mon.Justified prims draws path d outcome w) :
    mon.Sound prims draws path d (.ok outcome w) :=
  .outcome (fun s hs => .inl (hpoints s hs)) h

end RealtimeMonitor.Sound

/-- Every run of `scan_and_react` keeps the original until it is stored. -/
theorem scanAndReact_sound (mon : RealtimeMonitor η) (prims : Primitives) (draws : Draws)
    (ioText : IoError → Str) (path : PathBuf) (answers : List (Answer IoError)) (d : Disk)
    (hunused : mon.quarantine.Unused draws d) :
    mon.Sound prims draws path d
      (mon.scanAndReact prims draws ioText path (World.start d answers)) := by
  have hstart : Throughout (Untouched path d) (World.start d answers) := by
    intro s hs
    cases List.mem_singleton.mp hs
    exact rfl
  obtain ⟨hpoints, hdone⟩ :=
    fsRead_survives (p := path) (C := Untouched path d) rfl (World.start d answers) rfl hstart
  unfold RealtimeMonitor.scanAndReact
  cases hread : fsRead path (World.start d answers) with
  | error e w =>
    rw [hread] at hpoints
    rw [bind_run_of_ok (attempt_run_of_error hread)]
    exact .of_untouched hpoints hpoints
  | ok data w =>
    rw [hread] at hpoints
    obtain ⟨⟨i, hentry, hdata⟩, hstate⟩ := hdone data w hread
    have horiginal : d.read path = some data := by rw [Disk.read, hentry, hdata, Option.map_some]
    rw [bind_run_of_ok (attempt_run_of_ok hread)]
    dsimp only
    cases hscan : mon.scanner.scanInMemory (fromUtf8Lossy path) data with
    | error panic =>
      rw [bind_run_of_error (ofExcept_run_of_error rfl)]
      exact .panic hpoints
    | ok reports =>
      rw [bind_run_of_ok (ofExcept_run_of_ok rfl)]
      cases hcollect : reports.foldl collect ([], none) with
      | mk allDetections skippedReason =>
        dsimp only
        by_cases hdets : allDetections = []
        · rw [if_neg (not_not.mpr hdets)]
          cases skippedReason with
          | some reason => exact .of_untouched hpoints hpoints
          | none =>
            rw [hdets] at hcollect
            exact .of_untouched hpoints
              ⟨hpoints, data, reports, horiginal, hscan, clean_of_collect hscan hcollect⟩
        · rw [if_pos hdets]
          obtain ⟨outcome, w', hrun, hpoints', hjustified⟩ :=
            reactTo_run hstate hpoints horiginal hunused allDetections
          rw [hrun]
          exact .outcome hpoints' hjustified

end

/-- A monitor whose scanner finds the same in any bytes, and opens no archive. -/
def sampleMonitor : RealtimeMonitor Unit where
  scanner :=
    { scanBuffer := fun _ => [⟨"Eicar".toList, .hashSha256, none⟩]
      analyze := fun _ => none
      decoders :=
        { zip := fun _ => .error []
          gzip := fun _ => .failing
          tar := fun _ => .error []
          sevenZ := fun _ => .error []
          cab := fun _ => .error [] }
      limits := default }
  quarantine := sampleManager
  autoQuarantine := true

/-- It quarantines the file of one byte. -/
theorem scanAndReact_sound_sample : ∃ w,
    sampleMonitor.scanAndReact samplePrimitives sampleDraws (fun _ => []) [102]
        (World.start sampleDisk []) =
      .ok (.quarantined ["Eicar".toList] (hexEncode sampleDraws.id)) w ∧
    sampleMonitor.Sound samplePrimitives sampleDraws [102] sampleDisk
      (.ok (.quarantined ["Eicar".toList] (hexEncode sampleDraws.id)) w) := by
  have hresult : result? (sampleMonitor.scanAndReact samplePrimitives sampleDraws (fun _ => [])
      [102] (World.start sampleDisk [])) =
        some (.quarantined ["Eicar".toList] (hexEncode sampleDraws.id)) := by
    decide +kernel
  obtain ⟨w, hrun⟩ := exists_of_result hresult
  refine ⟨w, hrun, ?_⟩
  rw [← hrun]
  exact scanAndReact_sound sampleMonitor samplePrimitives sampleDraws (fun _ => []) [102] []
    sampleDisk ⟨rfl, rfl⟩

end ActiveDefense.Clam
