import ActiveDefense.Lib.Run
import ActiveDefense.Rust.Text

/-!
# The swap of the signature directory

`apply_update` puts a staged directory in the place of the live one, which it keeps as `.previous`;
`rollback` brings `.previous` back. A step is one access to the filesystem, which may fail: a test,
a rename, or the removal of one entry of a directory that is cleared. The process may be killed
between any two steps. The three paths are siblings on one filesystem, and no other process changes
them during a call; between calls a new directory may be staged.
-/

namespace ActiveDefense.Clam

/-- `ApplyError`. A path is its text, and an io error its text. -/
inductive ApplyError where
  | stagingMissing (stagingDir : Str)
  | io (step source : Str)
deriving DecidableEq, Repr

/-- The `Display` of an `ApplyError`. -/
def ApplyError.toStr : ApplyError → Str
  | .stagingMissing stagingDir =>
    "staging directory ".toList ++ stagingDir ++ " does not exist".toList
  | .io step source => "io error during ".toList ++ step ++ ": ".toList ++ source

/-- What a path names: a directory with its entries, or something else. -/
inductive Node (ε : Type) where
  | dir (entries : List ε)
  | other
deriving DecidableEq, Repr

/-- `Path::is_dir`. -/
def isDir {ε : Type} : Option (Node ε) → Bool
  | some (.dir _) => true
  | _ => false

/-- Where the process is: before which access to the filesystem, or with which result of its last
call. -/
inductive UpdatePhase where
  /-- in no call, at the start or after it was killed -/
  | outside
  /-- before `staging_dir.is_dir` -/
  | checkStaging (stagingDir : Str)
  /-- before `previous.exists` -/
  | checkStale
  /-- in `remove_dir_all` of the stale `.previous` -/
  | clearStale
  /-- before `sig_dir.exists` -/
  | checkSigDir
  /-- before the rename of the live directory to `.previous` -/
  | moveOld
  /-- before the rename of the staged directory into place -/
  | moveNew (sigDirExisted : Bool)
  /-- before the rename of `.previous` back into place, after an error -/
  | moveBack (source : Str)
  | applied (result : Except ApplyError Unit)
  /-- before `previous.is_dir`, in `rollback` -/
  | checkPrevious
  /-- before `sig_dir.exists`, in `rollback` -/
  | checkLive
  /-- in `remove_dir_all` of the live directory -/
  | clearLive
  /-- before the rename of `.previous` into place -/
  | restore
  | rolledBack (result : Except ApplyError Bool)

/-- The process is in no call. -/
def UpdatePhase.isOutside : UpdatePhase → Bool
  | .outside | .applied _ | .rolledBack _ => true
  | _ => false

/-- The three paths and the process, with what the live path named when the last call began and what
that call is to put there. -/
structure Updater (ε : Type) where
  sigDir : Option (Node ε)
  previous : Option (Node ε)
  staging : Option (Node ε)
  phase : UpdatePhase
  old : Option (Node ε)
  new : Option (Node ε)

/-- What happens in one step. -/
inductive UpdateAction (ε : Type) where
  | stage (node : Option (Node ε))
  | apply (stagingDir : Str)
  | rollback
  | look
  /-- an entry of the directory that is cleared is removed, and these are left -/
  | removeEntry (rest : List ε)
  | removeDir
  | rename
  | fail (source : Str)
  | kill

namespace Updater

variable {ε : Type}

/-- A live directory with its entries, and anything at the other two paths. -/
def start (entries : List ε) (previous staging : Option (Node ε)) : Updater ε where
  sigDir := some (.dir entries)
  previous := previous
  staging := staging
  phase := .outside
  old := some (.dir entries)
  new := some (.dir entries)

/-- The steps. -/
inductive Step : Updater ε → UpdateAction ε → Updater ε → Prop
  | stage {s : Updater ε} {node : Option (Node ε)} :
      s.phase.isOutside = true → Step s (.stage node) { s with staging := node }
  | kill {s : Updater ε} : Step s .kill { s with phase := .outside }
  -- `apply_update`
  | apply {s : Updater ε} {stagingDir : Str} :
      s.phase.isOutside = true →
      Step s (.apply stagingDir)
        { s with phase := .checkStaging stagingDir, old := s.sigDir, new := s.staging }
  | staging_missing {s : Updater ε} {stagingDir : Str} :
      s.phase = .checkStaging stagingDir → isDir s.staging = false →
      Step s .look { s with phase := .applied (.error (.stagingMissing stagingDir)) }
  | staging_present {s : Updater ε} {stagingDir : Str} :
      s.phase = .checkStaging stagingDir → isDir s.staging = true →
      Step s .look { s with phase := .checkStale }
  | stale_present {s : Updater ε} :
      s.phase = .checkStale → s.previous.isSome = true →
      Step s .look { s with phase := .clearStale }
  | stale_missing {s : Updater ε} :
      s.phase = .checkStale → s.previous = none → Step s .look { s with phase := .checkSigDir }
  | clearStale_entry {s : Updater ε} {before after : List ε} {e : ε} :
      s.phase = .clearStale → s.previous = some (.dir (before ++ e :: after)) →
      Step s (.removeEntry (before ++ after)) { s with previous := some (.dir (before ++ after)) }
  | clearStale_dir {s : Updater ε} :
      s.phase = .clearStale → s.previous = some (.dir []) →
      Step s .removeDir { s with previous := none, phase := .checkSigDir }
  | clearStale_fail {s : Updater ε} {source : Str} :
      s.phase = .clearStale →
      Step s (.fail source)
        { s with
          phase := .applied (.error (.io "removing stale .previous directory".toList source)) }
  | sigDir_present {s : Updater ε} :
      s.phase = .checkSigDir → s.sigDir.isSome = true → Step s .look { s with phase := .moveOld }
  | sigDir_missing {s : Updater ε} :
      s.phase = .checkSigDir → s.sigDir = none →
      Step s .look { s with phase := .moveNew false }
  | moveOld {s : Updater ε} :
      s.phase = .moveOld →
      Step s .rename { s with previous := s.sigDir, sigDir := none, phase := .moveNew true }
  | moveOld_fail {s : Updater ε} {source : Str} :
      s.phase = .moveOld →
      Step s (.fail source)
        { s with
          phase := .applied (.error (.io "moving current signatures to .previous".toList source)) }
  | moveNew {s : Updater ε} {sigDirExisted : Bool} :
      s.phase = .moveNew sigDirExisted →
      Step s .rename { s with sigDir := s.staging, staging := none, phase := .applied (.ok ()) }
  | moveNew_fail_back {s : Updater ε} {source : Str} :
      s.phase = .moveNew true → Step s (.fail source) { s with phase := .moveBack source }
  | moveNew_fail {s : Updater ε} {source : Str} :
      s.phase = .moveNew false →
      Step s (.fail source)
        { s with
          phase := .applied (.error (.io "moving staged signatures into place".toList source)) }
  | moveBack {s : Updater ε} {source : Str} :
      s.phase = .moveBack source →
      Step s .rename
        { s with
          sigDir := s.previous
          previous := none
          phase := .applied (.error (.io "moving staged signatures into place".toList source)) }
  | moveBack_fail {s : Updater ε} {source ignored : Str} :
      s.phase = .moveBack source →
      Step s (.fail ignored)
        { s with
          phase := .applied (.error (.io "moving staged signatures into place".toList source)) }
  -- `rollback`
  | rollback {s : Updater ε} :
      s.phase.isOutside = true →
      Step s .rollback { s with phase := .checkPrevious, old := s.sigDir, new := s.previous }
  | previous_missing {s : Updater ε} :
      s.phase = .checkPrevious → isDir s.previous = false →
      Step s .look { s with phase := .rolledBack (.ok false) }
  | previous_present {s : Updater ε} :
      s.phase = .checkPrevious → isDir s.previous = true →
      Step s .look { s with phase := .checkLive }
  | live_present {s : Updater ε} :
      s.phase = .checkLive → s.sigDir.isSome = true → Step s .look { s with phase := .clearLive }
  | live_missing {s : Updater ε} :
      s.phase = .checkLive → s.sigDir = none → Step s .look { s with phase := .restore }
  | clearLive_entry {s : Updater ε} {before after : List ε} {e : ε} :
      s.phase = .clearLive → s.sigDir = some (.dir (before ++ e :: after)) →
      Step s (.removeEntry (before ++ after)) { s with sigDir := some (.dir (before ++ after)) }
  | clearLive_dir {s : Updater ε} :
      s.phase = .clearLive → s.sigDir = some (.dir []) →
      Step s .removeDir { s with sigDir := none, phase := .restore }
  | clearLive_fail {s : Updater ε} {source : Str} :
      s.phase = .clearLive →
      Step s (.fail source)
        { s with
          phase := .rolledBack
            (.error (.io "removing current signatures before rollback".toList source)) }
  | restore {s : Updater ε} :
      s.phase = .restore →
      Step s .rename
        { s with sigDir := s.previous, previous := none, phase := .rolledBack (.ok true) }
  | restore_fail {s : Updater ε} {source : Str} :
      s.phase = .restore →
      Step s (.fail source)
        { s with
          phase := .rolledBack (.error (.io "restoring .previous signatures".toList source)) }

/-! ## What the paths name at each point -/

variable {s t : Updater ε} {a : UpdateAction ε}

/-- What is known of the three paths where the process is. -/
def Known (sigDir previous staging old new : Option (Node ε)) : UpdatePhase → Prop
  | .outside => True
  | .checkStaging _ => sigDir = old ∧ staging = new
  | .checkStale | .clearStale => sigDir = old ∧ staging = new ∧ isDir new = true
  | .checkSigDir | .moveOld =>
    sigDir = old ∧ staging = new ∧ isDir new = true ∧ previous = none
  | .moveNew _ => sigDir = none ∧ staging = new ∧ isDir new = true ∧ previous = old
  | .moveBack _ => sigDir = none ∧ previous = old
  | .applied (.ok ()) => sigDir = new ∧ isDir new = true
  | .applied (.error _) => sigDir = old ∨ sigDir = none ∧ previous = old
  | .checkPrevious => sigDir = old ∧ previous = new
  | .checkLive => sigDir = old ∧ previous = new ∧ isDir new = true
  | .clearLive => previous = new ∧ isDir new = true
  | .restore => sigDir = none ∧ previous = new ∧ isDir new = true
  | .rolledBack (.ok true) => sigDir = new ∧ isDir new = true
  | .rolledBack (.ok false) => sigDir = old ∧ isDir new = false
  | .rolledBack (.error _) => previous = new

/-- The paths are as the place of the process says. -/
def Consistent (s : Updater ε) : Prop := Known s.sigDir s.previous s.staging s.old s.new s.phase

/-- Outside of a call nothing is known of what is staged. -/
theorem Known.stage {sigDir previous staging staging' old new : Option (Node ε)}
    {phase : UpdatePhase} (h : Known sigDir previous staging old new phase)
    (hout : phase.isOutside = true) : Known sigDir previous staging' old new phase := by
  cases phase with
  | outside => trivial
  | applied r => cases r <;> exact h
  | rolledBack r =>
    rcases r with e | ⟨_ | _⟩
    · exact h
    · exact h
    · exact h
  | _ => cases hout

/-- What is known where the process is. -/
theorem Consistent.known (hs : s.Consistent) {p : UpdatePhase} (hp : s.phase = p) :
    Known s.sigDir s.previous s.staging s.old s.new p := hp ▸ hs

/-- The step lemma. -/
theorem Consistent.step (hs : s.Consistent) (hst : Step s a t) : t.Consistent := by
  cases hst with
  | kill => trivial
  | stage hout => exact Known.stage hs hout
  | apply | rollback => exact And.intro rfl rfl
  | staging_missing hp | clearStale_fail hp | moveOld_fail hp =>
    obtain ⟨hsig, -⟩ := hs.known hp
    exact Or.inl hsig
  | staging_present hp hdir =>
    obtain ⟨hsig, hstaging⟩ := hs.known hp
    exact And.intro hsig ⟨hstaging, hstaging ▸ hdir⟩
  | stale_present hp | sigDir_present hp =>
    have hknown := hs.known hp
    exact hknown
  | clearStale_entry hp | clearLive_entry hp =>
    have hknown := hs.known hp
    show Known _ _ _ _ _ s.phase
    rw [hp]
    exact hknown
  | stale_missing hp hmissing =>
    obtain ⟨hsig, hstaging, hdir⟩ := hs.known hp
    exact And.intro hsig ⟨hstaging, hdir, hmissing⟩
  | clearStale_dir hp =>
    obtain ⟨hsig, hstaging, hdir⟩ := hs.known hp
    exact And.intro hsig ⟨hstaging, hdir, rfl⟩
  | sigDir_missing hp hmissing =>
    obtain ⟨hsig, hstaging, hdir, hprevious⟩ := hs.known hp
    exact And.intro hmissing ⟨hstaging, hdir, hprevious.trans (hmissing.symm.trans hsig)⟩
  | moveOld hp =>
    obtain ⟨hsig, hstaging, hdir, -⟩ := hs.known hp
    exact And.intro rfl ⟨hstaging, hdir, hsig⟩
  | moveNew hp =>
    obtain ⟨-, hstaging, hdir, -⟩ := hs.known hp
    exact And.intro hstaging hdir
  | moveNew_fail_back hp =>
    obtain ⟨hsig, -, -, hprevious⟩ := hs.known hp
    exact And.intro hsig hprevious
  | moveNew_fail hp =>
    obtain ⟨hsig, -, -, hprevious⟩ := hs.known hp
    exact Or.inr ⟨hsig, hprevious⟩
  | moveBack hp =>
    obtain ⟨-, hprevious⟩ := hs.known hp
    exact Or.inl hprevious
  | moveBack_fail hp => exact Or.inr (hs.known hp)
  | previous_missing hp hdir =>
    obtain ⟨hsig, hprevious⟩ := hs.known hp
    exact And.intro hsig (hprevious ▸ hdir)
  | previous_present hp hdir =>
    obtain ⟨hsig, hprevious⟩ := hs.known hp
    exact And.intro hsig ⟨hprevious, hprevious ▸ hdir⟩
  | live_present hp | restore hp =>
    obtain ⟨-, hprevious⟩ := hs.known hp
    exact hprevious
  | live_missing hp hmissing =>
    obtain ⟨-, hprevious⟩ := hs.known hp
    exact And.intro hmissing hprevious
  | clearLive_dir hp => exact And.intro rfl (hs.known hp)
  | clearLive_fail hp =>
    obtain ⟨hprevious, -⟩ := hs.known hp
    exact hprevious
  | restore_fail hp =>
    obtain ⟨-, hprevious, -⟩ := hs.known hp
    exact hprevious

/-- What is known of the paths holds in every run. -/
theorem consistent_of_run {entries : List ε} {previous staging : Option (Node ε)}
    {as : List (UpdateAction ε)} {ok : Updater ε → UpdateAction ε → Prop}
    (hrun : Run Step ok (start entries previous staging) as s) : s.Consistent :=
  hrun.invariant trivial fun _ _ _ hs _ hst => hs.step hst

/-! ## The live directory -/

/-- The live directory is there, and holds the complete old generation or the complete new one. -/
def Live (s : Updater ε) : Prop := isDir s.sigDir = true ∧ (s.sigDir = s.old ∨ s.sigDir = s.new)

/-- The step does not take the live directory away: it is not the rename to `.previous`, and not a
removal for `rollback`, unless that happens to leave a generation complete. -/
def LeavesLive (s : Updater ε) : UpdateAction ε → Prop
  | .rename => s.phase ≠ .moveOld
  | .removeEntry rest =>
    s.phase = .clearLive → some (.dir rest) = s.old ∨ some (.dir rest) = s.new
  | .removeDir => s.phase ≠ .clearLive
  | _ => True

/-- While the live directory is there, a step leaves it exactly where it meets the condition. -/
theorem Live.step_iff (hlive : s.Live) (hs : s.Consistent) (hst : Step s a t) :
    t.Live ↔ s.LeavesLive a := by
  have hnever {p : UpdatePhase} (hp : s.phase = p)
      (hnone : Known s.sigDir s.previous s.staging s.old s.new p → s.sigDir = none) : False := by
    have hgone := hnone (hs.known hp)
    have hdir := hlive.1
    rw [hgone] at hdir
    cases hdir
  cases hst with
  | apply | rollback => exact ⟨fun _ => trivial, fun _ => ⟨hlive.1, .inl rfl⟩⟩
  | stage | kill | staging_missing | staging_present | stale_present | stale_missing
  | clearStale_fail | sigDir_present | sigDir_missing | moveOld_fail | moveNew_fail_back
  | moveNew_fail | moveBack_fail | previous_missing | previous_present | live_present
  | live_missing | clearLive_fail | restore_fail => exact ⟨fun _ => trivial, fun _ => hlive⟩
  | clearStale_entry hp =>
    refine ⟨fun _ h => ?_, fun _ => hlive⟩
    cases hp.symm.trans h
  | clearStale_dir hp =>
    refine ⟨fun _ h => ?_, fun _ => hlive⟩
    cases hp.symm.trans h
  | moveOld hp =>
    -- for as long as the staged directory is not in place, there is none
    refine ⟨fun h => ?_, fun h => absurd hp h⟩
    have hdir := h.1
    cases hdir
  | moveNew hp => exact (hnever hp fun h => h.1).elim
  | moveBack hp => exact (hnever hp fun h => h.1).elim
  | restore hp => exact (hnever hp fun h => h.1).elim
  | clearLive_entry hp => exact ⟨fun h _ => h.2, fun h => ⟨rfl, h hp⟩⟩
  | clearLive_dir hp =>
    refine ⟨fun h => ?_, fun h => absurd hp h⟩
    have hdir := h.1
    cases hdir

end Updater

open Updater in
/-- In every run of updates and rollbacks, with failures and kills anywhere, whose steps do not take
the live directory away, it is there and holds the complete old or the complete new generation. -/
theorem sigDir_complete {ε : Type} {entries : List ε} {previous staging : Option (Node ε)}
    {as : List (UpdateAction ε)} {s : Updater ε}
    (hrun : Run Step LeavesLive (start entries previous staging) as s) : s.Live := by
  induction hrun with
  | nil => exact ⟨rfl, .inl rfl⟩
  | snoc hrun hleaves hst ih => exact (ih.step_iff (consistent_of_run hrun) hst).mpr hleaves

open Updater in
/-- An update whose first rename fails. -/
theorem sigDir_complete_fail : ∃ s : Updater Nat,
    s.phase = .applied (.error (.io "moving current signatures to .previous".toList [])) ∧
      s.Live := by
  have hcall : Step (start [1] none (some (.dir [2]))) (.apply []) _ := .apply rfl
  have hmoving : Run Step LeavesLive (start [1] none (some (.dir [2]))) _ _ :=
    (((Run.nil.snoc (by trivial) hcall).snoc (by trivial) (.staging_present rfl rfl)).snoc
      (by trivial) (.stale_missing rfl rfl)).snoc (by trivial) (.sigDir_present rfl rfl)
  have hfails {s : Updater Nat} (h : s.phase = .moveOld) : Step s (.fail []) _ := .moveOld_fail h
  exact ⟨_, rfl, sigDir_complete (hmoving.snoc (by trivial) (hfails rfl))⟩

open Updater in
/-- An update that is killed between its two renames leaves no live directory. -/
theorem not_sigDir_complete :
    ¬ ∀ (entries : List Nat) (previous staging : Option (Node Nat))
      (as : List (UpdateAction Nat)) (s : Updater Nat),
      Run Step (fun _ _ => True) (start entries previous staging) as s → s.Live := by
  intro h
  have hcall : Step (start [1] none (some (.dir [2]))) (.apply []) _ := .apply rfl
  have hrun : Run Step (fun _ _ => True) (start [1] none (some (.dir [2]))) _ _ :=
    (((((Run.nil.snoc trivial hcall).snoc trivial (.staging_present rfl rfl)).snoc trivial
      (.stale_missing rfl rfl)).snoc trivial (.sigDir_present rfl rfl)).snoc trivial
      (.moveOld rfl)).snoc trivial .kill
  have hdir := (h _ _ _ _ _ hrun).1
  cases hdir

end ActiveDefense.Clam
