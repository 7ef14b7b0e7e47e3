import ActiveDefense.Clam.WatchLoop
import ActiveDefense.Rust.Net

/-!
# The file scanning lane

The lane watches directories for hosts. Of every file that is created or written to in one of them
it makes the host of the directory answer for what is found, and no other host
(`run_submissions`).
-/

namespace ActiveDefense.Bridges

open Clam

/-- `HostWatchTarget`. -/
structure HostWatchTarget where
  path : PathBuf
  host : IpAddr

/-- `host_by_path`: of two targets for one directory, the later one counts. -/
def hostByPath (targets : List HostWatchTarget) : Table (List PathComponent) IpAddr :=
  targets.foldl (fun table target => table.insert target.path.components target.host) ∅

/-- The host of the directory that a path is in. -/
def hostOf (targets : List HostWatchTarget) (path : PathBuf) : Option IpAddr :=
  path.parentComponents.bind (hostByPath targets).lookup

/-- The debounce time of the lane. -/
def laneDebounce : Duration := 500 * 10 ^ 6

/-- The loop over the paths of an event: the calls of `scan_react_and_submit`, and the table after
them. -/
def lanePaths (targets : List HostWatchTarget) (lastSeen : LastSeen) :
    List Sighting → List (Sighting × IpAddr) × LastSeen
  | [] => ([], lastSeen)
  | s :: paths =>
    if !s.isFile then lanePaths targets lastSeen paths
    else if (lastSeen.lookup s.path.components).any fun prev =>
        s.now.durationSince prev < laneDebounce then
      lanePaths targets lastSeen paths
    else
      let (calls, last) := lanePaths targets (lastSeen.insert s.path.components s.now) paths
      match hostOf targets s.path with
      | none => (calls, last)
      | some host => ((s, host) :: calls, last)

/-- The lane's reaction to an event. -/
def laneEvent (targets : List HostWatchTarget) (event : FsEvent) (lastSeen : LastSeen) :
    List (Sighting × IpAddr) × LastSeen :=
  if !event.kind.interesting then ([], lastSeen) else lanePaths targets lastSeen event.paths

/-- `run`, once the directories are watched. -/
def runLane (targets : List HostWatchTarget) (turns : List Turn) : List (Sighting × IpAddr) :=
  (watchLoop (laneEvent targets) ∅ turns).1

/-- With its host, where it has one. -/
def attributed (targets : List HostWatchTarget) (s : Sighting) : Option (Sighting × IpAddr) :=
  (hostOf targets s.path).map (s, ·)

variable {targets : List HostWatchTarget}

/-- The lane debounces all files of an event, and drops those that have no host. -/
theorem lanePaths_eq (lastSeen : LastSeen) (paths : List Sighting) :
    lanePaths targets lastSeen paths =
      ((handlePaths (fun _ => false) laneDebounce lastSeen paths).1.filterMap (attributed targets),
        (handlePaths (fun _ => false) laneDebounce lastSeen paths).2) := by
  induction paths generalizing lastSeen with
  | nil => rfl
  | cons s paths ih =>
    rw [lanePaths, handlePaths, Bool.or_false]
    split
    · exact ih lastSeen
    · split
      · exact ih lastSeen
      · rw [ih]
        dsimp only
        rw [List.filterMap_cons, attributed]
        cases hostOf targets s.path <;> rfl

/-- The reaction to an event, before it is asked whose the files are. -/
def allFiles (event : FsEvent) (lastSeen : LastSeen) : List Sighting × LastSeen :=
  if !event.kind.interesting then ([], lastSeen)
  else handlePaths (fun _ => false) laneDebounce lastSeen event.paths

theorem laneEvent_eq (event : FsEvent) (lastSeen : LastSeen) :
    laneEvent targets event lastSeen =
      ((allFiles event lastSeen).1.filterMap (attributed targets), (allFiles event lastSeen).2) := by
  rw [laneEvent, allFiles]
  split
  · rfl
  · exact lanePaths_eq lastSeen event.paths

/-- The loop over whatever is created or written to, before it is told whose it is. -/
theorem runLane_eq (turns : List Turn) : runLane targets turns =
    (debounce Sighting.key Sighting.now laneDebounce ∅
      (writtenFiles (fun _ => false) turns)).1.filterMap (attributed targets) := by
  have hall : watchLoop allFiles ∅ turns = debounce Sighting.key Sighting.now laneDebounce ∅
      (writtenFiles (fun _ => false) turns) := watchLoop_eq (fun _ _ => rfl) ∅ turns
  rw [runLane, watchLoop_filterMap laneEvent_eq, hall]

/-! ## Whose a file is -/

/-- The last of the targets for the directory of a path has this host. -/
def Owns (targets : List HostWatchTarget) (path : PathBuf) (host : IpAddr) : Prop :=
  ∃ earlier target later, targets = earlier ++ target :: later ∧
    path.parentComponents = some target.path.components ∧ target.host = host ∧
    ∀ other ∈ later, path.parentComponents ≠ some other.path.components

theorem lookup_hostByPath (key : List PathComponent) : (hostByPath targets).lookup key =
    (targets.reverse.find? fun target => target.path.components = key).map (·.host) := by
  induction targets using List.reverseRecOn with
  | nil => rfl
  | append_singleton targets target ih =>
    have hinsert : hostByPath (targets ++ [target]) =
        (hostByPath targets).insert target.path.components target.host := List.foldl_concat ..
    rw [hinsert, List.reverse_concat]
    by_cases hkey : target.path.components = key
    · rw [List.find?_cons_of_pos (by simpa using hkey), ← hkey, AList.lookup_insert]
      rfl
    · rw [List.find?_cons_of_neg (by simpa using hkey), AList.lookup_insert_ne (Ne.symm hkey)]
      exact ih

theorem hostOf_iff {path : PathBuf} {host : IpAddr} :
    hostOf targets path = some host ↔ Owns targets path host := by
  rw [hostOf]
  cases hparent : path.parentComponents with
  | none => simp [Owns, hparent]
  | some key =>
    rw [Option.bind_some, lookup_hostByPath, Option.map_eq_some_iff]
    constructor
    · rintro ⟨target, hfind, hhost⟩
      obtain ⟨hkey, later, earlier, htargets, hlater⟩ := List.find?_eq_some_iff_append.mp hfind
      refine ⟨earlier.reverse, target, later.reverse, ?_, ?_, hhost, fun other hother => ?_⟩
      · rw [← List.reverse_reverse targets, htargets]
        simp
      · rw [hparent, of_decide_eq_true hkey]
      · have hne := hlater other (List.mem_reverse.mp hother)
        rw [hparent]
        intro heq
        simp [Option.some.inj heq] at hne
    · rintro ⟨earlier, target, later, rfl, hkey, hhost, hlater⟩
      refine ⟨target, List.find?_eq_some_iff_append.mpr ⟨?_, later.reverse, earlier.reverse, ?_,
        fun other hother => ?_⟩, hhost⟩
      · rw [hparent] at hkey
        simp [Option.some.inj hkey]
      · simp
      · have hne := hlater other (List.mem_reverse.mp hother)
        rw [hparent] at hne
        simp only [Bool.not_eq_true', decide_eq_false_iff_not]
        exact fun heq => hne (congrArg some heq.symm)

/-- A file in a directory of a target has a host. -/
theorem exists_hostOf {path : PathBuf}
    (h : ∃ target ∈ targets, path.parentComponents = some target.path.components) :
    ∃ host, hostOf targets path = some host := by
  obtain ⟨target, htarget, hparent⟩ := h
  rw [hostOf, hparent, Option.bind_some, lookup_hostByPath]
  have hsome : (targets.reverse.find? fun other =>
      other.path.components = target.path.components).isSome := by
    rw [List.find?_isSome]
    exact ⟨target, List.mem_reverse.mpr htarget, decide_eq_true rfl⟩
  obtain ⟨found, hfound⟩ := Option.isSome_iff_exists.mp hsome
  exact ⟨found.host, by rw [hfound]; rfl⟩

/-- It does not depend on the spelling of the path. -/
theorem hostOf_congr {path path' : PathBuf} (h : path.components = path'.components) :
    hostOf targets path = hostOf targets path' := by
  rw [hostOf, hostOf, PathBuf.parentComponents, PathBuf.parentComponents, h]

/-! ## A whole run -/

/-- In a run where the clock does not go back, a file is scanned for the host of its directory only,
one path at least half a second apart; and every time a file in a directory with a host is created
or written to, it is scanned for that host, or was less than half a second before. -/
theorem run_submissions (targets : List HostWatchTarget) (turns : List Turn)
    (hclock : (writtenFiles (fun _ => false) turns).Pairwise fun s s' => s.now ≤ s'.now) :
    (∀ s host, (s, host) ∈ runLane targets turns →
      s.isFile = true ∧ Owns targets s.path host) ∧
    (runLane targets turns).Pairwise (fun call call' =>
      call.1.path.components = call'.1.path.components →
        call.2 = call'.2 ∧ call.1.now + laneDebounce ≤ call'.1.now) ∧
    ∀ s ∈ writtenFiles (fun _ => false) turns,
      (∃ target ∈ targets, s.path.parentComponents = some target.path.components) →
      ∃ s' host, (s', host) ∈ runLane targets turns ∧ s'.path.components = s.path.components ∧
        s'.now ≤ s.now ∧ (s' = s ∨ s.now < s'.now + laneDebounce) := by
  have hdebounced : Debounced Sighting.key Sighting.now laneDebounce
      (writtenFiles (fun _ => false) turns) _ := debounced_debounce hclock
  rw [runLane_eq]
  generalize (debounce Sighting.key Sighting.now laneDebounce ∅
    (writtenFiles (fun _ => false) turns)).1 = reactions at hdebounced ⊢
  have hcall {s s' : Sighting} {host : IpAddr} (h : attributed targets s = some (s', host)) :
      s = s' ∧ hostOf targets s.path = some host := by
    obtain ⟨host', hhost, heq⟩ := Option.map_eq_some_iff.mp h
    obtain ⟨rfl, rfl⟩ := Prod.mk.inj heq
    exact ⟨rfl, hhost⟩
  refine ⟨fun s host hs => ?_, ?_, fun s hs htarget => ?_⟩
  · obtain ⟨s', hs', hattributed⟩ := List.mem_filterMap.mp hs
    obtain ⟨rfl, hhost⟩ := hcall hattributed
    obtain ⟨-, hwanted⟩ := List.mem_filter.mp (hdebounced.sublist.subset hs')
    rw [Sighting.wanted, Bool.not_false, Bool.and_true] at hwanted
    exact ⟨hwanted, hostOf_iff.mp hhost⟩
  · refine List.pairwise_filterMap.mpr (hdebounced.apart.imp ?_)
    intro _ _ happart call hs call' hs' hpath
    obtain ⟨rfl, hhost⟩ := hcall hs
    obtain ⟨rfl, hhost'⟩ := hcall hs'
    rw [hostOf_congr hpath, hhost'] at hhost
    exact ⟨(Option.some.inj hhost).symm, happart hpath⟩
  · obtain ⟨s', hs', hkey, hclose⟩ := hdebounced.covered s hs
    obtain ⟨host, hhost⟩ := exists_hostOf htarget
    rw [← hostOf_congr hkey] at hhost
    exact ⟨s', host, List.mem_filterMap.mpr ⟨s', hs', by rw [attributed, hhost]; rfl⟩, hkey, hclose⟩

/-- A directory for one host. -/
def sampleTargets : List HostWatchTarget := [⟨utf8 "/in/".toList, .v4 (.new 10 0 0 7)⟩]

/-- A file in it is created and written to, and one below it. -/
def laneTurns : List Turn :=
  [⟨true, .event ⟨.create, [⟨utf8 "/in/f".toList, true, 0⟩]⟩⟩,
    ⟨true, .event ⟨.modify, [⟨utf8 "/in//f".toList, true, 10⟩, ⟨utf8 "/in/a/f".toList, true, 20⟩]⟩⟩,
    ⟨true, .disconnected⟩]

theorem run_submissions_sample :
    (runLane sampleTargets laneTurns).map (fun call => call.1.now) = [0] ∧
    ∀ s host, (s, host) ∈ runLane sampleTargets laneTurns →
      s.isFile = true ∧ Owns sampleTargets s.path host :=
  ⟨by decide +kernel, (run_submissions sampleTargets laneTurns (by decide +kernel)).1⟩

end ActiveDefense.Bridges
