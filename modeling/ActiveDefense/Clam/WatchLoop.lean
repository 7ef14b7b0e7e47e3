import ActiveDefense.Clam.QuarantineFile
import ActiveDefense.Lib.Debounce
import ActiveDefense.Rust.Tree
import ActiveDefense.Rust.Time
import ActiveDefense.Rust.Words

/-!
# The loop of the on-access monitor

The monitor reacts to the files that are created or written to, apart from those it is told to
leave, and to each of them at most once in the debounce time. Over a whole run no such file goes by:
there is a reaction to it, or there was one less than the debounce time before
(`watch_reactions`). The quarantine's own files are left where its directory is excluded
(`watch_spares_quarantine`).
-/

namespace ActiveDefense.Clam

/-- `notify::EventKind`. -/
inductive EventKind where
  | any
  | access
  | create
  | modify
  | remove
  | other
deriving DecidableEq, Repr

/-- A path of an event, and what the system tells when the loop comes to it. -/
structure Sighting where
  path : PathBuf
  isFile : Bool
  now : Instant
deriving DecidableEq, Repr

/-- `notify::Event`. -/
structure FsEvent where
  kind : EventKind
  paths : List Sighting
deriving DecidableEq, Repr

/-- What `recv_timeout` gives. -/
inductive Received where
  | event (event : FsEvent)
  | watchError
  | timeout
  | disconnected
deriving DecidableEq, Repr

/-- One turn of the loop: what it reads of the flag, and what it receives. -/
structure Turn where
  running : Bool
  received : Received
deriving DecidableEq, Repr

/-- `last_seen`. -/
abbrev LastSeen := Table (List PathComponent) Instant

/-- `WatchConfig`, as far as the loop needs it. -/
structure WatchConfig where
  excludedPaths : List PathBuf := []
  excludedExtensions : List Str := []
  debounce : Duration := 500 * 10 ^ 6

/-- `is_excluded`. -/
def WatchConfig.isExcluded (c : WatchConfig) (path : PathBuf) : Bool :=
  c.excludedPaths.any path.startsWith ||
    match (path.fileName.bind PathBuf.extension).bind fromUtf8 with
    | some ext => c.excludedExtensions.any fun e => eqIgnoreAsciiCase e ext
    | none => false

/-- The events that the loops react to. -/
def EventKind.interesting (kind : EventKind) : Bool := kind = .create || kind = .modify

/-- The loop over the paths of an event: those that are reacted to, and the table after them. -/
def handlePaths (skip : PathBuf → Bool) (debounce : Duration) (lastSeen : LastSeen) :
    List Sighting → List Sighting × LastSeen
  | [] => ([], lastSeen)
  | s :: paths =>
    if !s.isFile || skip s.path then handlePaths skip debounce lastSeen paths
    else if (lastSeen.lookup s.path.components).any fun prev =>
        s.now.durationSince prev < debounce then
      handlePaths skip debounce lastSeen paths
    else
      let (reactions, last) :=
        handlePaths skip debounce (lastSeen.insert s.path.components s.now) paths
      (s :: reactions, last)

/-- `handle_event`. -/
def WatchConfig.handleEvent (c : WatchConfig) (event : FsEvent) (lastSeen : LastSeen) :
    List Sighting × LastSeen :=
  if !event.kind.interesting then ([], lastSeen)
  else handlePaths c.isExcluded c.debounce lastSeen event.paths

/-- The loop over what is received, until the flag is cleared or the watcher is gone. -/
def watchLoop {ρ : Type} (handleEvent : FsEvent → LastSeen → List ρ × LastSeen) :
    LastSeen → List Turn → List ρ × LastSeen
  | lastSeen, [] => ([], lastSeen)
  | lastSeen, turn :: turns =>
    if !turn.running then ([], lastSeen)
    else
      match turn.received with
      | .event event =>
        let (reactions, next) := handleEvent event lastSeen
        let (later, last) := watchLoop handleEvent next turns
        (reactions ++ later, last)
      | .watchError | .timeout => watchLoop handleEvent lastSeen turns
      | .disconnected => ([], lastSeen)

/-- `watch`, once the directories are watched. -/
def WatchConfig.watch (c : WatchConfig) (turns : List Turn) : List Sighting :=
  (watchLoop c.handleEvent ∅ turns).1

/-! ## What a loop has to react to -/

/-- The events that are received before the loop ends. -/
def handled : List Turn → List FsEvent
  | [] => []
  | turn :: turns =>
    if !turn.running then []
    else
      match turn.received with
      | .event event => event :: handled turns
      | .watchError | .timeout => handled turns
      | .disconnected => []

/-- A file that is not skipped. -/
def Sighting.wanted (skip : PathBuf → Bool) (s : Sighting) : Bool := s.isFile && !skip s.path

/-- The files that a loop has to react to: those created or written to that are not skipped. -/
def writtenFiles (skip : PathBuf → Bool) (turns : List Turn) : List Sighting :=
  (((handled turns).filter fun event => event.kind.interesting).flatMap FsEvent.paths).filter
    (Sighting.wanted skip)

/-- The key of a sighting in the table. -/
def Sighting.key (s : Sighting) : List PathComponent := s.path.components

variable {skip : PathBuf → Bool} {gap : Duration}

/-- Of the paths of an event, those that are not skipped are debounced. -/
theorem handlePaths_eq (lastSeen : LastSeen) (paths : List Sighting) :
    handlePaths skip gap lastSeen paths = debounce Sighting.key Sighting.now gap lastSeen
      (paths.filter (Sighting.wanted skip)) := by
  induction paths generalizing lastSeen with
  | nil => rfl
  | cons s paths ih =>
    rw [handlePaths]
    split
    · next hskip =>
      have hnot : ¬s.wanted skip = true := by
        intro hwanted
        rw [Sighting.wanted, Bool.and_eq_true, Bool.not_eq_true'] at hwanted
        simp [hwanted.1, hwanted.2] at hskip
      rw [List.filter_cons_of_neg hnot]
      exact ih lastSeen
    · next hkeep =>
      have hwanted : s.wanted skip = true := by simpa [Sighting.wanted] using hkeep
      have hpasses : passes Sighting.key Sighting.now gap lastSeen s =
          !(lastSeen.lookup s.path.components).any fun prev =>
            decide (s.now.durationSince prev < gap) := by
        rw [passes, Sighting.key]
        cases lastSeen.lookup s.path.components <;> rfl
      rw [List.filter_cons_of_pos hwanted, debounce, hpasses]
      split
      · next hrecent =>
        rw [if_neg (by simp [hrecent])]
        exact ih lastSeen
      · next hold =>
        rw [if_pos (by simpa using hold), ih]
        rfl

/-- The reactions of a loop that reacts to the paths of every event of interest. -/
theorem watchLoop_eq {handleEvent : FsEvent → LastSeen → List Sighting × LastSeen}
    (hevent : ∀ event lastSeen, handleEvent event lastSeen =
      if !event.kind.interesting then ([], lastSeen)
      else handlePaths skip gap lastSeen event.paths)
    (lastSeen : LastSeen) (turns : List Turn) : watchLoop handleEvent lastSeen turns =
      debounce Sighting.key Sighting.now gap lastSeen (writtenFiles skip turns) := by
  induction turns generalizing lastSeen with
  | nil => rfl
  | cons turn turns ih =>
    unfold watchLoop writtenFiles handled
    split
    · rfl
    · cases turn.received with
      | event event =>
        dsimp only
        rw [hevent]
        split
        · next hkind =>
          rw [List.filter_cons_of_neg (by simpa using hkind), ih, List.nil_append]
          rfl
        · next hkind =>
          rw [List.filter_cons_of_pos (by simpa using hkind), List.flatMap_cons,
            List.filter_append, debounce_append, ← handlePaths_eq, ih]
          rfl
      | watchError => exact ih lastSeen
      | timeout => exact ih lastSeen
      | disconnected => rfl

/-- A loop that passes on some of the reactions of another one. -/
theorem watchLoop_filterMap {ρ σ : Type} {handleEvent : FsEvent → LastSeen → List ρ × LastSeen}
    {handleEvent' : FsEvent → LastSeen → List σ × LastSeen} {f : ρ → Option σ}
    (hevent : ∀ event lastSeen, handleEvent' event lastSeen =
      ((handleEvent event lastSeen).1.filterMap f, (handleEvent event lastSeen).2))
    (lastSeen : LastSeen) (turns : List Turn) : watchLoop handleEvent' lastSeen turns =
      ((watchLoop handleEvent lastSeen turns).1.filterMap f,
        (watchLoop handleEvent lastSeen turns).2) := by
  induction turns generalizing lastSeen with
  | nil => rfl
  | cons turn turns ih =>
    unfold watchLoop
    split
    · rfl
    · cases turn.received with
      | event event =>
        dsimp only
        rw [hevent, ih, List.filterMap_append]
      | watchError => exact ih lastSeen
      | timeout => exact ih lastSeen
      | disconnected => rfl

/-! ## The monitor -/

theorem watch_eq (c : WatchConfig) (turns : List Turn) : c.watch turns =
    (debounce Sighting.key Sighting.now c.debounce ∅ (writtenFiles c.isExcluded turns)).1 :=
  congrArg Prod.fst (watchLoop_eq (fun _ _ => rfl) ∅ turns)

theorem mem_watch {c : WatchConfig} {turns : List Turn} {s : Sighting} (hs : s ∈ c.watch turns) :
    s.isFile = true ∧ c.isExcluded s.path = false := by
  rw [watch_eq] at hs
  obtain ⟨-, hkeep⟩ := List.mem_filter.mp (debounce_sublist.subset hs)
  simpa [Sighting.wanted] using hkeep

/-- The reactions of a whole run, where the clock does not go back: only to files that the monitor
is not told to leave, at least the debounce time apart for one path, and every time such a file is
created or written to there is one, or was one less than that time before. -/
theorem watch_reactions (c : WatchConfig) (turns : List Turn)
    (hclock : (writtenFiles c.isExcluded turns).Pairwise fun s s' => s.now ≤ s'.now) :
    (∀ s ∈ c.watch turns, s.isFile = true ∧ c.isExcluded s.path = false) ∧
    (c.watch turns).Pairwise (fun s s' => s.path.components = s'.path.components →
      s.now + c.debounce ≤ s'.now) ∧
    ∀ s ∈ writtenFiles c.isExcluded turns, ∃ s' ∈ c.watch turns,
      s'.path.components = s.path.components ∧ s'.now ≤ s.now ∧
        (s' = s ∨ s.now < s'.now + c.debounce) := by
  have hdebounced : Debounced Sighting.key Sighting.now c.debounce
      (writtenFiles c.isExcluded turns) _ := debounced_debounce hclock
  rw [← watch_eq] at hdebounced
  exact ⟨fun s hs => mem_watch hs, hdebounced.apart, hdebounced.covered⟩

/-- A monitor that leaves `/q`. -/
def sampleWatch : WatchConfig where
  excludedPaths := [utf8 "/q".toList]

/-- A file of another directory is written to three times, one of `/q` once. -/
def sampleTurns : List Turn :=
  [⟨true, .event ⟨.create, [⟨utf8 "/d/f".toList, true, 0⟩, ⟨utf8 "/q//f".toList, true, 1⟩]⟩⟩,
    ⟨true, .timeout⟩, ⟨true, .event ⟨.modify, [⟨utf8 "/d/./f".toList, true, 10⟩]⟩⟩,
    ⟨true, .event ⟨.modify, [⟨utf8 "/d/f".toList, true, 500000000⟩]⟩⟩, ⟨false, .timeout⟩]

theorem watch_reactions_sample :
    (sampleWatch.watch sampleTurns).map Sighting.now = [0, 500000000] ∧
    (sampleWatch.watch sampleTurns).Pairwise (fun s s' => s.path.components = s'.path.components →
      s.now + sampleWatch.debounce ≤ s'.now) :=
  ⟨by decide +kernel, (watch_reactions sampleWatch sampleTurns (by decide +kernel)).2.1⟩

/-! ## The quarantine's own files -/

/-- A path under an excluded directory is excluded, however it is spelt. -/
theorem WatchConfig.isExcluded_of_startsWith {c : WatchConfig} {dir path path' : PathBuf}
    (hdir : dir ∈ c.excludedPaths) (h : path.startsWith dir = true)
    (hpath : path'.components = path.components) : c.isExcluded path' = true := by
  have hany : c.excludedPaths.any path'.startsWith = true := by
    refine List.any_eq_true.mpr ⟨dir, hdir, ?_⟩
    rw [PathBuf.startsWith, hpath]
    exact h
  rw [isExcluded, hany, Bool.true_or]

theorem isName_storedFilename {id : Str} (h : '/' ∉ id) :
    PathBuf.IsName (utf8 (storedFilename id)) := by
  have hslash : '/' ∉ storedFilename id := by
    rw [storedFilename, List.mem_append, not_or]
    exact ⟨h, by decide⟩
  have hlen : 5 ≤ (utf8 (storedFilename id)).length := by
    rw [storedFilename, utf8_append, List.length_append]
    exact Nat.le_add_left 5 _
  exact {
    slash := not_mem_utf8 (by decide) rfl hslash
    ne_nil := fun heq => by simp [heq] at hlen
    ne_dot := fun heq => by simp [heq] at hlen
    ne_dots := fun heq => by simp [heq] at hlen }

/-- Where the directory of the quarantine is excluded, or one that it is in, the monitor never
reacts to what is stored there. -/
theorem watch_spares_quarantine {c : WatchConfig} {m : QuarantineManager} {dir : PathBuf}
    (hdir : dir ∈ c.excludedPaths) (hm : m.dir.startsWith dir = true) {turns : List Turn}
    {s : Sighting} (hs : s ∈ c.watch turns) {id : Str} (hid : '/' ∉ id) :
    s.path.components ≠ (m.storedPath id).components := by
  intro hpath
  have hstored := PathBuf.startsWith_join hm (isName_storedFilename hid)
  have hexcluded := WatchConfig.isExcluded_of_startsWith hdir hstored hpath
  have hkept := (mem_watch hs).2
  rw [hexcluded] at hkept
  cases hkept

end ActiveDefense.Clam
