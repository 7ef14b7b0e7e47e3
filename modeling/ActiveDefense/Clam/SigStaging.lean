import ActiveDefense.Clam.SigFetch

/-!
# Where an update is staged

A name of the manifest is joined to the staging path as it is, so a file is made wherever the path
leads. Until every check has passed a run touches nothing outside the staging directory exactly
where the names of the files it gets to before the last one lead there (`staged_confined_iff`). Both
directions go through the files in their order: a file's own check comes before it is made, the
check of the next one after.
-/

namespace ActiveDefense.Clam

/-- While fewer checks have passed than there are, only the staging directory is touched. -/
def Confined (checks staging : Nat) (log : List UpdateEvent) : Prop :=
  ∀ before p after, log = before ++ .touched p :: after → before.count .passed < checks →
    p.1 = staging

namespace Confined

variable {checks staging : Nat} {log log' : List UpdateEvent} {e : UpdateEvent}

theorem nil : Confined checks staging [] := by
  intro before p after h
  cases (List.append_eq_nil_iff.mp h.symm).2

theorem of_prefix (h : Confined checks staging log') (hlog : log <+: log') :
    Confined checks staging log := by
  rintro before p after rfl hcount
  obtain ⟨more, rfl⟩ := hlog
  exact h before p (after ++ more) (by simp) hcount

/-- One more event. -/
theorem concat (h : Confined checks staging log)
    (he : ∀ p, e = .touched p → log.count .passed < checks → p.1 = staging) :
    Confined checks staging (log ++ [e]) := by
  intro before p after hlog hcount
  rcases List.eq_nil_or_concat after with rfl | ⟨after', last, rfl⟩
  · obtain ⟨rfl, hlast⟩ := List.append_inj' hlog rfl
    exact he p (List.singleton_inj.mp hlast) hcount
  · rw [List.concat_eq_append, ← List.cons_append, ← List.append_assoc] at hlog
    exact h before p after' (List.append_inj' hlog rfl).1 hcount

end Confined

/-- The file's download passes its check. -/
def Passes (ext : External) (request : Nat) (f : ManifestFile) : Prop :=
  ∃ data, fetch ext request f.url = .ok data ∧ verifySha256 ext data f.sha256 = .ok ()

/-- Each file but the last, as long as the downloads pass their checks and the files can be made,
has a name that leads into the staging directory `dir`, or to no place. -/
def NamesConfined (ext : External) (tree : Tree) (staging : PathBuf) (dir : Nat) :
    Nat → List ManifestFile → Prop
  | _, [] => True
  | request, f :: rest =>
    rest ≠ [] → Passes ext request f → ∀ p, tree.place (staging.join (utf8 f.name)) = .ok p →
      p.1 = dir ∧ NamesConfined ext tree staging dir (request + 1) rest

/-- How many checks there are. -/
def checks (ext : External) (args : UpdateArgs) : Nat :=
  match fetchManifest ext args with
  | .ok manifest => args.signatures + manifest.files.length
  | .error _ => 0

/-- The manifest's names are confined to the staging directory that is made at the place of its
path, if the run comes to make it. -/
def ManifestConfined (ext : External) (args : UpdateArgs) (stagingName : PathBuf) (t : Tree) :
    Prop :=
  ∀ manifest p, fetchManifest ext args = .ok manifest → args.dryRun = false →
    t.place (args.stagingParent.join stagingName) = .ok p → t.nodes p.1 p.2 = none →
    NamesConfined ext (t.mkdir p) (args.stagingParent.join stagingName) t.nextDir
      (1 + args.signatures) manifest.files

/-! ## Confined names keep a run confined -/

section
variable {ext : External} {base : Tree} {staging : PathBuf} {dir total : Nat}

/-- Where the loop is: files were made in the tree, so many checks have passed, and nothing outside
was touched. -/
structure Staged (base : Tree) (dir total n : Nat) (s : UpdateState) : Prop where
  fills : base.Fills s.tree
  count : s.log.count .passed = n
  confined : Confined total dir s.log

variable {n : Nat}

/-- A touch of a place in the staging directory, or after the last check. -/
theorem Staged.log_touched {s : UpdateState} {p : Place} (h : Staged base dir total n s)
    (hp : n < total → p.1 = dir) :
    (s.log ++ [UpdateEvent.touched p]).count .passed = n ∧
      Confined total dir (s.log ++ [UpdateEvent.touched p]) := by
  refine ⟨?_, h.confined.concat fun q hq hlt => ?_⟩
  · rw [List.count_append, h.count]
    rfl
  · cases hq
    exact hp (h.count ▸ hlt)

theorem checkPassed_survives :
    Survives (fun s => Confined total dir s.log) (Staged base dir total n) checkPassed
      fun _ s => Staged base dir total (n + 1) s := by
  refine .note fun s hs => ?_
  have hconfined : Confined total dir (s.log ++ [.passed]) := hs.confined.concat nofun
  refine ⟨hconfined, hs.fills, ?_, hconfined⟩
  change (s.log ++ [UpdateEvent.passed]).count .passed = n + 1
  rw [List.count_append, hs.count]
  rfl

theorem createFile_survives {path : PathBuf}
    (hpath : ∀ p, base.place path = .ok p → n < total → p.1 = dir) :
    Survives (fun s => Confined total dir s.log) (Staged base dir total n) (createFile path)
      fun p s => base.place path = .ok p ∧ Staged base dir total n s := by
  refine .call fun most s p t hs hact => ?_
  cases hplace : s.tree.place path with
  | error e =>
    rw [hplace] at hact
    cases hact
  | ok q =>
    rw [hplace] at hact
    cases hact
    have hbase := (hs.fills.place_iff path).mpr hplace
    obtain ⟨hcount, hconfined⟩ := hs.log_touched (hpath p hbase)
    exact ⟨hconfined, hbase, hs.fills.touch p, hcount, hconfined⟩

theorem writeFile_survives {p : Place} (hp : n < total → p.1 = dir) :
    Survives (fun s => Confined total dir s.log) (Staged base dir total n) (writeFile p)
      fun _ s => Staged base dir total n s := by
  refine .call fun most s _ t hs hact => ?_
  cases hact
  obtain ⟨hcount, hconfined⟩ := hs.log_touched hp
  exact ⟨hconfined, hs.fills, hcount, hconfined⟩

theorem ok_of_mapError {ε ε' α : Type} {f : ε → ε'} {r : Except ε α} {a : α}
    (h : r.mapError f = .ok a) : r = .ok a := by
  cases r with
  | ok b =>
    cases h
    rfl
  | error e => cases h

theorem stageFile_survives {request : Nat} {f : ManifestFile} {rest : List ManifestFile}
    (htotal : n + (f :: rest).length = total)
    (hnames : NamesConfined ext base staging dir request (f :: rest)) :
    Survives (fun s => Confined total dir s.log) (Staged base dir total n)
      (stageFile ext staging request f) fun _ s =>
        (rest ≠ [] → NamesConfined ext base staging dir (request + 1) rest) ∧
          Staged base dir total (n + 1) s := by
  refine .bind .ofExcept fun data => .of_fact fun hdata => .bind .ofExcept fun _ =>
    .of_fact fun hhash => .bind checkPassed_survives fun _ => ?_
  have hpasses : Passes ext request f := ⟨data, hdata, ok_of_mapError hhash⟩
  rw [List.length_cons] at htotal
  -- there is a check to come where there is another file
  have hinside {p : Place} (hp : base.place (staging.join (utf8 f.name)) = .ok p)
      (hlt : n + 1 < total) : p.1 = dir := by
    refine (hnames (fun hrest => ?_) hpasses p hp).1
    rw [hrest, List.length_nil] at htotal
    omega
  refine .bind (.mapErr (createFile_survives fun p => hinside)) fun p => .of_fact fun hp => ?_
  refine (Survives.mapErr (writeFile_survives (hinside hp))).mono (fun _ h => h) fun _ s hs => ?_
  exact ⟨fun hrest => (hnames hrest hpasses p hp).2, hs⟩

theorem stageFiles_survives {request : Nat} {files : List ManifestFile}
    (htotal : n + files.length = total)
    (hnames : NamesConfined ext base staging dir request files) :
    Survives (fun s => Confined total dir s.log) (Staged base dir total n)
      (stageFiles ext staging request files) fun _ s => Staged base dir total total s := by
  induction files generalizing n request with
  | nil =>
    subst htotal
    exact .pure fun s hs => hs
  | cons f rest ih =>
    refine .bind (stageFile_survives htotal hnames) fun _ => .of_fact fun hrest => ?_
    have hcount : n + 1 + rest.length = total := by
      rw [List.length_cons] at htotal
      omega
    cases rest with
    | nil => exact ih hcount trivial
    | cons g rest => exact ih hcount (hrest (List.cons_ne_nil g rest))

/-- After the last check nothing is asked of what is touched. -/
theorem writeVersion_survives {path : PathBuf} :
    Survives (fun s => Confined total dir s.log) (Staged base dir total total) (writeVersion path)
      fun _ s => Staged base dir total total s :=
  .bind (createFile_survives fun _ _ h => absurd h (Nat.lt_irrefl total)) fun _ =>
    .of_fact fun _ => writeFile_survives fun h => absurd h (Nat.lt_irrefl total)

theorem swapStaging_survives :
    Survives (fun s => Confined total dir s.log) (Staged base dir total total) swapStaging
      fun _ _ => True := by
  refine .call fun most s _ t hs hact => ?_
  cases hact
  exact ⟨hs.confined.concat nofun, trivial⟩

end

/-- The staging directory is made without an event. -/
theorem tempdirIn_survives {C : UpdateState → Prop} {dir name : PathBuf} {t : Tree}
    {log : List UpdateEvent} (hC : ∀ p, C ⟨t.mkdir p, log⟩) :
    Survives C (· = ⟨t, log⟩) (tempdirIn dir name) fun path s =>
      ∃ p, (path = dir.join name ∧ t.place (dir.join name) = .ok p ∧ t.nodes p.1 p.2 = none) ∧
        s = ⟨t.mkdir p, log⟩ := by
  refine .call fun most s path s' hs hact => ?_
  subst hs
  cases hplace : t.place (dir.join name) with
  | error e =>
    rw [hplace] at hact
    cases hact
  | ok p =>
    rw [hplace] at hact
    dsimp only at hact
    split at hact
    · cases hact
    · next hfree =>
      cases hact
      exact ⟨hC p, p, ⟨rfl, rfl, not_not.mp hfree⟩, rfl⟩

/-- The log once the signature is checked. -/
def signedLog (args : UpdateArgs) : List UpdateEvent :=
  if args.publicKey.isSome then [.passed] else []

theorem count_signedLog (args : UpdateArgs) : (signedLog args).count .passed = args.signatures := by
  unfold signedLog UpdateArgs.signatures
  split <;> rfl

theorem confined_signedLog {total dir : Nat} (args : UpdateArgs) :
    Confined total dir (signedLog args) := by
  unfold signedLog
  split
  · exact Confined.nil.concat nofun
  · exact .nil

theorem signaturePassed_survives {C : UpdateState → Prop} {args : UpdateArgs} {t : Tree}
    (hC : C ⟨t, signedLog args⟩) :
    Survives C (· = ⟨t, []⟩) (signaturePassed args) fun _ s => s = ⟨t, signedLog args⟩ := by
  unfold signaturePassed
  unfold signedLog at hC ⊢
  split
  · next hkey =>
    rw [if_pos hkey] at hC
    refine .note fun s hs => ?_
    subst hs
    exact ⟨hC, rfl⟩
  · exact .pure fun s hs => hs

/-- A run over names that are confined is confined, whatever the system refuses. -/
theorem run_survives {ext : External} {args : UpdateArgs} {stagingName : PathBuf} {t : Tree}
    (h : ManifestConfined ext args stagingName t) :
    Survives (fun s => Confined (checks ext args) t.nextDir s.log) (· = ⟨t, []⟩)
      (run ext args stagingName) fun _ _ => True := by
  refine .bind .ofExcept fun manifest => .of_fact fun hmanifest =>
    .bind (signaturePassed_survives (confined_signedLog args)) fun _ => ?_
  have hchecks : args.signatures + manifest.files.length = checks ext args := by
    rw [checks, hmanifest]
  split
  · exact .pure fun _ _ => trivial
  · next hwet =>
    refine .bind (.mapErr (tempdirIn_survives fun _ => confined_signedLog args)) fun path =>
      .of_exists fun p => .of_fact ?_
    rintro ⟨rfl, hplace, hfree⟩
    have hnames := h manifest p hmanifest (Bool.eq_false_of_not_eq_true hwet) hplace hfree
    refine .bind ((stageFiles_survives hchecks hnames).mono ?_ fun _ _ h => h) fun _ =>
      .bind (.mapErr writeVersion_survives) fun _ => .mapErr swapStaging_survives
    rintro s rfl
    exact ⟨.refl _, count_signedLog args, confined_signedLog args⟩

/-! ## A run that nothing is refused shows where the names lead -/

/-- The log only grows. -/
def LogGrows (s s' : UpdateState) : Prop := s.log <+: s'.log

instance : Std.Refl LogGrows := ⟨fun s => List.prefix_refl s.log⟩

instance : IsTrans UpdateState LogGrows := ⟨fun _ _ _ => List.IsPrefix.trans⟩

/-- Where the whole of a computation is confined, its first part is. -/
theorem Confined.of_bind {total dir : Nat} {α β : Type} {x : Update UpdateError α}
    {f : α → Update UpdateError β} {w : World UpdateState IoError}
    (h : Confined total dir (finalState ((x >>= f) w)).state.log)
    (hf : ∀ a, Advances LogGrows (f a)) : Confined total dir (finalState (x w)).state.log :=
  h.of_prefix (Advances.finalState_bind hf w)

theorem createFile_advances (path : PathBuf) : Advances LogGrows (createFile path) := by
  refine .call fun most s p t hact => ?_
  split at hact
  · cases hact
  · cases hact
    exact List.prefix_append _ _

theorem writeFile_advances (p : Place) : Advances LogGrows (writeFile p) := by
  refine .call fun most s _ t hact => ?_
  cases hact
  exact List.prefix_append _ _

theorem stageFile_advances (ext : External) (staging : PathBuf) (request : Nat) (f : ManifestFile) :
    Advances LogGrows (stageFile ext staging request f) :=
  .bind .ofExcept fun _ => .bind .ofExcept fun _ =>
    .bind (.note fun _ => List.prefix_append _ _) fun _ =>
      .bind (.mapErr (createFile_advances _)) fun p => .mapErr (writeFile_advances p)

theorem stageFiles_advances (ext : External) (staging : PathBuf) (request : Nat)
    (files : List ManifestFile) : Advances LogGrows (stageFiles ext staging request files) := by
  induction files generalizing request with
  | nil => exact .pure
  | cons f rest ih => exact .bind (stageFile_advances ext staging request f) fun _ => ih _

theorem writeVersion_advances (path : PathBuf) : Advances LogGrows (writeVersion path) :=
  .bind (createFile_advances path) fun p => writeFile_advances p

theorem swapStaging_advances : Advances LogGrows swapStaging := by
  refine .call fun most s _ t hact => ?_
  cases hact
  exact List.prefix_append _ _

section
variable {ext : External} {base : Tree} {staging : PathBuf} {dir total n request : Nat}
  {w : World UpdateState IoError}

/-- A file that passes its check, and that a place can be found for, is made there. -/
theorem exists_stageFile_run {f : ManifestFile} {p : Place} (hw : w.answers = [])
    (hfills : base.Fills w.state.tree) (hpasses : Passes ext request f)
    (hp : base.place (staging.join (utf8 f.name)) = .ok p) :
    ∃ w', stageFile ext staging request f w = .ok ⟨⟩ w' ∧ w'.answers = [] ∧
      base.Fills w'.state.tree ∧
      w'.state.log = w.state.log ++ [.passed] ++ [.touched p] ++ [.touched p] := by
  obtain ⟨data, hdata, hhash⟩ := hpasses
  have hplace := (hfills.place_iff _).mp hp
  let w₁ : World UpdateState IoError :=
    { w with state := w.state.push .passed, earlier := w.points }
  have hcreate : ∃ w₂, createFile (staging.join (utf8 f.name)) w₁ = .ok p w₂ ∧
      w₂.state = w₁.state.touch p ∧ w₂.answers = [] := by
    have hplace₁ : w₁.state.tree.place (staging.join (utf8 f.name)) = .ok p := hplace
    refine exists_call_run hw ?_
    rw [hplace₁]
  obtain ⟨w₂, hrun₂, hstate₂, hw₂⟩ := hcreate
  have hwrite : ∃ w₃, writeFile p w₂ = .ok ⟨⟩ w₃ ∧ w₃.state = w₂.state.push (.touched p) ∧
      w₃.answers = [] := exists_call_run hw₂ rfl
  obtain ⟨w₃, hrun₃, hstate₃, hw₃⟩ := hwrite
  refine ⟨w₃, ?_, hw₃, ?_, ?_⟩
  · have hchecked : (verifySha256 ext data f.sha256).mapError (UpdateError.integrity f.name) =
        .ok () := by
      rw [hhash]
      rfl
    have hnoted : checkPassed w = .ok ⟨⟩ w₁ := rfl
    rw [stageFile, bind_run_of_ok (ofExcept_run_of_ok hdata),
      bind_run_of_ok (ofExcept_run_of_ok hchecked), bind_run_of_ok hnoted,
      bind_run_of_ok (mapErr_run_of_ok hrun₂)]
    exact mapErr_run_of_ok hrun₃
  · rw [hstate₃, hstate₂]
    exact hfills.touch p
  · rw [hstate₃, hstate₂]
    rfl

/-- Where the log stays confined, the names are. -/
theorem namesConfined_of_confined {files : List ManifestFile} (hw : w.answers = [])
    (hfills : base.Fills w.state.tree) (hcount : w.state.log.count .passed = n)
    (htotal : n + files.length = total)
    (h : Confined total dir (finalState (stageFiles ext staging request files w)).state.log) :
    NamesConfined ext base staging dir request files := by
  induction files generalizing w n request with
  | nil => trivial
  | cons f rest ih =>
    intro hrest hpasses p hp
    obtain ⟨w', hrun, hw', hfills', hlog⟩ := exists_stageFile_run hw hfills hpasses hp
    rw [stageFiles, bind_run_of_ok hrun] at h
    rw [List.length_cons] at htotal
    have hlt := List.length_pos_iff.mpr hrest
    have hcount' : (w.state.log ++ [UpdateEvent.passed]).count .passed = n + 1 := by
      rw [List.count_append, hcount]
      rfl
    have hnow : Confined total dir w'.state.log :=
      h.of_prefix (stageFiles_advances ext staging (request + 1) rest w')
    refine ⟨hnow (w.state.log ++ [.passed]) p [.touched p] (by simp [hlog]) (by omega), ?_⟩
    refine ih (n := n + 1) hw' hfills' ?_ (by omega) h
    rw [hlog, List.count_append, List.count_append, hcount']
    rfl

end

theorem exists_signaturePassed_run (args : UpdateArgs) (t : Tree) :
    ∃ w, signaturePassed args (World.start ⟨t, []⟩ []) = .ok ⟨⟩ w ∧ w.state = ⟨t, signedLog args⟩ ∧
      w.answers = [] := by
  unfold signaturePassed signedLog
  split <;> exact ⟨_, rfl, rfl, rfl⟩

theorem exists_tempdirIn_run {w : World UpdateState IoError} {t : Tree} {log : List UpdateEvent}
    {dir name : PathBuf} {p : Place} (hw : w.answers = []) (hstate : w.state = ⟨t, log⟩)
    (hplace : t.place (dir.join name) = .ok p) (hfree : t.nodes p.1 p.2 = none) :
    ∃ w', tempdirIn dir name w = .ok (dir.join name) w' ∧ w'.state = ⟨t.mkdir p, log⟩ ∧
      w'.answers = [] := by
  refine exists_call_run hw ?_
  rw [hstate]
  dsimp only
  rw [hplace]
  exact if_neg (not_not.mpr hfree)

/-- Where a run that nothing is refused stays confined, the names of the manifest are. -/
theorem manifestConfined_of_confined {ext : External} {args : UpdateArgs} {stagingName : PathBuf}
    {t : Tree} (h : Confined (checks ext args) t.nextDir
      (finalState (run ext args stagingName (World.start ⟨t, []⟩ []))).state.log) :
    ManifestConfined ext args stagingName t := by
  intro manifest p hmanifest hwet hplace hfree
  obtain ⟨w₁, hsigned, hstate₁, hw₁⟩ := exists_signaturePassed_run args t
  obtain ⟨w₂, hstaging, hstate₂, hw₂⟩ := exists_tempdirIn_run hw₁ hstate₁ hplace hfree
  rw [run, bind_run_of_ok (ofExcept_run_of_ok hmanifest), bind_run_of_ok hsigned, hwet,
    if_neg Bool.false_ne_true, stageUpdate, bind_run_of_ok (mapErr_run_of_ok hstaging)] at h
  refine namesConfined_of_confined hw₂ ?_ ?_ (by rw [checks, hmanifest])
    (h.of_bind fun _ => .bind (.mapErr (writeVersion_advances _))
      fun _ => .mapErr swapStaging_advances)
  · rw [hstate₂]
    exact .refl _
  · rw [hstate₂]
    exact count_signedLog args

/-- For every manifest and everything that the system may refuse: before every check has passed
nothing is touched outside the staging directory, exactly where the names lead there. -/
theorem staged_confined_iff (ext : External) (args : UpdateArgs) (stagingName : PathBuf)
    (t : Tree) :
    (∀ answers, Confined (checks ext args) t.nextDir
        (finalState (run ext args stagingName (World.start ⟨t, []⟩ answers))).state.log) ↔
      ManifestConfined ext args stagingName t := by
  refine ⟨fun h => manifestConfined_of_confined (h []), fun h answers => ?_⟩
  have hstart : Throughout (fun s : UpdateState => Confined (checks ext args) t.nextDir s.log)
      (World.start ⟨t, []⟩ answers) := by
    intro s hs
    cases List.mem_singleton.mp hs
    exact .nil
  exact (run_survives h _ rfl hstart).1 _ (.head _)

/-! ## A name that leads into the live directory -/

/-- A file that is named after one of the live directory. -/
def climbingFile : ManifestFile where
  name := "../sigs/main.ndb".toList
  sha256 := "2d711642b726b04401627ca9fbac32f5c8530fb1903cc4db02258717921a4881".toList
  url := "https://localhost:8443/main.ndb".toList

/-- The second file has another hash. -/
def climbingManifest : Manifest where
  version := "2026.07.15-01".toList
  files := [
    climbingFile,
    ⟨"daily.hdb".toList,
      "0000000000000000000000000000000000000000000000000000000000000000".toList,
      "https://localhost:8443/daily.hdb".toList⟩]

def climbingText : Str :=
  ("\x7b\"version\":\"2026.07.15-01\",\"files\":[\x7b\"name\":\"../sigs/main.ndb\",\"sha256\":\"" ++
    "2d711642b726b04401627ca9fbac32f5c8530fb1903cc4db02258717921a4881\",\"url\":\"" ++
    "https://localhost:8443/main.ndb\"\x7d,\x7b\"name\":\"daily.hdb\",\"sha256\":\"" ++
    "0000000000000000000000000000000000000000000000000000000000000000\",\"url\":\"" ++
    "https://localhost:8443/daily.hdb\"\x7d]\x7d").toList

/-- A server of that manifest, whose files hold the byte `x`, and SHA-256 at that byte. -/
def climbingServer : External where
  agent request _ := .body (if request = 0 then utf8 climbingText else [120])
  fromJson _ := .ok climbingManifest
  sha256 _ := [45, 113, 22, 66, 183, 38, 176, 68, 1, 98, 124, 169, 251, 172, 50, 245, 200, 83, 15,
    177, 144, 60, 196, 219, 2, 37, 135, 23, 146, 26, 72, 129]
  isKey _ := false
  verify _ _ _ := false

def climbingArgs : UpdateArgs where
  manifestUrl := "https://localhost:8443/manifest.json".toList
  sigDir := utf8 "/sigs".toList
  publicKey := none
  dryRun := false

/-- `/sigs/main.ndb` is there. -/
def climbingTree : Tree where
  nodes d name :=
    if d = 0 ∧ name = utf8 "sigs".toList then some (.dir 1)
    else if d = 1 ∧ name = utf8 "main.ndb".toList then some .file
    else none
  parent _ := 0
  root := 0
  cwd := 0
  nextDir := 2

/-- The first file is written into the live directory before the second is checked. -/
theorem not_staged_confined :
    ¬ ∀ (ext : External) (args : UpdateArgs) (stagingName : PathBuf) (t : Tree)
      (answers : List (Answer IoError)), Confined (checks ext args) t.nextDir
        (finalState (run ext args stagingName (World.start ⟨t, []⟩ answers))).state.log := by
  intro h
  have hmanifest : fetchManifest climbingServer climbingArgs = .ok climbingManifest := by
    have hreply : climbingServer.agent 0 climbingArgs.manifestUrl = .body (utf8 climbingText) :=
      congrArg Reply.body (if_pos rfl)
    rw [fetchManifest_of_unsigned rfl hreply]
    decide +kernel
  have hpasses : Passes climbingServer 1 climbingFile :=
    ⟨[120], rfl, verifySha256_eq_ok_iff.mpr (by decide +kernel)⟩
  have hconfined := manifestConfined_of_confined (h climbingServer climbingArgs
    (utf8 ".rclam-sigupdate-staging-0a1b2c".toList) climbingTree [])
  have hnames := hconfined climbingManifest (0, utf8 ".rclam-sigupdate-staging-0a1b2c".toList)
    hmanifest rfl (by decide) rfl
  have hdir := (hnames (List.cons_ne_nil _ _) hpasses (1, utf8 "main.ndb".toList)
    (by decide)).1
  cases hdir

end ActiveDefense.Clam
