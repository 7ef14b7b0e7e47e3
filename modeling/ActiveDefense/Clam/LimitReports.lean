import ActiveDefense.Clam.EntryCount
import ActiveDefense.Clam.ScanCompletes

/-!
# What a scan reports of limits and failures

A scan comes to a buffer and, where it is an archive that is extracted, to each entry that comes
out. Every such place has a report of its own, and every archive at which a limit was hit or the
extraction failed has one more, which says so (`Logged`). An extraction does not keep a limit to
itself (`NothingHit`). So a scan that reports no limit came to none (`limits_reported`).
-/

namespace ActiveDefense.Clam

/-! ## Limits that are hit -/

/-- Neither the entries nor the bytes are beyond their limits. -/
structure GuardBudget.Within (b : GuardBudget) : Prop where
  entries : b.entriesSeen ≤ b.limits.maxEntries
  bytes : b.totalUncompressed ≤ b.limits.maxTotalUncompressed

/-- A charge that is let through leaves the budget within its limits. -/
theorem within_of_chargeEntry {n : UInt64} {b b' : GuardBudget}
    (h : chargeEntry n b = .ok (.ok ()) b') : b'.Within := by
  simp only [chargeEntry_run] at h
  split at h
  · split at h
    · cases h
    · next hentries =>
      split at h
      · split at h
        · cases h
        · next hbytes =>
          cases h
          exact ⟨UInt64.not_lt.mp hentries, UInt64.not_lt.mp hbytes⟩
      · cases h
  · cases h

/-- No limit was hit between two budgets: nothing was charged, or the last charge was let
through. -/
def Unhit (b b' : GuardBudget) : Prop := b' = b ∨ b'.Within

theorem Unhit.trans {b b₁ b₂ : GuardBudget} (h : Unhit b b₁) (h' : Unhit b₁ b₂) : Unhit b b₂ := by
  rcases h' with rfl | hwithin
  · exact h
  · exact .inr hwithin

/-- The read loop returns the limit that it hits. -/
theorem unhit_of_readLoop {reader : Reader} {i : Nat} {data data' : List UInt8}
    {b b' : GuardBudget} (h : readLoop reader i data b = .ok (data', none) b') : Unhit b b' := by
  generalize hn : b.chunksLeft = n
  induction n using Nat.strongRecOn generalizing i data b with
  | ind n ih =>
    obtain ⟨-, -, hsame⟩ | ⟨c, cs, -, ⟨e, -, he⟩ | ⟨b₁, hcharge, hrest⟩⟩ := readLoop_cases h
    · exact .inl hsame
    · cases he
    · have hless : b₁.chunksLeft < n := by
        rw [← hn, chunksLeft_of_chargeEntry hcharge]
        exact Nat.lt_succ_self _
      have hfirst : Unhit b b₁ := .inr (within_of_chargeEntry hcharge)
      exact hfirst.trans (ih _ hless hrest rfl)

/-- So does the loop over the entries, and it refuses none without returning why. -/
theorem unhit_of_extractItems {items : List Item} {entries : List ExtractedEntry}
    {b b' : GuardBudget} (h : extractItems items b = .ok (entries, none) b') :
    Unhit b b' ∧ ∀ e, .refuse e ∉ items := by
  induction items generalizing b entries with
  | nil =>
    cases h
    exact ⟨.inl rfl, nofun⟩
  | cons item items ih =>
    cases item with
    | skip =>
      obtain ⟨hunhit, hnone⟩ := ih h
      refine ⟨hunhit, fun e he => ?_⟩
      rcases List.mem_cons.mp he with heq | he
      · cases heq
      · exact hnone e he
    | refuse e => cases h
    | extract name reader =>
      obtain ⟨⟨data, hitFirst⟩, b₁, hread, h⟩ := exists_of_bind_ok h
      cases hitFirst with
      | some e => cases h
      | none =>
        obtain ⟨⟨out, hitRest⟩, b₂, hrest, h⟩ := exists_of_bind_ok h
        cases h
        obtain ⟨hunhit, hnone⟩ := ih hrest
        refine ⟨(unhit_of_readLoop hread).trans hunhit, fun e he => ?_⟩
        rcases List.mem_cons.mp he with heq | he
        · cases heq
        · exact hnone e he

/-- An extraction hit no limit: it charged nothing that was refused, and no entry that it came to
has a declared ratio beyond the limit. -/
structure NothingHit (d : Decoders) (f : Format) (buf : List UInt8) (b b' : GuardBudget) :
    Prop where
  unhit : Unhit b b'
  ratio : ∀ e, .refuse e ∉ d.items b.limits f buf

/-- An extraction returns the limit that it hits. -/
theorem nothingHit_of_extract {d : Decoders} {f : Format} {buf : List UInt8} {b b' : GuardBudget}
    {entries : List ExtractedEntry} (h : d.extract f buf b = .ok (.ok (entries, none)) b') :
    NothingHit d f buf b b' := by
  by_cases hf : f = .gzip
  · subst hf
    obtain ⟨⟨data, hit⟩, b₁, hread, h⟩ := exists_of_bind_ok h
    cases h
    exact ⟨unhit_of_readLoop hread, nofun⟩
  · obtain ⟨hunhit, hnone⟩ := unhit_of_extractItems (Decoders.extractItems_of_extract hf h)
    exact ⟨hunhit, hnone⟩

/-! ## Visits -/

/-- What becomes of an archive: it is refused for its depth, or extracted. -/
inductive ArchiveOutcome where
  | refused (e : GuardError)
  | extracted (result : Extracted)

/-- A buffer with its logical path, and the number of archives around it. -/
structure ScanPlace where
  data : List UInt8
  path : Str
  level : Nat

/-- A place that a scan comes to, and what becomes of it if it is an archive. -/
structure Visit extends ScanPlace where
  outcome : Option ArchiveOutcome

namespace Visit

/-- The limit that was hit at an archive, or the failure of its extraction. -/
def limit (v : Visit) : Option GuardError :=
  match v.outcome with
  | none => none
  | some (.refused e) | some (.extracted (.error e)) => some e
  | some (.extracted (.ok (_, limitHit))) => limitHit

/-- The places of the entries that the extraction of an archive returned. -/
def inside (v : Visit) : List ScanPlace :=
  match v.outcome with
  | some (.extracted (.ok (entries, _))) => entries.map fun entry =>
      { data := entry.data, path := v.path ++ " -> ".toList ++ entry.name, level := v.level + 1 }
  | _ => []

/-- What became of the place is what `enter_archive` and the extraction of its format make of it,
with a budget of the same limits, and where no limit is given none was hit. -/
def Genuine (d : Decoders) (limits : GuardLimits) (v : Visit) : Prop :=
  match v.outcome with
  | none => format v.data = none
  | some (.refused e) => (format v.data).isSome = true ∧
      ∃ b b', b.limits = limits ∧ enterArchive b = .ok (.error e) b'
  | some (.extracted result) => ∃ f b b', format v.data = some f ∧ b.limits = limits ∧
      d.extract f v.data b = .ok result b' ∧ (v.limit = none → NothingHit d f v.data b b')

end Visit

section
variable {δ η : Type} {s : Scanner δ η} {limits : GuardLimits} {realPath logicalPath : Str}
  {deepest : Nat}

/-- The reports on a place: its own, and that on the limit. -/
def Scanner.reportsOn (s : Scanner δ η) (realPath : Str) (v : Visit) : List (FileReport δ η) :=
  s.ownReport v.data realPath v.path :: v.limit.toList.map (limitReport realPath v.path)

/-- The visits of a scan that starts at some places, and its reports: the places are those and the
entries that were returned at one of them, each once, and the reports are those on the places. -/
structure Logged (s : Scanner δ η) (limits : GuardLimits) (realPath : Str) (deepest : Nat)
    (starts : List ScanPlace) (log : List Visit) (reports : List (FileReport δ η)) : Prop where
  places : (log.map Visit.toScanPlace).Perm (starts ++ log.flatMap Visit.inside)
  reports : reports.Perm (log.flatMap (s.reportsOn realPath))
  genuine : ∀ v ∈ log, v.Genuine s.decoders limits
  level_le : ∀ v ∈ log, v.level ≤ deepest

theorem Logged.nil : Logged s limits realPath deepest [] [] [] :=
  ⟨.nil, .nil, nofun, nofun⟩

theorem Logged.append {starts starts' : List ScanPlace} {log log' : List Visit}
    {reports reports' : List (FileReport δ η)}
    (h : Logged s limits realPath deepest starts log reports)
    (h' : Logged s limits realPath deepest starts' log' reports') :
    Logged s limits realPath deepest (starts ++ starts') (log ++ log') (reports ++ reports') where
  places := by
    rw [List.map_append, List.flatMap_append]
    refine (h.places.append h'.places).trans ?_
    rw [List.append_assoc, List.append_assoc]
    refine .append_left starts ?_
    rw [← List.append_assoc, ← List.append_assoc]
    exact .append_right _ List.perm_append_comm
  reports := by
    rw [List.flatMap_append]
    exact h.reports.append h'.reports
  genuine v hv := (List.mem_append.mp hv).elim (h.genuine v) (h'.genuine v)
  level_le v hv := (List.mem_append.mp hv).elim (h.level_le v) (h'.level_le v)

/-- A place, with the scan of what came out of it. -/
theorem Logged.visit {v : Visit} {log : List Visit} {reports : List (FileReport δ η)}
    (h : Logged s limits realPath deepest v.inside log reports)
    (hgenuine : v.Genuine s.decoders limits) (hlevel : v.level ≤ deepest) :
    Logged s limits realPath deepest [v.toScanPlace] (v :: log)
      (s.ownReport v.data realPath v.path ::
        (reports ++ v.limit.toList.map (limitReport realPath v.path))) where
  places := by
    rw [List.map_cons, List.flatMap_cons]
    exact h.places.cons _
  reports := by
    rw [List.flatMap_cons, Scanner.reportsOn, List.cons_append]
    exact (List.perm_append_comm.trans (h.reports.append_left _)).cons _
  genuine := by
    intro w hw
    rcases List.mem_cons.mp hw with rfl | hw
    · exact hgenuine
    · exact h.genuine w hw
  level_le := by
    intro w hw
    rcases List.mem_cons.mp hw with rfl | hw
    · exact hlevel
    · exact h.level_le w hw

/-! ## The scan -/

/-- A run adds the reports on the visits of a scan that starts at some places. -/
def Logs (s : Scanner δ η) (limits : GuardLimits) (realPath : Str) (deepest : Nat)
    (starts : List ScanPlace) (x : Exec (ScanState δ η) Unit) (st : ScanState δ η) : Prop :=
  ∀ st', x st = .ok () st' → ∃ log reports, st'.reports = st.reports ++ reports ∧
    Logged s limits realPath deepest starts log reports

theorem Deeper.levelsLeft_le {st st' : ScanState δ η} (h : Deeper st st') :
    st'.budget.levelsLeft ≤ st.budget.levelsLeft := by
  unfold GuardBudget.levelsLeft
  rw [h.1]
  exact Nat.sub_le_sub_left h.2 _

theorem Logs.handOn {starts : List ScanPlace} {data : List UInt8}
    {nested : Exec (ScanState δ η) Unit} {st : ScanState δ η}
    (h : Logs s limits realPath deepest starts nested (st.handOver data)) :
    Logs s limits realPath deepest starts (handOn data nested) st := by
  intro st' hrun
  change (nested >>= fun _ => modify fun st => { st with level := st.level - 1 })
    (st.handOver data) = .ok () st' at hrun
  obtain ⟨⟨⟩, st₁, hnested, hlevel⟩ := exists_of_bind_ok hrun
  cases hlevel
  exact h st₁ hnested

namespace Scanner

variable {nested : List UInt8 → Str → Exec (ScanState δ η) Unit} {n level : Nat}

/-- The loop over the entries of an archive. -/
theorem logs_forM {entries : List ExtractedEntry} {st : ScanState δ η}
    (hmoves : ∀ data path, Moves Deeper (nested data path))
    (hnested : ∀ data path st, st.budget.limits = limits → st.budget.levelsLeft < n →
      Logs s limits realPath deepest [{ data, path, level := level + 1 }] (nested data path) st)
    (hlimits : st.budget.limits = limits) (hleft : st.budget.levelsLeft < n) :
    Logs s limits realPath deepest
      (entries.map fun entry =>
        { data := entry.data, path := logicalPath ++ " -> ".toList ++ entry.name
          level := level + 1 })
      (entries.forM fun entry =>
        handOn entry.data (nested entry.data (logicalPath ++ " -> ".toList ++ entry.name))) st := by
  induction entries generalizing st with
  | nil =>
    intro st' hrun
    cases hrun
    exact ⟨[], [], (List.append_nil _).symm, .nil⟩
  | cons entry entries ih =>
    intro st' hrun
    obtain ⟨⟨⟩, st₁, hfirst, hrest⟩ := exists_of_bind_ok hrun
    have hdeeper := (handOn_moves (hmoves _ _)).of_ok hfirst
    obtain ⟨log, reports, hreports, hlogged⟩ :=
      Logs.handOn (hnested _ _ _ hlimits hleft) st₁ hfirst
    obtain ⟨log', reports', hreports', hlogged'⟩ :=
      ih (hdeeper.1.trans hlimits) (Nat.lt_of_le_of_lt hdeeper.levelsLeft_le hleft) st' hrest
    refine ⟨log ++ log', reports ++ reports', ?_, hlogged.append hlogged'⟩
    rw [hreports', hreports, List.append_assoc]

/-- The descent into an archive: what came out of it is scanned, and the limit is reported. -/
theorem logs_scanEntries {f : Format} {buf : List UInt8} {st st' : ScanState δ η}
    (h : s.scanEntries nested f buf realPath logicalPath st = .ok () st')
    (hmoves : ∀ data path, Moves Deeper (nested data path))
    (hnested : ∀ data path st, st.budget.limits = limits → st.budget.levelsLeft < n →
      Logs s limits realPath deepest [{ data, path, level := level + 1 }] (nested data path) st)
    (hlimits : st.budget.limits = limits) (hleft : st.budget.levelsLeft < n) :
    ∃ result b', s.decoders.extract f buf st.budget = .ok result b' ∧
      let v : Visit :=
        { data := buf, path := logicalPath, level, outcome := some (.extracted result) }
      ∃ log reports, Logged s limits realPath deepest v.inside log reports ∧
        st'.reports =
          st.reports ++ (reports ++ v.limit.toList.map (limitReport realPath logicalPath)) := by
  obtain ⟨result, st₁, hextract, h⟩ := exists_of_bind_ok h
  have hdeeper : Deeper st st₁ := onBudget_extract_moves.of_ok hextract
  obtain ⟨b', hrun, rfl⟩ := onBudget_ok hextract
  refine ⟨result, b', hrun, ?_⟩
  cases result with
  | error e =>
    cases h
    exact ⟨[], [], .nil, rfl⟩
  | ok r =>
    obtain ⟨entries, limitHit⟩ := r
    obtain ⟨⟨⟩, st₂, hloop, h⟩ := exists_of_bind_ok h
    obtain ⟨log, reports, hreports, hlogged⟩ := logs_forM hmoves hnested
      (hdeeper.1.trans hlimits) (Nat.lt_of_le_of_lt hdeeper.levelsLeft_le hleft) st₂ hloop
    refine ⟨log, reports, hlogged, ?_⟩
    cases limitHit with
    | none =>
      cases h
      rw [hreports]
      exact congrArg _ (List.append_nil reports).symm
    | some e =>
      cases h
      show st₂.reports ++ [limitReport realPath logicalPath e] = _
      rw [hreports]
      exact List.append_assoc ..

/-- The step lemma: a call reports on its buffer, and on what its calls of itself report on. -/
theorem logs_scanBytesWith {buf : List UInt8} {st : ScanState δ η}
    (hmoves : ∀ data path, Moves Deeper (nested data path))
    (hnested : ∀ data path st, st.budget.limits = limits → st.budget.levelsLeft < n →
      Logs s limits realPath deepest [{ data, path, level := level + 1 }] (nested data path) st)
    (hlimits : st.budget.limits = limits) (hleft : st.budget.levelsLeft ≤ n)
    (hlevel : level ≤ deepest) :
    Logs s limits realPath deepest [{ data := buf, path := logicalPath, level }]
      (s.scanBytesWith nested buf realPath logicalPath) st := by
  intro st' hrun
  obtain ⟨⟨⟩, st₁, hown, hrun⟩ := exists_of_bind_ok hrun
  cases hown
  cases hformat : format buf with
  | none =>
    rw [hformat] at hrun
    cases hrun
    have hnil : Logged s limits realPath deepest
        (Visit.inside { data := buf, path := logicalPath, level, outcome := none }) [] [] := .nil
    exact ⟨_, _, rfl, hnil.visit hformat hlevel⟩
  | some f =>
    rw [hformat] at hrun
    obtain ⟨res, st₂, henter, hrun⟩ := exists_of_bind_ok hrun
    obtain ⟨b, hb, rfl⟩ := onBudget_ok henter
    cases res with
    | error e =>
      cases hrun
      have hnil : Logged s limits realPath deepest (Visit.inside
          { data := buf, path := logicalPath, level, outcome := some (.refused e) }) [] [] := .nil
      have hsome : (format buf).isSome = true := by rw [hformat]; rfl
      refine ⟨_, _, ?_, hnil.visit ⟨hsome, _, _, hlimits, hb⟩ hlevel⟩
      exact List.append_assoc ..
    | ok u =>
      obtain ⟨hbelow, hsame, hdepth⟩ := enterArchive_ok hb
      have hpos : 0 < st.budget.levelsLeft := levelsLeft_pos hbelow
      have hroom : b.levelsLeft < n := by
        have hless : b.levelsLeft ≤ st.budget.levelsLeft - 1 := levelsLeft_le hsame hdepth.ge
        omega
      obtain ⟨⟨⟩, st₃, hentries, hrun⟩ := exists_of_bind_ok hrun
      cases hrun
      obtain ⟨result, b', hextract, log, reports, hlogged, hreports⟩ :=
        logs_scanEntries hentries hmoves hnested (hsame.trans hlimits) hroom
      refine ⟨_, _, ?_, hlogged.visit ?_ hlevel⟩
      · exact hreports.trans (List.append_assoc ..)
      · refine ⟨f, b, b', hformat, hsame.trans hlimits, hextract, fun hnone => ?_⟩
        match result with
        | .error e => cases hnone
        | .ok (entries, some e) => cases hnone
        | .ok (entries, none) => exact nothingHit_of_extract hextract

theorem logs_scanLevels {buf : List UInt8} {st : ScanState δ η}
    (hlimits : st.budget.limits = limits) (hleft : st.budget.levelsLeft ≤ n)
    (hdeepest : level + n ≤ deepest) :
    Logs s limits realPath deepest [{ data := buf, path := logicalPath, level }]
      (s.scanLevels n buf realPath logicalPath) st := by
  induction n generalizing buf logicalPath st level with
  | zero =>
    refine logs_scanBytesWith (n := 0) (fun _ _ => .pure) ?_ hlimits hleft hdeepest
    intro _ _ _ _ hnone
    exact absurd hnone (Nat.not_lt_zero _)
  | succ n ih =>
    refine logs_scanBytesWith (fun _ _ => scanLevels_moves) ?_ hlimits hleft (by omega)
    intro data path st hlimits hless
    exact ih hlimits (Nat.le_of_lt_succ hless) (by omega)

end Scanner

theorem Logged.limitReport_mem {starts : List ScanPlace} {log : List Visit}
    {reports : List (FileReport δ η)} (h : Logged s limits realPath deepest starts log reports)
    {v : Visit} (hv : v ∈ log) {e : GuardError} (hlimit : v.limit = some e) :
    limitReport realPath v.path e ∈ reports := by
  refine h.reports.mem_iff.mpr (List.mem_flatMap.mpr ⟨v, hv, ?_⟩)
  rw [Scanner.reportsOn, hlimit]
  exact .tail _ (.head _)

end

/-- A call of `scan_bytes` calls itself within the archives that the budget has left. Where it
returns, it has reported on the buffer and on every entry that any extraction returned, each on its
own, and of every archive at which a limit was hit, or whose extraction failed, it says so besides;
if it says so of none, no limit was hit anywhere. It does not return only where a counter overflows
its type, which does not happen with a new budget and roomy limits (`roomy_of_default`). -/
theorem limits_reported {δ η : Type} (s : Scanner δ η) (buf : List UInt8)
    (realPath logicalPath : Str) (b : GuardBudget) :
    s.scanBytes buf realPath logicalPath =
        s.scanBytesWith (fun data path => s.scanBytes data realPath path) buf realPath logicalPath ∧
      (∀ st, s.scanBytes buf realPath logicalPath (.start b) = .ok () st →
        ∃ log, Logged s b.limits realPath b.levelsLeft
            [{ data := buf, path := logicalPath, level := 0 }] log st.reports ∧
          (∀ v ∈ log, ∀ e, v.limit = some e → limitReport realPath v.path e ∈ st.reports) ∧
          ((∀ r ∈ st.reports, ∀ reason, r.verdict ≠ .limitExceeded [] reason) →
            ∀ v ∈ log, v.limit = none)) ∧
      (∀ e st, s.scanBytes buf realPath logicalPath (.start b) = .error e st →
        e = .overflow ∧ st.budget.Full) ∧
      (b = .new s.limits → s.limits.Roomy →
        ∃ st, s.scanBytes buf realPath logicalPath (.start b) = .ok () st) := by
  refine ⟨Scanner.scanBytes_eq, fun st hrun => ?_, fun e st hrun => ?_, fun hnew hroomy => ?_⟩
  · obtain ⟨log, reports, hreports, hlogged⟩ := Scanner.logs_scanLevels rfl
      (Nat.le_refl b.levelsLeft) (Nat.le_of_eq (Nat.zero_add _)) st hrun
    obtain rfl : st.reports = reports := hreports
    refine ⟨log, hlogged, fun v hv e => hlogged.limitReport_mem hv, fun hclean v hv => ?_⟩
    cases hlimit : v.limit with
    | none => rfl
    | some e => exact absurd rfl (hclean _ (hlogged.limitReport_mem hv hlimit) e.toStr)
  · exact Scanner.scanBytes_overflows _ _ _ hrun
  · rw [hnew]
    exact Scanner.scanBytes_completes hroomy s buf realPath logicalPath

end ActiveDefense.Clam
