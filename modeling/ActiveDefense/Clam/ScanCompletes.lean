import ActiveDefense.Clam.Depth

/-!
# A scan does not overflow its counters

The budget goes on counting beyond its limits: `charge_entry` and `enter_archive` count before they
compare, and a refused archive stays counted (`ActiveDefense.Clam.Depth`). Only an archive can be
counted beyond a limit, and an archive that came out of another one has at least one chunk that was
paid for. So the counters stay within a multiple of `max_entries` (`GuardBudget.spent`), whatever the
decoders give and whatever the other limits are, and under roomy limits every scan completes
(`Scanner.scanBytes_completes`). Under others a scan may panic, but only once a counter has come to
the end of its type (`Scanner.scanBytes_overflows`).
-/

namespace ActiveDefense.Clam

/-- Limits under which no counter can overflow. -/
def GuardLimits.Roomy (limits : GuardLimits) : Prop :=
  3 * limits.maxEntries.toNat + 3 < 2 ^ 32 ∧
    (3 * limits.maxEntries.toNat + 3) * limits.readChunk.toNat < 2 ^ 64

/-- Roomy are all limits that differ from the defaults neither in the number of entries nor in the
chunk: those of every caller. -/
theorem roomy_of_default {limits : GuardLimits}
    (hentries : limits.maxEntries = (default : GuardLimits).maxEntries)
    (hchunk : limits.readChunk = (default : GuardLimits).readChunk) : limits.Roomy := by
  unfold GuardLimits.Roomy
  rw [hentries, hchunk]
  decide

/-! ## The budget -/

namespace GuardBudget

/-- Two for each chunk that may still be let through, and what was counted beyond it. -/
def spent (b : GuardBudget) : Nat :=
  2 * b.chunksLeft + (b.entriesSeen.toNat - b.limits.maxEntries.toNat) + b.depth.toNat

/-- The budget has these limits, and no more bytes than were read in its chunks. -/
def Metered (limits : GuardLimits) (b : GuardBudget) : Prop :=
  b.limits = limits ∧
    b.totalUncompressed.toNat ≤ b.entriesSeen.toNat * limits.readChunk.toNat

end GuardBudget

/-- What `GuardBudget.spent` may come to: two for each chunk, and for the buffer itself. -/
def GuardLimits.spendable (limits : GuardLimits) : Nat := 2 * limits.maxEntries.toNat + 2

/-- What a buffer is worth as an archive: one to enter it and one for the chunk that is refused. -/
def worth (data : List UInt8) : Nat := if data = [] then 0 else 2

theorem worth_le (data : List UInt8) : worth data ≤ 2 := by
  unfold worth
  split <;> omega

section
variable {limits : GuardLimits}

/-- What completes on a metered budget. -/
abbrev BudgetCompletes (limits : GuardLimits) {α : Type} (k : Nat) (gain : α → Nat)
    (x : Exec GuardBudget α) : Prop :=
  Completes (GuardBudget.Metered limits) GuardBudget.spent limits.spendable k gain x

/-- A chunk that is let through gives three, and one that is refused costs one. -/
theorem chargeEntry_completes (hroomy : limits.Roomy) {n : UInt64} (hn : n ≤ limits.readChunk) :
    BudgetCompletes limits 1 (fun res => if res.isOk then 3 else 0) (chargeEntry n) := by
  rintro b ⟨hlimits, hbytes⟩ hbound
  obtain ⟨hentries, hchunk⟩ := hroomy
  have hn : n.toNat ≤ limits.readChunk.toNat := UInt64.le_iff_toNat_le.mp hn
  simp only [GuardBudget.spent, GuardBudget.chunksLeft, GuardLimits.spendable, hlimits] at hbound
  have hseen : b.entriesSeen.toNat + 1 < 2 ^ 64 := by omega
  have hone : (1 : UInt64).toNat = 1 := rfl
  have hsucc : (b.entriesSeen + 1).toNat = b.entriesSeen.toNat + 1 := by
    rw [UInt64.toNat_add, hone, Nat.mod_eq_of_lt hseen]
  have hread : b.totalUncompressed.toNat + n.toNat ≤
      (b.entriesSeen.toNat + 1) * limits.readChunk.toNat := by
    rw [Nat.add_one_mul]
    omega
  have hfits : b.totalUncompressed.toNat + n.toNat < 2 ^ 64 := by
    have hle : (b.entriesSeen.toNat + 1) * limits.readChunk.toNat ≤
        (3 * limits.maxEntries.toNat + 3) * limits.readChunk.toNat :=
      Nat.mul_le_mul_right _ (by omega)
    omega
  have hsum : (b.totalUncompressed + n).toNat = b.totalUncompressed.toNat + n.toNat := by
    rw [UInt64.toNat_add, Nat.mod_eq_of_lt hfits]
  simp only [chargeEntry_run, if_pos hseen, if_pos hfits, hlimits]
  split
  · next hmax =>
    rw [UInt64.lt_iff_toNat_lt, hsucc] at hmax
    refine ⟨_, _, rfl, ⟨rfl, ?_⟩, ?_⟩
    · show b.totalUncompressed.toNat ≤ (b.entriesSeen + 1).toNat * limits.readChunk.toNat
      rw [hsucc]
      exact Nat.le_trans (Nat.le_add_right _ _) hread
    · simp only [GuardBudget.spent, GuardBudget.chunksLeft, hsucc, hlimits, Except.isOk,
        Except.toBool, Bool.false_eq_true, if_false]
      omega
  · next hmax =>
    rw [UInt64.lt_iff_toNat_lt, hsucc] at hmax
    have hmetered : (b.totalUncompressed + n).toNat ≤
        (b.entriesSeen + 1).toNat * limits.readChunk.toNat := by
      rw [hsum, hsucc]
      exact hread
    split
    · refine ⟨_, _, rfl, ⟨rfl, hmetered⟩, ?_⟩
      simp only [GuardBudget.spent, GuardBudget.chunksLeft, hsucc, hlimits, Except.isOk,
        Except.toBool, Bool.false_eq_true, if_false]
      omega
    · refine ⟨_, _, rfl, ⟨rfl, hmetered⟩, ?_⟩
      simp only [GuardBudget.spent, GuardBudget.chunksLeft, hsucc, hlimits, Except.isOk,
        Except.toBool, if_true]
      omega

/-! ## Extraction -/

/-- What the reads of an entry leave: what its bytes are worth, and one where none was refused. -/
def Bounded.left (r : Bounded) : Nat := worth r.1 + if r.2.isNone then 1 else 0

theorem readTurn_completes (hroomy : limits.Roomy) {reader : Reader}
    {next : Nat → List UInt8 → Exec GuardBudget Bounded} {i : Nat} {data : List UInt8}
    (hnext : ∀ i data, BudgetCompletes limits (worth data + 1) Bounded.left (next i data)) :
    BudgetCompletes limits (worth data + 1) Bounded.left (readTurn reader next i data) := by
  have hstop : BudgetCompletes limits (worth data + 1) Bounded.left (pure (data, none)) :=
    .pure (Nat.le_refl _)
  refine Completes.get fun b hb hbound => ?_
  cases hread : reader.read b.limits.readChunk i with
  | none => exact hstop b hb hbound
  | some bs =>
    cases bs with
    | nil => exact hstop b hb hbound
    | cons c cs =>
      have hlen : (c :: cs).length ≤ limits.readChunk.toNat := hb.1 ▸ reader.length_le hread
      have hle : UInt64.ofNat (c :: cs).length ≤ limits.readChunk := by
        have hfits : (c :: cs).length < 2 ^ 64 := Nat.lt_of_le_of_lt hlen (UInt64.toNat_lt _)
        rw [UInt64.le_iff_toNat_le, UInt64.toNat_ofNat_of_lt' hfits]
        exact hlen
      have hcharge := (chargeEntry_completes hroomy hle).frame (worth data)
      rw [Nat.add_comm] at hcharge
      refine hcharge.bind (fun res => ?_) b hb hbound
      cases res with
      | error e => exact .pure (Nat.le_of_eq (Nat.add_comm _ _))
      | ok u =>
        refine (hnext (i + 1) (data ++ c :: cs)).mono ?_ fun _ => Nat.le_refl _
        have hworth := worth_le (data ++ c :: cs)
        show worth (data ++ c :: cs) + 1 ≤ 3 + worth data
        omega

theorem readTurns_completes (hroomy : limits.Roomy) {reader : Reader} {n i : Nat}
    {data : List UInt8} :
    BudgetCompletes limits (worth data + 1) Bounded.left (readTurns reader n i data) := by
  induction n generalizing i data with
  | zero => exact readTurn_completes hroomy fun i data => .pure (Nat.le_refl _)
  | succ n ih => exact readTurn_completes hroomy fun i data => ih

/-- The read loop completes at the cost of one chunk, for what is read is worth what it cost. -/
theorem readLoop_completes (hroomy : limits.Roomy) {reader : Reader} :
    BudgetCompletes limits 1 Bounded.left (readLoop reader 0 []) :=
  Completes.get fun b hb hbound => readTurns_completes hroomy b hb hbound

/-- What some entries are worth. -/
def totalWorth (entries : List ExtractedEntry) : Nat := (entries.map fun e => worth e.data).sum

theorem extractItems_completes (hroomy : limits.Roomy) {items : List Item} :
    BudgetCompletes limits 1 (fun r => totalWorth r.1) (extractItems items) := by
  induction items with
  | nil => exact .pure (Nat.zero_le 1)
  | cons item items ih =>
    cases item with
    | skip => exact ih
    | refuse e => exact .pure (Nat.zero_le 1)
    | extract name reader =>
      refine (readLoop_completes hroomy).bind fun r => ?_
      obtain ⟨data, hit⟩ := r
      cases hit with
      | some e => exact .pure (Nat.le_refl _)
      | none =>
        have hrest := ih.frame (worth data)
        rw [Nat.add_comm] at hrest
        exact hrest.bind fun r => .pure (Nat.le_of_eq (Nat.add_comm _ _))

/-- What the entries of an extraction are worth. -/
def Extracted.worth : Extracted → Nat
  | .ok (entries, _) => totalWorth entries
  | .error _ => 0

/-- An extraction completes at the cost of one chunk. -/
theorem Decoders.extract_completes (hroomy : limits.Roomy) {d : Decoders} {f : Format}
    {buf : List UInt8} : BudgetCompletes limits 1 Extracted.worth (d.extract f buf) := by
  have hitems {items : List Item} :
      BudgetCompletes limits 1 Extracted.worth (do return .ok (← extractItems items)) :=
    (extractItems_completes hroomy).bind fun r => .pure (Nat.le_refl _)
  have hfails {e : GuardError} :
      BudgetCompletes limits 1 Extracted.worth (pure (.error e)) := .pure (Nat.zero_le 1)
  cases f with
  | zip =>
    refine Completes.get fun b hb hbound => ?_
    cases d.zip buf with
    | error e => exact hfails b hb hbound
    | ok entries => exact hitems b hb hbound
  | gzip =>
    refine (readLoop_completes hroomy).bind fun r => .pure ?_
    exact Nat.le_add_right _ _
  | tar =>
    show BudgetCompletes _ _ _ (d.extractTar buf)
    unfold Decoders.extractTar
    cases d.tar buf with
    | error e => exact hfails
    | ok entries => exact hitems
  | sevenZ =>
    show BudgetCompletes _ _ _ (d.extract7z buf)
    unfold Decoders.extract7z
    cases d.sevenZ buf with
    | error e => exact hfails
    | ok r =>
      obtain ⟨entries, failure⟩ := r
      refine (extractItems_completes hroomy).bind fun ⟨out, hitLimit⟩ => ?_
      cases failure <;> cases hitLimit
      · exact .pure (Nat.le_refl _)
      · exact .pure (Nat.le_refl _)
      · exact .pure (Nat.zero_le _)
      · exact .pure (Nat.le_refl _)
  | cab =>
    show BudgetCompletes _ _ _ (d.extractCab buf)
    unfold Decoders.extractCab
    cases d.cab buf with
    | error e => exact hfails
    | ok files => exact hitems

/-- An archive is entered at the cost of one. -/
theorem enterArchive_completes (hroomy : limits.Roomy) :
    BudgetCompletes limits 1 (fun _ => 0) enterArchive := by
  rintro b ⟨hlimits, hbytes⟩ hbound
  have hentries := hroomy.1
  simp only [GuardBudget.spent, GuardLimits.spendable] at hbound
  have hfit : b.depth.toNat + 1 < 2 ^ 32 := by omega
  have hspent : GuardBudget.spent { b with depth := b.depth + 1 } = b.spent + 1 := by
    simp only [GuardBudget.spent, GuardBudget.chunksLeft, toNat_succ hfit]
    omega
  rw [enterArchive_run, if_pos hfit]
  split
  · exact ⟨_, _, rfl, ⟨hlimits, hbytes⟩, Nat.le_of_eq hspent⟩
  · exact ⟨_, _, rfl, ⟨hlimits, hbytes⟩, Nat.le_of_eq hspent⟩

end

/-! ## The scan -/

section
variable {δ η α : Type} {limits : GuardLimits}

/-- What completes in a scan with a metered budget. -/
abbrev ScanCompletes (limits : GuardLimits) (k : Nat) (gain : α → Nat)
    (x : Exec (ScanState δ η) α) : Prop :=
  Completes (fun st => st.budget.Metered limits) (fun st => st.budget.spent) limits.spendable k gain
    x

theorem onBudget_completes {k : Nat} {gain : α → Nat} {x : Exec GuardBudget α}
    (h : BudgetCompletes limits k gain x) :
    ScanCompletes (δ := δ) (η := η) limits k gain (onBudget x) := by
  intro st hst hbound
  obtain ⟨a, b, hrun, hb, hpaid⟩ := h st.budget hst hbound
  refine ⟨a, { st with budget := b }, ?_, hb, hpaid⟩
  unfold onBudget
  rw [hrun]

theorem report_completes {r : FileReport δ η} {k : Nat} :
    ScanCompletes limits k (fun _ => k) (report r) :=
  .modify (fun _ => id) fun _ => Nat.le_refl _

theorem handOn_completes {data : List UInt8} {nested : Exec (ScanState δ η) Unit} {k : Nat}
    (h : ScanCompletes limits k (fun _ => 0) nested) :
    ScanCompletes limits k (fun _ => 0) (handOn data nested) := by
  have hover : ScanCompletes (δ := δ) (η := η) limits k (fun _ => k)
      (modify fun st => st.handOver data) := .modify (fun _ => id) fun _ => Nat.le_refl _
  exact hover.bind fun _ => h.bind fun _ => .modify (fun _ => id) fun _ => Nat.le_refl _

variable {s : Scanner δ η} {nested : List UInt8 → Str → Exec (ScanState δ η) Unit}
  {buf : List UInt8} {realPath logicalPath : Str}

/-- The entries are handed on for what they are worth. -/
theorem Scanner.scanEntries_completes (hroomy : limits.Roomy) {f : Format}
    (hnested : ∀ data path, ScanCompletes limits (worth data) (fun _ => 0) (nested data path)) :
    ScanCompletes limits 1 (fun _ => 0) (s.scanEntries nested f buf realPath logicalPath) := by
  refine (onBudget_completes (Decoders.extract_completes hroomy)).bind fun res => ?_
  cases res with
  | error e => exact report_completes
  | ok r =>
    obtain ⟨entries, limitHit⟩ := r
    refine (Completes.forM fun entry _ => handOn_completes (hnested _ _)).bind fun _ => ?_
    cases limitHit with
    | none => exact .pure (Nat.le_refl 0)
    | some e => exact report_completes

theorem GuardBudget.spent_leaveArchive (b : GuardBudget) : b.leaveArchive.spent ≤ b.spent := by
  have hdepth := b.leaveArchive_depth
  unfold spent
  show 2 * b.chunksLeft + (b.entriesSeen.toNat - b.limits.maxEntries.toNat) +
    b.leaveArchive.depth.toNat ≤ _
  omega

/-- An archive costs two: one to enter it and one for its extraction. -/
theorem Scanner.scanArchive_completes (hroomy : limits.Roomy) {f : Format}
    (hnested : ∀ data path, ScanCompletes limits (worth data) (fun _ => 0) (nested data path)) :
    ScanCompletes limits 2 (fun _ => 0) (s.scanArchive nested f buf realPath logicalPath) := by
  refine ((onBudget_completes (enterArchive_completes hroomy)).frame 1).bind fun res => ?_
  cases res with
  | error e => exact report_completes.mono (Nat.le_refl _) fun _ => Nat.zero_le _
  | ok u =>
    refine (scanEntries_completes hroomy hnested).bind fun _ => ?_
    exact .modify (fun _ => id) fun st => st.budget.spent_leaveArchive

/-- An archive is not empty. -/
theorem worth_of_format {f : Format} (h : format buf = some f) : worth buf = 2 := by
  cases buf with
  | nil => cases h
  | cons c cs => rfl

/-- The step lemma: one call completes for what its buffer is worth, if its calls of itself do. -/
theorem Scanner.scanBytesWith_completes (hroomy : limits.Roomy)
    (hnested : ∀ data path, ScanCompletes limits (worth data) (fun _ => 0) (nested data path)) :
    ScanCompletes limits (worth buf) (fun _ => 0)
      (s.scanBytesWith nested buf realPath logicalPath) := by
  refine report_completes.bind fun _ => ?_
  cases hformat : format buf with
  | none => exact .pure (Nat.zero_le _)
  | some f =>
    rw [worth_of_format hformat]
    exact scanArchive_completes hroomy hnested

theorem Scanner.scanLevels_completes (hroomy : limits.Roomy) {n : Nat} :
    ScanCompletes limits (worth buf) (fun _ => 0) (s.scanLevels n buf realPath logicalPath) := by
  induction n generalizing buf logicalPath with
  | zero => exact scanBytesWith_completes hroomy fun _ _ => .pure (Nat.zero_le _)
  | succ n ih => exact scanBytesWith_completes hroomy fun _ _ => ih

/-- Under roomy limits the scan of every buffer completes, whatever the decoders give. -/
theorem Scanner.scanBytes_completes (hroomy : limits.Roomy) (s : Scanner δ η) (data : List UInt8)
    (realPath logicalPath : Str) :
    ∃ st, s.scanBytes data realPath logicalPath (.start (.new limits)) = .ok () st := by
  have hworth := worth_le data
  have hspent : (GuardBudget.new limits).spent + worth data ≤ limits.spendable := by
    simp only [GuardBudget.spent, GuardBudget.chunksLeft, GuardBudget.new, GuardLimits.spendable,
      UInt64.toNat_zero, UInt32.toNat_zero]
    omega
  have hmetered : (GuardBudget.new limits).Metered limits := ⟨rfl, Nat.zero_le _⟩
  obtain ⟨⟨⟩, st, hrun, -⟩ := scanLevels_completes (s := s) (n := limits.maxDepth.toNat) hroomy
    (ScanState.start (.new limits)) hmetered hspent
  exact ⟨st, hrun⟩

end

/-! ## Panics -/

/-- A counter is at the end of its type: one more archive or one more chunk does not fit. -/
def GuardBudget.Full (b : GuardBudget) : Prop :=
  2 ^ 32 ≤ b.depth.toNat + 1 ∨ 2 ^ 64 ≤ b.entriesSeen.toNat + 1 ∨
    2 ^ 64 ≤ b.totalUncompressed.toNat + b.limits.readChunk.toNat

/-- The failures of the budget: a full counter overflows. -/
abbrev Overflows {α : Type} (x : Exec GuardBudget α) : Prop :=
  Fails (fun e b => e = .overflow ∧ b.Full) x

theorem full_of_chargeEntry {n : UInt64} {b b' : GuardBudget} {e : Panic}
    (hn : n ≤ b.limits.readChunk) (h : chargeEntry n b = .error e b') :
    e = .overflow ∧ b'.Full := by
  simp only [chargeEntry_run] at h
  split at h
  · split at h
    · cases h
    · split at h
      · split at h <;> cases h
      · next hfull =>
        cases h
        have hle := UInt64.le_iff_toNat_le.mp hn
        exact ⟨rfl, .inr (.inr ((Nat.not_lt.mp hfull).trans (Nat.add_le_add_left hle _)))⟩
  · next hfull =>
    cases h
    exact ⟨rfl, .inr (.inl (Nat.not_lt.mp hfull))⟩

theorem readTurn_overflows {reader : Reader}
    {next : Nat → List UInt8 → Exec GuardBudget Bounded} {i : Nat} {data : List UInt8}
    (hnext : ∀ i data, Overflows (next i data)) : Overflows (readTurn reader next i data) := by
  intro b e b' h
  rw [readTurn, get_bind_run] at h
  cases hread : reader.read b.limits.readChunk i with
  | none =>
    rw [hread] at h
    cases h
  | some bs =>
    rw [hread] at h
    cases bs with
    | nil => cases h
    | cons c cs =>
      have hlen := reader.length_le hread
      have hle : UInt64.ofNat (c :: cs).length ≤ b.limits.readChunk := by
        have hfits : (c :: cs).length < 2 ^ 64 := Nat.lt_of_le_of_lt hlen (UInt64.toNat_lt _)
        rw [UInt64.le_iff_toNat_le, UInt64.toNat_ofNat_of_lt' hfits]
        exact hlen
      simp only at h
      cases hcharge : chargeEntry (.ofNat (c :: cs).length) b with
      | error e' b₁ =>
        rw [bind_run_of_error hcharge] at h
        cases h
        exact full_of_chargeEntry hle hcharge
      | ok res b₁ =>
        rw [bind_run_of_ok hcharge] at h
        cases res with
        | error _ => cases h
        | ok _ => exact hnext _ _ _ _ _ h

theorem readTurns_overflows {reader : Reader} {n i : Nat} {data : List UInt8} :
    Overflows (readTurns reader n i data) := by
  induction n generalizing i data with
  | zero => exact readTurn_overflows fun _ _ => .pure
  | succ n ih => exact readTurn_overflows fun _ _ => ih

theorem readLoop_overflows {reader : Reader} {i : Nat} {data : List UInt8} :
    Overflows (readLoop reader i data) := fun b => readTurns_overflows b

theorem extractItems_overflows {items : List Item} : Overflows (extractItems items) := by
  induction items with
  | nil => exact .pure
  | cons item items ih =>
    cases item with
    | skip => exact ih
    | refuse e => exact .pure
    | extract name reader =>
      refine readLoop_overflows.bind fun r => ?_
      obtain ⟨data, hit⟩ := r
      cases hit with
      | some e => exact .pure
      | none => exact ih.bind fun r => .pure

/-- An extraction panics only where a counter is full. -/
theorem Decoders.extract_overflows {d : Decoders} {f : Format} {buf : List UInt8} :
    Overflows (d.extract f buf) := by
  have hitems {items : List Item} :
      Overflows (do return (.ok (← extractItems items) : Extracted)) :=
    extractItems_overflows.bind fun _ => .pure
  cases f with
  | zip =>
    refine Fails.get.bind fun b => ?_
    split
    · exact .pure
    · exact hitems
  | gzip => exact readLoop_overflows.bind fun _ => .pure
  | tar =>
    show Overflows (d.extractTar buf)
    unfold Decoders.extractTar
    cases d.tar buf with
    | error e => exact .pure
    | ok entries => exact hitems
  | sevenZ =>
    show Overflows (d.extract7z buf)
    unfold Decoders.extract7z
    cases d.sevenZ buf with
    | error e => exact .pure
    | ok r =>
      obtain ⟨entries, failure⟩ := r
      refine extractItems_overflows.bind fun ⟨out, hitLimit⟩ => ?_
      cases failure <;> cases hitLimit <;> exact .pure
  | cab =>
    show Overflows (d.extractCab buf)
    unfold Decoders.extractCab
    cases d.cab buf with
    | error e => exact .pure
    | ok files => exact hitems

theorem enterArchive_overflows : Overflows enterArchive := by
  intro b e b' h
  rw [enterArchive_run] at h
  split at h
  · split at h <;> cases h
  · next hfull =>
    cases h
    exact ⟨rfl, .inl (Nat.not_lt.mp hfull)⟩

section
variable {δ η α : Type} {s : Scanner δ η} {nested : List UInt8 → Str → Exec (ScanState δ η) Unit}
  {f : Format} {buf : List UInt8} {realPath logicalPath : Str}

/-- The failures of a scan. -/
abbrev ScanOverflows (x : Exec (ScanState δ η) α) : Prop :=
  Fails (fun e st => e = .overflow ∧ st.budget.Full) x

theorem onBudget_overflows {x : Exec GuardBudget α} (h : Overflows x) :
    ScanOverflows (δ := δ) (η := η) (onBudget x) := by
  intro st e st' hrun
  unfold onBudget at hrun
  cases hx : x st.budget with
  | ok a b =>
    rw [hx] at hrun
    cases hrun
  | error e' b =>
    rw [hx] at hrun
    cases hrun
    exact h _ _ _ hx

namespace Scanner

theorem scanEntries_overflows (hnested : ∀ data path, ScanOverflows (nested data path)) :
    ScanOverflows (s.scanEntries nested f buf realPath logicalPath) := by
  refine (onBudget_overflows Decoders.extract_overflows).bind fun res => ?_
  cases res with
  | error e => exact .modify
  | ok r =>
    obtain ⟨entries, limitHit⟩ := r
    refine (Fails.forM fun entry => ?_).bind fun _ => ?_
    · exact Fails.modify.bind fun _ => (hnested _ _).bind fun _ => .modify
    · cases limitHit with
      | none => exact .pure
      | some e => exact .modify

/-- The step lemma: one call panics only where a counter is full, if its calls of itself do. -/
theorem scanBytesWith_overflows (hnested : ∀ data path, ScanOverflows (nested data path)) :
    ScanOverflows (s.scanBytesWith nested buf realPath logicalPath) := by
  refine Fails.modify.bind fun _ => ?_
  cases format buf with
  | none => exact .pure
  | some f =>
    refine (onBudget_overflows enterArchive_overflows).bind fun res => ?_
    cases res with
    | error e => exact .modify
    | ok u => exact (scanEntries_overflows hnested).bind fun _ => .modify

theorem scanLevels_overflows {n : Nat} :
    ScanOverflows (s.scanLevels n buf realPath logicalPath) := by
  induction n generalizing buf logicalPath with
  | zero => exact scanBytesWith_overflows fun _ _ => .pure
  | succ n ih => exact scanBytesWith_overflows fun _ _ => ih

/-- A scan that does not return has come to the end of a counter's type. -/
theorem scanBytes_overflows : ScanOverflows (s.scanBytes buf realPath logicalPath) :=
  fun st => scanLevels_overflows st

end Scanner

end

end ActiveDefense.Clam
