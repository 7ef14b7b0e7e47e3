import ActiveDefense.Clam.Scanner

/-!
# When a scan restores the depth of its budget

`enter_archive` counts an archive before it compares the depth with the limit, and a scan that is
refused returns without `leave_archive`: the depth stays one too high. `unpack` takes archives apart
with the depth of each set from the archives around it alone; `depth_restored_iff` says that a scan
restores the depth, and hands every entry on at the depth of its own chain, if and only if `unpack`
comes to no archive below the limit.
-/

namespace ActiveDefense.Clam

/-! ## What changes the depth -/

theorem toNat_succ {d : UInt32} (h : d.toNat + 1 < 2 ^ 32) : (d + 1).toNat = d.toNat + 1 := by
  have hone : (1 : UInt32).toNat = 1 := rfl
  rw [UInt32.toNat_add, hone, Nat.mod_eq_of_lt h]

theorem GuardBudget.leaveArchive_depth {b : GuardBudget} :
    b.leaveArchive.depth.toNat = b.depth.toNat - 1 := by
  unfold GuardBudget.leaveArchive
  by_cases hzero : b.depth = 0
  · simp [hzero]
  · have hpos : b.depth.toNat ≠ 0 := fun h => hzero (UInt32.toNat_inj.mp h)
    have hle : (1 : UInt32) ≤ b.depth := UInt32.le_iff_toNat_le.mpr (Nat.pos_of_ne_zero hpos)
    simp only [hzero, if_false]
    exact UInt32.toNat_sub_of_le _ _ hle

/-- With the limits and the depth the levels left are the same. -/
theorem levelsLeft_eq {b b' : GuardBudget} (hlimits : b'.limits = b.limits)
    (hdepth : b'.depth = b.depth) : b'.levelsLeft = b.levelsLeft := by
  unfold GuardBudget.levelsLeft
  rw [hlimits, hdepth]

/-- One archive further in, one level less is left. -/
theorem levelsLeft_le {b b' : GuardBudget} (hlimits : b'.limits = b.limits)
    (hdepth : b.depth.toNat + 1 ≤ b'.depth.toNat) : b'.levelsLeft ≤ b.levelsLeft - 1 := by
  unfold GuardBudget.levelsLeft
  rw [hlimits]
  omega

/-- Below the limit there is a level left. -/
theorem levelsLeft_pos {b : GuardBudget} (h : b.depth < b.limits.maxDepth) : 0 < b.levelsLeft :=
  Nat.sub_pos_of_lt (UInt32.lt_iff_toNat_lt.mp h)

/-- Where an archive is entered, the depth was below the limit, and is one more. -/
theorem enterArchive_ok {b b' : GuardBudget} (h : enterArchive b = .ok (.ok ()) b') :
    b.depth < b.limits.maxDepth ∧ b'.limits = b.limits ∧ b'.depth.toNat = b.depth.toNat + 1 := by
  rw [enterArchive_run] at h
  split at h
  · next hfit =>
    split at h
    · cases h
    · next hmax =>
      cases h
      rw [UInt32.lt_iff_toNat_lt, toNat_succ hfit] at hmax
      exact ⟨UInt32.lt_iff_toNat_lt.mpr (by omega), rfl, toNat_succ hfit⟩
  · cases h

/-- Where an archive is refused, the depth was counted all the same. -/
theorem enterArchive_refused {b b' : GuardBudget} {e : GuardError}
    (h : enterArchive b = .ok (.error e) b') : b.depth.toNat < b'.depth.toNat := by
  rw [enterArchive_run] at h
  split at h
  · next hfit =>
    split at h
    · cases h
      show b.depth.toNat < (b.depth + 1).toNat
      rw [toNat_succ hfit]
      exact Nat.lt_succ_self _
    · cases h
  · cases h

/-- The limits and the depth are those from before. -/
def SameDepth (b b' : GuardBudget) : Prop := b'.limits = b.limits ∧ b'.depth = b.depth

instance : Std.Refl SameDepth := ⟨fun _ => ⟨rfl, rfl⟩⟩

instance : IsTrans GuardBudget SameDepth :=
  ⟨fun _ _ _ h h' => ⟨h'.1.trans h.1, h'.2.trans h.2⟩⟩

theorem chargeEntry_moves {n : UInt64} : Moves SameDepth (chargeEntry n) := by
  intro b
  simp only [chargeEntry_run]
  split
  · split
    · exact ⟨rfl, rfl⟩
    · split
      · split <;> exact ⟨rfl, rfl⟩
      · exact ⟨rfl, rfl⟩
  · exact ⟨rfl, rfl⟩

theorem readTurn_moves {reader : Reader} {next : Nat → List UInt8 → Exec GuardBudget Bounded}
    {i : Nat} {data : List UInt8} (hnext : ∀ i data, Moves SameDepth (next i data)) :
    Moves SameDepth (readTurn reader next i data) := by
  refine Moves.get.bind fun b => ?_
  split
  · exact .pure
  · exact .pure
  · refine chargeEntry_moves.bind fun res => ?_
    cases res with
    | error e => exact .pure
    | ok u => exact hnext _ _

theorem readTurns_moves {reader : Reader} {n i : Nat} {data : List UInt8} :
    Moves SameDepth (readTurns reader n i data) := by
  induction n generalizing i data with
  | zero => exact readTurn_moves fun _ _ => .pure
  | succ n ih => exact readTurn_moves fun _ _ => ih

theorem readLoop_moves {reader : Reader} {i : Nat} {data : List UInt8} :
    Moves SameDepth (readLoop reader i data) := Moves.get.bind fun _ => readTurns_moves

theorem extractItems_moves {items : List Item} : Moves SameDepth (extractItems items) := by
  induction items with
  | nil => exact .pure
  | cons item items ih =>
    cases item with
    | skip => exact ih
    | refuse e => exact .pure
    | extract name reader =>
      refine readLoop_moves.bind fun r => ?_
      obtain ⟨data, hit⟩ := r
      cases hit with
      | some e => exact .pure
      | none => exact ih.bind fun _ => .pure

/-- An extraction leaves the depth. -/
theorem Decoders.extract_moves {d : Decoders} {f : Format} {buf : List UInt8} :
    Moves SameDepth (d.extract f buf) := by
  have hitems {items : List Item} :
      Moves SameDepth (do return (.ok (← extractItems items) : Extracted)) :=
    extractItems_moves.bind fun _ => .pure
  cases f with
  | zip =>
    refine Moves.get.bind fun b => ?_
    split
    · exact .pure
    · exact hitems
  | gzip => exact readLoop_moves.bind fun _ => .pure
  | tar =>
    show Moves _ (d.extractTar buf)
    unfold Decoders.extractTar
    split
    · exact .pure
    · exact hitems
  | sevenZ =>
    show Moves _ (d.extract7z buf)
    unfold Decoders.extract7z
    split
    · exact .pure
    · refine extractItems_moves.bind fun ⟨out, hitLimit⟩ => ?_
      simp only
      split <;> exact .pure
  | cab =>
    show Moves _ (d.extractCab buf)
    unfold Decoders.extractCab
    split
    · exact .pure
    · exact hitems

/-! ## The depth over a scan -/

section
variable {δ η α : Type}

/-- The limits are those from before, and the depth is not below what it was. -/
def Deeper (st st' : ScanState δ η) : Prop :=
  st'.budget.limits = st.budget.limits ∧ st.budget.depth.toNat ≤ st'.budget.depth.toNat

instance : Std.Refl (Deeper (δ := δ) (η := η)) := ⟨fun _ => ⟨rfl, Nat.le_refl _⟩⟩

instance : IsTrans (ScanState δ η) Deeper :=
  ⟨fun _ _ _ h h' => ⟨h'.1.trans h.1, Nat.le_trans h.2 h'.2⟩⟩

theorem onBudget_moves {x : Exec GuardBudget α}
    (h : ∀ b, (finalState (x b)).limits = b.limits ∧
      b.depth.toNat ≤ (finalState (x b)).depth.toNat) :
    Moves (Deeper (δ := δ) (η := η)) (onBudget x) := by
  intro st
  have hb := h st.budget
  unfold onBudget
  cases hrun : x st.budget <;> (rw [hrun] at hb; exact hb)

theorem onBudget_extract_moves {d : Decoders} {f : Format} {buf : List UInt8} :
    Moves (Deeper (δ := δ) (η := η)) (onBudget (d.extract f buf)) :=
  onBudget_moves fun b =>
    ⟨(d.extract_moves b).1, Nat.le_of_eq (congrArg _ (d.extract_moves b).2.symm)⟩

theorem onBudget_enterArchive_moves : Moves (Deeper (δ := δ) (η := η)) (onBudget enterArchive) := by
  refine onBudget_moves fun b => ?_
  rw [enterArchive_run]
  split
  · next hfit =>
    have hle : b.depth.toNat ≤ (b.depth + 1).toNat := by
      rw [toNat_succ hfit]
      exact Nat.le_succ _
    split <;> exact ⟨rfl, hle⟩
  · exact ⟨rfl, Nat.le_refl _⟩

theorem onBudget_ok {x : Exec GuardBudget α} {a : α} {st st' : ScanState δ η}
    (h : onBudget x st = .ok a st') :
    ∃ b, x st.budget = .ok a b ∧ st' = { st with budget := b } := by
  unfold onBudget at h
  cases hrun : x st.budget with
  | ok a' b =>
    rw [hrun] at h
    cases h
    exact ⟨b, rfl, rfl⟩
  | error e b =>
    rw [hrun] at h
    cases h

theorem report_moves {r : FileReport δ η} : Moves Deeper (report r) :=
  .modify fun _ => ⟨rfl, Nat.le_refl _⟩

theorem handOn_moves {data : List UInt8} {nested : Exec (ScanState δ η) Unit}
    (hnested : Moves Deeper nested) : Moves Deeper (handOn data nested) := by
  refine Moves.bind (.modify fun _ => ⟨rfl, Nat.le_refl _⟩) fun _ => ?_
  exact hnested.bind fun _ => .modify fun _ => ⟨rfl, Nat.le_refl _⟩

namespace Scanner

variable {s : Scanner δ η} {nested nested' : List UInt8 → Str → Exec (ScanState δ η) Unit}
  {f : Format} {buf : List UInt8} {realPath logicalPath : Str} {st : ScanState δ η}

theorem scanEntries_moves (hnested : ∀ data path, Moves Deeper (nested data path)) :
    Moves Deeper (s.scanEntries nested f buf realPath logicalPath) := by
  refine onBudget_extract_moves.bind fun res => ?_
  cases res with
  | error e => exact report_moves
  | ok r =>
    obtain ⟨entries, limitHit⟩ := r
    refine (Moves.forM fun entry _ => handOn_moves (hnested _ _)).bind fun _ => ?_
    cases limitHit with
    | none => exact .pure
    | some e => exact report_moves

/-- The descent into an archive on calls that agree wherever it can come to. -/
theorem scanEntries_congr (hnested : ∀ data path, Moves Deeper (nested data path))
    (h : ∀ data path st', Deeper st st' → nested data path st' = nested' data path st') :
    s.scanEntries nested f buf realPath logicalPath st =
      s.scanEntries nested' f buf realPath logicalPath st := by
  unfold scanEntries
  refine bind_run_congr rfl fun res st' hrun => ?_
  have hst' := onBudget_extract_moves.of_ok hrun
  cases res with
  | error e => rfl
  | ok r =>
    obtain ⟨entries, limitHit⟩ := r
    refine bind_run_congr ?_ fun _ _ _ => rfl
    refine Moves.forM_congr (fun _ _ => handOn_moves (hnested _ _)) fun entry _ t ht => ?_
    refine bind_run_congr rfl fun _ t' hover => ?_
    cases hover
    refine bind_run_congr (h _ _ _ ?_) fun _ _ _ => rfl
    exact ⟨ht.1.trans hst'.1, Nat.le_trans hst'.2 ht.2⟩

/-- A scan on calls that agree on all states with a depth above the first one, while the depth is
below the limit. -/
theorem scanBytesWith_congr (hnested : ∀ data path, Moves Deeper (nested data path))
    (h : ∀ data path st', st.budget.depth < st.budget.limits.maxDepth →
      st'.budget.limits = st.budget.limits → st.budget.depth.toNat + 1 ≤ st'.budget.depth.toNat →
      nested data path st' = nested' data path st') :
    s.scanBytesWith nested buf realPath logicalPath st =
      s.scanBytesWith nested' buf realPath logicalPath st := by
  unfold scanBytesWith
  refine bind_run_congr rfl fun _ st₁ hreport => ?_
  cases hreport
  cases format buf with
  | none => rfl
  | some f =>
    refine bind_run_congr rfl fun res st₂ hrun => ?_
    cases res with
    | error e => rfl
    | ok u =>
      obtain ⟨b, henter, rfl⟩ := onBudget_ok hrun
      obtain ⟨hbelow, hlimits, hdepth⟩ := enterArchive_ok henter
      refine bind_run_congr (scanEntries_congr hnested fun data path st' hst' => ?_)
        fun _ _ _ => rfl
      exact h data path st' hbelow (hst'.1.trans hlimits) (hdepth ▸ hst'.2)

/-- The depth was counted up, so that `leave_archive` does not take it below what it was. -/
theorem scanArchive_moves (hnested : ∀ data path, Moves Deeper (nested data path)) :
    Moves Deeper (s.scanArchive nested f buf realPath logicalPath) := by
  intro st
  refine finalState_bind (fun res st₁ hrun => ?_) fun e st₁ hrun =>
    onBudget_enterArchive_moves.of_error hrun
  have henter : Deeper st st₁ := onBudget_enterArchive_moves.of_ok hrun
  cases res with
  | error e => exact IsTrans.trans _ _ _ henter (report_moves st₁)
  | ok u =>
    obtain ⟨b, hb, rfl⟩ := onBudget_ok hrun
    obtain ⟨-, -, hdepth⟩ := enterArchive_ok hb
    have hentries : Moves Deeper (s.scanEntries nested f buf realPath logicalPath) :=
      scanEntries_moves hnested
    refine finalState_bind (fun u st₂ hrun₂ => ?_) fun e st₂ hrun₂ =>
      IsTrans.trans _ _ _ henter (hentries.of_error hrun₂)
    have hdeeper := hentries.of_ok hrun₂
    refine ⟨hdeeper.1.trans henter.1, ?_⟩
    show st.budget.depth.toNat ≤ st₂.budget.leaveArchive.depth.toNat
    rw [GuardBudget.leaveArchive_depth]
    have hle : b.depth.toNat ≤ st₂.budget.depth.toNat := hdeeper.2
    omega

/-- One call keeps the depth from falling, if its calls of itself do. -/
theorem scanBytesWith_moves (hnested : ∀ data path, Moves Deeper (nested data path)) :
    Moves Deeper (s.scanBytesWith nested buf realPath logicalPath) := by
  refine report_moves.bind fun _ => ?_
  cases format buf with
  | none => exact .pure
  | some f => exact scanArchive_moves hnested

theorem scanLevels_moves {n : Nat} : Moves Deeper (s.scanLevels n buf realPath logicalPath) := by
  induction n generalizing buf logicalPath with
  | zero => exact scanBytesWith_moves fun _ _ => .pure
  | succ n ih => exact scanBytesWith_moves fun _ _ => ih

/-- More levels than are left make no difference. -/
theorem scanLevels_eq {n : Nat} (h : st.budget.levelsLeft ≤ n) :
    s.scanLevels n buf realPath logicalPath st = s.scanBytes buf realPath logicalPath st := by
  induction n using Nat.strongRecOn generalizing buf logicalPath st with
  | ind n ih =>
    change _ = s.scanLevels st.budget.levelsLeft buf realPath logicalPath st
    generalize hleft : st.budget.levelsLeft = left at h
    -- the calls have fewer levels left, and so agree by the induction hypothesis
    have hdeeper (m : Nat) (hm : m < n) (hleft' : left ≤ m + 1) (data : List UInt8) (path : Str)
        (st' : ScanState δ η) (hlimits : st'.budget.limits = st.budget.limits)
        (hdepth : st.budget.depth.toNat + 1 ≤ st'.budget.depth.toNat) :
        s.scanLevels m data realPath path st' = s.scanBytes data realPath path st' := by
      have hless := levelsLeft_le hlimits hdepth
      exact ih m hm (by omega)
    cases n with
    | zero =>
      cases Nat.le_zero.mp h
      rfl
    | succ n =>
      cases left with
      | zero =>
        refine scanBytesWith_congr (fun _ _ => scanLevels_moves) fun _ _ _ hbelow _ _ => ?_
        exact absurd hleft (Nat.ne_of_gt (levelsLeft_pos hbelow))
      | succ left =>
        refine scanBytesWith_congr (fun _ _ => scanLevels_moves) fun data path st' _ hl hd => ?_
        rw [hdeeper n (Nat.lt_succ_self n) h data path st' hl hd,
          hdeeper left (Nat.lt_of_succ_le h) (Nat.le_refl _) data path st' hl hd]

/-- `scan_bytes` calls itself. -/
theorem scanBytes_eq : s.scanBytes buf realPath logicalPath =
    s.scanBytesWith (fun data path => s.scanBytes data realPath path) buf realPath logicalPath := by
  funext st
  have hmore : st.budget.levelsLeft ≤ st.budget.levelsLeft + 1 := Nat.le_succ _
  rw [← scanLevels_eq hmore]
  refine scanBytesWith_congr (fun _ _ => scanLevels_moves) fun data path st' _ hlimits hdepth => ?_
  exact scanLevels_eq (Nat.le_trans (levelsLeft_le hlimits hdepth) (Nat.sub_le _ _))

end Scanner

end

/-! ## Archives that keep to the limit -/

/-- The budget once the entries of an archive were taken apart, by `nested`. -/
def unpackEntries (d : Decoders) (nested : List UInt8 → GuardBudget → Option GuardBudget)
    (f : Format) (buf : List UInt8) (b : GuardBudget) : Option GuardBudget :=
  match d.extract f buf b with
  | .ok (.ok (entries, _)) b' => entries.foldlM (fun b entry => nested entry.data b) b'
  | .ok (.error _) b' => some b'
  | .error _ _ => none

/-- Takes an archive apart through at most `n` archives around one another, each with the depth that
the archives around it make; `none` where there are more, or where a counter overflows. -/
def unpack (d : Decoders) : Nat → List UInt8 → GuardBudget → Option GuardBudget
  | n, buf, b =>
    match format buf, n with
    | none, _ => some b
    | some _, 0 => none
    | some f, n + 1 =>
      (unpackEntries d (fun data b => unpack d n data b) f buf { b with depth := b.depth + 1 }).map
        ({ · with depth := b.depth })

section
variable {δ η : Type}

/-- What restores the depth, `k` archives into a scan: it leaves the level, and hands every entry on
at the depth that the archives around it make. -/
structure Restores (k : Nat) (st : ScanState δ η) (b : GuardBudget) (st' : ScanState δ η) :
    Prop where
  budget : st'.budget = b
  limits : b.limits = st.budget.limits
  depth : b.depth = st.budget.depth
  level : st'.level = st.level
  handed : ∃ new, st'.handed = st.handed ++ new ∧
    ∀ h ∈ new, h.depth.toNat + st.level + k = st.budget.depth.toNat + h.level

/-- What a run has to do with taking archives apart: where that succeeds the run restores the depth,
and otherwise it leaves the depth above what it was, unless it panics. -/
def Agrees (k : Nat) (st : ScanState δ η) (r : EStateM.Result Panic (ScanState δ η) Unit) :
    Option GuardBudget → Prop
  | some b => ∃ st', r = .ok () st' ∧ Restores k st b st'
  | none => ∀ st', r = .ok () st' → st.budget.depth.toNat < st'.budget.depth.toNat

variable {k : Nat} {st st₁ st₂ : ScanState δ η} {b b₁ b₂ : GuardBudget}

theorem Restores.refl : Restores k st st.budget st :=
  ⟨rfl, rfl, rfl, rfl, [], (List.append_nil _).symm, fun _ h => by cases h⟩

theorem Restores.trans (h : Restores k st b₁ st₁) (h' : Restores k st₁ b₂ st₂) :
    Restores k st b₂ st₂ := by
  obtain ⟨new, hnew, hall⟩ := h.handed
  obtain ⟨new', hnew', hall'⟩ := h'.handed
  have hbudget := h.budget
  subst hbudget
  refine ⟨h'.budget, h'.limits.trans h.limits, h'.depth.trans h.depth, h'.level.trans h.level,
    new ++ new', by rw [hnew', hnew, List.append_assoc], ?_⟩
  intro x hx
  rcases List.mem_append.mp hx with hx | hx
  · exact hall x hx
  · rw [← h.level, ← h.depth]
    exact hall' x hx

/-- A report changes nothing that matters. -/
theorem Restores.report (h : Restores k st b st₁) {r : FileReport δ η} :
    Restores k st b { st₁ with reports := st₁.reports ++ [r] } :=
  ⟨h.budget, h.limits, h.depth, h.level, h.handed⟩

/-- A run that goes on from where the depth was restored. -/
theorem Agrees.after {r : EStateM.Result Panic (ScanState δ η) Unit} {o : Option GuardBudget}
    (h : Restores k st b st₁) (hrest : Agrees k st₁ r o) : Agrees k st r o := by
  cases o with
  | none =>
    intro st₂ hrun
    have hlt := hrest st₂ hrun
    rwa [h.budget, h.depth] at hlt
  | some b₂ =>
    obtain ⟨st₂, hrun, hrestores⟩ := hrest
    exact ⟨st₂, hrun, h.trans hrestores⟩

/-- A run, and a rest that does not take the depth down. -/
theorem Agrees.bind {x : Exec (ScanState δ η) Unit} {f : Unit → Exec (ScanState δ η) Unit}
    {o : Option GuardBudget} {g : GuardBudget → Option GuardBudget} (hx : Agrees k st (x st) o)
    (hmoves : Moves Deeper (f ()))
    (hf : ∀ b st₁, Restores k st b st₁ → Agrees k st₁ (f () st₁) (g b)) :
    Agrees k st ((x >>= f) st) (o.bind g) := by
  cases o with
  | none =>
    intro st₂ hrun
    cases hxrun : x st with
    | ok u st₁ =>
      rw [bind_run_of_ok hxrun] at hrun
      exact Nat.lt_of_lt_of_le (hx st₁ hxrun) (hmoves.of_ok hrun).2
    | error e st₁ =>
      rw [bind_run_of_error hxrun] at hrun
      cases hrun
  | some b =>
    obtain ⟨st₁, hxrun, hrestores⟩ := hx
    rw [bind_run_of_ok hxrun]
    exact .after hrestores (hf b st₁ hrestores)

/-- An entry that is handed on, from one archive further out. -/
theorem Agrees.handOn {data : List UInt8} {nested : Exec (ScanState δ η) Unit}
    {o : Option GuardBudget} (h : Agrees 0 (st.handOver data) (nested (st.handOver data)) o) :
    Agrees 1 st (handOn data nested st) o := by
  change Agrees 1 st ((nested >>= fun _ =>
    modify fun st => { st with level := st.level - 1 }) (st.handOver data)) o
  cases o with
  | none =>
    intro st₂ hrun
    cases hnested : nested (st.handOver data) with
    | ok u st₁ =>
      rw [bind_run_of_ok hnested] at hrun
      cases hrun
      exact h st₁ hnested
    | error e st₁ =>
      rw [bind_run_of_error hnested] at hrun
      cases hrun
  | some b =>
    obtain ⟨st₁, hnested, hrestores⟩ := h
    rw [bind_run_of_ok hnested]
    obtain ⟨new, hnew, hall⟩ := hrestores.handed
    refine ⟨_, rfl, hrestores.budget, hrestores.limits, hrestores.depth, ?_,
      { data, level := st.level + 1, depth := st.budget.depth } :: new, ?_, ?_⟩
    · show st₁.level - 1 = st.level
      rw [hrestores.level]
      rfl
    · rw [hnew]
      exact List.append_assoc ..
    · intro x hx
      rcases List.mem_cons.mp hx with rfl | hx
      · exact Nat.add_assoc ..
      · exact hall x hx

/-- A report after a run. -/
theorem Agrees.report {x : Exec (ScanState δ η) Unit} {o : Option GuardBudget}
    (hx : Agrees k st (x st) o) {r : FileReport δ η} :
    Agrees k st ((x >>= fun _ => Clam.report r) st) o := by
  have hbind : Agrees k st ((x >>= fun _ => Clam.report r) st) (o.bind some) :=
    hx.bind report_moves fun b st₁ h => ⟨_, rfl, h.budget ▸ Restores.refl.report⟩
  cases o <;> exact hbind

/-- The state once an archive was entered. -/
def entered (st : ScanState δ η) : ScanState δ η :=
  { st with budget := { st.budget with depth := st.budget.depth + 1 } }

/-- `leave_archive` gives back the depth from before the archive. -/
theorem Restores.leave (hfit : st.budget.depth.toNat + 1 < 2 ^ 32)
    (h : Restores 1 (entered st) b st₁) :
    Restores 0 st { b with depth := st.budget.depth }
      { st₁ with budget := st₁.budget.leaveArchive } := by
  obtain ⟨new, hnew, hall⟩ := h.handed
  have hdepth : b.leaveArchive.depth = st.budget.depth := by
    apply UInt32.toNat_inj.mp
    rw [GuardBudget.leaveArchive_depth, h.depth]
    show (st.budget.depth + 1).toNat - 1 = _
    rw [toNat_succ hfit]
    rfl
  refine ⟨?_, h.limits, rfl, h.level, new, hnew, ?_⟩
  · show st₁.budget.leaveArchive = _
    rw [h.budget, ← hdepth]
    rfl
  · intro x hx
    have hx := hall x hx
    change _ = (st.budget.depth + 1).toNat + x.level at hx
    rw [toNat_succ hfit] at hx
    change x.depth.toNat + st.level + 1 = _ at hx
    omega

/-- A run in an archive, and `leave_archive`. -/
theorem Agrees.leave {x : Exec (ScanState δ η) Unit} {o : Option GuardBudget}
    (hfit : st.budget.depth.toNat + 1 < 2 ^ 32) (h : Agrees 1 (entered st) (x (entered st)) o) :
    Agrees 0 st ((x >>= fun _ =>
      modify fun st => { st with budget := st.budget.leaveArchive }) (entered st))
      (o.map ({ · with depth := st.budget.depth })) := by
  cases o with
  | none =>
    intro st₂ hrun
    cases hx : x (entered st) with
    | ok u st₁ =>
      rw [bind_run_of_ok hx] at hrun
      cases hrun
      have hlt : (st.budget.depth + 1).toNat < st₁.budget.depth.toNat := h st₁ hx
      rw [toNat_succ hfit] at hlt
      show st.budget.depth.toNat < st₁.budget.leaveArchive.depth.toNat
      rw [GuardBudget.leaveArchive_depth]
      omega
    | error e st₁ =>
      rw [bind_run_of_error hx] at hrun
      cases hrun
  | some b =>
    obtain ⟨st₁, hx, hrestores⟩ := h
    rw [bind_run_of_ok hx]
    exact ⟨_, rfl, hrestores.leave hfit⟩

namespace Scanner

variable {s : Scanner δ η} {nested : List UInt8 → Str → Exec (ScanState δ η) Unit}
  {unpackNested : List UInt8 → GuardBudget → Option GuardBudget} {f : Format} {buf : List UInt8}
  {realPath logicalPath : Str} {n : Nat}

/-- The loop over the entries of an archive. -/
theorem agrees_forM {entries : List ExtractedEntry}
    (hmoves : ∀ data path, Moves Deeper (nested data path))
    (hnested : ∀ data path st, st.budget.levelsLeft = n →
      Agrees 0 st (nested data path st) (unpackNested data st.budget))
    (hleft : st.budget.levelsLeft = n) :
    Agrees 1 st
      ((entries.forM fun entry =>
        handOn entry.data (nested entry.data (logicalPath ++ " -> ".toList ++ entry.name))) st)
      (entries.foldlM (fun b entry => unpackNested entry.data b) st.budget) := by
  induction entries generalizing st with
  | nil => exact ⟨st, rfl, .refl⟩
  | cons entry entries ih =>
    rw [List.foldlM_cons]
    refine Agrees.bind (.handOn (hnested _ _ _ hleft)) ?_ fun b st₁ hrestores => ?_
    · exact .forM fun _ _ => handOn_moves (hmoves _ _)
    · have hleft₁ : st₁.budget.levelsLeft = n := by
        rw [← hleft, hrestores.budget]
        exact levelsLeft_eq hrestores.limits hrestores.depth
      have hrest := ih hleft₁
      rwa [hrestores.budget] at hrest

/-- The descent into an archive. -/
theorem agrees_scanEntries (hmoves : ∀ data path, Moves Deeper (nested data path))
    (hnested : ∀ data path st, st.budget.levelsLeft = n →
      Agrees 0 st (nested data path st) (unpackNested data st.budget))
    (hleft : st.budget.levelsLeft = n) :
    Agrees 1 st (s.scanEntries nested f buf realPath logicalPath st)
      (unpackEntries s.decoders unpackNested f buf st.budget) := by
  unfold scanEntries unpackEntries
  cases hrun : s.decoders.extract f buf st.budget with
  | error e b =>
    have hpanic : onBudget (s.decoders.extract f buf) st = .error e { st with budget := b } := by
      unfold onBudget
      rw [hrun]
    rw [bind_run_of_error hpanic]
    intro _ h
    cases h
  | ok res b =>
    have hok : onBudget (s.decoders.extract f buf) st = .ok res { st with budget := b } := by
      unfold onBudget
      rw [hrun]
    rw [bind_run_of_ok hok]
    have hsame := Decoders.extract_moves.of_ok hrun
    have hrestores : Restores 1 st b { st with budget := b } :=
      ⟨rfl, hsame.1, hsame.2, rfl, [], (List.append_nil _).symm, fun _ h => by cases h⟩
    cases res with
    | error e => exact ⟨_, rfl, hrestores.report⟩
    | ok r =>
      obtain ⟨entries, limitHit⟩ := r
      have hleft₁ : b.levelsLeft = n := (levelsLeft_eq hsame.1 hsame.2).trans hleft
      have hloop : Agrees 1 { st with budget := b }
          ((entries.forM fun entry => handOn entry.data
            (nested entry.data (logicalPath ++ " -> ".toList ++ entry.name))) { st with budget := b })
          (entries.foldlM (fun b entry => unpackNested entry.data b) b) :=
        agrees_forM hmoves hnested hleft₁
      refine .after hrestores ?_
      cases limitHit with
      | none =>
        simp only [bind_pure_unit]
        exact hloop
      | some e => exact hloop.report

theorem enterArchive_of_levelsLeft {n : Nat} (h : b.levelsLeft = n + 1) :
    b.depth.toNat + 1 < 2 ^ 32 ∧
      enterArchive b = .ok (.ok ()) { b with depth := b.depth + 1 } := by
  have hmax := UInt32.toNat_lt b.limits.maxDepth
  unfold GuardBudget.levelsLeft at h
  have hfit : b.depth.toNat + 1 < 2 ^ 32 := by omega
  have hnot : ¬ b.limits.maxDepth < b.depth + 1 := by
    rw [UInt32.lt_iff_toNat_lt, toNat_succ hfit]
    omega
  refine ⟨hfit, ?_⟩
  rw [enterArchive_run, if_pos hfit, if_neg hnot]

/-- The step lemma: an archive is scanned as it is taken apart, if the archives in it are. -/
theorem agrees_scanArchive (hmoves : ∀ data path, Moves Deeper (nested data path))
    (hnested : ∀ data path st, st.budget.levelsLeft = n →
      Agrees 0 st (nested data path st) (unpackNested data st.budget))
    (hleft : st.budget.levelsLeft = n + 1) :
    Agrees 0 st (s.scanArchive nested f buf realPath logicalPath st)
      ((unpackEntries s.decoders unpackNested f buf
        { st.budget with depth := st.budget.depth + 1 }).map
          ({ · with depth := st.budget.depth })) := by
  obtain ⟨hfit, henter⟩ := enterArchive_of_levelsLeft hleft
  have hok : onBudget enterArchive st = .ok (.ok ()) (entered st) := by
    unfold onBudget
    rw [henter]
    rfl
  have hleft₁ : (entered st).budget.levelsLeft = n := by
    unfold GuardBudget.levelsLeft at hleft ⊢
    show st.budget.limits.maxDepth.toNat - (st.budget.depth + 1).toNat = n
    rw [toNat_succ hfit]
    omega
  unfold scanArchive
  rw [bind_run_of_ok hok]
  exact .leave hfit (agrees_scanEntries hmoves hnested hleft₁)

/-- An archive that is refused leaves the depth one too high. -/
theorem agrees_refused (hleft : st.budget.levelsLeft = 0) :
    Agrees 0 st (s.scanArchive nested f buf realPath logicalPath st) none := by
  intro st' hrun
  unfold scanArchive at hrun
  cases henter : onBudget enterArchive st with
  | error e st₁ =>
    rw [bind_run_of_error henter] at hrun
    cases hrun
  | ok res st₁ =>
    rw [bind_run_of_ok henter] at hrun
    obtain ⟨b, hb, rfl⟩ := onBudget_ok henter
    cases res with
    | ok u =>
      obtain ⟨hbelow, -, -⟩ := enterArchive_ok hb
      exact absurd hleft (Nat.ne_of_gt (levelsLeft_pos hbelow))
    | error e =>
      cases hrun
      exact enterArchive_refused hb

/-- One call is as the archive is taken apart, if its branch is. -/
theorem agrees_scanBytesWith {o : Option GuardBudget}
    (hnone : format buf = none → o = some st.budget)
    (hsome : ∀ f st₁, format buf = some f → st₁.budget = st.budget →
      Agrees 0 st₁ (s.scanArchive nested f buf realPath logicalPath st₁) o) :
    Agrees 0 st (s.scanBytesWith nested buf realPath logicalPath st) o := by
  have hreport : report (s.ownReport buf realPath logicalPath) st =
    .ok () { st with reports := st.reports ++ [s.ownReport buf realPath logicalPath] } := rfl
  have hrestores : Restores 0 st st.budget
    { st with reports := st.reports ++ [s.ownReport buf realPath logicalPath] } :=
      Restores.refl.report
  unfold scanBytesWith
  rw [bind_run_of_ok hreport]
  refine .after hrestores ?_
  cases hformat : format buf with
  | none =>
    rw [hnone hformat]
    exact ⟨_, rfl, .refl⟩
  | some f => exact hsome f _ hformat rfl

/-- A scan is as the archive is taken apart. -/
theorem agrees_scanLevels (hleft : st.budget.levelsLeft = n) :
    Agrees 0 st (s.scanLevels n buf realPath logicalPath st)
      (unpack s.decoders n buf st.budget) := by
  induction n generalizing buf logicalPath st with
  | zero =>
    refine agrees_scanBytesWith (fun hformat => ?_) fun f st₁ hformat hst₁ => ?_
    · unfold unpack
      rw [hformat]
    · unfold unpack
      rw [hformat]
      exact agrees_refused (hst₁ ▸ hleft)
  | succ n ih =>
    refine agrees_scanBytesWith (fun hformat => ?_) fun f st₁ hformat hst₁ => ?_
    · unfold unpack
      rw [hformat]
    · unfold unpack
      rw [hformat, ← hst₁]
      exact agrees_scanArchive (fun _ _ => scanLevels_moves) (fun _ _ _ hleft => ih hleft)
        (hst₁ ▸ hleft)

end Scanner

end

/-- A scan returns with the depth it began with, and hands every entry on at the depth that the
archives around it make, if and only if the archives it comes to are within the limit, counted along
each one's own chain, and no counter overflows. -/
theorem depth_restored_iff {δ η : Type} (s : Scanner δ η) (buf : List UInt8)
    (realPath logicalPath : Str) (b : GuardBudget) :
    (∃ st, s.scanBytes buf realPath logicalPath (.start b) = .ok () st ∧
        st.budget.depth = b.depth ∧ ∀ h ∈ st.handed, h.depth.toNat = b.depth.toNat + h.level) ↔
      (unpack s.decoders b.levelsLeft buf b).isSome := by
  have hagrees : Agrees 0 (.start b) (s.scanBytes buf realPath logicalPath (.start b))
      (unpack s.decoders b.levelsLeft buf b) := Scanner.agrees_scanLevels rfl
  cases hunpack : unpack s.decoders b.levelsLeft buf b with
  | none =>
    rw [hunpack] at hagrees
    refine ⟨?_, fun h => by cases h⟩
    rintro ⟨st, hrun, hdepth, -⟩
    have hlt : b.depth.toNat < st.budget.depth.toNat := hagrees st hrun
    rw [hdepth] at hlt
    exact absurd hlt (Nat.lt_irrefl _)
  | some b' =>
    rw [hunpack] at hagrees
    obtain ⟨st, hrun, hrestores⟩ := hagrees
    obtain ⟨new, hnew, hall⟩ := hrestores.handed
    refine ⟨fun _ => rfl, fun _ => ⟨st, hrun, ?_, fun h hh => ?_⟩⟩
    · rw [hrestores.budget]
      exact hrestores.depth
    · rw [hnew] at hh
      exact hall h hh

/-- A gzip file that holds the first two bytes of another one. -/
def nestedGzip : List UInt8 :=
  [0x1F, 0x8B, 0x08, 0, 0, 0, 0, 0, 0, 0xFF, 0x01, 0x02, 0, 0xFD, 0xFF, 0x1F, 0x8B,
    0xC9, 0x46, 0xE9, 0xF6, 0x02, 0, 0, 0]

/-- The reads of a decoder that gives some bytes, and no error. -/
def Reader.ofBytes (bytes : List UInt8) : Reader where
  read len i := some ((bytes.drop (i * len.toNat)).take len.toNat)
  length_le h := by
    cases h
    exact List.length_take_le _ _

/-- Decoders that open no archive but that one file. -/
def nestedGzipDecoders : Decoders where
  zip _ := .error []
  gzip buf := if buf = nestedGzip then .ofBytes [0x1F, 0x8B] else .failing
  tar _ := .error []
  sevenZ _ := .error []
  cab _ := .error []

/-- A limit of one archive: the file is opened, what it holds is refused, and the depth stays at one
at the end. -/
theorem not_depth_restored :
    ¬ ∀ (s : Scanner Unit Unit) (buf : List UInt8) (realPath logicalPath : Str) (b : GuardBudget),
      ∃ st, s.scanBytes buf realPath logicalPath (.start b) = .ok () st ∧
        st.budget.depth = b.depth ∧ ∀ h ∈ st.handed, h.depth.toNat = b.depth.toNat + h.level := by
  intro h
  obtain ⟨st, hrun, hdepth, -⟩ := h ⟨fun _ => [], fun _ => none, nestedGzipDecoders, default⟩
    nestedGzip [] [] (.new { (default : GuardLimits) with maxDepth := 1 })
  have hfinal := congrArg (fun r => (finalState r).budget.depth) hrun
  change _ = st.budget.depth at hfinal
  rw [hdepth] at hfinal
  exact absurd hfinal (by decide)

end ActiveDefense.Clam
