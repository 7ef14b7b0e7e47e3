import ActiveDefense.Clam.QuarantineFile

/-!
# A crash while a file is quarantined

A crash keeps what was synced and any of the other writes. The file is not lost where the crash
undoes its removal, or where it keeps everything that was written at `<id>.quar` and `<id>.json`;
otherwise the ciphertext or its key is gone (`recoverable_iff`). Up to the removal the original is
untouched on the disk, so the argument is about the one state after it.
-/

namespace ActiveDefense.Clam.QuarantineManager

/-- Before the call: the file is on the disk, and the drawn id names no file. -/
structure Ready (m : QuarantineManager) (draws : Draws) (originalPath : PathBuf)
    (data : List UInt8) (d : Disk) : Prop where
  original : ∃ i, d.entries originalPath = ⟨some i, []⟩ ∧ d.data i = ⟨data, []⟩
  stored_unused : d.entries (m.storedPath (hexEncode draws.id)) = ⟨none, []⟩
  meta_unused : d.entries (m.metaPath (hexEncode draws.id)) = ⟨none, []⟩

/-- After the crash the original is there, or both the ciphertext and the record with its key are,
complete. -/
def Recoverable (m : QuarantineManager) (prims : Primitives) (draws : Draws)
    (originalPath : PathBuf) (data : List UInt8) (signatureName : Str) {d : Disk} (c : Crash d) :
    Prop :=
  c.read originalPath = some data ∨
    ∃ ciphertext metaJson, prims.encrypt draws.key draws.nonce data = some ciphertext ∧
      (newRecord prims draws originalPath data signatureName).toStringPretty = some metaJson ∧
      c.read (m.storedPath (hexEncode draws.id)) = some ciphertext ∧
      c.read (m.metaPath (hexEncode draws.id)) = some (utf8 metaJson)

/-- The crash undoes the removal of the original, or loses nothing of what was written for it. -/
def Spares (m : QuarantineManager) (draws : Draws) (originalPath : PathBuf) {d : Disk}
    (c : Crash d) : Prop :=
  none ∉ c.entries originalPath ∨
    c.Keeps (m.storedPath (hexEncode draws.id)) ∧ c.Keeps (m.metaPath (hexEncode draws.id))

/-! ## The disk at each point -/

/-- The original is untouched on the disk. -/
def Intact (originalPath : PathBuf) (data : List UInt8) (i : Nat) (d : Disk) : Prop :=
  d.entries originalPath = ⟨some i, []⟩ ∧ d.data i = ⟨data, []⟩

namespace Intact

variable {originalPath p : PathBuf} {data : List UInt8} {i j : Nat} {d : Disk}

theorem lt_nextInode (h : Intact originalPath data i d) : i < d.nextInode :=
  d.allocated originalPath i (by rw [h.1]; rfl)

theorem alloc (h : Intact originalPath data i d) (hp : originalPath ≠ p) :
    Intact originalPath data i (d.alloc p) := by
  have hi := h.lt_nextInode
  exact ⟨by rw [Disk.entries_alloc_of_ne hp, h.1], by rw [Disk.data_alloc_of_ne (by omega), h.2]⟩

theorem writePieces (h : Intact originalPath data i d) (hij : i ≠ j) {offset : Nat}
    (pieces : List (List UInt8)) : Intact originalPath data i (d.writePieces j offset pieces) :=
  ⟨h.1, by rw [Disk.data_writePieces_of_ne hij, h.2]⟩

theorem sync (h : Intact originalPath data i d) (hij : i ≠ j) :
    Intact originalPath data i (d.sync j) :=
  ⟨h.1, by rw [Disk.data_sync_of_ne hij, h.2]⟩

end Intact

/-- The ciphertext is written and synced, and the record is written; their entries are new. -/
structure Written (m : QuarantineManager) (draws : Draws) (ciphertext recordText : List UInt8)
    (d : Disk) : Prop where
  stored : ∃ i, d.entries (m.storedPath (hexEncode draws.id)) = ⟨none, [some i]⟩ ∧
    d.data i = ⟨ciphertext, []⟩
  record : ∃ i pieces, d.entries (m.metaPath (hexEncode draws.id)) = ⟨none, [some i]⟩ ∧
    d.data i = ⟨[], writesFrom 0 pieces⟩ ∧ Pieces recordText pieces

/-- The original is removed, and nothing is synced after that. -/
def Removed (originalPath : PathBuf) (data : List UInt8) (d : Disk) : Prop :=
  ∃ i, d.entries originalPath = ⟨some i, [none]⟩ ∧ d.data i = ⟨data, []⟩

variable {m : QuarantineManager} {prims : Primitives} {draws : Draws} {originalPath : PathBuf}
  {data : List UInt8} {signatureName : Str} {d : Disk}

/-- While the original is untouched, no crash loses it. -/
theorem recoverable_iff_of_intact {i : Nat} (h : Intact originalPath data i d) (c : Crash d) :
    m.Recoverable prims draws originalPath data signatureName c ↔
      m.Spares draws originalPath c := by
  have hkept := c.entries_sublist originalPath
  rw [h.1] at hkept
  refine iff_of_true (.inl (Crash.read_of_synced h.1 h.2)) (.inl ?_)
  rw [List.sublist_nil.mp hkept]
  exact List.not_mem_nil

/-- Once the original is removed, a crash that keeps the removal may lose nothing else. -/
theorem recoverable_iff_of_removed {ciphertext : List UInt8} {metaJson : Str}
    (hcipher : prims.encrypt draws.key draws.nonce data = some ciphertext)
    (htext : (newRecord prims draws originalPath data signatureName).toStringPretty = some metaJson)
    (hremoved : Removed originalPath data d) (h : m.Written draws ciphertext (utf8 metaJson) d)
    (c : Crash d) :
    m.Recoverable prims draws originalPath data signatureName c ↔
      m.Spares draws originalPath c := by
  obtain ⟨i, hentry, hdata⟩ := hremoved
  obtain ⟨j, hstored, hcontent⟩ := h.stored
  obtain ⟨k, pieces, hmeta, hwrites, hpieces⟩ := h.record
  have hstoredRead : c.read (m.storedPath (hexEncode draws.id)) = some ciphertext ↔
      c.Keeps (m.storedPath (hexEncode draws.id)) := by
    refine Crash.read_eq_some_iff_keeps hstored (iff_of_true (Crash.content_of_synced hcontent) ?_)
    have hkept := c.data_sublist j
    rw [hcontent] at hkept ⊢
    exact List.sublist_nil.mp hkept
  have hmetaRead : c.read (m.metaPath (hexEncode draws.id)) = some (utf8 metaJson) ↔
      c.Keeps (m.metaPath (hexEncode draws.id)) :=
    Crash.read_eq_some_iff_keeps hmeta
      (Crash.content_eq_iff hwrites hpieces (QuarantineRecord.zero_not_mem_toStringPretty htext))
  rw [Recoverable, Spares, ← hstoredRead, ← hmetaRead]
  rcases Crash.entries_of_single (c := c) hentry with ⟨hlost, hback⟩ | ⟨hkept, hgone⟩
  · refine iff_of_true (.inl ?_) (.inl ?_)
    · rw [Crash.read, hback, Option.map_some, Crash.content_of_synced hdata]
    · rw [hlost]
      exact List.not_mem_nil
  · have hread : c.read originalPath = none := by rw [Crash.read, hgone, Option.map_none]
    rw [hread, hkept]
    simp [hcipher, htext]

/-! ## The run -/

/-- The ciphertext is synced, and nothing else has happened. -/
structure Stored (m : QuarantineManager) (draws : Draws) (originalPath : PathBuf)
    (data ciphertext : List UInt8) (i : Nat) (d : Disk) : Prop where
  intact : Intact originalPath data i d
  stored : ∃ j, d.entries (m.storedPath (hexEncode draws.id)) = ⟨none, [some j]⟩ ∧
    d.data j = ⟨ciphertext, []⟩
  meta_unused : d.entries (m.metaPath (hexEncode draws.id)) = ⟨none, []⟩

variable {i : Nat} {ciphertext : List UInt8} {p : PathBuf}

theorem Intact.ne_of_unused (h : Intact originalPath data i d) (hp : d.entries p = ⟨none, []⟩) :
    originalPath ≠ p := by
  rintro rfl
  cases h.1.symm.trans hp

theorem entry_of_unused (h : d.entries p = ⟨none, []⟩) : d.entry p = none := by
  rw [Disk.entry, h]
  rfl

/-- Once its pieces are synced the ciphertext is stored. -/
theorem Ready.stored (hready : m.Ready draws originalPath data d) (h : Intact originalPath data i d)
    {ps : List (List UInt8)} (hps : Pieces ciphertext ps) :
    m.Stored draws originalPath data ciphertext i
      (((d.alloc (m.storedPath (hexEncode draws.id))).writePieces d.nextInode 0 ps).sync
        d.nextInode) := by
  have hpaths := m.storedPath_ne_metaPath (hexEncode draws.id)
  have hne : i ≠ d.nextInode := Nat.ne_of_lt h.lt_nextInode
  refine ⟨((h.alloc (h.ne_of_unused hready.stored_unused)).writePieces hne ps).sync hne,
    ⟨d.nextInode, ?_, ?_⟩, ?_⟩
  · simp [hready.stored_unused, Cached.write]
  · rw [Disk.data_sync, Disk.data_writePieces, Disk.data_alloc]
    exact congrArg (Cached.mk · []) hps.foldl_writesFrom
  · simp [hpaths.symm, hready.meta_unused]

/-- With its pieces the record is written. -/
theorem Stored.written (h : m.Stored draws originalPath data ciphertext i d)
    {recordText : List UInt8} {ps : List (List UInt8)} (hps : Pieces recordText ps) :
    m.Written draws ciphertext recordText
      ((d.alloc (m.metaPath (hexEncode draws.id))).writePieces d.nextInode 0 ps) := by
  have hpaths := m.storedPath_ne_metaPath (hexEncode draws.id)
  obtain ⟨j, hentry, hdata⟩ := h.stored
  have hj : j < d.nextInode :=
    d.allocated (m.storedPath (hexEncode draws.id)) j (by rw [hentry]; rfl)
  refine ⟨⟨j, ?_, ?_⟩, d.nextInode, ps, ?_, ?_, hps⟩
  · simp [hpaths, hentry]
  · rw [Disk.data_writePieces_of_ne (by omega), Disk.data_alloc_of_ne (by omega), hdata]
  · simp [h.meta_unused, Cached.write]
  · simp

/-- What `quarantine_bytes` does to the disk. -/
theorem quarantineBytes_survives {C : Disk → Prop} (h : Intact originalPath data i d)
    (hready : m.Ready draws originalPath data d)
    (hC : ∀ s, Intact originalPath data i s → C s) :
    Survives C (· = d) (m.quarantineBytes prims draws originalPath data signatureName) fun _ s =>
      Intact originalPath data i s ∧ ∃ ciphertext metaJson,
        prims.encrypt draws.key draws.nonce data = some ciphertext ∧
        (newRecord prims draws originalPath data signatureName).toStringPretty = some metaJson ∧
        m.Written draws ciphertext (utf8 metaJson) s := by
  unfold quarantineBytes
  cases hcipher : prims.encrypt draws.key draws.nonce data with
  | none => exact .throw
  | some ciphertext =>
    have hne : i ≠ d.nextInode := Nat.ne_of_lt h.lt_nextInode
    have hnew := h.alloc (h.ne_of_unused hready.stored_unused)
    refine .bind (.mapErr (File.create_survives (entry_of_unused hready.stored_unused)
      (hC _ hnew))) fun f => .of_fact ?_
    rintro rfl
    refine .bind (.mapErr (File.writeAll_survives fun ps => hC _ (hnew.writePieces hne ps)))
      fun _ => .of_exists fun ps => .of_fact fun hps => ?_
    have hstored := hready.stored h hps
    refine .bind (.mapErr (File.syncAll_survives (hC _ hstored.intact))) fun _ => ?_
    generalize ((d.alloc (m.storedPath (hexEncode draws.id))).writePieces d.nextInode 0 ps).sync
      d.nextInode = d' at hstored
    dsimp only
    cases htext : (newRecord prims draws originalPath data signatureName).toStringPretty with
    | none => exact .throw
    | some metaJson =>
      have hne' : i ≠ d'.nextInode := Nat.ne_of_lt hstored.intact.lt_nextInode
      have hwritten (qs : List (List UInt8)) : Intact originalPath data i
          ((d'.alloc (m.metaPath (hexEncode draws.id))).writePieces d'.nextInode 0 qs) :=
        (hstored.intact.alloc (hstored.intact.ne_of_unused hstored.meta_unused)).writePieces hne' qs
      refine .bind (.mapErr (fsWrite_survives (entry_of_unused hstored.meta_unused)
        fun qs => hC _ (hwritten qs))) fun _ => .pure ?_
      rintro s ⟨qs, hqs, rfl⟩
      exact ⟨hwritten qs, ciphertext, metaJson, rfl, rfl, hstored.written hqs⟩

/-- What `quarantine_file` does to the disk, up to the removal and with it. -/
theorem quarantineFile_survives {C : Disk → Prop} (h : Intact originalPath data i d)
    (hready : m.Ready draws originalPath data d) (hC : ∀ s, Intact originalPath data i s → C s)
    (hremoved : ∀ s ciphertext metaJson,
      prims.encrypt draws.key draws.nonce data = some ciphertext →
      (newRecord prims draws originalPath data signatureName).toStringPretty = some metaJson →
      Removed originalPath data s → m.Written draws ciphertext (utf8 metaJson) s → C s) :
    Survives C (· = d) (m.quarantineFile prims draws originalPath signatureName) fun _ s =>
      Removed originalPath data s ∧ ∃ ciphertext recordText,
        m.Written draws ciphertext recordText s := by
  refine .bind (.mapErr (fsRead_survives (hC d h))) fun bytes => .of_fact ?_
  rintro ⟨j, hj, hbytes⟩
  have hij : i = j := by
    rw [Disk.entry, h.1] at hj
    exact Option.some.inj hj
  have hdata : bytes = data := by
    rw [hbytes, ← hij, Disk.content, h.2]
    rfl
  subst hdata
  refine .bind (quarantineBytes_survives h hready hC) fun record => .of_states ?_
  rintro s ⟨hs, ciphertext, metaJson, hcipher, htext, hwritten⟩
  have hgone : Removed originalPath bytes (s.unlink originalPath) :=
    ⟨i, by rw [Disk.entries_unlink, hs.1]; rfl, hs.2⟩
  have hkept : m.Written draws ciphertext (utf8 metaJson) (s.unlink originalPath) := by
    obtain ⟨⟨j, hstored, hcontent⟩, k, ps, hmeta, hwrites⟩ := hwritten
    have hne {p : PathBuf} {k : Nat} (hp : s.entries p = ⟨none, [some k]⟩) : p ≠ originalPath := by
      rintro rfl
      cases hs.1.symm.trans hp
    refine ⟨⟨j, ?_, hcontent⟩, k, ps, ?_, hwrites⟩
    · rw [Disk.entries_unlink_of_ne (hne hstored), hstored]
    · rw [Disk.entries_unlink_of_ne (hne hmeta), hmeta]
  refine .bind (.mapErr (removeFile_survives (hremoved _ _ _ hcipher htext hgone hkept)))
    fun _ => .pure ?_
  rintro t rfl
  exact ⟨hgone, ciphertext, utf8 metaJson, hkept⟩

/-- Where nothing is refused, a file of which a record can be made is quarantined. -/
theorem exists_quarantineFile_run (hready : m.Ready draws originalPath data d) {path : Str}
    (hcipher : prims.encrypt draws.key draws.nonce data = some ciphertext)
    (hpath : fromUtf8 originalPath = some path) :
    ∃ record w, m.quarantineFile prims draws originalPath signatureName (World.start d []) =
      .ok record w := by
  obtain ⟨i, hentry, hdata⟩ := hready.original
  have hfile : d.entry originalPath = some i := by
    rw [Disk.entry, hentry]
    rfl
  have hcontent : d.content i = data := by
    rw [Disk.content, hdata]
    rfl
  have hread : ∃ w, fsRead originalPath (World.start d []) = .ok data w ∧ w.state = d ∧
      w.answers = [] := exists_call_run rfl (by simp [World.start, hfile, hcontent])
  obtain ⟨w, hrun, hstate, hanswers⟩ := hread
  have hbytes : Succeeds (m.quarantineBytes prims draws originalPath data signatureName) := by
    unfold quarantineBytes
    rw [hcipher]
    refine .bind (.mapErr (File.create_succeeds _)) fun f =>
      .bind (.mapErr (f.writeAll_succeeds _)) fun _ =>
        .bind (.mapErr f.syncAll_succeeds) fun _ => ?_
    have htext : ∃ metaJson,
        (newRecord prims draws originalPath data signatureName).toStringPretty = some metaJson := by
      rw [QuarantineRecord.toStringPretty, newRecord, hpath]
      exact ⟨_, rfl⟩
    obtain ⟨metaJson, htext⟩ := htext
    dsimp only
    rw [htext]
    exact .bind (.mapErr (fsWrite_succeeds _ _)) fun _ => .pure
  obtain ⟨record, w', hrun', hanswers'⟩ := hbytes w hanswers
  have hsurvives : Survives (fun _ => True) (· = d)
      (m.quarantineBytes prims draws originalPath data signatureName) _ :=
    quarantineBytes_survives ⟨hentry, hdata⟩ hready fun _ _ => trivial
  obtain ⟨hintact, -⟩ := (hsurvives w hstate fun _ _ => trivial).2 record w' hrun'
  have hremove : ∃ w'', removeFile originalPath w' = .ok ⟨⟩ w'' ∧
      w''.state = w'.state.unlink originalPath ∧ w''.answers = [] :=
    exists_call_run hanswers' (by rw [Disk.entry, hintact.1]; rfl)
  obtain ⟨w'', hrun'', -⟩ := hremove
  refine ⟨record, w'', ?_⟩
  rw [quarantineFile, bind_run_of_ok (mapErr_run_of_ok hrun), bind_run_of_ok hrun',
    bind_run_of_ok (mapErr_run_of_ok hrun'')]
  rfl

/-- After a file is quarantined, its removal and the new files are as they were written. -/
theorem removed_of_run (hready : m.Ready draws originalPath data d)
    {answers : List (Answer IoError)} {record : QuarantineRecord} {w : World Disk IoError}
    (hrun : m.quarantineFile prims draws originalPath signatureName (World.start d answers) =
      .ok record w) :
    Removed originalPath data w.state ∧ ∃ ciphertext recordText,
      m.Written draws ciphertext recordText w.state := by
  obtain ⟨i, hentry, hdata⟩ := hready.original
  have hsurvives : Survives (fun _ => True) (· = d)
      (m.quarantineFile prims draws originalPath signatureName) _ :=
    quarantineFile_survives ⟨hentry, hdata⟩ hready (fun _ _ => trivial)
      fun _ _ _ _ _ _ _ => trivial
  exact (hsurvives _ rfl fun _ _ => trivial).2 record w hrun

/-- Once a file is quarantined, a crash that keeps its removal and loses the record's entry loses
it. -/
theorem not_recoverable_loses (hremoved : Removed originalPath data d) {recordText : List UInt8}
    (h : m.Written draws ciphertext recordText d) :
    ¬ m.Recoverable prims draws originalPath data signatureName
      (Crash.loses d (m.metaPath (hexEncode draws.id))) := by
  obtain ⟨i, hentry, -⟩ := hremoved
  obtain ⟨k, pieces, hmeta, -, -⟩ := h.record
  have hne : originalPath ≠ m.metaPath (hexEncode draws.id) := by
    rintro rfl
    cases hentry.symm.trans hmeta
  have hgone : (Crash.loses d (m.metaPath (hexEncode draws.id))).read originalPath = none := by
    rw [Crash.read, Crash.entry, Crash.entries_loses_of_ne hne, hentry]
    rfl
  have hlost : (Crash.loses d (m.metaPath (hexEncode draws.id))).read
      (m.metaPath (hexEncode draws.id)) = none := by
    rw [Crash.read, Crash.entry_loses hmeta, Option.map_none]
  rintro (horiginal | ⟨_, _, -, -, -, hrecord⟩)
  · cases hgone.symm.trans horiginal
  · cases hlost.symm.trans hrecord

end ActiveDefense.Clam.QuarantineManager

namespace ActiveDefense.Clam

open QuarantineManager

/-! ## A file of one byte -/

/-- SHA-256 and ChaCha20-Poly1305 at the byte of the file, under the key and nonce below. -/
def samplePrimitives : Primitives where
  sha256 _ := [45, 113, 22, 66, 183, 38, 176, 68, 1, 98, 124, 169, 251, 172, 50, 245, 200, 83, 15,
    177, 144, 60, 196, 219, 2, 37, 135, 23, 146, 26, 72, 129]
  encrypt _ _ _ := some [158, 63, 92, 255, 245, 214, 128, 200, 155, 43, 249, 102, 13, 240, 241, 4,
    242]

def sampleDraws : Draws where
  key := .replicate 32 1
  nonce := .replicate 12 2
  id := .replicate 16 3
  now := "2026-07-15T00:00:00Z".toList

/-- A quarantine directory `q`. -/
def sampleManager : QuarantineManager := ⟨[113]⟩

/-- A disk on which the path `f` names a file that holds the byte `x`. -/
def sampleDisk : Disk where
  entries p := ⟨if p = [102] then some 0 else none, []⟩
  data _ := ⟨[120], []⟩
  nextInode := 1
  allocated := by
    intro p i h
    change (if p = [102] then some 0 else none) = some i at h
    split at h
    · cases h
      exact Nat.one_pos
    · cases h

theorem sampleManager_ready : sampleManager.Ready sampleDraws [102] [120] sampleDisk where
  original := ⟨0, rfl, rfl⟩
  stored_unused := rfl
  meta_unused := rfl

/-- The file is quarantined where nothing is refused. -/
theorem exists_sample_run : ∃ record w,
    sampleManager.quarantineFile samplePrimitives sampleDraws [102] "Eicar".toList
      (World.start sampleDisk []) = .ok record w :=
  exists_quarantineFile_run sampleManager_ready rfl (fromUtf8_utf8 ['f'])

/-! ## What a crash can lose -/

/-- At each crash point of the function, for each answer of the system and each crash: the original
is there, or the ciphertext and the record are, exactly where the crash undoes the removal or loses
nothing of these two files. -/
theorem recoverable_iff (m : QuarantineManager) (prims : Primitives) (draws : Draws)
    (originalPath : PathBuf) (data : List UInt8) (signatureName : Str)
    (answers : List (Answer IoError)) {d₀ d : Disk} (hready : m.Ready draws originalPath data d₀)
    (hd : d ∈ (finalState (m.quarantineFile prims draws originalPath signatureName
      (World.start d₀ answers))).points) (c : Crash d) :
    m.Recoverable prims draws originalPath data signatureName c ↔
      m.Spares draws originalPath c := by
  obtain ⟨i, hentry, hdata⟩ := hready.original
  have hintact : Intact originalPath data i d₀ := ⟨hentry, hdata⟩
  let C (d : Disk) : Prop := ∀ c : Crash d,
    m.Recoverable prims draws originalPath data signatureName c ↔ m.Spares draws originalPath c
  have hrun : Survives C (· = d₀) (m.quarantineFile prims draws originalPath signatureName) _ :=
    quarantineFile_survives hintact hready (fun s hs => recoverable_iff_of_intact hs)
      fun s ciphertext metaJson hcipher htext hgone hkept =>
        recoverable_iff_of_removed hcipher htext hgone hkept
  have hstart : Throughout C (World.start d₀ answers) := by
    intro s hs
    cases List.mem_singleton.mp hs
    exact recoverable_iff_of_intact hintact
  exact (hrun _ rfl hstart).1 d hd c

/-- A crash that keeps everything, after the file is quarantined. -/
theorem recoverable_iff_sample : ∃ d ∈ (finalState (sampleManager.quarantineFile samplePrimitives
      sampleDraws [102] "Eicar".toList (World.start sampleDisk []))).points,
    none ∈ (Crash.keepsAll d).entries [102] ∧
      (sampleManager.Recoverable samplePrimitives sampleDraws [102] [120] "Eicar".toList
          (Crash.keepsAll d) ↔
        sampleManager.Spares sampleDraws [102] (Crash.keepsAll d)) := by
  obtain ⟨record, w, hrun⟩ := exists_sample_run
  obtain ⟨⟨i, hentry, -⟩, -⟩ := removed_of_run sampleManager_ready hrun
  have hpoint : w.state ∈ (finalState (sampleManager.quarantineFile samplePrimitives sampleDraws
      [102] "Eicar".toList (World.start sampleDisk []))).points := by
    rw [hrun]
    exact .head _
  refine ⟨w.state, hpoint, ?_, recoverable_iff _ _ _ _ _ _ _ sampleManager_ready hpoint _⟩
  change none ∈ (w.state.entries [102]).pending
  rw [hentry]
  exact .head _

/-- The record is not synced before the original is removed: after a crash the original can be gone
with the key. -/
theorem not_recoverable :
    ¬ ∀ (m : QuarantineManager) (prims : Primitives) (draws : Draws) (originalPath : PathBuf)
      (data : List UInt8) (signatureName : Str) (answers : List (Answer IoError)) (d₀ d : Disk),
      m.Ready draws originalPath data d₀ →
      d ∈ (finalState (m.quarantineFile prims draws originalPath signatureName
        (World.start d₀ answers))).points →
      ∀ c : Crash d, m.Recoverable prims draws originalPath data signatureName c := by
  intro h
  obtain ⟨record, w, hrun⟩ := exists_sample_run
  obtain ⟨hremoved, ciphertext, recordText, hwritten⟩ := removed_of_run sampleManager_ready hrun
  refine not_recoverable_loses hremoved hwritten (h sampleManager samplePrimitives sampleDraws
    [102] [120] "Eicar".toList [] sampleDisk w.state sampleManager_ready ?_ _)
  rw [hrun]
  exact .head _

end ActiveDefense.Clam
