import ActiveDefense.Clam.QuarantineFile

/-!
# What the quarantine directory holds

The files as they are read while the program runs. Quarantining bytes makes two new files and
changes no other: one holds the ciphertext of the bytes, the other the record with the key
(`quarantineBytes_stores`). Both are written in full before the call returns the record.
-/

namespace ActiveDefense.Clam.QuarantineManager

/-- The drawn id names no file. -/
structure Unused (m : QuarantineManager) (draws : Draws) (d : Disk) : Prop where
  stored : d.read (m.storedPath (hexEncode draws.id)) = none
  record : d.read (m.metaPath (hexEncode draws.id)) = none

/-- No file changed but the two of the drawn id. -/
def ChangesStore (m : QuarantineManager) (draws : Draws) (d s : Disk) : Prop :=
  ∀ p, p ≠ m.storedPath (hexEncode draws.id) → p ≠ m.metaPath (hexEncode draws.id) →
    s.read p = d.read p

/-- The ciphertext of the bytes is stored, and the text of their record. -/
def Holds (m : QuarantineManager) (prims : Primitives) (draws : Draws) (originalPath : PathBuf)
    (data : List UInt8) (signatureName : Str) (d : Disk) : Prop :=
  ∃ ciphertext metaJson, prims.encrypt draws.key draws.nonce data = some ciphertext ∧
    (newRecord prims draws originalPath data signatureName).toStringPretty = some metaJson ∧
    d.read (m.storedPath (hexEncode draws.id)) = some ciphertext ∧
    d.read (m.metaPath (hexEncode draws.id)) = some (utf8 metaJson)

variable {m : QuarantineManager} {prims : Primitives} {draws : Draws} {originalPath p : PathBuf}
  {data : List UInt8} {signatureName : Str} {d s : Disk}

/-- A file that there is is not one of the drawn id. -/
theorem Unused.ne (h : m.Unused draws d) (hp : d.read p ≠ none) :
    p ≠ m.storedPath (hexEncode draws.id) ∧ p ≠ m.metaPath (hexEncode draws.id) := by
  constructor
  · rintro rfl
    exact hp h.stored
  · rintro rfl
    exact hp h.record

/-- What is stored outlasts the removal of another file. -/
theorem Holds.unlink (h : m.Holds prims draws originalPath data signatureName d)
    (hunused : p ≠ m.storedPath (hexEncode draws.id) ∧ p ≠ m.metaPath (hexEncode draws.id)) :
    m.Holds prims draws originalPath data signatureName (d.unlink p) := by
  obtain ⟨ciphertext, metaJson, hcipher, htext, hstored, hmeta⟩ := h
  refine ⟨ciphertext, metaJson, hcipher, htext, ?_, ?_⟩
  · exact (Disk.read_unlink_of_ne hunused.1.symm).trans hstored
  · exact (Disk.read_unlink_of_ne hunused.2.symm).trans hmeta

/-- What `quarantine_bytes` does to the files. -/
theorem quarantineBytes_stores {C : Disk → Prop} (hunused : m.Unused draws d)
    (hC : ∀ s, m.ChangesStore draws d s → C s) :
    Survives C (· = d) (m.quarantineBytes prims draws originalPath data signatureName)
      fun record s => record = newRecord prims draws originalPath data signatureName ∧
        m.ChangesStore draws d s ∧ m.Holds prims draws originalPath data signatureName s := by
  unfold quarantineBytes
  cases hcipher : prims.encrypt draws.key draws.nonce data with
  | none => exact .throw
  | some ciphertext =>
    have hpaths := m.storedPath_ne_metaPath (hexEncode draws.id)
    have hstored (ps : List (List UInt8)) :
        m.ChangesStore draws d (d.newFile (m.storedPath (hexEncode draws.id)) ps) :=
      fun p hp _ => Disk.read_newFile_of_ne hp
    have halloc : m.ChangesStore draws d (d.alloc (m.storedPath (hexEncode draws.id))) := by
      have hnil := hstored []
      rwa [Disk.newFile, Disk.writePieces_nil] at hnil
    refine .bind (.mapErr (File.create_survives (Disk.read_eq_none.mp hunused.stored)
      (hC _ halloc))) fun f => .of_fact ?_
    rintro rfl
    refine .bind (.mapErr (File.writeAll_survives fun ps => hC _ (hstored ps)))
      fun _ => .of_exists fun ps => .of_fact fun hps => ?_
    have hsynced : m.ChangesStore draws d
        ((d.newFile (m.storedPath (hexEncode draws.id)) ps).sync d.nextInode) :=
      fun p hp hp' => Disk.read_sync.trans (hstored ps p hp hp')
    have hread : ((d.newFile (m.storedPath (hexEncode draws.id)) ps).sync d.nextInode).read
        (m.storedPath (hexEncode draws.id)) = some ciphertext :=
      Disk.read_sync.trans (Disk.read_newFile hps)
    have hfree : ((d.newFile (m.storedPath (hexEncode draws.id)) ps).sync d.nextInode).read
        (m.metaPath (hexEncode draws.id)) = none :=
      (Disk.read_sync.trans (Disk.read_newFile_of_ne hpaths.symm)).trans hunused.record
    refine .bind (.mapErr (File.syncAll_survives (hC _ hsynced))) fun _ => ?_
    change Survives C (· = (d.newFile (m.storedPath (hexEncode draws.id)) ps).sync d.nextInode) _ _
    generalize (d.newFile (m.storedPath (hexEncode draws.id)) ps).sync d.nextInode = d' at *
    dsimp only
    cases htext : (newRecord prims draws originalPath data signatureName).toStringPretty with
    | none => exact .throw
    | some metaJson =>
      have hwritten (qs : List (List UInt8)) :
          m.ChangesStore draws d (d'.newFile (m.metaPath (hexEncode draws.id)) qs) :=
        fun p hp hp' => (Disk.read_newFile_of_ne hp').trans (hsynced p hp hp')
      refine .bind (.mapErr (fsWrite_survives (Disk.read_eq_none.mp hfree)
        fun qs => hC _ (hwritten qs))) fun _ => .pure ?_
      rintro s ⟨qs, hqs, rfl⟩
      refine ⟨rfl, hwritten qs, ciphertext, metaJson, hcipher, htext, ?_, Disk.read_newFile hqs⟩
      exact (Disk.read_newFile_of_ne hpaths).trans hread

/-- What `quarantine_file` leaves in the store. -/
theorem quarantineFile_stores (hunused : m.Unused draws d)
    (hread : d.read originalPath = some data) :
    Survives (fun _ => True) (· = d)
      (m.quarantineFile prims draws originalPath signatureName) fun record s =>
        record = newRecord prims draws originalPath data signatureName ∧
          m.ChangesStore draws (d.unlink originalPath) s ∧
          m.Holds prims draws originalPath data signatureName s := by
  refine .bind (.mapErr (fsRead_survives trivial)) fun bytes => .of_fact ?_
  rintro ⟨i, hentry, rfl⟩
  have hdata : d.content i = data := by
    rw [Disk.read, hentry] at hread
    exact Option.some.inj hread
  rw [hdata]
  refine .bind (quarantineBytes_stores hunused fun _ _ => trivial) fun record => .of_states ?_
  rintro s ⟨hrecord, hchanges, hholds⟩
  have hne := hunused.ne (by rw [hread]; exact Option.some_ne_none data)
  refine .bind (.mapErr (removeFile_survives trivial)) fun _ => .pure ?_
  rintro t rfl
  refine ⟨hrecord, fun p hp hp' => ?_, hholds.unlink hne⟩
  by_cases horiginal : p = originalPath
  · rw [horiginal, Disk.read_unlink, Disk.read_unlink]
  · rw [Disk.read_unlink_of_ne horiginal, Disk.read_unlink_of_ne horiginal, hchanges p hp hp']

end ActiveDefense.Clam.QuarantineManager
