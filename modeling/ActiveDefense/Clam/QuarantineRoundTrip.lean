import ActiveDefense.Clam.QuarantineCrash
import ActiveDefense.Clam.QuarantineRestore
import Mathlib.Data.List.ReduceOption

/-!
# A quarantined file, restored

The bytes of a file that was quarantined come back from the store as long as the two files of its id
are as they were left: the record is read as it was written, it is the one that is found, and its
key and nonce open what is stored. One `.json` file in the directory that is not text ends every
search. `sound_iff` says that apart from this, and from the panics, nothing goes wrong.
-/

namespace ActiveDefense.Clam

/-- The draws fill the arrays that they are for. -/
structure Draws.Full (draws : Draws) : Prop where
  key : draws.key.length = keyLen
  nonce : draws.nonce.length = nonceLen
  id : draws.id.length = 16

/-- The cipher opens what it sealed, the record is read as it was written, and a directory that is
there lists its files. -/
structure StoreReader.Lawful (reader : StoreReader) (prims : Primitives) (dir : PathBuf)
    (record : QuarantineRecord) (s : Disk) : Prop where
  decrypts : ∀ key nonce data ciphertext, prims.encrypt key nonce data = some ciphertext →
    reader.decrypt key nonce ciphertext = some data
  parses : ∀ text, record.toStringPretty = some text → reader.fromStr text = some record
  lists : reader.present dir s = true → ∀ name, name ≠ [] → 47 ∉ name →
    s.read (dir.join name) ≠ none → name ∈ reader.readDir dir s

namespace QuarantineManager

variable {m : QuarantineManager} {prims : Primitives} {reader : StoreReader} {id : Str} {d s : Disk}
  {record : QuarantineRecord} {w w' : World Disk IoError} {draws : Draws} {originalPath : PathBuf}
  {data : List UInt8} {signatureName : Str}

/-! ## The file that is restored -/

/-- What is stored for a record, opened. -/
def opened (m : QuarantineManager) (reader : StoreReader) (record : QuarantineRecord) (d : Disk) :
    Option (List UInt8) :=
  (d.read (m.dir.join (utf8 record.storedFilename))).bind fun ciphertext =>
    (openStored reader record ciphertext).toOption

theorem decryptRecord_observes :
    Observes (m.opened reader record) (m.decryptRecord reader record) :=
  (fsRead_observes _).mapErr.bind fun _ => .ofExcept

/-- Where a restore succeeds, the file is what is stored for the record that is found. -/
theorem restore_run_of_ok {restoreTo : Option PathBuf} {dest : PathBuf}
    (h : m.restore reader id restoreTo w = .ok dest w') :
    ∃ record data, m.found reader id w.state = some record ∧
      m.opened reader record w.state = some data ∧
      dest = restoreTo.getD record.originalPath ∧ w'.state.read dest = some data := by
  obtain ⟨record, u, hfind, h⟩ := exists_of_bind_ok h
  obtain ⟨hu, hfound⟩ := findRecord_observes.mapErr.of_ok hfind
  obtain ⟨data, u', hdecrypt, h⟩ := exists_of_bind_ok h
  have hopened := (decryptRecord_observes.of_ok hdecrypt).2
  rw [hu] at hopened
  obtain ⟨_, v, -, h⟩ := exists_of_bind_ok h
  obtain ⟨_, v', hwrite, h⟩ := exists_of_bind_ok h
  cases h
  refine ⟨record, data, hfound, hopened, rfl, ?_⟩
  exact (fsWrite_writes v trivial fun _ _ => trivial).2 _ _ (exists_of_mapErr_ok hwrite)

/-- Where no call is refused, what is found and opened is restored. -/
theorem exists_restore_run {data : List UInt8} (restoreTo : Option PathBuf)
    (hfound : m.found reader id d = some record) (hopened : m.opened reader record d = some data) :
    ∃ dest w, m.restore reader id restoreTo (World.start d []) = .ok dest w := by
  obtain ⟨u, hfind, hu, hanswers⟩ := findRecord_observes.exists_run
    (w := World.start d []) rfl hfound
  have hopened' : m.opened reader record u.state = some data := by
    rw [hu]
    exact hopened
  obtain ⟨u', hdecrypt, -, hanswers'⟩ := decryptRecord_observes.exists_run hanswers hopened'
  have hparent : Succeeds ((restoreTo.getD record.originalPath).parent.forM fun parent =>
      mapErr (fun e => .error (.io parent e)) (createDirAll parent) : Restoring PUnit) := by
    cases (restoreTo.getD record.originalPath).parent with
    | none => exact .pure
    | some parent => exact .mapErr (.call fun s => ⟨_, _, rfl⟩)
  obtain ⟨_, v, hcreate, hv⟩ := hparent u' hanswers'
  obtain ⟨_, v', hwrite, -⟩ := fsWrite_succeeds (restoreTo.getD record.originalPath) data v hv
  refine ⟨restoreTo.getD record.originalPath, v', ?_⟩
  unfold restore
  rw [bind_run_of_ok (mapErr_run_of_ok hfind), bind_run_of_ok hdecrypt]
  rw [bind_run_of_ok hcreate, bind_run_of_ok (mapErr_run_of_ok hwrite)]
  rfl

/-- A restore gives back the bytes at the path that is asked for, else at the original one, and
where no call is refused there is one. -/
def RoundTrips (m : QuarantineManager) (reader : StoreReader) (id : Str) (originalPath : PathBuf)
    (data : List UInt8) (s : Disk) : Prop :=
  (∀ restoreTo answers dest w,
    m.restore reader id restoreTo (World.start s answers) = .ok dest w →
      dest = restoreTo.getD originalPath ∧ w.state.read dest = some data) ∧
  ∀ restoreTo, ∃ dest w, m.restore reader id restoreTo (World.start s []) = .ok dest w

/-- The directory is there, and each `.json` file in it is text. -/
def Readable (m : QuarantineManager) (reader : StoreReader) (s : Disk) : Prop :=
  reader.present m.dir s = true ∧ ∀ name ∈ reader.readDir m.dir s,
    PathBuf.extension name = some (utf8 "json".toList) →
      ((s.read (m.dir.join name)).bind fromUtf8).isSome

/-- No other record in the directory has the id. -/
def Alone (m : QuarantineManager) (reader : StoreReader) (record : QuarantineRecord) (s : Disk) :
    Prop :=
  ∀ name ∈ reader.readDir m.dir s, ∀ r, m.recordAt reader name s = some (some r) →
    r.id = record.id → r = record

/-- A file was quarantined, and its two files in the store are as they were left. -/
structure Quarantined (m : QuarantineManager) (prims : Primitives) (draws : Draws)
    (originalPath : PathBuf) (data : List UInt8) (signatureName : Str) (record : QuarantineRecord)
    (s : Disk) : Prop where
  run : ∃ d answers w, m.Unused draws d ∧ d.read originalPath = some data ∧
    m.quarantineFile prims draws originalPath signatureName (World.start d answers) =
      .ok record w ∧
    s.read (m.storedPath (hexEncode draws.id)) = w.state.read (m.storedPath (hexEncode draws.id)) ∧
    s.read (m.metaPath (hexEncode draws.id)) = w.state.read (m.metaPath (hexEncode draws.id))

theorem Quarantined.holds
    (h : m.Quarantined prims draws originalPath data signatureName record s) :
    record = newRecord prims draws originalPath data signatureName ∧
      m.Holds prims draws originalPath data signatureName s := by
  obtain ⟨d, answers, w, hunused, hread, hrun, hstored, hmeta⟩ := h.run
  have hstores : Survives (fun _ => True) (· = d)
      (m.quarantineFile prims draws originalPath signatureName) _ :=
    quarantineFile_stores hunused hread
  obtain ⟨hrecord, -, ciphertext, metaJson, hcipher, htext, hkept, hkept'⟩ :=
    (hstores (World.start d answers) rfl fun _ _ => trivial).2 record w hrun
  exact ⟨hrecord, ciphertext, metaJson, hcipher, htext, hstored.trans hkept, hmeta.trans hkept'⟩

/-- The new record is opened to the bytes of the file. -/
theorem Holds.opened (h : m.Holds prims draws originalPath data signatureName s)
    (hkey : draws.key.length = keyLen) (hnonce : draws.nonce.length = nonceLen)
    (hdecrypts : ∀ ciphertext, prims.encrypt draws.key draws.nonce data = some ciphertext →
      reader.decrypt draws.key draws.nonce ciphertext = some data) :
    m.opened reader (newRecord prims draws originalPath data signatureName) s = some data := by
  obtain ⟨ciphertext, metaJson, hcipher, -, hstored, -⟩ := h
  have hopen :
      openStored reader (newRecord prims draws originalPath data signatureName) ciphertext =
        .ok data := by
    unfold openStored newRecord
    rw [hexDecode_hexEncode, hexDecode_hexEncode]
    exact (decryptWith_of_length hkey hnonce).trans (by rw [hdecrypts ciphertext hcipher])
  unfold QuarantineManager.opened
  change (s.read (m.storedPath (hexEncode draws.id))).bind _ = _
  rw [hstored, Option.bind_some, hopen]
  rfl

/-- The name of the record's file. -/
theorem extension_metaName (hid : draws.id ≠ []) :
    PathBuf.extension (utf8 (hexEncode draws.id ++ ".json".toList)) =
      some (utf8 "json".toList) := by
  rw [utf8_append]
  refine PathBuf.extension_append ?_ (by decide)
  obtain ⟨b, rest, hcons⟩ := List.exists_cons_of_ne_nil hid
  obtain ⟨hi, lo, htext, -⟩ := exists_utf8_hexEncode_cons b rest 0
  rw [hcons, htext]
  exact List.cons_ne_nil _ _

/-- The record of the file is in the directory. -/
theorem Holds.recordAt (h : m.Holds prims draws originalPath data signatureName s)
    (hid : draws.id ≠ [])
    (hparses : ∀ text,
      (newRecord prims draws originalPath data signatureName).toStringPretty = some text →
        reader.fromStr text = some (newRecord prims draws originalPath data signatureName)) :
    m.recordAt reader (utf8 (hexEncode draws.id ++ ".json".toList)) s =
      some (some (newRecord prims draws originalPath data signatureName)) := by
  obtain ⟨ciphertext, metaJson, -, htext, -, hmeta⟩ := h
  unfold QuarantineManager.recordAt
  rw [if_pos (extension_metaName hid)]
  change ((s.read (m.metaPath (hexEncode draws.id))).bind fromUtf8).map reader.fromStr = _
  rw [hmeta, Option.bind_some, fromUtf8_utf8, Option.map_some, hparses metaJson htext]

/-- Where the directory cannot be read, nothing is found. -/
theorem readable_of_found (h : m.found reader id s = some record) : m.Readable reader s := by
  unfold found listed at h
  split at h
  · next hpresent =>
    refine ⟨hpresent, fun name hname hjson => ?_⟩
    split at h
    · next hall =>
      have hsome := hall name hname
      unfold recordAt at hsome
      rwa [if_pos hjson, Option.isSome_map] at hsome
    · cases h
  · cases h

/-- A record that is alone in a directory which can be read is found. -/
theorem found_of_readable {name : List UInt8} (h : m.Readable reader s)
    (hname : name ∈ reader.readDir m.dir s)
    (hrecord : m.recordAt reader name s = some (some record))
    (halone : m.Alone reader record s) : m.found reader record.id s = some record := by
  have hall : ∀ name ∈ reader.readDir m.dir s, (m.recordAt reader name s).isSome := by
    intro name hname
    unfold recordAt
    split
    · next hjson =>
      rw [Option.isSome_map]
      exact h.2 name hname hjson
    · rfl
  have hmem (r : QuarantineRecord) : r ∈ sortNewest reader
      ((reader.readDir m.dir s).filterMap (m.recordAt reader · s)).reduceOption ↔
        ∃ name ∈ reader.readDir m.dir s, m.recordAt reader name s = some (some r) := by
    rw [sortNewest, List.mem_mergeSort, List.reduceOption_mem_iff, List.mem_filterMap]
  unfold found listed
  rw [if_pos h.1, if_pos hall, Option.bind_some]
  generalize sortNewest reader _ = records at hmem
  cases hfind : records.find? fun r => r.id = record.id with
  | none =>
    have hnone := List.find?_eq_none.mp hfind record ((hmem record).mpr ⟨name, hname, hrecord⟩)
    exact absurd (decide_eq_true rfl) hnone
  | some r =>
    obtain ⟨name, hname, hr⟩ := (hmem r).mp (List.mem_of_find?_eq_some hfind)
    have hid := List.find?_some hfind
    rw [halone name hname r hr (of_decide_eq_true hid)]

theorem slash_not_mem_metaName : (47 : UInt8) ∉ utf8 (hexEncode draws.id ++ ".json".toList) := by
  refine not_mem_utf8 (a := '/') (by decide) rfl fun h => ?_
  rcases List.mem_append.mp h with h | h
  · obtain ⟨n, hn, hslash⟩ := exists_of_mem_hexEncode h
    revert hslash
    revert n
    decide
  · exact absurd h (by decide)

/-- A quarantined file can be restored if and only if the directory can be read. -/
theorem roundTrips_iff_readable
    (hq : m.Quarantined prims draws originalPath data signatureName record s) (hdraws : draws.Full)
    (hlaws : reader.Lawful prims m.dir record s) (halone : m.Alone reader record s) :
    m.RoundTrips reader record.id originalPath data s ↔ m.Readable reader s := by
  obtain ⟨hrecord, hholds⟩ := hq.holds
  have hid : draws.id ≠ [] := List.ne_nil_of_length_pos (by rw [hdraws.id]; decide)
  have hopened : m.opened reader record s = some data := by
    rw [hrecord]
    exact hholds.opened hdraws.key hdraws.nonce fun ciphertext =>
      hlaws.decrypts draws.key draws.nonce data ciphertext
  have hpath : record.originalPath = originalPath := by
    rw [hrecord]
    rfl
  constructor
  · intro h
    obtain ⟨dest, w, hrun⟩ := h.2 none
    obtain ⟨r, _, hfound, -⟩ := restore_run_of_ok hrun
    exact readable_of_found hfound
  · intro h
    have hat : m.recordAt reader _ s = _ :=
      hholds.recordAt hid (by rw [← hrecord]; exact hlaws.parses)
    rw [← hrecord] at hat
    have hexists : s.read (m.dir.join (utf8 (hexEncode draws.id ++ ".json".toList))) ≠ none := by
      obtain ⟨_, _, -, -, -, hmeta⟩ := hholds
      exact fun hnone => Option.some_ne_none _ (hmeta.symm.trans hnone)
    have hname : utf8 (hexEncode draws.id ++ ".json".toList) ≠ [] := by
      rw [utf8_append]
      exact List.append_ne_nil_of_right_ne_nil _ (by decide)
    have hfound := found_of_readable h
      (hlaws.lists h.1 _ hname slash_not_mem_metaName hexists) hat halone
    refine ⟨fun restoreTo answers dest w hrun => ?_, fun restoreTo =>
      exists_restore_run restoreTo hfound hopened⟩
    obtain ⟨r, bytes, hfound', hopened', hdest, hread⟩ := restore_run_of_ok hrun
    cases hfound.symm.trans hfound'
    cases hopened.symm.trans hopened'
    rw [hpath] at hdest
    exact ⟨hdest, hread⟩

/-! ## What restoring comes to -/

/-- Restoring and verifying do not panic if and only if the record that is found has the lengths of
the cipher, and a quarantined file is restored if and only if the directory can be read. -/
theorem sound_iff (m : QuarantineManager) (prims : Primitives) (reader : StoreReader) :
    (∀ d id, m.NeverPanics prims reader d id ↔ m.Openable reader d id) ∧
      ∀ draws originalPath data signatureName record s,
        m.Quarantined prims draws originalPath data signatureName record s → draws.Full →
        reader.Lawful prims m.dir record s → m.Alone reader record s →
          (m.RoundTrips reader record.id originalPath data s ↔ m.Readable reader s) :=
  ⟨fun _ _ => neverPanics_iff_openable,
    fun _ _ _ _ _ _ => roundTrips_iff_readable⟩

/-- The primitives at the one file, under its key and nonce. -/
def singlePrimitives : Primitives where
  sha256 := samplePrimitives.sha256
  encrypt key nonce data :=
    if key = sampleDraws.key ∧ nonce = sampleDraws.nonce ∧ data = [120] then
      samplePrimitives.encrypt key nonce data
    else none

/-- The names of the two files. -/
def sampleNames : List (List UInt8) :=
  [utf8 (storedFilename (hexEncode sampleDraws.id)),
    utf8 (hexEncode sampleDraws.id ++ ".json".toList)]

/-- A reader of a store with these names in it and this one record. -/
def singleReader (names : List (List UInt8)) (record : QuarantineRecord) : StoreReader where
  decrypt key nonce ciphertext :=
    if key = sampleDraws.key ∧ nonce = sampleDraws.nonce ∧
        samplePrimitives.encrypt key nonce [120] = some ciphertext then
      some [120]
    else none
  fromStr text := if record.toStringPretty = some text then some record else none
  instant _ := 0
  present _ _ := true
  readDir _ _ := names
  hexText _ := []

theorem eq_of_recordAt_singleReader {names : List (List UInt8)} {name : List UInt8}
    {record r : QuarantineRecord} {s : Disk}
    (h : m.recordAt (singleReader names record) name s = some (some r)) : r = record := by
  unfold recordAt at h
  split at h
  · obtain ⟨text, -, htext⟩ := Option.map_eq_some_iff.mp h
    unfold singleReader at htext
    dsimp only at htext
    split at htext
    · exact (Option.some.inj htext).symm
    · cases htext
  · cases h

/-- Only the two files are in the directory. -/
theorem mem_sampleNames {s : Disk}
    (hchanges : sampleManager.ChangesStore sampleDraws (sampleDisk.unlink [102]) s)
    {name : List UInt8} (hname : 47 ∉ name) (hread : s.read (sampleManager.dir.join name) ≠ none) :
    name ∈ sampleNames := by
  refine Classical.byContradiction fun hmem => hread ?_
  have hne {q : List UInt8} (hq : q ∈ sampleNames) (hslash : 47 ∉ q) :
      sampleManager.dir.join name ≠ sampleManager.dir.join q := by
    intro h
    exact hmem (PathBuf.join_inj_of_not_mem hname hslash h ▸ hq)
  have hfirst : sampleManager.dir.join name ≠ [102] := by
    intro h
    have hhead : (sampleManager.dir.join name).head? = some 113 := by
      have hrelative : name.head? ≠ some 47 := fun hhead => hname (List.mem_of_mem_head? hhead)
      unfold PathBuf.join
      rw [if_neg hrelative]
      rfl
    rw [h] at hhead
    exact absurd hhead (by decide)
  rw [hchanges _ (hne (.head _) (by decide))
    (hne (.tail _ (.head _)) slash_not_mem_metaName), Disk.read_unlink_of_ne hfirst,
    Disk.read_eq_none]
  exact congrArg (fun e => Cached.value relink ⟨e, []⟩) (if_neg hfirst)

theorem singleReader_lawful {record : QuarantineRecord} {s : Disk}
    (hchanges : sampleManager.ChangesStore sampleDraws (sampleDisk.unlink [102]) s) :
    (singleReader sampleNames record).Lawful singlePrimitives sampleManager.dir record s where
  decrypts key nonce data ciphertext h := by
    unfold singlePrimitives at h
    dsimp only at h
    split at h
    · next hsealed =>
      obtain ⟨hkey, hnonce, rfl⟩ := hsealed
      exact if_pos ⟨hkey, hnonce, h⟩
    · cases h
  parses text h := if_pos h
  lists _ name _ hname hread := mem_sampleNames hchanges hname hread

/-- It is readable where the record is. -/
theorem singleReader_readable {record : QuarantineRecord} {s : Disk} {text : Str}
    (hmeta : s.read (sampleManager.metaPath (hexEncode sampleDraws.id)) = some (utf8 text)) :
    sampleManager.Readable (singleReader sampleNames record) s := by
  refine ⟨rfl, fun name hname hjson => ?_⟩
  rcases List.mem_cons.mp hname with rfl | hname
  · exact absurd hjson (by decide)
  · rw [List.mem_singleton.mp hname]
    change ((s.read (sampleManager.metaPath (hexEncode sampleDraws.id))).bind fromUtf8).isSome
    rw [hmeta, Option.bind_some, fromUtf8_utf8]
    rfl

/-- The file of one byte is restored after it is quarantined. -/
theorem sound_iff_sample : ∃ record w,
    sampleManager.quarantineFile singlePrimitives sampleDraws [102] "Eicar".toList
      (World.start sampleDisk []) = .ok record w ∧
    sampleManager.RoundTrips (singleReader sampleNames record) record.id [102] [120] w.state := by
  have hcipher : singlePrimitives.encrypt sampleDraws.key sampleDraws.nonce [120] =
      samplePrimitives.encrypt sampleDraws.key sampleDraws.nonce [120] := by
    unfold singlePrimitives
    dsimp only
    exact if_pos ⟨rfl, rfl, rfl⟩
  have hrun : ∃ record w,
      sampleManager.quarantineFile singlePrimitives sampleDraws [102] "Eicar".toList
        (World.start sampleDisk []) = .ok record w :=
    exists_quarantineFile_run sampleManager_ready hcipher (fromUtf8_utf8 ['f'])
  obtain ⟨record, w, hrun⟩ := hrun
  have hunused : sampleManager.Unused sampleDraws sampleDisk := ⟨rfl, rfl⟩
  obtain ⟨-, hchanges, _, metaJson, -, -, -, hmeta⟩ :=
    (quarantineFile_stores hunused rfl (World.start sampleDisk []) rfl fun _ _ => trivial).2
      record w hrun
  refine ⟨record, w, hrun, ((sound_iff sampleManager singlePrimitives _).2 sampleDraws [102] [120]
    "Eicar".toList record w.state ⟨sampleDisk, [], w, hunused, rfl, hrun, rfl, rfl⟩ ⟨rfl, rfl, rfl⟩
    (singleReader_lawful hchanges) ?_).mpr (singleReader_readable hmeta)⟩
  exact fun name _ r hr _ => eq_of_recordAt_singleReader hr

/-- The record of the file, with a key that is cut to its first byte. -/
def shortRecord : QuarantineRecord where
  __ := newRecord samplePrimitives sampleDraws [102] [120] "Eicar".toList
  keyHex := "01".toList

/-- The store with this record. -/
def shortDisk : Disk where
  entries p := ⟨if p = sampleManager.metaPath (hexEncode sampleDraws.id) then some 0
    else if p = sampleManager.storedPath (hexEncode sampleDraws.id) then some 1 else none, []⟩
  data i := ⟨if i = 0 then utf8 (shortRecord.toStringPretty.getD []) else
    (samplePrimitives.encrypt sampleDraws.key sampleDraws.nonce [120]).getD [], []⟩
  nextInode := 2
  allocated p i h := by
    change (if p = sampleManager.metaPath (hexEncode sampleDraws.id) then some 0
      else if p = sampleManager.storedPath (hexEncode sampleDraws.id) then some 1
      else none) = some i at h
    split at h
    · cases h
      exact Nat.two_pos
    · split at h
      · cases h
        exact Nat.one_lt_two
      · cases h

/-- A record whose key is of another length is opened with a panic. -/
theorem not_sound : ¬ sampleManager.NeverPanics singlePrimitives
    (singleReader sampleNames shortRecord) shortDisk shortRecord.id := by
  have htext : ∃ text, shortRecord.toStringPretty = some text := by
    rw [QuarantineRecord.toStringPretty]
    exact ⟨_, congrArg (Option.map _) (fromUtf8_utf8 ['f'])⟩
  obtain ⟨text, htext⟩ := htext
  have hmeta : shortDisk.read (sampleManager.metaPath (hexEncode sampleDraws.id)) =
      some (utf8 text) := by
    have hentry : shortDisk.entry (sampleManager.metaPath (hexEncode sampleDraws.id)) = some 0 :=
      congrArg (fun e => Cached.value relink ⟨e, []⟩) (if_pos rfl)
    rw [Disk.read, hentry]
    exact congrArg (fun t : Option Str => some (utf8 (t.getD []))) htext
  have hstored : shortDisk.read (sampleManager.dir.join (utf8 shortRecord.storedFilename)) ≠
      none := by
    have hentry : shortDisk.entry (sampleManager.storedPath (hexEncode sampleDraws.id)) = some 1 :=
      congrArg (fun e => Cached.value relink ⟨e, []⟩)
        ((if_neg (sampleManager.storedPath_ne_metaPath _)).trans (if_pos rfl))
    exact fun hnone => Option.some_ne_none _ (hentry.symm.trans (Disk.read_eq_none.mp hnone))
  have hat : sampleManager.recordAt (singleReader sampleNames shortRecord)
      (utf8 (hexEncode sampleDraws.id ++ ".json".toList)) shortDisk = some (some shortRecord) := by
    unfold recordAt
    rw [if_pos (extension_metaName (by decide))]
    change ((shortDisk.read (sampleManager.metaPath (hexEncode sampleDraws.id))).bind
      fromUtf8).map _ = _
    rw [hmeta, Option.bind_some, fromUtf8_utf8, Option.map_some]
    exact congrArg some (if_pos htext)
  have hfound := found_of_readable (singleReader_readable hmeta) (.tail _ (.head _)) hat
    fun name _ r hr _ => eq_of_recordAt_singleReader hr
  intro hnever
  have hsized := neverPanics_iff_openable.mp hnever shortRecord hfound hstored
  have hnonce : hexDecode (utf8 shortRecord.nonceHex) = .ok sampleDraws.nonce :=
    hexDecode_hexEncode sampleDraws.nonce
  exact absurd (hsized [1] sampleDraws.nonce rfl hnonce).1 (by decide)

end QuarantineManager

end ActiveDefense.Clam
