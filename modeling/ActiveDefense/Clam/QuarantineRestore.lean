import ActiveDefense.Clam.QuarantineStore
import ActiveDefense.Rust.Tree

/-!
# Restoring a file

`restore` and `verify` look for the record of an id among the `.json` files of the directory, and
open what is stored under the key and the nonce of the record. A key or a nonce that is not
hexadecimal is an error, but one of another length than the cipher takes is a panic
(`neverPanics_iff_openable`).
-/

namespace ActiveDefense.Clam

open QuarantineManager

/-- How a call ends without a result: with an error, or by the panic of `from_slice`. -/
inductive Fault where
  | error (e : QuarantineError)
  | panic
deriving DecidableEq, Repr

/-- What reading the store rests on: the cipher, `serde_json::from_str` of a record, the instant
that a text of `quarantined_at` stands for, whether there is a directory and the names in it, and
the `Display` of an error of `hex`. -/
structure StoreReader where
  decrypt : List UInt8 → List UInt8 → List UInt8 → Option (List UInt8)
  fromStr : Str → Option QuarantineRecord
  instant : Str → Int
  present : PathBuf → Disk → Bool
  readDir : PathBuf → Disk → List (List UInt8)
  hexText : FromHexError → Str

/-- `GenericArray::from_slice`. -/
def fromSlice (len : Nat) (bytes : List UInt8) : Except Fault (List UInt8) :=
  if bytes.length = len then .ok bytes else .error .panic

/-- The length of a key of ChaCha20-Poly1305. -/
def keyLen : Nat := 32

/-- The length of a nonce. -/
def nonceLen : Nat := 12

/-- Where the key and the nonce of the record are hexadecimal, they have the lengths of the
cipher. -/
def QuarantineRecord.Sized (r : QuarantineRecord) : Prop :=
  ∀ key nonce, hexDecode (utf8 r.keyHex) = .ok key → hexDecode (utf8 r.nonceHex) = .ok nonce →
    key.length = keyLen ∧ nonce.length = nonceLen

namespace QuarantineManager

/-- The computations that can panic. -/
abbrev Restoring (α : Type) := EStateM Fault (World Disk IoError) α

/-- A turn of the loop of `list`: an entry, and the record that is in it. -/
def readEntry (m : QuarantineManager) (reader : StoreReader) (entry : List UInt8) :
    Quarantine (Option QuarantineRecord) := do
  let name ← mapErr (.io m.dir) (call fun _ d => .ok (entry, d))
  if PathBuf.extension name = some (utf8 "json".toList) then
    let path := m.dir.join name
    let content ← mapErr (.io path) (readToString path)
    return reader.fromStr content
  else return none

/-- `sort_by` the instant, the last first. -/
def sortNewest (reader : StoreReader) (records : List QuarantineRecord) : List QuarantineRecord :=
  records.mergeSort fun a b =>
    decide (reader.instant b.quarantinedAt ≤ reader.instant a.quarantinedAt)

/-- `list`. -/
def list (m : QuarantineManager) (reader : StoreReader) : Quarantine (List QuarantineRecord) := do
  -- `exists` is false where it cannot tell
  let present ← attempt (call fun _ d => .ok (reader.present m.dir d, d))
  if present.toOption = some true then
    let entries ← mapErr (.io m.dir) (call fun _ d => .ok (reader.readDir m.dir d, d))
    let out ← entries.mapM (m.readEntry reader)
    return sortNewest reader out.reduceOption
  else return []

/-- `find_record`. -/
def findRecord (m : QuarantineManager) (reader : StoreReader) (id : Str) :
    Quarantine QuarantineRecord := do
  let records ← m.list reader
  match records.find? fun r => r.id = id with
  | some record => return record
  | none => throw (.notFound id)

/-- What `decrypt_record` does with the bytes of a key and a nonce. -/
def decryptWith (reader : StoreReader) (record : QuarantineRecord)
    (keyBytes nonceBytes ciphertext : List UInt8) : Except Fault (List UInt8) := do
  let key ← fromSlice keyLen keyBytes
  let nonce ← fromSlice nonceLen nonceBytes
  match reader.decrypt key nonce ciphertext with
  | some data => .ok data
  | none => .error (.error (.integrityCheckFailed record.id))

/-- What `decrypt_record` does with what is stored. -/
def openStored (reader : StoreReader) (record : QuarantineRecord) (ciphertext : List UInt8) :
    Except Fault (List UInt8) := do
  let keyBytes ← (hexDecode (utf8 record.keyHex)).mapError fun e =>
    .error (.store ("corrupt key for ".toList ++ record.id ++ ": ".toList ++ reader.hexText e))
  let nonceBytes ← (hexDecode (utf8 record.nonceHex)).mapError fun e =>
    .error (.store ("corrupt nonce for ".toList ++ record.id ++ ": ".toList ++ reader.hexText e))
  decryptWith reader record keyBytes nonceBytes ciphertext

/-- `decrypt_record`. -/
def decryptRecord (m : QuarantineManager) (reader : StoreReader) (record : QuarantineRecord) :
    Restoring (List UInt8) := do
  let storedPath := m.dir.join (utf8 record.storedFilename)
  let ciphertext ← mapErr (fun e => .error (.io storedPath e)) (fsRead storedPath)
  ofExcept (openStored reader record ciphertext)

/-- `restore`. -/
def restore (m : QuarantineManager) (reader : StoreReader) (id : Str)
    (restoreTo : Option PathBuf) : Restoring PathBuf := do
  let record ← mapErr .error (m.findRecord reader id)
  let data ← m.decryptRecord reader record
  let dest := restoreTo.getD record.originalPath
  (dest.parent).forM fun parent =>
    mapErr (fun e => .error (.io parent e)) (createDirAll parent)
  mapErr (fun e => .error (.io dest e)) (fsWrite dest data)
  return dest

/-- `verify`. -/
def verify (m : QuarantineManager) (prims : Primitives) (reader : StoreReader) (id : Str) :
    Restoring PUnit := do
  let record ← mapErr .error (m.findRecord reader id)
  let data ← m.decryptRecord reader record
  let actualSha256 := sha256Hex prims data
  if actualSha256 ≠ record.sha256 then throw (.error (.integrityCheckFailed id))

/-! ## What is found -/

/-- What a turn of the loop of `list` finds for an entry; `none` is an error. -/
def recordAt (m : QuarantineManager) (reader : StoreReader) (name : List UInt8) (d : Disk) :
    Option (Option QuarantineRecord) :=
  if PathBuf.extension name = some (utf8 "json".toList) then
    ((d.read (m.dir.join name)).bind fromUtf8).map reader.fromStr
  else some none

/-- The records in the directory. -/
def listed (m : QuarantineManager) (reader : StoreReader) (d : Disk) :
    Option (List QuarantineRecord) :=
  if ∀ name ∈ reader.readDir m.dir d, (m.recordAt reader name d).isSome then
    some (sortNewest reader
      ((reader.readDir m.dir d).filterMap (m.recordAt reader · d)).reduceOption)
  else none

/-- The record of an id. -/
def found (m : QuarantineManager) (reader : StoreReader) (id : Str) (d : Disk) :
    Option QuarantineRecord :=
  if reader.present m.dir d then (m.listed reader d).bind (·.find? fun r => r.id = id) else none

variable {m : QuarantineManager} {prims : Primitives} {reader : StoreReader} {id : Str} {d : Disk}
  {record : QuarantineRecord} {w w' : World Disk IoError}

theorem present_observes : Observes (fun s => some (reader.present m.dir s))
    (call fun _ d => .ok (reader.present m.dir d, d) : Io Bool) :=
  .call fun most s a t => by simp [eq_comm]

theorem readEntry_observes (entry : List UInt8) :
    Observes (m.recordAt reader entry) (m.readEntry reader entry) := by
  have hentry : Observes (fun _ => some entry) (mapErr (.io m.dir)
      (call fun _ d => .ok (entry, d)) : Quarantine (List UInt8)) :=
    .mapErr (.call fun most s a t => by simp [eq_comm])
  have hrecord (name : List UInt8) : Observes (m.recordAt reader name)
      (if PathBuf.extension name = some (utf8 "json".toList) then do
        let content ← mapErr (.io (m.dir.join name)) (readToString (m.dir.join name))
        return reader.fromStr content
      else return none : Quarantine (Option QuarantineRecord)) := by
    unfold recordAt
    split
    · exact (Observes.bind (.mapErr (readToString_observes _)) fun content => .pure).congr
        fun s => Option.map_eq_bind
    · exact .pure
  exact hentry.bind hrecord

theorem entries_observes : Observes (m.listed reader) (do
    let entries ← mapErr (.io m.dir) (call fun _ d => .ok (reader.readDir m.dir d, d))
    let out ← entries.mapM (m.readEntry reader)
    return sortNewest reader out.reduceOption : Quarantine (List QuarantineRecord)) := by
  refine (Observes.bind (v := fun s => some (reader.readDir m.dir s))
    (.mapErr (.call fun most s a t => by simp [eq_comm])) fun entries =>
      (Observes.mapM m.readEntry_observes entries).bind
        fun out => .pure).congr fun s => ?_
  unfold listed
  rw [Option.bind_some]
  split <;> rfl

/-- `find_record` finds it. -/
theorem findRecord_observes : Observes (m.found reader id) (m.findRecord reader id) where
  of_ok {w record w'} hrun := by
    obtain ⟨records, u, hlist, hrest⟩ := exists_of_bind_ok hrun
    obtain ⟨present, u₀, hpresent, hlist⟩ := exists_of_bind_ok hlist
    obtain ⟨hu₀, hdir⟩ := present_observes.of_attempt hpresent
    have hfirst : records.find? (fun r => r.id = id) = some record ∧ w' = u := by
      cases hfind : records.find? fun r => r.id = id with
      | none =>
        rw [hfind] at hrest
        cases hrest
      | some r =>
        rw [hfind] at hrest
        cases hrest
        exact ⟨rfl, rfl⟩
    obtain ⟨hfind, rfl⟩ := hfirst
    split at hlist
    · next htrue =>
      obtain ⟨hstate, hlisted⟩ := entries_observes.of_ok hlist
      rw [hu₀] at hstate hlisted
      have hthere : reader.present m.dir w.state = true := by
        cases present with
        | ok b =>
          cases Option.some.inj htrue
          exact Option.some.inj (hdir true rfl)
        | error e => cases htrue
      refine ⟨hstate, ?_⟩
      rw [found, if_pos hthere, hlisted, Option.bind_some, hfind]
    · -- no record is found in a directory that is not there
      cases hlist
      cases hfind
  exists_run {w record} hw hfound := by
    unfold found at hfound
    split at hfound
    · next hthere =>
      obtain ⟨records, hlisted, hfind⟩ := Option.bind_eq_some_iff.mp hfound
      obtain ⟨u₀, hpresent, hu₀, hanswers⟩ :=
        present_observes.exists_run hw (congrArg some hthere)
      rw [← hu₀] at hlisted
      obtain ⟨u, hlist, hu, hanswers'⟩ := entries_observes.exists_run hanswers hlisted
      refine ⟨u, ?_, hu.trans hu₀, hanswers'⟩
      have hrun : m.list reader w = .ok records u := by
        rw [list, bind_run_of_ok (attempt_run_of_ok hpresent)]
        exact hlist
      rw [findRecord, bind_run_of_ok hrun, hfind]
      rfl
    · cases hfound

/-! ## What panics -/

/-- No call for the id panics, whatever the system answers. -/
def NeverPanics (m : QuarantineManager) (prims : Primitives) (reader : StoreReader) (d : Disk)
    (id : Str) : Prop :=
  ∀ answers, (∀ restoreTo w, m.restore reader id restoreTo (World.start d answers) ≠
      .error .panic w) ∧
    ∀ w, m.verify prims reader id (World.start d answers) ≠ .error .panic w

/-- If something is stored for the record of the id, the record has the lengths of the cipher. -/
def Openable (m : QuarantineManager) (reader : StoreReader) (d : Disk) (id : Str) : Prop :=
  ∀ record, m.found reader id d = some record →
    d.read (m.dir.join (utf8 record.storedFilename)) ≠ none → record.Sized

theorem decryptWith_of_length {key nonce ciphertext : List UInt8} (hkey : key.length = keyLen)
    (hnonce : nonce.length = nonceLen) :
    decryptWith reader record key nonce ciphertext =
      match reader.decrypt key nonce ciphertext with
      | some data => .ok data
      | none => .error (.error (.integrityCheckFailed record.id)) := by
  rw [decryptWith, fromSlice, fromSlice, if_pos hkey, if_pos hnonce]
  rfl

theorem decryptWith_eq_panic_iff {key nonce ciphertext : List UInt8} :
    decryptWith reader record key nonce ciphertext = .error .panic ↔
      ¬ (key.length = keyLen ∧ nonce.length = nonceLen) := by
  by_cases hkey : key.length = keyLen
  · by_cases hnonce : nonce.length = nonceLen
    · rw [decryptWith_of_length hkey hnonce]
      refine iff_of_false (fun h => ?_) (not_not.mpr ⟨hkey, hnonce⟩)
      split at h <;> cases h
    · rw [decryptWith, fromSlice, fromSlice, if_pos hkey, if_neg hnonce]
      exact iff_of_true rfl fun h => hnonce h.2
  · rw [decryptWith, fromSlice, if_neg hkey]
    exact iff_of_true rfl fun h => hkey h.1

theorem openStored_eq_panic_iff (ciphertext : List UInt8) :
    openStored reader record ciphertext = .error .panic ↔ ¬ record.Sized := by
  unfold openStored QuarantineRecord.Sized
  cases hkey : hexDecode (utf8 record.keyHex) with
  | error e =>
    refine iff_of_false (fun h => ?_) (fun h => h fun key nonce hk => ?_)
    · cases h
    · cases hk
  | ok key =>
    cases hnonce : hexDecode (utf8 record.nonceHex) with
    | error e =>
      refine iff_of_false (fun h => ?_) (fun h => h fun key nonce _ hn => ?_)
      · cases h
      · cases hn
    | ok nonce =>
      refine decryptWith_eq_panic_iff.trans (not_congr ⟨fun h key' nonce' hk hn => ?_, fun h => ?_⟩)
      · cases hk
        cases hn
        exact h
      · exact h key nonce rfl rfl

/-- What is stored for a record that is opened with a panic. -/
theorem decryptRecord_panics (h : m.decryptRecord reader record w = .error .panic w') :
    w.state.read (m.dir.join (utf8 record.storedFilename)) ≠ none ∧ ¬ record.Sized := by
  unfold decryptRecord at h
  generalize m.dir.join (utf8 record.storedFilename) = storedPath at h ⊢
  cases hread : mapErr (fun e => Fault.error (.io storedPath e)) (fsRead storedPath) w with
  | error e u =>
    rw [bind_run_of_error hread] at h
    cases h
    exact absurd rfl (mapErr_throws (P := (· ≠ Fault.panic)) (fun e he => by cases he) _ _ _ hread)
  | ok ciphertext u =>
    rw [bind_run_of_ok hread] at h
    have hstored := ((fsRead_observes storedPath).mapErr.of_ok hread).2
    rw [hstored]
    exact ⟨Option.some_ne_none _, (openStored_eq_panic_iff ciphertext).mp (error_of_ofExcept h)⟩

/-- A record that is not of the lengths is opened with a panic. -/
theorem exists_decryptRecord_panics (reader : StoreReader) {ciphertext : List UInt8}
    (hw : w.answers = [])
    (hstored : w.state.read (m.dir.join (utf8 record.storedFilename)) = some ciphertext)
    (h : ¬ record.Sized) : ∃ w', m.decryptRecord reader record w = .error .panic w' := by
  obtain ⟨u, hread, -⟩ := (fsRead_observes _).exists_run hw hstored
  refine ⟨u, ?_⟩
  unfold decryptRecord
  rw [bind_run_of_ok (mapErr_run_of_ok hread)]
  exact ofExcept_run_of_error ((openStored_eq_panic_iff ciphertext).mpr h)

/-- A record of the wrong length that is found makes `verify` panic. -/
theorem exists_verify_panics (prims : Primitives) {ciphertext : List UInt8}
    (hfound : m.found reader id d = some record)
    (hstored : d.read (m.dir.join (utf8 record.storedFilename)) = some ciphertext)
    (h : ¬ record.Sized) :
    ∃ w, m.verify prims reader id (World.start d []) = .error .panic w := by
  obtain ⟨u, hfind, hstate, hanswers⟩ := findRecord_observes.exists_run
    (w := World.start d []) rfl hfound
  have hkept : u.state.read (m.dir.join (utf8 record.storedFilename)) = some ciphertext := by
    rw [hstate]
    exact hstored
  obtain ⟨w, hpanics⟩ := exists_decryptRecord_panics reader hanswers hkept h
  refine ⟨w, ?_⟩
  unfold verify
  rw [bind_run_of_ok (mapErr_run_of_ok hfind)]
  exact bind_run_of_error hpanics

/-- A computation that first opens the record of an id, and then does not panic. -/
theorem not_openable_of_panics {α : Type} {answers : List (Answer IoError)}
    {rest : QuarantineRecord → List UInt8 → Restoring α}
    (hrest : ∀ record data, Throws (· ≠ Fault.panic) (rest record data))
    (h : (do
      let record ← mapErr .error (m.findRecord reader id)
      let data ← m.decryptRecord reader record
      rest record data : Restoring α) (World.start d answers) = .error .panic w) :
    ¬ m.Openable reader d id := by
  intro hopenable
  cases hfind : (mapErr .error (m.findRecord reader id) : Restoring QuarantineRecord)
    (World.start d answers) with
  | error e u =>
    rw [bind_run_of_error hfind] at h
    cases h
    exact absurd rfl (mapErr_throws (P := (· ≠ Fault.panic)) (fun e he => by cases he) _ _ _ hfind)
  | ok record u =>
    rw [bind_run_of_ok hfind] at h
    obtain ⟨hstate, hfound⟩ := findRecord_observes.mapErr.of_ok hfind
    cases hdecrypt : m.decryptRecord reader record u with
    | error e u' =>
      rw [bind_run_of_error hdecrypt] at h
      cases h
      obtain ⟨hstored, hsized⟩ := decryptRecord_panics hdecrypt
      rw [hstate] at hstored
      exact hsized (hopenable record hfound hstored)
    | ok data u' =>
      rw [bind_run_of_ok hdecrypt] at h
      exact absurd rfl (hrest record data _ _ _ h)

/-- No call panics if and only if the record that is found has the lengths of the cipher. -/
theorem neverPanics_iff_openable : m.NeverPanics prims reader d id ↔ m.Openable reader d id := by
  constructor
  · intro hnever record hfound hstored
    obtain ⟨ciphertext, hstored⟩ := Option.ne_none_iff_exists'.mp hstored
    refine Classical.not_not.mp fun hsized => ?_
    obtain ⟨w, hpanics⟩ := exists_verify_panics prims hfound hstored hsized
    exact (hnever []).2 w hpanics
  · intro hopenable answers
    refine ⟨fun restoreTo w h => ?_, fun w h => ?_⟩
    · refine not_openable_of_panics (fun record data => ?_) h hopenable
      refine .bind ?_ fun _ => .bind (mapErr_throws fun e he => by cases he) fun _ => .pure
      cases (restoreTo.getD record.originalPath).parent with
      | none => exact .pure
      | some parent => exact mapErr_throws fun e he => by cases he
    · refine not_openable_of_panics (fun record data => ?_) h hopenable
      dsimp only
      split
      · intro s e t hrun he
        cases he
        cases hrun
      · exact .pure

end QuarantineManager

end ActiveDefense.Clam
