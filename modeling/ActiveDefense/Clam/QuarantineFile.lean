import ActiveDefense.Rust.Fs
import ActiveDefense.Rust.Hex
import ActiveDefense.Rust.Json

/-!
# Quarantining a file

`quarantine_file` reads a file, writes its ciphertext to `<id>.quar` and syncs that, writes the
record with the key to `<id>.json`, which it does not sync, and removes the file. Neither the new
entries nor the removal are synced. The cipher, the hash, the random draws and the clock are
parameters.
-/

namespace ActiveDefense.Clam

/-- `QuarantineError`. -/
inductive QuarantineError where
  | io (path : PathBuf) (source : IoError)
  | store (message : Str)
  | notFound (id : Str)
  | integrityCheckFailed (id : Str)
deriving DecidableEq, Repr

/-- SHA-256, and ChaCha20-Poly1305 under a key and a nonce. -/
structure Primitives where
  sha256 : List UInt8 → List UInt8
  encrypt : List UInt8 → List UInt8 → List UInt8 → Option (List UInt8)

/-- What `rand::thread_rng` draws for a file, and the text of `Utc::now`. -/
structure Draws where
  key : List UInt8
  nonce : List UInt8
  id : List UInt8
  now : Str
deriving DecidableEq, Repr

/-- `sha256_hex`. -/
def sha256Hex (prims : Primitives) (data : List UInt8) : Str := hexEncode (prims.sha256 data)

/-- `QuarantineRecord`. -/
structure QuarantineRecord where
  id : Str
  originalPath : PathBuf
  signatureName : Str
  quarantinedAt : Str
  sha256 : Str
  fileSize : Nat
  keyHex : Str
  nonceHex : Str
  storedFilename : Str
deriving DecidableEq, Repr

/-- `serde_json::to_string_pretty` of a record; `none` is a path that is not UTF-8. -/
def QuarantineRecord.toStringPretty (r : QuarantineRecord) : Option Str :=
  (fromUtf8 r.originalPath).map fun path =>
    jsonRecord [
      ("id".toList, jsonString r.id),
      ("original_path".toList, jsonString path),
      ("signature_name".toList, jsonString r.signatureName),
      ("quarantined_at".toList, jsonString r.quarantinedAt),
      ("sha256".toList, jsonString r.sha256),
      ("file_size".toList, decimal r.fileSize),
      ("key_hex".toList, jsonString r.keyHex),
      ("nonce_hex".toList, jsonString r.nonceHex),
      ("stored_filename".toList, jsonString r.storedFilename)]

/-- `QuarantineManager`. -/
structure QuarantineManager where
  dir : PathBuf
deriving DecidableEq, Repr

/-- The name of the stored file of an id. -/
def storedFilename (id : Str) : Str := id ++ ".quar".toList

namespace QuarantineManager

def storedPath (m : QuarantineManager) (id : Str) : PathBuf :=
  m.dir.join (utf8 (storedFilename id))

def metaPath (m : QuarantineManager) (id : Str) : PathBuf :=
  m.dir.join (utf8 (id ++ ".json".toList))

/-- The computations of the manager. -/
abbrev Quarantine (α : Type) := EStateM QuarantineError (World Disk IoError) α

/-- The record of a file. -/
def newRecord (prims : Primitives) (draws : Draws) (originalPath : PathBuf) (data : List UInt8)
    (signatureName : Str) : QuarantineRecord where
  id := hexEncode draws.id
  originalPath := originalPath
  signatureName := signatureName
  quarantinedAt := draws.now
  sha256 := sha256Hex prims data
  fileSize := data.length
  keyHex := hexEncode draws.key
  nonceHex := hexEncode draws.nonce
  storedFilename := storedFilename (hexEncode draws.id)

/-- `quarantine_bytes`. -/
def quarantineBytes (m : QuarantineManager) (prims : Primitives) (draws : Draws)
    (originalPath : PathBuf) (data : List UInt8) (signatureName : Str) :
    Quarantine QuarantineRecord :=
  match prims.encrypt draws.key draws.nonce data with
  | none => throw (.store "AEAD encryption failed while quarantining".toList)
  | some ciphertext => do
    let id := hexEncode draws.id
    let storedPath := m.storedPath id
    let f ← mapErr (.io storedPath) (File.create storedPath)
    mapErr (.io storedPath) (f.writeAll ciphertext)
    mapErr (.io storedPath) f.syncAll
    let record := newRecord prims draws originalPath data signatureName
    let metaPath := m.metaPath id
    match record.toStringPretty with
    | none =>
      throw (.store
        "failed to serialize record: path contains invalid UTF-8 characters".toList)
    | some metaJson =>
      mapErr (.io metaPath) (fsWrite metaPath (utf8 metaJson))
      return record

/-- `quarantine_file`. -/
def quarantineFile (m : QuarantineManager) (prims : Primitives) (draws : Draws)
    (originalPath : PathBuf) (signatureName : Str) : Quarantine QuarantineRecord := do
  let data ← mapErr (.io originalPath) (fsRead originalPath)
  let record ← m.quarantineBytes prims draws originalPath data signatureName
  mapErr (.io originalPath) (removeFile originalPath)
  return record

end QuarantineManager

/-! ## The record's text and the names -/

/-- The text of a record has no NUL byte. -/
theorem QuarantineRecord.zero_not_mem_toStringPretty {r : QuarantineRecord} {text : Str}
    (h : r.toStringPretty = some text) : (0 : UInt8) ∉ utf8 text := by
  obtain ⟨path, -, rfl⟩ := Option.map_eq_some_iff.mp h
  refine not_mem_utf8 (a := '\x00') (by decide) rfl (nulFree_jsonRecord fun f hf => ?_)
  simp only [List.mem_cons, List.not_mem_nil, or_false] at hf
  rcases hf with rfl | rfl | rfl | rfl | rfl | rfl | rfl | rfl | rfl
  case inr.inr.inr.inr.inr.inl => exact nulFree_decimal _
  all_goals exact nulFree_jsonString _

/-- The two files of an id have different paths. -/
theorem QuarantineManager.storedPath_ne_metaPath (m : QuarantineManager) (id : Str) :
    m.storedPath id ≠ m.metaPath id := by
  intro h
  have hdot (ext : Str) : (utf8 ('.' :: ext)).head? = some 46 := rfl
  have hhead : (utf8 (storedFilename id)).head? = (utf8 (id ++ ".json".toList)).head? := by
    rw [storedFilename, utf8_append, utf8_append, List.head?_append, List.head?_append]
    exact congrArg _ ((hdot _).trans (hdot _).symm)
  have hext := utf8_inj (PathBuf.join_inj hhead h)
  exact absurd (List.append_cancel_left hext) (by decide)

end ActiveDefense.Clam
