import ActiveDefense.Rust.Hex
import ActiveDefense.Rust.Tree

/-!
# Fetching an update of the signatures

`run` of `rclam-sigupdate`: the manifest is fetched, its signature is checked where a key is given,
and it is parsed; then each file is fetched, its hash is checked, and it is written to the staging
directory, under the name the manifest gives; last the staging directory is swapped into place,
which is in `ActiveDefense.Clam.SigUpdate`. The network, JSON, SHA-256 and Ed25519 are parameters.
-/

namespace ActiveDefense.Clam

/-- `ManifestFile`. -/
structure ManifestFile where
  name : Str
  sha256 : Str
  url : Str
deriving DecidableEq, Repr

/-- `Manifest`. -/
structure Manifest where
  version : Str
  files : List ManifestFile
deriving DecidableEq, Repr

/-- What the server answers a request with. -/
inductive Reply where
  | failed (e : Str)
  | broken (e : Str)
  | body (bytes : List UInt8)
deriving DecidableEq, Repr

/-- What `run` uses from outside: the answers of the server to the first, the second, ... request,
the JSON reader, the hash, the reading of a key and the check of a signature with it. -/
structure External where
  agent : Nat → Str → Reply
  fromJson : Str → Except Str Manifest
  sha256 : List UInt8 → List UInt8
  isKey : List UInt8 → Bool
  verify : List UInt8 → List UInt8 → List UInt8 → Bool

/-- `ManifestError`. -/
inductive ManifestError where
  /-- `invalid manifest JSON: {e}` -/
  | json (e : Str)
  /-- `manifest lists no files` -/
  | empty
  /-- `duplicate file name in manifest: {name}` -/
  | duplicateName (name : Str)
deriving DecidableEq, Repr

/-- `VerifyError`. -/
inductive VerifyError where
  /-- `sha256 mismatch: expected {expected}, got {actual}` -/
  | hashMismatch (expected actual : Str)
  /-- `invalid public key` -/
  | invalidPublicKey
  /-- `invalid signature encoding` -/
  | invalidSignatureEncoding
  /-- `manifest signature verification failed` -/
  | signatureInvalid
  /-- `hex decode error: {e}` -/
  | hex (e : FromHexError)
deriving DecidableEq, Repr

/-- The errors of `run`, each with what its message is made of. -/
inductive UpdateError where
  /-- `GET {url} failed: {e}` -/
  | get (url e : Str)
  /-- `reading response body from {url} failed: {e}` -/
  | readBody (url e : Str)
  /-- `manifest signature verification failed: {e}` -/
  | signature (e : VerifyError)
  /-- `manifest is not valid UTF-8` -/
  | notUtf8
  | manifest (e : ManifestError)
  /-- `creating staging directory failed: {e}` -/
  | staging (e : IoError)
  /-- `{name}: integrity check failed: {e}` -/
  | integrity (name : Str) (e : VerifyError)
  /-- `writing {path}: {e}` -/
  | writing (path : PathBuf) (e : IoError)
  /-- `writing version file: {e}` -/
  | versionFile (e : IoError)
  | apply (e : IoError)
deriving DecidableEq, Repr

/-- `Args`. -/
structure UpdateArgs where
  manifestUrl : Str
  sigDir : PathBuf
  publicKey : Option Str
  dryRun : Bool
deriving DecidableEq, Repr

/-! ## The checks -/

/-- `fetch`, the request of this number. -/
def fetch (ext : External) (request : Nat) (url : Str) : Except UpdateError (List UInt8) :=
  match ext.agent request url with
  | .failed e => .error (.get url e)
  | .broken e => .error (.readBody url e)
  | .body bytes => .ok bytes

/-- The first name that an earlier file has. -/
def duplicateName (seen : List Str) : List ManifestFile → Option Str
  | [] => none
  | f :: rest => if f.name ∈ seen then some f.name else duplicateName (f.name :: seen) rest

/-- `parse_manifest`. -/
def parseManifest (ext : External) (json : Str) : Except ManifestError Manifest := do
  let manifest ← (ext.fromJson json).mapError .json
  if manifest.files = [] then throw .empty
  match duplicateName [] manifest.files with
  | some name => throw (.duplicateName name)
  | none => return manifest

/-- `verify_sha256`. -/
def verifySha256 (ext : External) (data : List UInt8) (expectedHex : Str) :
    Except VerifyError Unit := do
  let actual := hexEncode (ext.sha256 data)
  let expectedBytes ← (hexDecode (utf8 expectedHex)).mapError .hex
  let actualBytes ← (hexDecode (utf8 actual)).mapError .hex
  if expectedBytes = actualBytes then return () else throw (.hashMismatch expectedHex actual)

/-- The hash is compared as bytes: digits of either case are accepted. -/
theorem verifySha256_eq_ok_iff {ext : External} {data : List UInt8} {expectedHex : Str} :
    verifySha256 ext data expectedHex = .ok () ↔
      hexDecode (utf8 expectedHex) = .ok (ext.sha256 data) := by
  simp only [verifySha256, hexDecode_hexEncode]
  cases hexDecode (utf8 expectedHex) with
  | error e => exact iff_of_false nofun nofun
  | ok expected =>
    change (if expected = ext.sha256 data then _ else _) = _ ↔ _
    rw [Except.ok.injEq]
    split
    · next heq => exact iff_of_true rfl heq
    · next hne => exact iff_of_false nofun hne

/-- `verify_manifest_signature`. -/
def verifyManifestSignature (ext : External) (manifestBytes : List UInt8)
    (publicKeyHex signatureHex : Str) : Except VerifyError Unit := do
  let keyBytes ← (hexDecode (utf8 publicKeyHex)).mapError .hex
  if keyBytes.length ≠ 32 ∨ ext.isKey keyBytes = false then throw .invalidPublicKey
  let sigBytes ← (hexDecode (utf8 signatureHex)).mapError .hex
  if sigBytes.length ≠ 64 then throw .invalidSignatureEncoding
  if ext.verify keyBytes manifestBytes sigBytes then return () else throw .signatureInvalid

/-- The first part of `run`: the manifest, once its signature is checked. -/
def fetchManifest (ext : External) (args : UpdateArgs) : Except UpdateError Manifest := do
  let manifestBytes ← fetch ext 0 args.manifestUrl
  match args.publicKey with
  | some pubkey =>
    let sigBytes ← fetch ext 1 (args.manifestUrl ++ ".sig".toList)
    let sigHex := trim (fromUtf8Lossy sigBytes)
    (verifyManifestSignature ext manifestBytes pubkey sigHex).mapError .signature
  | none => pure ()
  match fromUtf8 manifestBytes with
  | none => throw .notUtf8
  | some manifestText => (parseManifest ext manifestText).mapError .manifest

/-- Without a key the manifest is what the server's text parses to. -/
theorem fetchManifest_of_unsigned {ext : External} {args : UpdateArgs} {text : Str}
    (hkey : args.publicKey = none) (hreply : ext.agent 0 args.manifestUrl = .body (utf8 text)) :
    fetchManifest ext args = (parseManifest ext text).mapError .manifest := by
  rw [fetchManifest, fetch, hreply, hkey]
  change (match fromUtf8 (utf8 text) with
    | none => _
    | some text => (parseManifest ext text).mapError UpdateError.manifest) = _
  rw [fromUtf8_utf8]

/-- How many signatures are checked before the files. -/
def UpdateArgs.signatures (args : UpdateArgs) : Nat := if args.publicKey.isSome then 1 else 0

/-! ## The staging directory -/

/-- What is noted of a run: that a check has passed, that a file was made, cut or written at a
place, and that the staging directory was swapped into place. -/
inductive UpdateEvent where
  | passed
  | touched (p : Place)
  | swapped
deriving DecidableEq, Repr

/-- The directories, and the events so far, oldest first. -/
structure UpdateState where
  tree : Tree
  log : List UpdateEvent

namespace UpdateState

def push (s : UpdateState) (e : UpdateEvent) : UpdateState := { s with log := s.log ++ [e] }

/-- A file is made or cut at a place. -/
def touch (s : UpdateState) (p : Place) : UpdateState :=
  { tree := s.tree.touch p, log := s.log ++ [.touched p] }

end UpdateState

/-- The computations of `run`. -/
abbrev Update (ε α : Type) := EStateM ε (World UpdateState IoError) α

/-- A check has passed. -/
def checkPassed : Update UpdateError PUnit := note (·.push .passed)

/-- `Builder::tempdir_in`, with the name it draws, which it draws again where there is something. -/
def tempdirIn (dir name : PathBuf) : Update IoError PathBuf :=
  call fun _ s =>
    match s.tree.place (dir.join name) with
    | .error e => .error e
    | .ok p =>
      if s.tree.nodes p.1 p.2 ≠ none then .error (.os 17)
      else .ok (dir.join name, { s with tree := s.tree.mkdir p })

/-- `File::create`. -/
def createFile (path : PathBuf) : Update IoError Place :=
  call fun _ s =>
    match s.tree.place path with
    | .error e => .error e
    | .ok p => .ok (p, s.touch p)

/-- `write_all` on the file at a place. -/
def writeFile (p : Place) : Update IoError PUnit := call fun _ s => .ok (⟨⟩, s.push (.touched p))

/-- One turn of the loop over the files. -/
def stageFile (ext : External) (staging : PathBuf) (request : Nat) (f : ManifestFile) :
    Update UpdateError PUnit := do
  let data ← ofExcept (fetch ext request f.url)
  ofExcept ((verifySha256 ext data f.sha256).mapError (.integrity f.name))
  checkPassed
  let outPath := staging.join (utf8 f.name)
  let file ← mapErr (.writing outPath) (createFile outPath)
  mapErr (.writing outPath) (writeFile file)

/-- The loop over the files, from the request of this number on. -/
def stageFiles (ext : External) (staging : PathBuf) : Nat → List ManifestFile →
    Update UpdateError PUnit
  | _, [] => pure ⟨⟩
  | request, f :: rest => do
    stageFile ext staging request f
    stageFiles ext staging (request + 1) rest

/-- The file that the version is recorded in. -/
def writeVersion (path : PathBuf) : Update IoError PUnit := do
  let file ← createFile path
  writeFile file

/-- `apply_update`, as one event. -/
def swapStaging : Update IoError PUnit := call fun _ s => .ok (⟨⟩, s.push .swapped)

/-- The directory for the staging directory. -/
def UpdateArgs.stagingParent (args : UpdateArgs) : PathBuf := args.sigDir.parent.getD [46]

/-- The last part of `run`, with the name that is drawn for the staging directory. -/
def stageUpdate (ext : External) (args : UpdateArgs) (stagingName : PathBuf) (manifest : Manifest) :
    Update UpdateError PUnit := do
  let staging ← mapErr .staging (tempdirIn args.stagingParent stagingName)
  stageFiles ext staging (1 + args.signatures) manifest.files
  mapErr .versionFile (writeVersion (staging.join (utf8 ".rclam-sigversion".toList)))
  mapErr .apply swapStaging

/-- The check of the signature has passed, where there is a key. -/
def signaturePassed (args : UpdateArgs) : Update UpdateError PUnit :=
  if args.publicKey.isSome then checkPassed else pure ⟨⟩

/-- `run`. -/
def run (ext : External) (args : UpdateArgs) (stagingName : PathBuf) :
    Update UpdateError PUnit := do
  let manifest ← ofExcept (fetchManifest ext args)
  signaturePassed args
  if args.dryRun then return
  stageUpdate ext args stagingName manifest

end ActiveDefense.Clam
