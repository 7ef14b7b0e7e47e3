import ActiveDefense.Lib.Effect
import ActiveDefense.Rust.Arith
import ActiveDefense.Rust.Text

/-!
# Archive extraction under a budget

One `GuardBudget` is threaded through the extraction of an archive and of the archives inside it.
Every chunk that a decoder produces is charged before it is kept. The decoders themselves are
parameters: a `Reader` is any sequence of reads that keeps to the buffer it is given.
-/

namespace ActiveDefense.Clam

/-- `GuardLimits`. -/
structure GuardLimits where
  maxDepth : UInt32
  maxEntries : UInt64
  maxTotalUncompressed : UInt64
  maxRatio : UInt64
  readChunk : UInt64
  maxFileSize : UInt64
deriving DecidableEq, Repr

/-- `GuardLimits::default`. -/
instance : Inhabited GuardLimits where
  default :=
    { maxDepth := 16
      maxEntries := 10000
      maxTotalUncompressed := 4 * 1024 * 1024 * 1024
      maxRatio := 1000
      readChunk := 1048576
      maxFileSize := 200 * 1024 * 1024 }

/-- `GuardError`. The errors of the decoders are their texts. -/
inductive GuardError where
  | depthExceeded (depth : UInt32)
  | entryCountExceeded (limit : UInt64)
  | totalSizeExceeded (limit : UInt64)
  | ratioExceeded (name : Str) (ratio : UInt64)
  | zip (e : Str)
  | sevenZ (e : Str)
  | cab (e : Str)
  | io (e : Str)
deriving DecidableEq, Repr

/-- The `Display` of a `GuardError`. -/
def GuardError.toStr : GuardError → Str
  | .depthExceeded depth =>
    "archive recursion depth ".toList ++ decimal depth.toNat ++ " exceeds limit".toList
  | .entryCountExceeded limit =>
    "entry count exceeds limit (".toList ++ decimal limit.toNat ++ ")".toList
  | .totalSizeExceeded limit =>
    "total uncompressed size exceeds limit (".toList ++ decimal limit.toNat ++ " bytes)".toList
  | .ratioExceeded name ratio =>
    "entry '".toList ++ name ++ "' compression ratio ".toList ++ decimal ratio.toNat ++
      " exceeds limit".toList
  | .zip e => "zip error: ".toList ++ e
  | .sevenZ e => "7z error: ".toList ++ e
  | .cab e => "cab error: ".toList ++ e
  | .io e => "io error: ".toList ++ e

/-- `GuardBudget`. -/
structure GuardBudget where
  limits : GuardLimits
  depth : UInt32
  entriesSeen : UInt64
  totalUncompressed : UInt64
deriving DecidableEq, Repr

namespace GuardBudget

/-- `GuardBudget::new`. -/
def new (limits : GuardLimits) : GuardBudget where
  limits := limits
  depth := 0
  entriesSeen := 0
  totalUncompressed := 0

/-- `leave_archive`, with its `saturating_sub`. -/
def leaveArchive (b : GuardBudget) : GuardBudget :=
  { b with depth := if b.depth = 0 then 0 else b.depth - 1 }

/-- The bytes that may still be charged for. -/
def room (b : GuardBudget) : Nat := b.limits.maxTotalUncompressed.toNat - b.totalUncompressed.toNat

/-- The chunks that may still be charged for. -/
def chunksLeft (b : GuardBudget) : Nat := b.limits.maxEntries.toNat - b.entriesSeen.toNat

/-- The archives that may still be entered. -/
def levelsLeft (b : GuardBudget) : Nat := b.limits.maxDepth.toNat - b.depth.toNat

end GuardBudget

/-- `enter_archive`. -/
def enterArchive : Exec GuardBudget (Except GuardError Unit) := do
  let b ← get
  let depth ← addU32 b.depth 1
  set { b with depth := depth }
  if b.limits.maxDepth < depth then return .error (.depthExceeded depth)
  return .ok ()

/-- `charge_entry`. -/
def chargeEntry (uncompressedAdd : UInt64) : Exec GuardBudget (Except GuardError Unit) := do
  let b ← get
  let seen ← addU64 b.entriesSeen 1
  set { b with entriesSeen := seen }
  if b.limits.maxEntries < seen then return .error (.entryCountExceeded b.limits.maxEntries)
  let total ← addU64 b.totalUncompressed uncompressedAdd
  set { b with entriesSeen := seen, totalUncompressed := total }
  if b.limits.maxTotalUncompressed < total then
    return .error (.totalSizeExceeded b.limits.maxTotalUncompressed)
  return .ok ()

/-- What `enter_archive` does to a budget. -/
theorem enterArchive_run {b : GuardBudget} : enterArchive b =
    if b.depth.toNat + 1 < 2 ^ 32 then
      if b.limits.maxDepth < b.depth + 1 then
        .ok (.error (.depthExceeded (b.depth + 1))) { b with depth := b.depth + 1 }
      else .ok (.ok ()) { b with depth := b.depth + 1 }
    else .error .overflow b := by
  have hone : (1 : UInt32).toNat = 1 := rfl
  simp only [enterArchive, addU32, hone, get_bind_run]
  split
  · rw [pure_bind_run, set_bind_run]
    split <;> rfl
  · rfl

/-- What `charge_entry` does to a budget. -/
theorem chargeEntry_run {n : UInt64} {b : GuardBudget} : chargeEntry n b =
    if b.entriesSeen.toNat + 1 < 2 ^ 64 then
      let b₁ := { b with entriesSeen := b.entriesSeen + 1 }
      if b.limits.maxEntries < b₁.entriesSeen then
        .ok (.error (.entryCountExceeded b.limits.maxEntries)) b₁
      else if b.totalUncompressed.toNat + n.toNat < 2 ^ 64 then
        let b₂ := { b₁ with totalUncompressed := b.totalUncompressed + n }
        if b.limits.maxTotalUncompressed < b₂.totalUncompressed then
          .ok (.error (.totalSizeExceeded b.limits.maxTotalUncompressed)) b₂
        else .ok (.ok ()) b₂
      else .error .overflow b₁
    else .error .overflow b := by
  have hone : (1 : UInt64).toNat = 1 := rfl
  simp only [chargeEntry, addU64, hone, get_bind_run]
  split
  · rw [pure_bind_run, set_bind_run]
    split
    · rfl
    · split
      · rw [pure_bind_run, set_bind_run]
        split <;> rfl
      · rfl
  · rfl

/-- A chunk that is let through was among those left. -/
theorem chunksLeft_of_chargeEntry {n : UInt64} {b b' : GuardBudget}
    (h : chargeEntry n b = .ok (.ok ()) b') : b.chunksLeft = b'.chunksLeft + 1 := by
  simp only [chargeEntry_run] at h
  split at h
  · next hseen =>
    split at h
    · cases h
    · next hmax =>
      split at h
      · split at h
        · cases h
        · cases h
          have hone : (1 : UInt64).toNat = 1 := rfl
          rw [UInt64.lt_iff_toNat_lt, UInt64.toNat_add, hone, Nat.mod_eq_of_lt hseen] at hmax
          simp only [GuardBudget.chunksLeft, UInt64.toNat_add, hone, Nat.mod_eq_of_lt hseen]
          omega
      · cases h
  · cases h

/-- The `Read` of a decoder: what each read gives for a buffer of a length, `none` for an error. -/
structure Reader where
  read : UInt64 → Nat → Option (List UInt8)
  length_le : ∀ {len : UInt64} {i : Nat} {bs : List UInt8}, read len i = some bs →
    bs.length ≤ len.toNat

/-- A decoder that fails at once. -/
def Reader.failing : Reader := ⟨fun _ _ => none, nofun⟩

/-- `ExtractedEntry`. -/
structure ExtractedEntry where
  name : Str
  data : List UInt8
deriving DecidableEq, Repr

/-! ## Reading one entry -/

/-- What was read, and the limit that was hit. -/
abbrev Bounded := List UInt8 × Option GuardError

/-- One turn of the read loop, after `i` reads that gave `data`; `next` are the turns after it. -/
def readTurn (reader : Reader) (next : Nat → List UInt8 → Exec GuardBudget Bounded) (i : Nat)
    (data : List UInt8) : Exec GuardBudget Bounded := do
  let b ← get
  match reader.read b.limits.readChunk i with
  | none | some [] => return (data, none)
  | some (c :: cs) =>
    match ← chargeEntry (.ofNat (c :: cs).length) with
    | .error e => return (data, some e)
    | .ok () => next (i + 1) (data ++ c :: cs)

/-- At most `n + 1` turns of the read loop. -/
def readTurns (reader : Reader) : Nat → Nat → List UInt8 → Exec GuardBudget Bounded
  | 0 => readTurn reader fun _ data => return (data, none)
  | n + 1 => readTurn reader (readTurns reader n)

/-- The read loop: as many turns as there are chunks left (`readLoop_eq`). -/
def readLoop (reader : Reader) (i : Nat) (data : List UInt8) : Exec GuardBudget Bounded := do
  let b ← get
  readTurns reader b.chunksLeft i data

/-- The read loop is its turn, and the read loop again. -/
theorem readLoop_eq {reader : Reader} : readLoop reader = readTurn reader (readLoop reader) := by
  funext i data b
  have hturn (next : Nat → List UInt8 → Exec GuardBudget Bounded)
      (hnext : ∀ {n b'}, chargeEntry n b = .ok (.ok ()) b' →
        ∀ i data, next i data b' = readLoop reader i data b') :
      readTurn reader next i data b = readTurn reader (readLoop reader) i data b := by
    simp only [readTurn, get_bind_run]
    cases reader.read b.limits.readChunk i with
    | none => rfl
    | some bs =>
      cases bs with
      | nil => rfl
      | cons c cs =>
        simp only
        cases hcharge : chargeEntry (.ofNat (c :: cs).length) b with
        | ok res b' =>
          rw [bind_run_of_ok hcharge, bind_run_of_ok hcharge]
          cases res with
          | error e => rfl
          | ok u => exact hnext hcharge _ _
        | error e b' => rw [bind_run_of_error hcharge, bind_run_of_error hcharge]
  change readTurns reader b.chunksLeft i data b = _
  cases hleft : b.chunksLeft with
  | zero =>
    refine hturn _ fun hcharge => ?_
    rw [chunksLeft_of_chargeEntry hcharge] at hleft
    cases hleft
  | succ n =>
    refine hturn _ fun hcharge i data => ?_
    have hleft' := hleft.symm.trans (chunksLeft_of_chargeEntry hcharge)
    cases hleft'
    rfl

/-! ## Extracting an archive -/

/-- What becomes of an entry that the loop of a format comes to. -/
inductive Item where
  | skip
  | refuse (e : GuardError)
  | extract (name : Str) (reader : Reader)

/-- The entries that came out, and the limit that was hit. -/
abbrev Entries := List ExtractedEntry × Option GuardError

/-- The loop over the entries of an archive. -/
def extractItems : List Item → Exec GuardBudget Entries
  | [] => return ([], none)
  | .skip :: items => extractItems items
  | .refuse e :: _ => return ([], some e)
  | .extract name reader :: items => do
    match ← readLoop reader 0 [] with
    | (data, some e) => return ([{ name, data }], some e)
    | (data, none) =>
      let (out, hitLimit) ← extractItems items
      return ({ name, data } :: out, hitLimit)

/-- An entry of `ZipArchive`. -/
structure ZipEntry where
  name : Str
  compressedSize : UInt64
  size : UInt64
  reader : Reader

/-- An entry of `tar::Archive`, with its path where that could be read. -/
structure TarEntry where
  regular : Bool
  path : Option Str
  reader : Reader

/-- An entry of `SevenZReader`. -/
structure SevenZEntry where
  isDirectory : Bool
  hasStream : Bool
  name : Str
  reader : Reader

/-- The decoders: what each makes of the bytes of an archive. An entry that it fails to open is
`none`; `sevenZ` may fail after some entries. -/
structure Decoders where
  zip : List UInt8 → Except Str (List (Option ZipEntry))
  gzip : List UInt8 → Reader
  tar : List UInt8 → Except Str (List (Option TarEntry))
  sevenZ : List UInt8 → Except Str (List SevenZEntry × Option Str)
  cab : List UInt8 → Except Str (List (Str × Option Reader))

/-- The body of the loop of `extract_zip`, up to the reads. -/
def zipItem (limits : GuardLimits) : Option ZipEntry → Item
  | none => .skip
  | some entry =>
    let declaredRatio := entry.size / max entry.compressedSize 1
    if limits.maxRatio < declaredRatio then .refuse (.ratioExceeded entry.name declaredRatio)
    else .extract entry.name entry.reader

/-- The body of the loop of `extract_tar`, up to the reads. -/
def tarItem : Option TarEntry → Item
  | none => .skip
  | some entry =>
    if entry.regular then
      .extract (entry.path.getD "<invalid-tar-path>".toList) entry.reader
    else .skip

/-- The body of the loop of `extract_7z`, up to the reads. -/
def sevenZItem (entry : SevenZEntry) : Item :=
  if entry.isDirectory || !entry.hasStream then .skip else .extract entry.name entry.reader

/-- The body of the loop of `extract_cab`, up to the reads. -/
def cabItem : Str × Option Reader → Item
  | (_, none) => .skip
  | (name, some reader) => .extract name reader

/-- What an extraction gives: an error, or what came out. -/
abbrev Extracted := Except GuardError Entries

namespace Decoders

variable (d : Decoders) (buf : List UInt8)

/-- `extract_zip`. -/
def extractZip : Exec GuardBudget Extracted := do
  let b ← get
  match d.zip buf with
  | .error e => return .error (.zip e)
  | .ok entries => return .ok (← extractItems (entries.map (zipItem b.limits)))

/-- `extract_gzip`, with the name that the scanner gives to what came out. -/
def extractGzip : Exec GuardBudget Extracted := do
  let (data, hitLimit) ← readLoop (d.gzip buf) 0 []
  return .ok ([{ name := "(gunzip)".toList, data }], hitLimit)

/-- `extract_tar`. -/
def extractTar : Exec GuardBudget Extracted := do
  match d.tar buf with
  | .error e => return .error (.io e)
  | .ok entries => return .ok (← extractItems (entries.map tarItem))

/-- `extract_7z`. -/
def extract7z : Exec GuardBudget Extracted := do
  match d.sevenZ buf with
  | .error e => return .error (.sevenZ e)
  | .ok (entries, failure) =>
    let (out, hitLimit) ← extractItems (entries.map sevenZItem)
    match failure, hitLimit with
    | some e, none => return .error (.sevenZ e)
    | _, _ => return .ok (out, hitLimit)

/-- `extract_cab`. -/
def extractCab : Exec GuardBudget Extracted := do
  match d.cab buf with
  | .error e => return .error (.cab e)
  | .ok files => return .ok (← extractItems (files.map cabItem))

end Decoders

/-! ## The formats -/

/-- The archive formats. -/
inductive Format where
  | zip
  | gzip
  | tar
  | sevenZ
  | cab
deriving DecidableEq, Repr

/-- `looks_like_tar`. -/
def looksLikeTar (buf : List UInt8) : Bool :=
  decide (263 ≤ buf.length) && (buf.drop 257).take 5 == [0x75, 0x73, 0x74, 0x61, 0x72]

/-- `looks_like_7z`. -/
def looksLike7z (buf : List UInt8) : Bool :=
  decide (6 ≤ buf.length) && buf.take 6 == [0x37, 0x7A, 0xBC, 0xAF, 0x27, 0x1C]

/-- `looks_like_cab`. -/
def looksLikeCab (buf : List UInt8) : Bool :=
  decide (4 ≤ buf.length) && buf.take 4 == [0x4D, 0x53, 0x43, 0x46]

/-- The test of `scan_bytes` for a zip archive. -/
def looksLikeZip (buf : List UInt8) : Bool :=
  decide (4 ≤ buf.length) && buf.take 4 == [0x50, 0x4B, 0x03, 0x04]

/-- The test of `scan_bytes` for a gzip stream. -/
def looksLikeGzip (buf : List UInt8) : Bool :=
  decide (2 ≤ buf.length) && buf.take 2 == [0x1F, 0x8B]

/-- The branch that `scan_bytes` takes. -/
def format (buf : List UInt8) : Option Format :=
  if looksLikeZip buf then some .zip
  else if looksLikeGzip buf then some .gzip
  else if looksLikeTar buf then some .tar
  else if looksLike7z buf then some .sevenZ
  else if looksLikeCab buf then some .cab
  else none

/-- The extraction that the branch calls. -/
def Decoders.extract (d : Decoders) : Format → List UInt8 → Exec GuardBudget Extracted
  | .zip => d.extractZip
  | .gzip => d.extractGzip
  | .tar => d.extractTar
  | .sevenZ => d.extract7z
  | .cab => d.extractCab

end ActiveDefense.Clam
