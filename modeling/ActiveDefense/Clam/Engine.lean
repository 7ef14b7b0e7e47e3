import ActiveDefense.Clam.HashDb
import ActiveDefense.Clam.HexBuilds

/-!
# The signature engine

A builder takes in signature texts line by line. The engine that it builds scans a buffer: it looks
its digests up in the hash database, and lets one automaton find the anchors of all hex signatures,
each of which is then verified. The automaton and the digests are those of other crates and are
parameters here; of the automaton it is assumed that it reports exactly the occurrences of its
literals (`Crates.Exact`). Every builder there is comes from a run of loads (`Loaded`), and its hex
signatures are parsed ones.
-/

namespace ActiveDefense.Clam

inductive MatchKindResult where
  | hexSignature
  | hashMd5
  | hashSha1
  | hashSha256
deriving DecidableEq, Repr

structure Detection where
  name : Str
  kind : MatchKindResult
  offset : Option Nat
deriving DecidableEq, Repr

/-- A match of the automaton: which literal, and where it starts. -/
structure Match where
  pattern : Nat
  start : Nat
deriving DecidableEq, Repr

/-- The parts of other crates: the automaton built for literals, as its overlapping search, and the
digests. -/
structure Crates where
  automaton : List (List UInt8) → Slice → List Match
  md5 : Slice → Digest 16
  sha1 : Slice → Digest 20
  sha256 : Slice → Digest 32

/-- The literal occurs in the buffer at `start`. -/
def OccursAt (lit : List UInt8) (buf : Slice) (start : Nat) : Prop :=
  start + lit.length ≤ buf.len ∧ (buf.bytes.drop start).take lit.length = lit

instance (lit : List UInt8) (buf : Slice) (start : Nat) : Decidable (OccursAt lit buf start) :=
  inferInstanceAs (Decidable (_ ∧ _))

/-- The overlapping search reports exactly the occurrences of the literals. -/
structure Crates.Exact (crates : Crates) : Prop where
  mem_iff : ∀ (literals : List (List UInt8)) (buf : Slice) (m : Match),
    m ∈ crates.automaton literals buf ↔
      ∃ lit, literals[m.pattern]? = some lit ∧ OccursAt lit buf m.start

structure SignatureEngineBuilder where
  hexSigs : List HexSignature
  hashDb : HashDb

structure SignatureEngine where
  automaton : Slice → List Match
  hexSigs : List HexSignature
  hashDb : HashDb

/-- A line that the loaders pass over. -/
def IsSkipped (line : Str) : Prop := line = [] ∨ line.head? = some '#'

instance (line : Str) : Decidable (IsSkipped line) := inferInstanceAs (Decidable (_ ∨ _))

namespace SignatureEngineBuilder

/-- `SignatureEngineBuilder::new`. -/
def new : SignatureEngineBuilder := ⟨[], HashDb.new⟩

/-- The loop of `load_ndb`, over the lines with their indices. -/
def loadNdbLines : SignatureEngineBuilder → List (Str × Nat) →
    Except SigError SignatureEngineBuilder
  | self, [] => .ok self
  | self, (rawLine, i) :: rest =>
    let line := trim rawLine
    if IsSkipped line then loadNdbLines self rest
    else
      match splitOnce ':' line with
      | none => .error (.badHexSig (i + 1) "expected 'name:pattern'".toList)
      | some (name, pattern) => do
        let sig ← HexSignature.parse (i + 1) name pattern
        loadNdbLines { self with hexSigs := self.hexSigs ++ [sig] } rest

/-- `load_ndb`. -/
def loadNdb (self : SignatureEngineBuilder) (text : Str) : Except SigError SignatureEngineBuilder :=
  self.loadNdbLines (lines text).zipIdx

/-- The loop of `load_hdb`, over the lines with their indices. -/
def loadHdbLines : SignatureEngineBuilder → List (Str × Nat) →
    Except Panic (Except SigError SignatureEngineBuilder)
  | self, [] => .ok (.ok self)
  | self, (rawLine, i) :: rest =>
    let line := trim rawLine
    if IsSkipped line then loadHdbLines self rest
    else do
      match ← self.hashDb.addLine (i + 1) line with
      | .error e => .ok (.error e)
      | .ok hashDb => loadHdbLines { self with hashDb } rest

/-- `load_hdb`. -/
def loadHdb (self : SignatureEngineBuilder) (text : Str) :
    Except Panic (Except SigError SignatureEngineBuilder) :=
  self.loadHdbLines (lines text).zipIdx

/-- `build`. -/
def build (self : SignatureEngineBuilder) (crates : Crates) : SignatureEngine where
  automaton := crates.automaton (self.hexSigs.map HexSignature.anchorLiteral)
  hexSigs := self.hexSigs
  hashDb := self.hashDb

end SignatureEngineBuilder

namespace SignatureEngine

/-- The lookups of `scan_buffer` in the hash database. -/
def hashHits (self : SignatureEngine) (crates : Crates) (buf : Slice) : List Detection :=
  if self.hashDb.isEmpty then []
  else
    let hit (kind : MatchKindResult) (found : Option HashHit) : List Detection :=
      (found.map fun h => ⟨h.name, kind, none⟩).toList
    hit .hashMd5 (self.hashDb.lookupMd5 (crates.md5 buf) buf.len) ++
      hit .hashSha1 (self.hashDb.lookupSha1 (crates.sha1 buf) buf.len) ++
      hit .hashSha256 (self.hashDb.lookupSha256 (crates.sha256 buf) buf.len)

/-- The loop of `scan_buffer` over the matches of the automaton: the signatures that are confirmed,
with the start of each. -/
def confirm (self : SignatureEngine) (checks : OverflowChecks) (buf : Slice) :
    List Match → Except Panic (List (HexSignature × Nat))
  | [] => .ok []
  | m :: rest => do
    let sig ← index self.hexSigs m.pattern
    match ← sig.verifyIn checks buf m.start with
    | some start => .ok ((sig, start) :: (← self.confirm checks buf rest))
    | none => self.confirm checks buf rest

/-- The confirmed hex signatures of `scan_buffer`. -/
def hexHits (self : SignatureEngine) (checks : OverflowChecks) (buf : Slice) :
    Except Panic (List (HexSignature × Nat)) :=
  if self.hexSigs = [] then .ok [] else self.confirm checks buf (self.automaton buf)

/-- The detection of a confirmed hex signature. -/
def hexDetection (hit : HexSignature × Nat) : Detection :=
  ⟨hit.1.name, .hexSignature, some hit.2⟩

/-- `scan_buffer`. -/
def scanBuffer (self : SignatureEngine) (crates : Crates) (checks : OverflowChecks) (buf : Slice) :
    Except Panic (List Detection) := do
  let hits := self.hashHits crates buf
  .ok (hits ++ (← self.hexHits checks buf).map hexDetection)

end SignatureEngine

/-! ## Runs of loads -/

/-- The signature was parsed from a pattern that is no longer than a string can be. -/
def HexSignature.FromText (sig : HexSignature) : Prop :=
  ∃ lineNo name pattern, HexSignature.parse lineNo name pattern = .ok sig ∧
    (utf8 pattern).length ≤ isizeMax

/-- The builders that loads lead to. -/
inductive Loaded : SignatureEngineBuilder → Prop where
  | new : Loaded .new
  | ndb {b b' : SignatureEngineBuilder} (text : Str) :
    Loaded b → (utf8 text).length ≤ isizeMax → b.loadNdb text = .ok b' → Loaded b'
  | hdb {b b' : SignatureEngineBuilder} (text : Str) :
    Loaded b → b.loadHdb text = .ok (.ok b') → Loaded b'

namespace SignatureEngineBuilder

/-- The lines of a text add parsed signatures. -/
theorem fromText_of_loadNdbLines {b b' : SignatureEngineBuilder} {ls : List (Str × Nat)}
    (hls : ∀ l ∈ ls, (utf8 l.1).length ≤ isizeMax) (hb : ∀ sig ∈ b.hexSigs, sig.FromText)
    (h : b.loadNdbLines ls = .ok b') : ∀ sig ∈ b'.hexSigs, sig.FromText := by
  induction ls generalizing b with
  | nil =>
    cases h
    exact hb
  | cons l ls ih =>
    obtain ⟨rawLine, i⟩ := l
    have hrest := fun l hl => hls l (List.mem_cons_of_mem _ hl)
    rw [loadNdbLines] at h
    split at h
    · exact ih hrest hb h
    · split at h
      · cases h
      · next name pattern hsplit =>
        obtain ⟨sig, hsig, h⟩ := bind_eq_ok.mp h
        refine ih hrest (fun s hs => ?_) h
        rcases List.mem_append.mp hs with hs | hs
        · exact hb s hs
        · obtain rfl := List.mem_singleton.mp hs
          have hpattern : pattern.Sublist (trim rawLine) := by
            rw [(eq_append_of_splitOnce hsplit).1]
            exact (List.sublist_cons_self _ _).trans (List.sublist_append_right _ _)
          have hlen := utf8_length_le (hpattern.trans (trim_sublist rawLine))
          exact ⟨_, _, _, hsig, hlen.trans (hls _ (.head _))⟩

/-- The lines of a hash database leave the hex signatures alone. -/
theorem hexSigs_of_loadHdbLines {b b' : SignatureEngineBuilder} {ls : List (Str × Nat)}
    (h : b.loadHdbLines ls = .ok (.ok b')) : b'.hexSigs = b.hexSigs := by
  induction ls generalizing b with
  | nil =>
    cases h
    rfl
  | cons l ls ih =>
    rw [loadHdbLines] at h
    split at h
    · exact ih h
    · obtain ⟨r, -, h⟩ := bind_eq_ok.mp h
      cases r with
      | error e => cases h
      | ok hashDb => exact (ih h).trans rfl

end SignatureEngineBuilder

/-- The hex signatures of a builder are parsed ones. -/
theorem Loaded.fromText {b : SignatureEngineBuilder} (h : Loaded b) :
    ∀ sig ∈ b.hexSigs, sig.FromText := by
  induction h with
  | new => exact nofun
  | ndb text hb hlen hload ih =>
    refine SignatureEngineBuilder.fromText_of_loadNdbLines (fun l hl => ?_) ih hload
    exact (utf8_length_le (sublist_of_mem_lines (List.fst_mem_of_mem_zipIdx hl))).trans hlen
  | hdb text hb hload ih => exact SignatureEngineBuilder.hexSigs_of_loadHdbLines hload ▸ ih

end ActiveDefense.Clam
