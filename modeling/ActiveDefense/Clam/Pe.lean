import ActiveDefense.Lib.Safe
import ActiveDefense.Rust.Float
import ActiveDefense.Rust.Usize
import ActiveDefense.Rust.Utf8
import Mathlib.Data.List.DropRight

/-!
# Executables

`pe_analyze` reads the headers of a PE file, on a target with a `usize` of 32 or of 64 bits, and
scores what it has read. The offsets come from the file, so each one is added up with a check, or
below a bound that was checked before. The fields of the file format are given apart from the
parser, each by its place in the buffer.
-/

namespace ActiveDefense.Clam

/-! ## The parser -/

/-- The numbers of `f64`, with the functions that the entropy takes of them. -/
class Log2Arith (φ : Type) extends FloatArith φ, Neg φ where
  /-- `f64::log2`. -/
  log2 : φ → φ

instance : Log2Arith Float where
  log2 := Float.log2

/-- `PeError`. -/
inductive PeError where
  | truncatedDos
  | badDosMagic
  | badPeOffset
  | badPeMagic
  | truncatedHeaders
  | truncatedSections
deriving DecidableEq, Repr

/-- A function that returns a `Result`, and may panic. -/
abbrev Parse (α : Type) : Type := ExceptT PeError (Except Panic) α

/-- The number with these bytes, the lowest first. -/
def leNat (bytes : List UInt8) : Nat := bytes.foldr (fun b n => b.toNat + 256 * n) 0

section
variable {w : UsizeWidth}

/-- `u16_at`. -/
def u16At (buf : Buffer w) (off : Nat) : Except Panic (Option UInt16) := do
  match buf.get off (← w.add off 2) with
  | none => return none
  | some s => return some (.ofNat (leNat [← index s 0, ← index s 1]))

/-- `u32_at`. -/
def u32At (buf : Buffer w) (off : Nat) : Except Panic (Option UInt32) := do
  match buf.get off (← w.add off 4) with
  | none => return none
  | some s => return some (.ofNat (leNat [← index s 0, ← index s 1, ← index s 2, ← index s 3]))

/-- `SectionInfo`. -/
structure SectionInfo (φ : Type) where
  name : Str
  virtualSize : UInt32
  rawSize : UInt32
  rawOffset : UInt32
  characteristics : UInt32
  entropy : φ

/-- `PeInfo`. -/
structure PeInfo (φ : Type) where
  machine : UInt16
  numberOfSections : UInt16
  entryPointRva : UInt32
  sections : List (SectionInfo φ)

/-- `SECTION_HEADER_SIZE`. -/
def sectionHeaderSize : Nat := 40

variable {φ : Type} [Log2Arith φ]

/-- One byte more is counted. -/
def countByte (counts : List Nat) (b : UInt8) : Except Panic (List Nat) := do
  return counts.set b.toNat (← inRange u64Max ((← index counts b.toNat) + 1))

/-- `shannon_entropy`. -/
def shannonEntropy (data : List UInt8) : Except Panic φ := do
  let counts ← data.foldlM countByte (List.replicate 256 0)
  let len : φ := FloatArith.ofUsize data.length
  return (counts.filter (0 < ·)).foldl
    (fun sum c =>
      let p := FloatArith.ofUsize c / len
      sum + -p * Log2Arith.log2 p) 0.0

/-- The body of the loop of `parse`. -/
def parseSection (buf : Buffer w) (sectionTableOff i : Nat) : Parse (SectionInfo φ) := do
  let base ← w.add sectionTableOff (← w.mul i sectionHeaderSize)
  let nameBytes ← buf.slice base (← w.add base 8)
  let name := (fromUtf8Lossy nameBytes).rdropWhile (· == Char.ofNat 0)
  let virtualSize := (← u32At buf (← w.add base 8)).getD 0
  let rawSize := (← u32At buf (← w.add base 16)).getD 0
  let rawOffset := (← u32At buf (← w.add base 20)).getD 0
  let characteristics := (← u32At buf (← w.add base 36)).getD 0
  let start := rawOffset.toNat
  let len := rawSize.toNat
  let entropy ←
    match buf.get start (min (w.saturatingAdd start len) buf.len) with
    | some slice =>
      if slice.isEmpty then pure (0.0 : φ) else (shannonEntropy slice : Except Panic φ)
    | none => pure 0.0
  return { name, virtualSize, rawSize, rawOffset, characteristics, entropy }

/-- `parse`. -/
def parse (buf : Buffer w) : Parse (PeInfo φ) := do
  if buf.len < 64 then throw .truncatedDos
  if (← buf.slice 0 2) ≠ [0x4D, 0x5A] then throw .badDosMagic
  let lfanew := (← okOr (← u32At buf 0x3C) .truncatedDos).toNat
  let peHeaderEnd ← okOr (w.checkedAdd lfanew (4 + 20 + 2)) .badPeOffset
  if buf.len < peHeaderEnd then throw .badPeOffset
  if (← buf.slice lfanew (← w.add lfanew 4)) ≠ [0x50, 0x45, 0, 0] then throw .badPeMagic
  let coffOff ← okOr (w.checkedAdd lfanew 4) .badPeOffset
  let machine ← okOr (← u16At buf coffOff) .truncatedHeaders
  let numberOfSections ← okOr (← u16At buf (← w.add coffOff 2)) .truncatedHeaders
  let sizeOfOptionalHeader :=
    (← okOr (← u16At buf (← w.add coffOff 16)) .truncatedHeaders).toNat
  let optHeaderOff ← okOr (w.checkedAdd coffOff 20) .truncatedHeaders
  if sizeOfOptionalHeader < 20 then throw .truncatedHeaders
  if (w.checkedAdd optHeaderOff sizeOfOptionalHeader).all (buf.len < ·) then
    throw .truncatedHeaders
  let entryPointRva ← okOr (← u32At buf (← w.add optHeaderOff 16)) .truncatedHeaders
  let sectionTableOff ←
    okOr (w.checkedAdd optHeaderOff sizeOfOptionalHeader) .truncatedSections
  let tableBytes ←
    okOr (w.checkedMul numberOfSections.toNat sectionHeaderSize) .truncatedSections
  let sectionsEnd ← okOr (w.checkedAdd sectionTableOff tableBytes) .truncatedSections
  if buf.len < sectionsEnd then throw .truncatedSections
  let sections ← (List.range numberOfSections.toNat).mapM (parseSection buf sectionTableOff)
  return { machine, numberOfSections, entryPointRva, sections }

end

/-! ## The scores -/

/-- `Heuristics`. -/
structure Heuristics where
  highEntropySections : List Str
  writableAndExecutableSections : List Str
  entryPointOutsideSections : Bool
  suspiciouslyFewSections : Bool
  score : Nat
deriving DecidableEq, Repr

/-- `Heuristics::default`. -/
instance : Inhabited Heuristics where
  default :=
    { highEntropySections := []
      writableAndExecutableSections := []
      entryPointOutsideSections := false
      suspiciouslyFewSections := false
      score := 0 }

/-- `if c { h.score += points }`, with `flagged` for what else the body makes of `h`. -/
def Heuristics.scoreIf (h : Heuristics) (c : Bool) (flagged : Heuristics) (points : Nat) :
    Except Panic Heuristics := do
  if c then return { flagged with score := ← inRange u32Max (flagged.score + points) }
  else return h

section
variable {φ : Type} [Log2Arith φ]

namespace SectionInfo

variable (s : SectionInfo φ)

/-- `is_executable`. -/
def isExecutable : Bool := s.characteristics &&& 0x20000000 ≠ 0

/-- `is_writable`. -/
def isWritable : Bool := s.characteristics &&& 0x80000000 ≠ 0

/-- Whether an address is in the range that `heuristics` gives the section. -/
def holds (rva : UInt32) : Bool :=
  let start := s.rawOffset.toNat
  let stop := min (start + (max s.virtualSize s.rawSize).toNat) u32Max
  decide (start ≤ rva.toNat) && decide (rva.toNat < stop)

end SectionInfo

/-- The body of the loop of `heuristics`. -/
def scoreSection (h : Heuristics) (s : SectionInfo φ) : Except Panic Heuristics := do
  let h ← h.scoreIf (decide ((7.2 : φ) ≤ s.entropy) && decide (256 ≤ s.rawSize))
    { h with highEntropySections := h.highEntropySections ++ [s.name] } 30
  h.scoreIf (s.isExecutable && s.isWritable)
    { h with
      writableAndExecutableSections := h.writableAndExecutableSections ++ [s.name] } 40

/-- `heuristics`. -/
def heuristics (info : PeInfo φ) : Except Panic Heuristics := do
  let h ← info.sections.foldlM scoreSection default
  let entryInSection := info.sections.any fun s => s.holds info.entryPointRva
  let h ← h.scoreIf (!entryInSection && !info.sections.isEmpty)
    { h with entryPointOutsideSections := true } 25
  h.scoreIf (decide (info.numberOfSections ≤ 2)) { h with suspiciouslyFewSections := true } 10

/-- What `scan_bytes` makes of a buffer that begins as an executable does. -/
def analyze {w : UsizeWidth} (buf : Buffer w) : Except Panic (Option Heuristics) := do
  match ← (parse (φ := φ) buf).run with
  | .ok info => return some (← heuristics info)
  | .error _ => return none

end

/-! ## The file format -/

namespace Buffer

variable {w : UsizeWidth} (buf : Buffer w)

/-- The number in `n` bytes of the buffer. -/
def field (off n : Nat) : Nat := leNat ((buf.bytes.drop off).take n)

/-- Where the PE signature is. -/
def lfanew : Nat := field buf 0x3C 4

/-- `NumberOfSections` of the file header. -/
def declaredSections : Nat := field buf (lfanew buf + 6) 2

/-- `SizeOfOptionalHeader` of the file header. -/
def optionalHeaderSize : Nat := field buf (lfanew buf + 20) 2

/-- `AddressOfEntryPoint` of the optional header. -/
def entryPoint : Nat := field buf (lfanew buf + 40) 4

/-- Where the header of a section is, in the table after the optional header. -/
def sectionHeader (i : Nat) : Nat :=
  lfanew buf + 24 + optionalHeaderSize buf + i * sectionHeaderSize

/-- `VirtualSize` of a section. -/
def virtualSize (i : Nat) : Nat := field buf (sectionHeader buf i + 8) 4

/-- `VirtualAddress` of a section. -/
def virtualAddress (i : Nat) : Nat := field buf (sectionHeader buf i + 12) 4

/-- `SizeOfRawData` of a section. -/
def sizeOfRawData (i : Nat) : Nat := field buf (sectionHeader buf i + 16) 4

/-- `PointerToRawData` of a section. -/
def pointerToRawData (i : Nat) : Nat := field buf (sectionHeader buf i + 20) 4

end Buffer

end ActiveDefense.Clam
