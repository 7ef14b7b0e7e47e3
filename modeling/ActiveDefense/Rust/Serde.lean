import ActiveDefense.Lib.Table
import ActiveDefense.Rust.Float
import ActiveDefense.Rust.Json
import Mathlib.Data.List.Basic

/-!
# `serde` and JSON documents

What the derived implementations write of a record and read of a document, and the text that
`to_string_pretty` gives a document, up to that of its floats. How `from_str` reads a text is not
modelled here. A field that a record does not have is skipped, an optional field may be missing, and
no field may stand twice; a number that is not finite is written as `null`.
-/

namespace ActiveDefense

/-- A JSON document without arrays. -/
inductive JsonValue where
  | null
  | bool (b : Bool)
  | int (n : Int)
  | float (v : Float)
  | string (s : String)
  | object (fields : List (String × JsonValue))

namespace JsonValue

/-! ## Text -/

def newline (indent : Nat) : Str := '\n' :: List.replicate (2 * indent) ' '

mutual

/-- `to_string_pretty`, with the text of a float. -/
def toStringPretty (float : Float → Str) (indent : Nat) : JsonValue → Str
  | null => "null".toList
  | bool true => "true".toList
  | bool false => "false".toList
  | int n => if n < 0 then '-' :: decimal n.natAbs else decimal n.natAbs
  | .float v => float v
  | string s => jsonString s.toList
  | object [] => "\x7b\x7d".toList
  | object fields =>
    '{' :: (prettyFields float (indent + 1) fields ++ newline indent ++ "\x7d".toList)

/-- The fields of an object, each on a line of its own. -/
def prettyFields (float : Float → Str) (indent : Nat) : List (String × JsonValue) → Str
  | [] => []
  | (name, v) :: rest =>
    newline indent ++ jsonString name.toList ++ ": ".toList ++ toStringPretty float indent v ++
      if rest.isEmpty then [] else ',' :: prettyFields float indent rest

end

/-! ## Reading -/

/-- The values of the fields with a name. -/
def named (name : String) : JsonValue → List JsonValue
  | object fields => (fields.filter fun f => f.1 = name).map (·.2)
  | _ => []

/-- A field. -/
def field (name : String) (v : JsonValue) : Option JsonValue :=
  match v.named name with
  | [value] => some value
  | _ => none

/-- The variant of an enumeration, with what it holds; a variant that holds nothing stands alone. -/
def variant : JsonValue → Option (String × JsonValue)
  | string name => some (name, null)
  | object [(name, body)] => some (name, body)
  | _ => none

def readString : JsonValue → Option Str
  | string s => some s.toList
  | _ => none

def readBool : JsonValue → Option Bool
  | bool b => some b
  | _ => none

def readI64 : JsonValue → Option Int64
  | int n => if -2 ^ 63 ≤ n ∧ n < 2 ^ 63 then some (.ofInt n) else none
  | _ => none

def readU32 : JsonValue → Option UInt32
  | int n => if 0 ≤ n ∧ n.toNat < 2 ^ 32 then some (.ofNat n.toNat) else none
  | _ => none

def readU64 : JsonValue → Option UInt64
  | int n => if 0 ≤ n ∧ n.toNat < 2 ^ 64 then some (.ofNat n.toNat) else none
  | _ => none

def readF64 : JsonValue → Option Float
  | float v => some v
  | int n => some (.ofInt n)
  | _ => none

/-- An optional field: `null` is none, and so is a field that is missing. -/
def readOptional {α : Type} (read : JsonValue → Option α) (name : String) (v : JsonValue) :
    Option (Option α) :=
  match v.named name with
  | [] | [null] => some none
  | [value] => (read value).map some
  | _ => none

/-- The fields of a map, into a table. -/
def readEntries {α : Type} (read : JsonValue → Option α) (t : Table Str α) :
    List (String × JsonValue) → Option (Table Str α)
  | [] => some t
  | (name, v) :: rest => (read v).bind fun a => readEntries read (t.insert name.toList a) rest

/-- A map: of two fields with one name the later one counts. -/
def readMap {α : Type} (read : JsonValue → Option α) : JsonValue → Option (Table Str α)
  | object fields => readEntries read ∅ fields
  | _ => none

/-! ## Writing -/

def ofStr (s : Str) : JsonValue := string (.ofList s)

def ofI64 (n : Int64) : JsonValue := int n.toInt

def ofU32 (n : UInt32) : JsonValue := int n.toNat

def ofU64 (n : UInt64) : JsonValue := int n.toNat

def ofF64 (v : Float) : JsonValue := if v.isFinite then float v else null

def ofOption {α : Type} (write : α → JsonValue) : Option α → JsonValue
  | none => null
  | some a => write a

/-- A map, in the order of its table. -/
def ofMap {α : Type} (write : α → JsonValue) (t : Table Str α) : JsonValue :=
  object (t.entries.map fun e => (.ofList e.1, write e.2))

/-! ## What is written reads back -/

theorem field_single (name : String) (v : JsonValue) :
    (object [(name, v)]).field name = some v := by
  simp [field, named]

theorem readString_ofStr (s : Str) : readString (ofStr s) = some s := by
  rw [ofStr, readString, String.toList_ofList]

theorem readI64_ofI64 (n : Int64) : readI64 (ofI64 n) = some n := by
  have hlower := n.le_toInt
  have hupper := n.toInt_lt
  rw [ofI64, readI64, if_pos ⟨hlower, hupper⟩, Int64.ofInt_toInt]

theorem readU32_ofU32 (n : UInt32) : readU32 (ofU32 n) = some n := by
  have hupper := n.toNat_lt
  rw [ofU32, readU32, if_pos (by omega), Int.toNat_natCast, UInt32.ofNat_toNat]

theorem readU64_ofU64 (n : UInt64) : readU64 (ofU64 n) = some n := by
  have hupper := n.toNat_lt
  rw [ofU64, readU64, if_pos (by omega), Int.toNat_natCast, UInt64.ofNat_toNat]

/-- A number that is finite reads back. -/
theorem readF64_ofF64 {v : Float} (h : v.isFinite = true) : readF64 (ofF64 v) = some v := by
  unfold ofF64
  rw [if_pos h]
  rfl

/-- An optional field whose values read back and are not written as `null`. -/
theorem readOptional_ofOption {α : Type} {read : JsonValue → Option α} {write : α → JsonValue}
    {o : Option α} {name : String} {v : JsonValue} (hfield : v.named name = [ofOption write o])
    (h : ∀ a ∈ o, write a ≠ null ∧ read (write a) = some a) :
    readOptional read name v = some o := by
  cases o with
  | none => rw [readOptional, hfield, ofOption]
  | some a =>
    obtain ⟨hnull, hread⟩ := h a rfl
    unfold readOptional
    rw [hfield, ofOption]
    split
    · next heq => cases heq
    · next heq => exact absurd (List.cons.inj heq).1 hnull
    · next heq =>
      cases heq
      rw [hread]
      rfl
    · next hother => exact absurd rfl (hother _)

theorem readEntries_ofMap {α : Type} {read : JsonValue → Option α} {write : α → JsonValue}
    {entries : List (Sigma fun _ : Str => α)} (hnodup : entries.NodupKeys)
    (h : ∀ e ∈ entries, read (write e.2) = some e.2) (t : Table Str α) :
    ∃ t', readEntries read t (entries.map fun e => (.ofList e.1, write e.2)) = some t' ∧
      ∀ k, t'.lookup k = (entries.dlookup k).or (t.lookup k) := by
  induction entries generalizing t with
  | nil => exact ⟨t, rfl, fun k => rfl⟩
  | cons e rest ih =>
    obtain ⟨hnew, hrest⟩ := List.nodupKeys_cons.mp hnodup
    obtain ⟨t', hrun, hlookup⟩ := ih hrest (fun e' he' => h e' (List.mem_cons_of_mem _ he'))
      (t.insert e.1 e.2)
    refine ⟨t', ?_, fun k => (hlookup k).trans ?_⟩
    · rw [List.map_cons, readEntries, h e (.head _), String.toList_ofList]
      exact hrun
    · obtain ⟨key, a⟩ := e
      by_cases hk : k = key
      · rw [hk, AList.lookup_insert, List.dlookup_eq_none.mpr hnew, List.dlookup_cons_eq]
        rfl
      · rw [AList.lookup_insert_ne hk, List.dlookup_cons_ne _ _ hk]

/-- A map whose values read back. -/
theorem readMap_ofMap {α : Type} (read : JsonValue → Option α) (write : α → JsonValue)
    {t : Table Str α} (h : ∀ k a, t.lookup k = some a → read (write a) = some a) :
    ∃ t', readMap read (ofMap write t) = some t' ∧ ∀ k, t'.lookup k = t.lookup k := by
  obtain ⟨t', hrun, hlookup⟩ := readEntries_ofMap t.nodupKeys
    (fun e he => h e.1 e.2 (AList.mem_lookup_iff.mpr he)) ∅
  refine ⟨t', hrun, fun k => (hlookup k).trans ?_⟩
  rw [AList.lookup_empty, Option.or_none]
  rfl

end JsonValue

end ActiveDefense
