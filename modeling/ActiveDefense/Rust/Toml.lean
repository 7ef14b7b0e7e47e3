import ActiveDefense.Lib.Records
import ActiveDefense.Rust.Text
import Mathlib.Data.Char
import Mathlib.Data.List.Lex

/-!
# The crate `toml`, and `serde` over it

A document is a `toml::Value`. Its text is the business of the crate, which is a parameter: what it
reads of a text and what it writes for a value. What the derived implementations of `serde` read of
a value is defined here: a struct from a table by the names of its fields, or from an array by their
positions, an enumeration from the name of its variant.
-/

namespace ActiveDefense

/-- `toml::Value`; the keys of a table stand in their order. -/
inductive TomlValue where
  | string (s : Str)
  | integer (n : Int64)
  | float (v : Float)
  | boolean (b : Bool)
  | datetime (text : Str)
  | array (items : List TomlValue)
  | table (entries : List (Str × TomlValue))

/-- The functions of the crate that the program calls; `none` stands for an error. -/
structure TomlCrate where
  /-- `toml::from_str`. -/
  fromStr : Str → Option TomlValue
  /-- `toml::to_string_pretty`. -/
  toStringPretty : TomlValue → Option Str

/-- What the crate writes it reads as what was written. -/
def TomlCrate.RoundTrips (T : TomlCrate) : Prop :=
  ∀ v text, T.toStringPretty v = some text → T.fromStr text = some v

/-! ## Tables -/

/-- `Map::insert`, in the order of the keys: the value of a key is replaced, or the key is added. -/
def insertEntry {α : Type} (key : Str) (v : α) : List (Str × α) → List (Str × α)
  | [] => [(key, v)]
  | e :: rest =>
    if e.1 = key then (key, v) :: rest
    else if key < e.1 then (key, v) :: e :: rest
    else e :: insertEntry key v rest

theorem lookup_cons {α : Type} (k : Str) (e : Str × α) (entries : List (Str × α)) :
    (e :: entries).lookup k = if k = e.1 then some e.2 else entries.lookup k := by
  obtain ⟨name, v⟩ := e
  rw [List.lookup_cons]
  by_cases hk : k = name
  · simp [hk]
  · have hne : (k == name) = false := by simpa using hk
    simp [hne, hk]

theorem lookup_insertEntry {α : Type} (key : Str) (v : α) (entries : List (Str × α)) (k : Str) :
    (insertEntry key v entries).lookup k = if k = key then some v else entries.lookup k := by
  induction entries with
  | nil => rw [insertEntry, lookup_cons]
  | cons e rest ih =>
    rw [insertEntry]
    split
    · next he =>
      subst he
      rw [lookup_cons, lookup_cons]
      split <;> rfl
    · next he =>
      split
      · rw [lookup_cons]
      · rw [lookup_cons, lookup_cons, ih]
        split
        · next hk => rw [if_neg (hk ▸ he)]
        · rfl

/-- A second value of a key replaces the first. -/
theorem insertEntry_insertEntry {α : Type} (key : Str) (v w : α) (entries : List (Str × α)) :
    insertEntry key v (insertEntry key w entries) = insertEntry key v entries := by
  induction entries with
  | nil => simp [insertEntry]
  | cons e rest ih =>
    by_cases heq : e.1 = key
    · simp [insertEntry, heq]
    · by_cases hlt : key < e.1
      · simp [insertEntry, heq, hlt]
      · simp [insertEntry, heq, hlt, ih]

theorem insertEntry_comm_of_lt {α : Type} {key key' : Str} (hlt : key < key') (v w : α)
    (entries : List (Str × α)) :
    insertEntry key v (insertEntry key' w entries) =
      insertEntry key' w (insertEntry key v entries) := by
  have hne : key ≠ key' := ne_of_lt hlt
  have hnlt : ¬ key' < key := lt_asymm hlt
  induction entries with
  | nil => simp [insertEntry, hne, hne.symm, hlt, hnlt]
  | cons e rest ih =>
    rcases lt_trichotomy e.1 key with h | h | h
    · have hlt' := h.trans hlt
      simp [insertEntry, h.ne, hlt'.ne, lt_asymm h, lt_asymm hlt', ih]
    · simp [insertEntry, h, hne, hnlt]
    · rcases lt_trichotomy e.1 key' with h' | h' | h'
      · simp [insertEntry, h.ne', h'.ne, lt_asymm h', h, hne, hnlt]
      · simp [insertEntry, h', hlt, hne, hne.symm, hnlt]
      · simp [insertEntry, h.ne', h'.ne', h', h, hlt, hne, hne.symm, hnlt]

/-- The order in which two keys are inserted does not matter. -/
theorem insertEntry_comm {α : Type} {key key' : Str} (hne : key ≠ key') (v w : α)
    (entries : List (Str × α)) :
    insertEntry key v (insertEntry key' w entries) =
      insertEntry key' w (insertEntry key v entries) := by
  rcases lt_or_gt_of_ne hne with hlt | hlt
  · exact insertEntry_comm_of_lt hlt v w entries
  · exact (insertEntry_comm_of_lt hlt w v entries).symm

/-- A filter that drops a key does not see what is inserted there. -/
theorem filter_insertEntry {α : Type} {p : Str × α → Bool} {key : Str}
    (hp : ∀ v, p (key, v) = false) (v : α) (entries : List (Str × α)) :
    (insertEntry key v entries).filter p = entries.filter p := by
  induction entries with
  | nil => simp [insertEntry, hp]
  | cons e rest ih =>
    rw [insertEntry]
    split
    · next heq =>
      obtain ⟨name, w⟩ := e
      cases heq
      simp [hp]
    · split
      · simp [hp]
      · simp only [List.filter_cons, ih]

namespace TomlValue

/-- `Value::get` of a name. -/
def get (name : Str) : TomlValue → Option TomlValue
  | table entries => entries.lookup name
  | _ => none

/-- `Value::as_str`. -/
def asStr : TomlValue → Option Str
  | string s => some s
  | _ => none

/-- The value is an array, not a table. -/
def isArray : TomlValue → Bool
  | array _ => true
  | _ => false

/-! ## Reading -/

/-- The field of a struct, by its name in a table or by its position in an array. -/
def slot (name : Str) (index : Nat) : TomlValue → Option TomlValue
  | table entries => entries.lookup name
  | array items => items[index]?
  | _ => none

/-- A field without a default. -/
def field {α : Type} (read : TomlValue → Option α) (name : String) (index : Nat)
    (v : TomlValue) : Option α :=
  (v.slot name.toList index).bind read

/-- A field with a default. -/
def fieldOr {α : Type} (read : TomlValue → Option α) (default : α) (name : String) (index : Nat)
    (v : TomlValue) : Option α :=
  match v.slot name.toList index with
  | none => some default
  | some w => read w

/-- An optional field without a default: only a table may be without it. -/
def fieldOption {α : Type} (read : TomlValue → Option α) (name : String) (index : Nat)
    (v : TomlValue) : Option (Option α) :=
  match v.slot name.toList index with
  | none => if v.isArray then none else some none
  | some w => (read w).map some

/-- A struct all of whose fields have defaults is still a table or an array. -/
def isStruct : TomlValue → Bool
  | table _ | array _ => true
  | _ => false

def readString : TomlValue → Option Str := asStr

def readBool : TomlValue → Option Bool
  | boolean b => some b
  | _ => none

/-- An unsigned integer below a bound. -/
def readBelow (bound : Nat) : TomlValue → Option Nat
  | integer n => if 0 ≤ n ∧ n.toNatClampNeg < bound then some n.toNatClampNeg else none
  | _ => none

def readU16 (v : TomlValue) : Option UInt16 := (v.readBelow (2 ^ 16)).map .ofNat

def readU32 (v : TomlValue) : Option UInt32 := (v.readBelow (2 ^ 32)).map .ofNat

def readU64 (v : TomlValue) : Option UInt64 := (v.readBelow (2 ^ 64)).map .ofNat

def readUsize : TomlValue → Option Nat := readBelow (2 ^ 64)

/-- `Vec`. -/
def readVec {α : Type} (read : TomlValue → Option α) : TomlValue → Option (List α)
  | array items => items.mapM read
  | _ => none

/-- The name of a variant that holds nothing. -/
def readVariant : TomlValue → Option Str
  | string name => some name
  | table [(name, table [])] | table [(name, array [])] => some name
  | _ => none

/-- A value that a `FromStr` reads of a string. -/
def readParsed {α : Type} (parse : Str → Option α) (v : TomlValue) : Option α :=
  v.readString.bind parse

end TomlValue

end ActiveDefense
