import ActiveDefense.Rust.Utf8

/-!
# JSON text

`serde_json::to_string_pretty` of a record of strings and numbers.
-/

namespace ActiveDefense

/-- A character of a JSON string. -/
def escapeChar (c : Char) : Str :=
  if c = '"' then ['\\', '"']
  else if c = '\\' then ['\\', '\\']
  else if c.toNat = 8 then ['\\', 'b']
  else if c.toNat = 12 then ['\\', 'f']
  else if c = '\n' then ['\\', 'n']
  else if c = '\r' then ['\\', 'r']
  else if c = '\t' then ['\\', 't']
  else if c.toNat < 32 then
    ['\\', 'u', '0', '0', Nat.digitChar (c.toNat / 16), Nat.digitChar (c.toNat % 16)]
  else [c]

/-- A string. -/
def jsonString (s : Str) : Str := '"' :: (s.flatMap escapeChar ++ ['"'])

/-- The fields of a record, each on a line of its own. -/
def jsonFields : List (Str × Str) → Str
  | [] => []
  | [(name, value)] => "\n  ".toList ++ jsonString name ++ ": ".toList ++ value
  | (name, value) :: rest =>
    "\n  ".toList ++ jsonString name ++ ": ".toList ++ value ++ ',' :: jsonFields rest

/-- `to_string_pretty` of a record with these fields and the texts of their values. -/
def jsonRecord (fields : List (Str × Str)) : Str := '{' :: (jsonFields fields ++ "\n\x7d".toList)

/-! ## No text has a NUL -/

/-- The text does not have the NUL character. -/
def NulFree (s : Str) : Prop := '\x00' ∉ s

instance (s : Str) : Decidable (NulFree s) := inferInstanceAs (Decidable ('\x00' ∉ s))

theorem NulFree.append {s t : Str} (hs : NulFree s) (ht : NulFree t) : NulFree (s ++ t) := by
  intro h
  rcases List.mem_append.mp h with h | h
  · exact hs h
  · exact ht h

theorem NulFree.cons {c : Char} {s : Str} (hc : c ≠ '\x00') (hs : NulFree s) :
    NulFree (c :: s) := by
  intro h
  rcases List.mem_cons.mp h with h | h
  · exact hc h.symm
  · exact hs h

theorem nulFree_escapeChar (c : Char) : NulFree (escapeChar c) := by
  intro h
  unfold escapeChar at h
  repeat' split at h
  all_goals simp at h
  next hprintable => exact hprintable (h ▸ by decide)

theorem nulFree_jsonString (s : Str) : NulFree (jsonString s) := by
  refine .cons (by decide) (.append ?_ (by decide))
  intro h
  obtain ⟨c, -, hc⟩ := List.mem_flatMap.mp h
  exact nulFree_escapeChar c hc

theorem nulFree_decimal (n : Nat) : NulFree (decimal n) := by
  intro h
  exact absurd (isDigit_of_mem_decimal h) (by decide)

/-- A record whose values have no NUL has none. -/
theorem nulFree_jsonRecord {fields : List (Str × Str)} (h : ∀ f ∈ fields, NulFree f.2) :
    NulFree (jsonRecord fields) := by
  refine .cons (by decide) (.append ?_ (by decide))
  induction fields with
  | nil => exact List.not_mem_nil
  | cons f rest ih =>
    have hfield : NulFree ("\n  ".toList ++ jsonString f.1 ++ ": ".toList ++ f.2) :=
      .append (.append (.append (by decide) (nulFree_jsonString f.1)) (by decide)) (h f (.head _))
    have hrest := ih fun g hg => h g (List.mem_cons_of_mem _ hg)
    cases rest with
    | nil => exact hfield
    | cons g rest => exact hfield.append (.cons (by decide) hrest)

end ActiveDefense
