import ActiveDefense.Nsm.Common

/-!
# The persisted blocklist

`write_persisted_blocklist` renders one `ip/prefix expiry_ns` line per entry and
`load_persisted_blocklist` reads such a file back, skipping malformed lines.
`parseBlocklist_render` is the round trip.
-/

namespace ActiveDefense.Nsm

/-- One persisted entry: address, prefix length, absolute expiry. -/
abbrev BlocklistEntry := Ipv4Addr × UInt8 × UInt64

/-- The line of one entry, without its newline. -/
def renderEntry (e : BlocklistEntry) : Str :=
  e.1.display ++ '/' :: (decimal e.2.1.toNat ++ ' ' :: decimal e.2.2.toNat)

/-- The text `write_persisted_blocklist` writes. -/
def renderBlocklist (entries : List BlocklistEntry) : Str :=
  (entries.map renderEntry).flatMap (· ++ ['\n'])

/-- One line of the file; `none` is a malformed line. -/
def parseEntry (line : Str) : Option BlocklistEntry := do
  let (ipPrefix, expiryStr) ← splitOnce ' ' line
  let (ipStr, prefixStr) ← splitOnce '/' ipPrefix
  match parseIpv4 ipStr, parseUnsigned 256 prefixStr, parseUnsigned (2 ^ 64) expiryStr with
  | .ok ip, .ok prefixLen, .ok expiryNs => some (ip, UInt8.ofNat prefixLen, UInt64.ofNat expiryNs)
  | _, _, _ => none

/-- The entries of a file's text: empty and malformed lines are skipped. -/
def parseBlocklist (contents : Str) : List BlocklistEntry :=
  (lines contents).filterMap fun line =>
    let line := trim line
    if line = [] then none else parseEntry line

/-- What reading the file can give. -/
inductive FileRead where
  | notFound
  | failed
  | contents (text : Str)
deriving DecidableEq, Repr

/-- `load_persisted_blocklist`: a missing file is a first run; `none` is any other read error. -/
def loadPersistedBlocklist : FileRead → Option (List BlocklistEntry)
  | .notFound => some []
  | .failed => none
  | .contents text => some (parseBlocklist text)

/-! ## The round trip -/

/-- An IPv4 address is displayed with digits and dots. -/
theorem mem_display {ip : Ipv4Addr} {c : Char} (h : c ∈ ip.display) : c.isDigit ∨ c = '.' := by
  simp only [Ipv4Addr.display, List.mem_append, List.mem_cons] at h
  rcases h with h | h | h | h | h | h | h
  all_goals first
    | exact .inr h
    | exact .inl (isDigit_of_mem_decimal h)

/-- An entry's line has digits, dots, and its two separators. -/
theorem mem_renderEntry {e : BlocklistEntry} {c : Char} (h : c ∈ renderEntry e) :
    c.isDigit ∨ c = '.' ∨ c = '/' ∨ c = ' ' := by
  simp only [renderEntry, List.mem_append, List.mem_cons] at h
  rcases h with h | h | h | h | h
  · exact (mem_display h).imp_right .inl
  · exact .inr (.inr (.inl h))
  · exact .inl (isDigit_of_mem_decimal h)
  · exact .inr (.inr (.inr h))
  · exact .inl (isDigit_of_mem_decimal h)

/-- What neither the digits nor a line's punctuation contain is not in a line. -/
theorem not_mem_renderEntry {e : BlocklistEntry} {c : Char} (hd : c.isDigit = false)
    (hc : c ∉ ['.', '/', ' ']) : c ∉ renderEntry e := by
  intro h
  rcases mem_renderEntry h with h | h | h | h
  · simp [hd] at h
  all_goals exact hc (by simp [h])

/-- A displayed number starts and ends with a digit. -/
theorem isDigit_of_decimal_ends {n : Nat} {c : Char}
    (h : (decimal n).head? = some c ∨ (decimal n).getLast? = some c) : c.isDigit := by
  rcases h with h | h
  · exact isDigit_of_mem_decimal (List.mem_of_mem_head? h)
  · exact isDigit_of_mem_decimal (List.mem_of_mem_getLast? h)

theorem head?_renderEntry (e : BlocklistEntry) :
    (renderEntry e).head? = (decimal (e.1.octet 0).toNat).head? := by
  rw [renderEntry, Ipv4Addr.display, List.append_assoc, List.head?_append_of_ne_nil _
    (decimal_ne_nil _)]

theorem getLast?_renderEntry (e : BlocklistEntry) :
    (renderEntry e).getLast? = (decimal e.2.2.toNat).getLast? := by
  rw [renderEntry, ← List.cons_append, ← List.append_assoc, List.getLast?_append_cons,
    List.getLast?_cons_of_ne_nil (decimal_ne_nil _)]

/-- An entry's line has no whitespace to trim. -/
theorem trim_renderEntry (e : BlocklistEntry) : trim (renderEntry e) = renderEntry e := by
  refine trim_eq_self (fun c hc => ?_) fun c hc => ?_
  · rw [head?_renderEntry] at hc
    exact not_isWhitespace_of_isDigit (isDigit_of_decimal_ends (.inl hc))
  · rw [getLast?_renderEntry] at hc
    exact not_isWhitespace_of_isDigit (isDigit_of_decimal_ends (.inr hc))

/-- An entry's line parses back to the entry. -/
theorem parseEntry_renderEntry (e : BlocklistEntry) : parseEntry (renderEntry e) = some e := by
  obtain ⟨ip, prefixLen, expiryNs⟩ := e
  have hspace : ' ' ∉ ip.display ++ '/' :: decimal prefixLen.toNat := by
    intro h
    simp only [List.mem_append, List.mem_cons] at h
    rcases h with h | h | h
    · rcases mem_display h with h | h <;> exact absurd h (by decide)
    · exact absurd h (by decide)
    · exact absurd (isDigit_of_mem_decimal h) (by decide)
  have hslash : '/' ∉ ip.display := by
    intro h
    rcases mem_display h with h | h <;> exact absurd h (by decide)
  have h1 : splitOnce ' ' (renderEntry (ip, prefixLen, expiryNs)) =
      some (ip.display ++ '/' :: decimal prefixLen.toNat, decimal expiryNs.toNat) := by
    rw [← splitOnce_append hspace]
    simp [renderEntry]
  have h2 := splitOnce_append hslash (decimal prefixLen.toNat)
  rw [parseEntry, h1]
  simp [h2, parseIpv4_display, parseUnsigned_decimal prefixLen.toNat_lt,
    parseUnsigned_decimal expiryNs.toNat_lt]

/-- Loading what was written gives back the entries. -/
theorem parseBlocklist_render (entries : List BlocklistEntry) :
    parseBlocklist (renderBlocklist entries) = entries := by
  have hlines : lines (renderBlocklist entries) = entries.map renderEntry := by
    refine lines_flatMap (fun l hl => ?_) fun l hl => ?_
    · obtain ⟨e, -, rfl⟩ := List.mem_map.mp hl
      exact not_mem_renderEntry (by decide) (by decide)
    · obtain ⟨e, -, rfl⟩ := List.mem_map.mp hl
      intro h
      exact not_mem_renderEntry (e := e) (c := '\r') (by decide) (by decide)
        (List.mem_of_mem_getLast? h)
  rw [parseBlocklist, hlines, List.filterMap_map]
  refine (List.filterMap_congr fun e _ => ?_).trans List.filterMap_some
  have hne : renderEntry e ≠ [] := by
    intro h
    have hhead := head?_renderEntry e
    rw [h] at hhead
    exact decimal_ne_nil _ (List.head?_eq_none_iff.mp hhead.symm)
  simp [trim_renderEntry, hne, parseEntry_renderEntry]

end ActiveDefense.Nsm
