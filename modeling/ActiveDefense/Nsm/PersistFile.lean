import ActiveDefense.Nsm.Persist
import ActiveDefense.Rust.Fs

/-!
# The file of the persisted blocklist

`write_persisted_blocklist` replaces the file as a whole, through a temporary one beside it;
`load_persisted_blocklist` reads it line by line. The entries of a text are those of what is before
a newline and of what is after it (`parseBlocklist_append`), so a line without an entry can be put
in and taken out anywhere. `load_write_persisted` is the round trip, for any file that can be
loaded.
-/

namespace ActiveDefense.Nsm

/-- `write_persisted_blocklist`. -/
def writePersistedBlocklist (path : PathBuf) (entries : List BlocklistEntry) : Io PUnit := do
  let buf := renderBlocklist entries
  let tmpPath := path.withExtension (utf8 "tmp".toList)
  let f ← File.create tmpPath
  f.writeAll (utf8 buf)
  f.syncAll
  fsRename tmpPath path

/-- What `read_to_string` gives on a disk that refuses nothing. -/
def fileAt (d : Disk) (path : PathBuf) : FileRead :=
  match d.read path with
  | none => .notFound
  | some bytes =>
    match fromUtf8 bytes with
    | some text => .contents text
    | none => .failed

/-! ## Lines -/

/-- The entry of a line, if it has one. -/
def entryOfLine (line : Str) : Option BlocklistEntry :=
  if trim line = [] then none else parseEntry (trim line)

theorem parseBlocklist_eq (contents : Str) :
    parseBlocklist contents = (splitInclusive contents).filterMap entryOfLine := by
  rw [parseBlocklist, lines, List.filterMap_map]
  refine List.filterMap_congr fun line _ => ?_
  rw [entryOfLine, ← trim_stripLineEnd line]
  rfl

/-- A line at the end of the file, which may lack its newline. -/
theorem parseBlocklist_last {line : Str} (h : '\n' ∉ line) :
    parseBlocklist line = (entryOfLine line).toList := by
  cases line with
  | nil => rfl
  | cons c line =>
    rw [parseBlocklist_eq, splitInclusive_of_not_mem h (List.cons_ne_nil c line)]
    cases hentry : entryOfLine (c :: line) <;> simp [hentry]

/-- A line that is followed by others. -/
theorem parseBlocklist_line {line : Str} (h : '\n' ∉ line) (after : Str) :
    parseBlocklist (line ++ '\n' :: after) = (entryOfLine line).toList ++ parseBlocklist after := by
  have hblank : entryOfLine (line ++ ['\n']) = entryOfLine line := by
    rw [entryOfLine, entryOfLine, trim_append_blank (by decide)]
  rw [parseBlocklist_eq, splitInclusive_append h, parseBlocklist_eq]
  cases hentry : entryOfLine line <;> simp [hblank, hentry]

/-- A newline splits the entries where it splits the text. -/
theorem parseBlocklist_append (before after : Str) :
    parseBlocklist (before ++ '\n' :: after) = parseBlocklist before ++ parseBlocklist after := by
  induction hn : before.length using Nat.strongRecOn generalizing before with
  | _ n ih =>
    by_cases hmem : '\n' ∈ before
    · obtain ⟨line, rest, rfl, hline⟩ := List.eq_append_cons_of_mem hmem
      have hshort : rest.length < n := by
        rw [← hn, List.length_append, List.length_cons]
        omega
      rw [List.append_assoc, List.cons_append, parseBlocklist_line hline, ih _ hshort rest rfl,
        parseBlocklist_line hline, List.append_assoc]
    · rw [parseBlocklist_line hmem, parseBlocklist_last hmem]

/-! ## The file -/

/-- A write that succeeds leaves the rendered entries at the path, also where the temporary file is
the file itself. -/
theorem writePersistedBlocklist_writes (path : PathBuf) (entries : List BlocklistEntry) :
    Survives (fun _ => True) (fun _ => True) (writePersistedBlocklist path entries)
      fun _ d => d.read path = some (utf8 (renderBlocklist entries)) := by
  refine .of_states fun d _ => .bind File.create_opens fun f => .of_fact ?_
  rintro rfl
  exact .bind File.writeAll_writes fun _ => .bind File.syncAll_reads fun _ => fsRename_reads

/-- A system that refuses nothing serves the write. -/
theorem exists_writePersistedBlocklist (path : PathBuf) (entries : List BlocklistEntry)
    {w : World Disk IoError} (hw : w.answers = []) :
    ∃ w', writePersistedBlocklist path entries w = .ok ⟨⟩ w' := by
  have hany (w : World Disk IoError) : Throughout (fun _ => True) w := fun _ _ => trivial
  obtain ⟨f, w₁, hcreate, hw₁⟩ :=
    File.create_succeeds (path.withExtension (utf8 "tmp".toList)) w hw
  obtain ⟨rfl, hopen⟩ := (File.create_opens w rfl (hany w)).2 f w₁ hcreate
  obtain ⟨⟨⟩, w₂, hwrite, hw₂⟩ :=
    File.writeAll_succeeds _ (utf8 (renderBlocklist entries)) w₁ hw₁
  have htext := (File.writeAll_writes w₁ hopen (hany w₁)).2 _ w₂ hwrite
  obtain ⟨⟨⟩, w₃, hsync, hw₃⟩ := File.syncAll_succeeds _ w₂ hw₂
  have htemp := (File.syncAll_reads w₂ htext (hany w₂)).2 _ w₃ hsync
  obtain ⟨w', hrename⟩ := exists_fsRename_run (q := path) hw₃ (Option.isSome_of_eq_some htemp)
  exact ⟨w', (bind_run_of_ok hcreate).trans ((bind_run_of_ok hwrite).trans
    ((bind_run_of_ok hsync).trans hrename))⟩

/-- A text is read back as it was written. -/
theorem fileAt_of_read {d : Disk} {path : PathBuf} {text : Str}
    (h : d.read path = some (utf8 text)) : fileAt d path = .contents text := by
  rw [fileAt, h]
  dsimp only
  rw [fromUtf8_utf8]

/-- A write that succeeds leaves the file that `persistBlocklist` says. -/
theorem fileAt_of_write {path : PathBuf} {entries : List BlocklistEntry}
    {w w' : World Disk IoError} (h : writePersistedBlocklist path entries w = .ok ⟨⟩ w') :
    fileAt w'.state path = .contents (renderBlocklist entries) :=
  fileAt_of_read
    ((writePersistedBlocklist_writes path entries w trivial fun _ _ => trivial).2 _ w' h)

/-- A write that succeeds is loaded as what was written. -/
theorem load_of_write {path : PathBuf} {entries : List BlocklistEntry} {w w' : World Disk IoError}
    (h : writePersistedBlocklist path entries w = .ok ⟨⟩ w') :
    loadPersistedBlocklist (fileAt w'.state path) = some entries := by
  rw [fileAt_of_write h, loadPersistedBlocklist, parseBlocklist_render]

/-- What is written is loaded; what is loaded of any file, written and loaded again, is the same; a
line without an entry means nothing, wherever it stands, and the other lines mean what they mean
without it. A write succeeds where the system refuses nothing. -/
theorem load_write_persisted (path : PathBuf) (w : World Disk IoError) :
    (∀ entries w', writePersistedBlocklist path entries w = .ok ⟨⟩ w' →
      loadPersistedBlocklist (fileAt w'.state path) = some entries) ∧
    (∀ entries w', loadPersistedBlocklist (fileAt w.state path) = some entries →
      writePersistedBlocklist path entries w = .ok ⟨⟩ w' →
      loadPersistedBlocklist (fileAt w'.state path) =
        loadPersistedBlocklist (fileAt w.state path)) ∧
    (∀ before line after, parseBlocklist line = [] →
      loadPersistedBlocklist (.contents (before ++ '\n' :: (line ++ '\n' :: after))) =
        loadPersistedBlocklist (.contents (before ++ '\n' :: after))) ∧
    (∀ before after, parseBlocklist (before ++ '\n' :: after) =
      parseBlocklist before ++ parseBlocklist after) ∧
    (w.answers = [] → ∀ entries, ∃ w', writePersistedBlocklist path entries w = .ok ⟨⟩ w') := by
  refine ⟨fun entries w' h => load_of_write h, fun entries w' hload h => ?_,
    fun before line after hline => ?_, parseBlocklist_append,
    fun hw entries => exists_writePersistedBlocklist path entries hw⟩
  · rw [load_of_write h, hload]
  · rw [loadPersistedBlocklist, loadPersistedBlocklist, parseBlocklist_append,
      parseBlocklist_append line, hline, List.nil_append, ← parseBlocklist_append]

/-- A disk without a file. -/
def emptyDisk : Disk where
  entries _ := ⟨none, []⟩
  data _ := ⟨[], []⟩
  nextInode := 0
  allocated := by
    intro p i h
    cases h

/-- Two entries, one of them longer than a prefix can be, on an empty disk; and a line that somebody
put into the file. -/
theorem load_write_persisted_two :
    let path := utf8 "/var/lib/nsm/blocklist.txt".toList
    let w := World.start emptyDisk []
    let entries : List BlocklistEntry :=
      [(Ipv4Addr.new 10 0 0 9, 32, 300), (Ipv4Addr.new 10 0 0 0, 255, 18446744073709551615)]
    (∃ w', writePersistedBlocklist path entries w = .ok ⟨⟩ w' ∧
      loadPersistedBlocklist (fileAt w'.state path) = some entries) ∧
    loadPersistedBlocklist (.contents "10.0.0.9/32 300\n# stuck\n10.0.0.8/32 7".toList) =
      loadPersistedBlocklist (.contents "10.0.0.9/32 300\n10.0.0.8/32 7".toList) := by
  obtain ⟨hload, -, hskip, -, hserved⟩ :=
    load_write_persisted (utf8 "/var/lib/nsm/blocklist.txt".toList) (World.start emptyDisk [])
  obtain ⟨w', hw'⟩ := hserved rfl
    [(Ipv4Addr.new 10 0 0 9, 32, 300), (Ipv4Addr.new 10 0 0 0, 255, 18446744073709551615)]
  refine ⟨⟨w', hw', hload _ w' hw'⟩, ?_⟩
  exact hskip "10.0.0.9/32 300".toList "# stuck".toList "10.0.0.8/32 7".toList (by decide)

end ActiveDefense.Nsm
