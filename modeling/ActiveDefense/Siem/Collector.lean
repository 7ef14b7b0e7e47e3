import ActiveDefense.Lib.Records
import ActiveDefense.Lib.Run
import ActiveDefense.Rust.Fs
import ActiveDefense.Rust.Utf8

/-!
# The collector's log tail

`FileTailer` follows a log file that a daemon appends to. `poll` reads lines up to the end of the
file. A line that is not complete there is dropped from what `poll` returns, as is one that is not
UTF-8, but the reader has taken its bytes and is never put back, so the line is lost when it is
completed. The lines that were returned are those of the file, in every state of exactly the runs in
which a poll that finds the end of a line finds whole characters behind it, and the poll before it
was not within a line (`follows_iff`).
-/

namespace ActiveDefense.Siem

/-- The byte of a newline. -/
def lineFeed : UInt8 := 10

/-! ## The tailer -/

/-- `BufRead::read_line`, on the bytes from the reader's place on: how many of them it takes, and
their text. Where they are not UTF-8 it is an error, but they are taken all the same. -/
def readLine (unread : List UInt8) : Nat × Option Str :=
  match splitOnce lineFeed unread with
  | some (line, _) => (line.length + 1, fromUtf8 (line ++ [lineFeed]))
  | none => (unread.length, fromUtf8 unread)

/-- `FileTailer`, without its path. The reader is the place in the file that it has read up to. -/
structure FileTailer where
  reader : Option Nat
  offset : Nat
deriving DecidableEq

namespace FileTailer

/-- `FileTailer::new`. -/
def new : FileTailer where
  reader := none
  offset := 0

/-- `FileTailer::ensure_open`, where the file is there: the reader's place. -/
def ensureOpen (t : FileTailer) : Nat :=
  match t.reader with
  | some place => place
  | none => t.offset

/-- The loop of `FileTailer::poll`, in at most so many turns. -/
def readLines (file : List UInt8) :
    Nat → Nat → Nat → List Str → Except IoError (List Str) × FileTailer
  | 0, place, offset, lines => (.ok lines, ⟨some place, offset⟩)
  | turns + 1, place, offset, lines =>
    match readLine (file.drop place) with
    | (n, none) => (.error .invalidData, ⟨some (place + n), offset⟩)
    | (n, some buf) =>
      if n = 0 then (.ok lines, ⟨some (place + n), offset⟩)
      else if buf.getLast? = some '\n' then
        readLines file turns (place + n) (offset + n) (lines ++ [trimEnd buf])
      else (.ok lines, ⟨some (place + n), offset⟩)

/-- `FileTailer::poll`. -/
def poll (file : List UInt8) (t : FileTailer) : Except IoError (List Str) × FileTailer :=
  readLines file (file.length + 1) t.ensureOpen t.offset []

end FileTailer

/-! ## The file and the polls -/

/-- The complete lines of a file, as `poll` is to return them. -/
def lineTexts (file : List UInt8) : Option (List Str) :=
  ((cutAfter lineFeed file).1.mapM fromUtf8).map (List.map trimEnd)

/-- How long the complete lines of a file are together. -/
def completeLength (file : List UInt8) : Nat := (cutAfter lineFeed file).1.flatten.length

/-- The file, the tailer, the lists that the polls returned one after the other, and the file as the
last poll found it. -/
structure Tailing where
  file : List UInt8
  tailer : FileTailer
  returned : List Str
  polled : List UInt8

/-- The next bytes of the log come to the file, or the tailer is polled. -/
inductive TailingAction where
  | append (n : Nat)
  | poll

namespace Tailing

/-- A poll, and what its caller has then. -/
def poll (s : Tailing) : Tailing :=
  let outcome := s.tailer.poll s.file
  { s with
    tailer := outcome.2
    returned :=
      match outcome.1 with
      | .ok lines => s.returned ++ lines
      | .error _ => s.returned
    polled := s.file }

/-- The state after a step, where the log will have become `text`. -/
def next (text : Str) (s : Tailing) : TailingAction → Tailing
  | .append n => { s with file := s.file ++ ((utf8 text).drop s.file.length).take n }
  | .poll => s.poll

/-- The steps. -/
def Step (text : Str) (s : Tailing) (a : TailingAction) (t : Tailing) : Prop := s.next text a = t

/-- An empty file that was not polled. -/
def start : Tailing where
  file := []
  tailer := .new
  returned := []
  polled := []

/-- What was returned is the complete lines that the last poll found on file, and the offset is
where they end. -/
structure Follows (s : Tailing) : Prop where
  returned : lineTexts s.polled = some s.returned
  offset : s.tailer.offset = completeLength s.polled

/-- A poll finds no end of a line, or the one before it found a file that ended with a line, and
this one finds whole characters behind the last line. -/
def Meets (s : Tailing) : TailingAction → Prop
  | .append _ => True
  | .poll => lineFeed ∉ s.file.drop s.polled.length ∨
      ((cutAfter lineFeed s.polled).2 = [] ∧
        (fromUtf8 (cutAfter lineFeed s.file).2).isSome = true)

end Tailing

/-! ## One poll -/

theorem readLine_of_line {line : List UInt8} (h : lineFeed ∉ line) (rest : List UInt8) :
    readLine (line ++ lineFeed :: rest) = (line.length + 1, fromUtf8 (line ++ [lineFeed])) := by
  rw [readLine, splitOnce_append h]

theorem readLine_of_rest {unread : List UInt8} (h : lineFeed ∉ unread) :
    readLine unread = (unread.length, fromUtf8 unread) := by
  rw [readLine, splitOnce_of_not_mem h]

/-- A text ends with a newline where its bytes do. -/
theorem getLast?_of_fromUtf8 {line : List UInt8} {buf : Str}
    (h : fromUtf8 (line ++ [lineFeed]) = some buf) : buf.getLast? = some '\n' := by
  obtain ⟨t, u, rfl, -, hu⟩ :=
    exists_of_utf8_eq_append (a := '\n') (b := lineFeed) (by decide) rfl (utf8_of_fromUtf8 h)
  have hnil : u = [] := utf8_inj (t := []) hu
  rw [hnil, List.getLast?_concat]

theorem getLast?_ne_of_fromUtf8 {unread : List UInt8} {buf : Str} (h : lineFeed ∉ unread)
    (hbuf : fromUtf8 unread = some buf) : buf.getLast? ≠ some '\n' := by
  intro hlast
  obtain ⟨t, rfl⟩ := List.getLast?_eq_some_iff.mp hlast
  refine h ?_
  rw [← utf8_of_fromUtf8 hbuf, utf8_append]
  exact List.mem_append_right _ (.head _)

namespace FileTailer

variable {file unread : List UInt8} {turns place offset : Nat} {lines bufs : List Str}

/-- Behind a line that was read. -/
theorem drop_line {line rest : List UInt8} (h : file.drop place = line ++ lineFeed :: rest) :
    file.drop (place + (line.length + 1)) = rest := by
  rw [← List.drop_drop, h, ← List.drop_drop, List.drop_left]
  rfl

/-- Where the lines decode, the reader comes to the end of the file and the offset to the end of the
last line. What is behind that line decides whether the lines are returned. -/
theorem readLines_of_some (hunread : file.drop place = unread) (hturns : unread.length < turns)
    (h : (cutAfter lineFeed unread).1.mapM fromUtf8 = some bufs) :
    readLines file turns place offset lines =
      (if (fromUtf8 (cutAfter lineFeed unread).2).isSome then .ok (lines ++ bufs.map trimEnd)
        else .error .invalidData,
        ⟨some (place + unread.length), offset + completeLength unread⟩) := by
  induction unread using cut_induction lineFeed generalizing turns place offset lines bufs with
  | rest unread hmem =>
    obtain ⟨turns, rfl⟩ := Nat.exists_eq_add_of_lt hturns
    rw [completeLength, cutAfter_of_not_mem hmem] at *
    cases h
    rw [readLines, hunread, readLine_of_rest hmem]
    cases hdec : fromUtf8 unread with
    | none => rfl
    | some buf => simp [getLast?_ne_of_fromUtf8 hmem hdec]
  | piece line rest hmem ih =>
    obtain ⟨turns, rfl⟩ : ∃ n, turns = n + 1 := Nat.exists_eq_succ_of_ne_zero (by omega)
    rw [cutAfter_append_sep hmem] at h
    obtain ⟨buf, bufs, hbuf, hbufs, rfl⟩ := mapM_cons_eq_some.mp h
    have hrest := drop_line hunread
    rw [readLines, hunread, readLine_of_line hmem, hbuf]
    simp only [getLast?_of_fromUtf8 hbuf, if_true]
    rw [List.length_append, List.length_cons] at hturns
    rw [if_neg (Nat.succ_ne_zero _), ih hrest (by omega) hbufs, completeLength, completeLength,
      cutAfter_append_sep hmem]
    simp [Nat.add_comm, Nat.add_left_comm]

/-- A line that does not decode is an error of the poll. -/
theorem readLines_of_none (offset : Nat) (lines : List Str) (hunread : file.drop place = unread)
    (hturns : unread.length < turns)
    (h : (cutAfter lineFeed unread).1.mapM fromUtf8 = none) :
    (readLines file turns place offset lines).1 = .error .invalidData := by
  induction unread using cut_induction lineFeed generalizing turns place offset lines with
  | rest unread hmem =>
    rw [cutAfter_of_not_mem hmem] at h
    cases h
  | piece line rest hmem ih =>
    obtain ⟨turns, rfl⟩ : ∃ n, turns = n + 1 := Nat.exists_eq_succ_of_ne_zero (by omega)
    rw [cutAfter_append_sep hmem, List.mapM_cons] at h
    have hrest := drop_line hunread
    rw [readLines, hunread, readLine_of_line hmem]
    cases hbuf : fromUtf8 (line ++ [lineFeed]) with
    | none => rfl
    | some buf =>
      simp only [getLast?_of_fromUtf8 hbuf, if_true]
      rw [List.length_append, List.length_cons] at hturns
      rw [if_neg (Nat.succ_ne_zero _)]
      refine ih _ _ hrest (by omega) ?_
      rw [hbuf] at h
      cases hbufs : (cutAfter lineFeed rest).1.mapM fromUtf8 with
      | none => rfl
      | some bufs =>
        rw [hbufs] at h
        cases h

end FileTailer

/-! ## The lines of a text -/

/-- The complete lines of what a text begins with are texts. -/
theorem exists_bufs_of_prefix {text : Str} {file : List UInt8} (h : file <+: utf8 text) :
    ∃ bufs, (cutAfter lineFeed file).1.mapM fromUtf8 = some bufs := by
  induction file using cut_induction lineFeed generalizing text with
  | rest file hmem => exact ⟨[], by rw [cutAfter_of_not_mem hmem]; rfl⟩
  | piece line rest hmem ih =>
    obtain ⟨v, hv⟩ := h
    rw [List.append_assoc, List.cons_append] at hv
    obtain ⟨t, u, -, ht, hu⟩ :=
      exists_of_utf8_eq_append (a := '\n') (b := lineFeed) (by decide) rfl hv.symm
    have hrest : rest <+: utf8 u := hu ▸ List.prefix_append _ _
    obtain ⟨bufs, hbufs⟩ := ih hrest
    have hline : fromUtf8 (line ++ [lineFeed]) = some (t ++ ['\n']) := by
      rw [← ht, ← fromUtf8_utf8, utf8_append]
      rfl
    refine ⟨(t ++ ['\n']) :: bufs, ?_⟩
    rw [cutAfter_append_sep hmem]
    exact mapM_cons_eq_some.mpr ⟨_, _, hline, hbufs, rfl⟩

/-- As many texts as lines. -/
theorem length_of_lineTexts {file : List UInt8} {lines : List Str}
    (h : lineTexts file = some lines) : lines.length = (cutAfter lineFeed file).1.length := by
  obtain ⟨bufs, hbufs, rfl⟩ := Option.map_eq_some_iff.mp h
  rw [List.length_map]
  exact (forall₂_of_mapM hbufs).length_eq.symm

theorem completeLength_add (file : List UInt8) :
    completeLength file + (cutAfter lineFeed file).2.length = file.length := by
  rw [completeLength, ← List.length_append, flatten_cutAfter]

/-- Behind a newline that comes later, the lines are complete up to where those of the new bytes
are. -/
theorem completeLength_append {xs ys : List UInt8} (h : lineFeed ∈ ys) :
    completeLength (xs ++ ys) = xs.length + completeLength ys := by
  have hrest := (cutAfter_append_of_mem h xs).2
  have hxs := completeLength_add (xs ++ ys)
  have hys := completeLength_add ys
  rw [hrest, List.length_append] at hxs
  omega

/-- Lines that come after a complete one. -/
theorem lineTexts_append {xs ys : List UInt8} {lines bufs : List Str}
    (hxs : lineTexts xs = some lines) (hend : (cutAfter lineFeed xs).2 = [])
    (hys : (cutAfter lineFeed ys).1.mapM fromUtf8 = some bufs) :
    lineTexts (xs ++ ys) = some (lines ++ bufs.map trimEnd) := by
  obtain ⟨before, hbefore, rfl⟩ := Option.map_eq_some_iff.mp hxs
  have hboth := mapM_append_eq_some.mpr ⟨before, bufs, hbefore, hys, rfl⟩
  rw [lineTexts, cutAfter_append, hend, List.nil_append, hboth, Option.map_some, List.map_append]

namespace Tailing

variable {text : Str} {s t : Tailing}

/-- The state of a run in which every poll met the condition. -/
structure Sync (text : Str) (s : Tailing) : Prop where
  file : s.file <+: utf8 text
  polled : s.polled <+: s.file
  place : s.tailer.ensureOpen = s.polled.length
  follows : s.Follows

section
variable {new : List UInt8} (h : Sync text s) (hfile : s.polled ++ new = s.file)
include h hfile

/-- The tailer reads on where the poll before ended. -/
theorem Sync.drop_eq : s.file.drop s.tailer.ensureOpen = new := by
  rw [h.place, ← hfile, List.drop_left]

omit h in
theorem length_lt : new.length < s.file.length + 1 := by
  rw [← hfile, List.length_append]
  omega

/-- What a poll does where the lines decode. -/
theorem Sync.poll_eq {bufs : List Str}
    (hbufs : (cutAfter lineFeed new).1.mapM fromUtf8 = some bufs) :
    s.poll = { s with
      tailer := ⟨some s.file.length, s.tailer.offset + completeLength new⟩
      returned :=
        if (fromUtf8 (cutAfter lineFeed new).2).isSome then s.returned ++ bufs.map trimEnd
        else s.returned
      polled := s.file } := by
  have hlen : s.tailer.ensureOpen + new.length = s.file.length := by
    rw [h.place, ← hfile, List.length_append]
  rw [poll, FileTailer.poll,
    FileTailer.readLines_of_some (h.drop_eq hfile) (length_lt hfile) hbufs, hlen]
  cases (fromUtf8 (cutAfter lineFeed new).2).isSome <;> rfl

/-- A poll that fails returns nothing. -/
theorem Sync.returned_of_none (hnone : (cutAfter lineFeed new).1.mapM fromUtf8 = none) :
    s.poll.returned = s.returned := by
  have hread := FileTailer.readLines_of_none s.tailer.offset [] (h.drop_eq hfile)
    (length_lt hfile) hnone
  simp only [poll, FileTailer.poll, hread]

/-- The new lines decode, as they begin where a line does. -/
theorem Sync.poll_of_end (hend : (cutAfter lineFeed s.polled).2 = []) :
    ∃ bufs, (cutAfter lineFeed new).1.mapM fromUtf8 = some bufs := by
  obtain ⟨bufs, hbufs⟩ := exists_bufs_of_prefix h.file
  rw [← hfile, cutAfter_append, hend, List.nil_append] at hbufs
  obtain ⟨_, rest, -, hnew, -⟩ := mapM_append_eq_some.mp hbufs
  exact ⟨rest, hnew⟩

end

/-- A poll that meets the condition keeps up with the file. -/
theorem Sync.poll (h : Sync text s) (hmeets : Meets s .poll) : Sync text s.poll := by
  obtain ⟨new, hfile⟩ := h.polled
  have hnew : s.file.drop s.polled.length = new := by rw [← hfile, List.drop_left]
  rw [Meets, hnew] at hmeets
  rcases hmeets with hmem | ⟨hend, hsome⟩
  · have hcut : cutAfter lineFeed new = ([], new) := cutAfter_of_not_mem hmem
    have hsame := cutAfter_append_of_not_mem hmem s.polled
    have hbufs : (cutAfter lineFeed new).1.mapM fromUtf8 = some [] := by
      rw [hcut]
      rfl
    rw [h.poll_eq hfile hbufs]
    refine ⟨h.file, List.prefix_rfl, rfl, ?_, ?_⟩
    · have hlines : lineTexts s.file = lineTexts s.polled := by
        rw [← hfile, lineTexts, hsame]
        rfl
      simpa [hlines] using h.follows.returned
    · have hlength : completeLength s.file = completeLength s.polled := by
        rw [← hfile, completeLength, hsame]
        rfl
      have hnone : completeLength new = 0 := by rw [completeLength, hcut, List.flatten_nil]; rfl
      rw [hlength, hnone, Nat.add_zero]
      exact h.follows.offset
  · obtain ⟨bufs, hbufs⟩ := h.poll_of_end hfile hend
    rw [← hfile, cutAfter_append, hend, List.nil_append] at hsome
    rw [h.poll_eq hfile hbufs, hsome]
    refine ⟨h.file, List.prefix_rfl, rfl, ?_, ?_⟩
    · rw [if_pos rfl, ← hfile]
      exact lineTexts_append h.follows.returned hend hbufs
    · have hlength : completeLength (s.polled ++ new) =
          completeLength s.polled + completeLength new := by
        rw [completeLength, cutAfter_append, hend, List.nil_append, List.flatten_append,
          List.length_append]
        rfl
      rw [← hfile, hlength, ← h.follows.offset]

/-- After any other poll lines are missing, or the offset is short of them. -/
theorem Sync.not_follows (h : Sync text s) (hmeets : ¬ Meets s .poll) : ¬ s.poll.Follows := by
  intro hfollows
  obtain ⟨new, hfile⟩ := h.polled
  have hnew : s.file.drop s.polled.length = new := by rw [← hfile, List.drop_left]
  rw [Meets, hnew, ← hfile, not_or, not_not] at hmeets
  obtain ⟨hmem, hrest⟩ := hmeets
  obtain ⟨hmore, hbehind⟩ := cutAfter_append_of_mem hmem s.polled
  have hpolled : s.poll.polled = s.polled ++ new := hfile.symm
  have hreturned : s.poll.returned ≠ s.returned := by
    intro hsame
    have hlater := length_of_lineTexts hfollows.returned
    have hbefore := length_of_lineTexts h.follows.returned
    rw [hpolled, hsame, hbefore] at hlater
    omega
  cases hbufs : (cutAfter lineFeed new).1.mapM fromUtf8 with
  | none => exact hreturned (h.returned_of_none hfile hbufs)
  | some bufs =>
    have hpoll := h.poll_eq hfile hbufs
    have hdec : (fromUtf8 (cutAfter lineFeed new).2).isSome = true := by
      by_contra hnot
      exact hreturned (by rw [hpoll, if_neg hnot])
    have hoffset := hfollows.offset
    rw [hpolled, completeLength_append hmem, hpoll] at hoffset
    dsimp only at hoffset
    have hcomplete := completeLength_add s.polled
    have hend := h.follows.offset
    refine hrest ⟨List.eq_nil_of_length_eq_zero ?_, hbehind ▸ hdec⟩
    omega

/-! ## Runs -/

/-- What is appended comes next in the log. -/
theorem Sync.append (h : Sync text s) (n : Nat) : Sync text (s.next text (.append n)) := by
  refine ⟨?_, h.polled.trans (List.prefix_append _ _), h.place,
    ⟨h.follows.returned, h.follows.offset⟩⟩
  obtain ⟨v, hv⟩ := h.file
  have hrest : (utf8 text).drop s.file.length = v := by rw [← hv, List.drop_left]
  refine ⟨v.drop n, ?_⟩
  change s.file ++ ((utf8 text).drop s.file.length).take n ++ v.drop n = utf8 text
  rw [hrest, List.append_assoc, List.take_append_drop, hv]

theorem sync_start : Sync text start :=
  ⟨List.nil_prefix, List.prefix_rfl, rfl, rfl, rfl⟩

theorem sync_of_run {as : List TailingAction} (h : Run (Step text) Meets start as s) :
    Sync text s := by
  refine h.invariant sync_start fun t a u hsync hmeets hstep => ?_
  cases hstep
  cases a with
  | append n => exact hsync.append n
  | poll => exact hsync.poll hmeets

/-- In every interleaving of the polls with the bytes of the log, the tailer never leaves the lines
of the file if and only if every poll meets the condition. -/
theorem follows_iff {as : List TailingAction} (h : Run (Step text) (fun _ _ => True) start as s) :
    ¬ Visited (Step text) (fun _ _ => True) start as (fun t => ¬ t.Follows) ↔
      Run (Step text) Meets start as s := by
  refine Run.not_visited_iff (fun _ _ _ _ h₁ h₂ => h₁.symm.trans h₂)
    (fun _ _ hrun => (sync_of_run hrun).follows) (fun bs t a u hrun hstep hbad => ?_) h
  cases hstep
  cases a with
  | append n => exact absurd trivial hbad
  | poll => exact (sync_of_run hrun).not_follows hbad

/-- A log of one line. -/
def oneLine : Str := ['a', 'b', '\n']

/-- A poll behind the line. -/
theorem follows_iff_whole :
    ∃ s, Run (Step oneLine) (fun _ _ => True) start [.append 3, .poll] s ∧
      ¬ Visited (Step oneLine) (fun _ _ => True) start [.append 3, .poll]
        (fun t => ¬ t.Follows) := by
  have hrun {ok : Tailing → TailingAction → Prop} (happend : ok start (.append 3))
      (hpoll : ok (start.next oneLine (.append 3)) .poll) :
      Run (Step oneLine) ok start [.append 3, .poll] (start.next oneLine (.append 3)).poll :=
    (Run.nil.snoc happend rfl).snoc hpoll rfl
  have hbehind : (cutAfter lineFeed (start.next oneLine (.append 3)).file).2 = utf8 [] := by decide
  refine ⟨_, hrun trivial trivial, (follows_iff (hrun trivial trivial)).mpr (hrun trivial ?_)⟩
  exact .inr ⟨rfl, by rw [hbehind, fromUtf8_utf8]; rfl⟩

/-- A poll within the line, and one behind it. -/
theorem not_follows_within :
    ¬ ∀ (text : Str) (as : List TailingAction) (s : Tailing),
      Run (Step text) (fun _ _ => True) start as s → s.Follows := by
  intro hall
  let s₁ := start.next oneLine (.append 1)
  let s₂ := s₁.poll.next oneLine (.append 2)
  have hsync : Sync oneLine s₂ := ((sync_start.append 1).poll (.inl (by decide))).append 2
  have hrun : Run (Step oneLine) (fun _ _ => True) start
      [.append 1, .poll, .append 2, .poll] s₂.poll :=
    (((Run.nil.snoc trivial rfl).snoc trivial rfl).snoc trivial rfl).snoc trivial rfl
  refine hsync.not_follows ?_ (hall oneLine _ _ hrun)
  rintro (hmem | ⟨hend, -⟩)
  · exact hmem (by decide)
  · exact absurd hend (by decide)

end Tailing

end ActiveDefense.Siem
