import ActiveDefense.Lib.Records
import ActiveDefense.Nsm.ControlSocket
import Mathlib.Data.List.TakeWhile

/-!
# The tail of the alert log

`run_traffic_lanes` and `watch_ndjson_alerts` read the lines that the NSM prints from a file that
still grows. At the end of the file `next_line` returns what is there as a line, so a poll that
comes while the writer is within a line hands its beginning to the JSON parser, and the rest of it
later. A run hands on every line, whole and in order, if and only if no poll comes upon the
beginning of a line alone (`delivers_iff`): up to then what was read is what was handed on, but for
the newline of the last line (`Sync`), and after such a poll it never is again.
-/

namespace ActiveDefense.Bridges

open Nsm

/-! ## The reader and the writer -/

/-- A line that `Alert::emit` prints, up to its newline. -/
structure AlertLine where
  text : Str
  newline_not_mem : '\n' ∉ text
  visible : ∃ c, text.head? = some c ∧ isWhitespace c = false
  last : text.getLast? ≠ some '\r'

/-- The texts of the lines. -/
def texts (lines : List AlertLine) : List Str := lines.map AlertLine.text

/-- `Lines::next_line`: the bytes it takes, those it leaves, and the line, if they are UTF-8. -/
def nextLine (unread : List UInt8) : Option (List UInt8 × List UInt8 × Option Str) :=
  match splitOnce newline unread with
  | some (line, rest) => some (line ++ [newline], rest, (fromUtf8 line).map stripCr)
  | none => if unread.isEmpty then none else some (unread, [], fromUtf8 unread)

/-- The file, which the reader has read up to some place, and the lines that went to the JSON
parser. An error of `next_line` ends the loop. -/
structure Tail where
  read : List UInt8
  unread : List UInt8
  handed : List Str
  failed : Bool
deriving DecidableEq

namespace Tail

/-- The bytes of the file. -/
def file (s : Tail) : List UInt8 := s.read ++ s.unread

/-- A turn of the loop of `run_traffic_lanes`, or of `watch_ndjson_alerts`, up to the call of the
JSON parser. -/
def poll (s : Tail) : Tail :=
  if s.failed then s
  else
    match nextLine s.unread with
    | none => s
    | some (_, _, none) => { s with failed := true }
    | some (taken, rest, some line) =>
      { s with
        read := s.read ++ taken
        unread := rest
        handed := if (trim line).isEmpty then s.handed else s.handed ++ [line] }

end Tail

/-- The writer appends so many bytes more, or the reader comes round. -/
inductive TailAction where
  | append (n : Nat)
  | poll

namespace Tail

/-- The state after a step, with the lines that the writer has to write. -/
def next (lines : List AlertLine) (s : Tail) : TailAction → Tail
  | .append n =>
    { s with unread := s.unread ++ ((lineBytes (texts lines)).drop s.file.length).take n }
  | .poll => s.poll

/-- The steps. -/
def Step (lines : List AlertLine) (s : Tail) (a : TailAction) (t : Tail) : Prop :=
  s.next lines a = t

/-- Nothing was written, and nothing read. -/
def start : Tail where
  read := []
  unread := []
  handed := []
  failed := false

/-- Every complete line of the file went to the JSON parser. -/
def HandsOn (lines : List AlertLine) (s : Tail) : Prop :=
  ∀ done, done <+: texts lines → lineBytes done <+: s.file → done <+: s.handed

/-- The lines went to the JSON parser whole, once and in order; none was left out of what was read,
and from here on polls hand on whatever is complete. -/
structure Delivers (lines : List AlertLine) (s : Tail) : Prop where
  running : s.failed = false
  handed : s.handed <+: texts lines
  complete : ∀ done, done <+: texts lines → lineBytes done <+: s.read → done <+: s.handed
  drains : ∃ n t, Run (Step lines) (fun _ _ => True) s (List.replicate n .poll) t ∧
    t.file = s.file ∧ t.handed <+: texts lines ∧ HandsOn lines t

/-- A poll finds nothing, or the end of a line, or a line that is whole but for its newline. -/
def Whole (lines : List AlertLine) (s : Tail) : TailAction → Prop
  | .append _ => True
  | .poll => s.unread = [] ∨ newline ∈ s.unread ∨
      ∃ done l, done ++ [l] <+: texts lines ∧ s.file = lineBytes done ++ utf8 l

end Tail

/-! ## One line -/

theorem newline_not_mem_text {lines : List AlertLine} {l : Str} (hl : l ∈ texts lines) :
    '\n' ∉ l := by
  obtain ⟨line, -, rfl⟩ := List.mem_map.mp hl
  exact line.newline_not_mem

theorem newline_not_mem_utf8_text {lines : List AlertLine} {l : Str} (hl : l ∈ texts lines) :
    newline ∉ utf8 l := newline_not_mem_utf8 (newline_not_mem_text hl)

/-- What begins as a line does, and has a character, is not blank. -/
theorem trim_ne_nil {l p : Str} (hl : ∃ c, l.head? = some c ∧ isWhitespace c = false)
    (hp : p <+: l) (hne : p ≠ []) : (trim p).isEmpty = false := by
  obtain ⟨c, hc, hvisible⟩ := hl
  obtain ⟨rest, rfl⟩ := hp
  cases p with
  | nil => exact absurd rfl hne
  | cons d p =>
    cases hc
    have hstart : trimStart (c :: p) = c :: p := by simp [trimStart, hvisible]
    have hlast : trimStart (c :: p).reverse ≠ [] := by
      unfold trimStart
      rw [List.reverse_cons, Ne, List.dropWhile_eq_nil_iff]
      intro hall
      exact absurd (hall c (List.mem_append_right _ (.head _))) (by simp [hvisible])
    rw [trim, hstart, List.isEmpty_reverse]
    exact List.isEmpty_eq_false_iff.mpr hlast

theorem stripCr_eq_self {l : Str} (h : l.getLast? ≠ some '\r') : stripCr l = l := if_neg h

/-- The line up to the next newline. -/
theorem nextLine_of_newline {l : Str} {rest : List UInt8} (hl : '\n' ∉ l)
    (hlast : l.getLast? ≠ some '\r') :
    nextLine (utf8 l ++ newline :: rest) = some (utf8 l ++ [newline], rest, some l) := by
  have hbytes : newline ∉ utf8 l := newline_not_mem_utf8 hl
  rw [nextLine, splitOnce_append hbytes]
  simp only [fromUtf8_utf8, Option.map_some, stripCr_eq_self hlast]

/-- At the end of the file, what there is. -/
theorem nextLine_of_rest {unread : List UInt8} (hne : unread ≠ []) (h : newline ∉ unread) :
    nextLine unread = some (unread, [], fromUtf8 unread) := by
  rw [nextLine, splitOnce_of_not_mem h]
  exact if_neg (by simpa using hne)

/-- What is taken and what is left make up what was there. -/
theorem nextLine_append {unread taken rest : List UInt8} {line : Option Str}
    (h : nextLine unread = some (taken, rest, line)) : taken ++ rest = unread := by
  unfold nextLine at h
  split at h
  · next hsplit =>
    cases h
    rw [(eq_append_of_splitOnce hsplit).1, List.append_assoc]
    rfl
  · split at h
    · cases h
    · cases h
      exact List.append_nil _

theorem lineBytes_append (ls ls' : List Str) :
    lineBytes (ls ++ ls') = lineBytes ls ++ lineBytes ls' := List.flatMap_append

theorem lineBytes_singleton (l : Str) : lineBytes [l] = utf8 l ++ [newline] := by simp [lineBytes]

theorem AlertLine.ne_nil (line : AlertLine) : line.text ≠ [] := by
  obtain ⟨c, hc, -⟩ := line.visible
  exact fun hnil => by simp [hnil] at hc

/-- A line of the writer. -/
theorem exists_alertLine {lines : List AlertLine} {done : List Str} {l : Str}
    (h : done ++ [l] <+: texts lines) : ∃ line ∈ lines, line.text = l :=
  List.mem_map.mp (h.subset (List.mem_append_right _ (.head _)))

/-! ## A turn -/

namespace Tail

variable {lines : List AlertLine} {s t : Tail}

/-- The next line is on file, with its newline. -/
theorem poll_line {l : Str} {rest : List UInt8} (hrun : s.failed = false)
    (hl : '\n' ∉ l) (hlast : l.getLast? ≠ some '\r') (hu : s.unread = utf8 l ++ newline :: rest) :
    s.poll = { s with
      read := s.read ++ (utf8 l ++ [newline])
      unread := rest
      handed := if (trim l).isEmpty then s.handed else s.handed ++ [l] } := by
  simp [poll, hrun, hu, nextLine_of_newline hl hlast]

/-- No newline is on file. -/
theorem poll_rest (hrun : s.failed = false) (hne : s.unread ≠ []) (hu : newline ∉ s.unread) :
    s.poll = match fromUtf8 s.unread with
      | none => { s with failed := true }
      | some line =>
        { s with
          read := s.read ++ s.unread
          unread := []
          handed := if (trim line).isEmpty then s.handed else s.handed ++ [line] } := by
  rw [poll, nextLine_of_rest hne hu, if_neg (by simp [hrun])]
  cases fromUtf8 s.unread with
  | none => rfl
  | some line => rfl

/-- At the end of the file there is nothing to do. -/
theorem poll_end (hu : s.unread = []) : s.poll = s := by
  have hnext : nextLine s.unread = none := by rw [hu]; rfl
  rw [poll, hnext]
  exact ite_self s

/-- The reader takes nothing from the file but moves on in it. -/
theorem poll_file : s.poll.file = s.file := by
  unfold poll
  split
  · rfl
  · split
    · rfl
    · rfl
    · next taken rest line hnext =>
      rw [file, file, List.append_assoc, nextLine_append hnext]

/-- What went to the parser stays so. -/
theorem handed_prefix_poll : s.handed <+: s.poll.handed := by
  unfold poll
  split
  · exact List.prefix_rfl
  · split
    · exact List.prefix_rfl
    · exact List.prefix_rfl
    · dsimp only
      split
      · exact List.prefix_rfl
      · exact List.prefix_append _ _

/-! ## In step with the lines -/

/-- What was read is what went to the parser, but for the newline of the last line at most. -/
structure Sync (lines : List AlertLine) (s : Tail) : Prop where
  running : s.failed = false
  file : s.file <+: lineBytes (texts lines)
  handed : s.handed <+: texts lines
  read : s.read = lineBytes s.handed ∨ s.read ++ [newline] = lineBytes s.handed

/-- The loop is over, or something went to the parser that is no line. -/
def Broken (lines : List AlertLine) (s : Tail) : Prop :=
  s.failed = true ∨ ¬ s.handed <+: texts lines

/-- Where the reader is: at the end of the file, at the newline of a line it has handed on, or at
the beginning of a line, which may end where the file does. -/
inductive Place (lines : List AlertLine) (s : Tail) : Prop where
  | atEnd (hu : s.unread = [])
  | atNewline (u : List UInt8) (hu : s.unread = newline :: u)
      (hread : s.read ++ [newline] = lineBytes s.handed)
  | atLine (l : Str) (u : List UInt8) (hu : s.unread = utf8 l ++ newline :: u)
      (hread : s.read = lineBytes s.handed) (hl : s.handed ++ [l] <+: texts lines)
  | atLast (l : Str) (q : List UInt8) (hne : s.unread ≠ []) (hu : s.unread ++ q = utf8 l)
      (hread : s.read = lineBytes s.handed) (hl : s.handed ++ [l] <+: texts lines)

theorem Sync.place (h : Sync lines s) : Place lines s := by
  obtain ⟨rest, hrest⟩ := h.handed
  obtain ⟨v, hv⟩ := h.file
  rw [← hrest, lineBytes_append, Tail.file, List.append_assoc] at hv
  rcases h.read with hread | hread
  · have hunread : s.unread ++ v = lineBytes rest := List.append_cancel_left (hread ▸ hv)
    by_cases hne : s.unread = []
    · exact .atEnd hne
    · cases rest with
      | nil => exact absurd (List.append_eq_nil_iff.mp hunread).1 hne
      | cons l rest =>
        have hl : s.handed ++ [l] <+: texts lines := ⟨rest, by rw [← hrest]; simp⟩
        rcases terminated_cases hunread with ⟨u, hu, -⟩ | ⟨q, hq, -⟩
        · exact .atLine l u hu hread hl
        · exact .atLast l q hne hq hread hl
  · rw [← hread, List.append_assoc] at hv
    have hunread : s.unread ++ v = newline :: lineBytes rest := List.append_cancel_left hv
    cases hu : s.unread with
    | nil => exact .atEnd hu
    | cons b u =>
      rw [hu] at hunread
      cases (List.cons.inj hunread).1
      exact .atNewline u hu hread

/-- Only one line comes next. -/
theorem eq_of_next_line {done ls : List Str} {l l' : Str} (hl : done ++ [l] <+: ls)
    (hl' : done ++ [l'] <+: ls) : l = l' := by
  have heq : done ++ [l] = done ++ [l'] :=
    (List.prefix_of_prefix_length_le hl hl' (by simp)).eq_of_length (by simp)
  simpa using heq

/-- A poll at the beginning of a line that is not all there loses the line. -/
theorem broken_of_cut {l : Str} {q : List UInt8} (hrun : s.failed = false) (hne : s.unread ≠ [])
    (hu : s.unread ++ q = utf8 l) (hq : q ≠ []) (hl : s.handed ++ [l] <+: texts lines) :
    Broken lines s.poll := by
  obtain ⟨line, -, rfl⟩ := exists_alertLine hl
  have hnewline : newline ∉ s.unread := by
    intro hmem
    exact newline_not_mem_utf8 line.newline_not_mem (hu ▸ List.mem_append_left _ hmem)
  rw [poll_rest hrun hne hnewline]
  cases hdec : fromUtf8 s.unread with
  | none => exact .inl rfl
  | some x =>
    refine .inr fun hhanded => hq ?_
    have hx : utf8 x = s.unread := utf8_of_fromUtf8 hdec
    have hxl : x <+: line.text := prefix_of_utf8_append (hx ▸ hu)
    have hxne : x ≠ [] := by
      rintro rfl
      exact hne hx.symm
    simp only [trim_ne_nil line.visible hxl hxne, Bool.false_eq_true, if_false] at hhanded
    rw [← eq_of_next_line hhanded hl, hx] at hu
    exact List.append_right_eq_self.mp hu

/-- At the beginning of a line that is not all there, a poll finds no whole line. -/
theorem not_whole_of_cut {l : Str} {q : List UInt8} (hread : s.read = lineBytes s.handed)
    (hne : s.unread ≠ []) (hu : s.unread ++ q = utf8 l) (hq : q ≠ [])
    (hl : s.handed ++ [l] <+: texts lines) : ¬ Whole lines s .poll := by
  have hnewline : newline ∉ s.unread := by
    intro hmem
    obtain ⟨line, -, rfl⟩ := exists_alertLine hl
    exact newline_not_mem_utf8 line.newline_not_mem (hu ▸ List.mem_append_left _ hmem)
  rintro (hnil | hmem | ⟨done, l', hdone, hfile⟩)
  · exact hne hnil
  · exact hnewline hmem
  · rw [file, hread] at hfile
    have hbytes : ∀ r ∈ texts lines, newline ∉ utf8 r := fun r hr => newline_not_mem_utf8_text hr
    obtain ⟨rfl, hunread⟩ := eq_of_terminated_append (fun _ _ => utf8_inj)
      (fun r hr => hbytes r (hl.subset (List.mem_append_left _ hr)))
      (fun r hr => hbytes r (hdone.subset (List.mem_append_left _ hr)))
      hnewline (hbytes l' (hdone.subset (List.mem_append_right _ (.head _)))) hfile
    rw [eq_of_next_line hdone hl, ← hu] at hunread
    exact hq (List.self_eq_append_right.mp hunread)

/-- A poll that finds a whole line, or its newline, or nothing, keeps in step. -/
theorem Sync.poll (h : Sync lines s) :
    Whole lines s .poll ∧ Sync lines s.poll ∨ ¬ Whole lines s .poll ∧ Broken lines s.poll := by
  have hfile : s.poll.file <+: lineBytes (texts lines) := by
    rw [poll_file]
    exact h.file
  cases h.place with
  | atEnd hu => exact .inl ⟨.inl hu, by rw [poll_end hu]; exact h⟩
  | atNewline u hu hread =>
    refine .inl ⟨.inr (.inl (hu ▸ .head _)), ?_⟩
    have hpoll := poll_line (l := []) h.running (by simp) (by simp) hu
    rw [hpoll] at hfile ⊢
    exact ⟨h.running, hfile, h.handed, .inl hread⟩
  | atLine l u hu hread hl =>
    refine .inl ⟨.inr (.inl (hu ▸ List.mem_append_right _ (.head _))), ?_⟩
    obtain ⟨line, -, rfl⟩ := exists_alertLine hl
    have hblank := trim_ne_nil line.visible List.prefix_rfl line.ne_nil
    rw [poll_line h.running line.newline_not_mem line.last hu] at hfile ⊢
    simp only [hblank, Bool.false_eq_true, if_false] at hfile ⊢
    exact ⟨h.running, hfile, hl, .inl (by rw [hread, lineBytes_append, lineBytes_singleton])⟩
  | atLast l q hne hu hread hl =>
    by_cases hq : q = []
    · rw [hq, List.append_nil] at hu
      refine .inl ⟨.inr (.inr ⟨s.handed, l, hl, by rw [Tail.file, hread, hu]⟩), ?_⟩
      obtain ⟨line, -, rfl⟩ := exists_alertLine hl
      have hblank := trim_ne_nil line.visible List.prefix_rfl line.ne_nil
      have hnewline : newline ∉ s.unread := hu ▸ newline_not_mem_utf8 line.newline_not_mem
      rw [poll_rest h.running hne hnewline, hu, fromUtf8_utf8] at hfile ⊢
      simp only [hblank, Bool.false_eq_true, if_false] at hfile ⊢
      refine ⟨h.running, hfile, hl, .inr ?_⟩
      rw [hread, lineBytes_append, lineBytes_singleton, List.append_assoc]
    · exact .inr ⟨not_whole_of_cut hread hne hu hq hl, broken_of_cut h.running hne hu hq hl⟩

/-! ## Runs -/

/-- What the writer appends comes next in its lines. -/
theorem Sync.append (h : Sync lines s) (n : Nat) : Sync lines (s.next lines (.append n)) := by
  refine ⟨h.running, ?_, h.handed, h.read⟩
  obtain ⟨v, hv⟩ := h.file
  have hrest : (lineBytes (texts lines)).drop s.file.length = v := by
    rw [← hv]
    exact List.drop_left
  refine ⟨v.drop n, ?_⟩
  have hfile : (s.next lines (.append n)).file = s.file ++ v.take n := by
    rw [← hrest]
    exact (List.append_assoc _ _ _).symm
  rw [hfile, List.append_assoc, List.take_append_drop, hv]

theorem Sync.next (h : Sync lines s) (a : TailAction) :
    Whole lines s a ∧ Sync lines (s.next lines a) ∨
      ¬ Whole lines s a ∧ Broken lines (s.next lines a) := by
  cases a with
  | append n => exact .inl ⟨trivial, h.append n⟩
  | poll => exact h.poll

/-- A loop that is over stays so, and so does what went to the parser. -/
theorem Broken.next (h : Broken lines s) (a : TailAction) : Broken lines (s.next lines a) := by
  rcases h with hfailed | hhanded
  · cases a with
    | append n => exact .inl hfailed
    | poll =>
      refine .inl ?_
      rw [Tail.next, Tail.poll, if_pos hfailed]
      exact hfailed
  · cases a with
    | append n => exact .inr hhanded
    | poll => exact .inr fun hprefix => hhanded (handed_prefix_poll.trans hprefix)

theorem sync_start : Sync lines start := ⟨rfl, List.nil_prefix, List.nil_prefix, .inl rfl⟩

theorem sync_of_run {as : List TailAction} (h : Run (Step lines) (Whole lines) start as t) :
    Sync lines t := by
  refine h.invariant sync_start fun u a v hsync hwhole hstep => ?_
  cases hstep
  exact (hsync.next a).elim And.right fun hcut => absurd hwhole hcut.1

/-- A run has met whole lines only, or it is broken. -/
theorem run_cases {as : List TailAction}
    (h : Run (Step lines) (fun _ _ => True) start as t) :
    Run (Step lines) (Whole lines) start as t ∨ Broken lines t := by
  induction h with
  | nil => exact .inl .nil
  | @snoc as a t u _ _ hstep ih =>
    cases hstep
    rcases ih with hrun | hbroken
    · rcases (sync_of_run hrun).next a with ⟨hwhole, -⟩ | ⟨-, hbroken⟩
      · exact .inl (hrun.snoc hwhole rfl)
      · exact .inr hbroken
    · exact .inr (hbroken.next a)

/-! ## What reaches the parser -/

/-- Complete lines among what was read went to the parser. -/
theorem Sync.complete (h : Sync lines s) {done : List Str} (hdone : done <+: texts lines)
    (hread : lineBytes done <+: s.read) : done <+: s.handed := by
  have hbytes : lineBytes done <+: lineBytes s.handed ++ [] := by
    rw [List.append_nil]
    rcases h.read with hr | hr
    · exact hr ▸ hread
    · exact hr ▸ hread.trans (List.prefix_append _ _)
  exact prefix_of_terminated_prefix (fun _ _ => utf8_inj)
    (fun r hr => newline_not_mem_utf8_text (hdone.subset hr))
    (fun r hr => newline_not_mem_utf8_text (h.handed.subset hr)) List.not_mem_nil hbytes

/-- Where no newline is left to read, every complete line went to the parser. -/
theorem Sync.handsOn (h : Sync lines s) (hnewline : newline ∉ s.unread) : HandsOn lines s := by
  intro done hdone hfile
  rcases h.read with hread | hread
  · rw [Tail.file, hread] at hfile
    exact prefix_of_terminated_prefix (fun _ _ => utf8_inj)
      (fun r hr => newline_not_mem_utf8_text (hdone.subset hr))
      (fun r hr => newline_not_mem_utf8_text (h.handed.subset hr)) hnewline hfile
  · cases h.place with
    | atEnd hu =>
      rw [Tail.file, hu, List.append_nil] at hfile
      exact h.complete hdone hfile
    | atNewline u hu _ => exact absurd (hu ▸ .head _) hnewline
    | atLine l u hu _ _ => exact absurd (hu ▸ List.mem_append_right _ (.head _)) hnewline
    | atLast l q _ _ hread' _ => simp [← hread'] at hread

/-- A poll that finds a newline gets on with the file. -/
theorem Sync.poll_shorter (h : Sync lines s) (hnewline : newline ∈ s.unread) :
    s.poll.unread.length < s.unread.length := by
  cases h.place with
  | atEnd hu => simp [hu] at hnewline
  | atNewline u hu _ =>
    rw [poll_line (l := []) h.running (by simp) (by simp) hu, hu]
    exact Nat.lt_succ_self _
  | atLine l u hu _ hl =>
    obtain ⟨line, -, rfl⟩ := exists_alertLine hl
    rw [poll_line h.running line.newline_not_mem line.last hu, hu, List.length_append]
    exact Nat.lt_add_left _ (Nat.lt_succ_self _)
  | atLast l q _ hu _ hl =>
    obtain ⟨line, -, rfl⟩ := exists_alertLine hl
    exact absurd (hu ▸ List.mem_append_left _ hnewline)
      (newline_not_mem_utf8 line.newline_not_mem)

/-- Polls alone hand on what is complete. -/
theorem Sync.drains (h : Sync lines s) :
    ∃ n t, Run (Step lines) (fun _ _ => True) s (List.replicate n .poll) t ∧
      t.file = s.file ∧ t.handed <+: texts lines ∧ HandsOn lines t := by
  generalize hlen : s.unread.length = len
  induction len using Nat.strong_induction_on generalizing s with
  | _ len ih =>
    by_cases hnewline : newline ∈ s.unread
    · have hsync : Sync lines s.poll :=
        h.poll.elim And.right fun hcut => absurd (.inr (.inl hnewline)) hcut.1
      obtain ⟨n, t, hrun, hfile, hhanded, hdone⟩ :=
        ih _ (hlen ▸ h.poll_shorter hnewline) hsync rfl
      refine ⟨1 + n, t, ?_, hfile.trans poll_file, hhanded, hdone⟩
      rw [List.replicate_add]
      exact (Run.single trivial rfl).append hrun
    · exact ⟨0, s, .nil, rfl, h.handed, h.handsOn hnewline⟩

theorem Sync.delivers (h : Sync lines s) : Delivers lines s :=
  ⟨h.running, h.handed, fun _ hdone hread => h.complete hdone hread, h.drains⟩

theorem not_delivers_of_broken (h : Broken lines s) : ¬ Delivers lines s := by
  intro hdelivers
  rcases h with hfailed | hhanded
  · exact Bool.false_ne_true (hdelivers.running.symm.trans hfailed)
  · exact hhanded hdelivers.handed

/-- In every interleaving of the writer's bytes and the reader's turns, the lines reach the parser
if and only if no turn comes upon the beginning of a line alone. -/
theorem delivers_iff (lines : List AlertLine) {as : List TailAction} {t : Tail}
    (hrun : Run (Step lines) (fun _ _ => True) start as t) :
    Delivers lines t ↔ Run (Step lines) (Whole lines) start as t := by
  constructor
  · intro hdelivers
    exact (run_cases hrun).resolve_right fun hbroken => not_delivers_of_broken hbroken hdelivers
  · intro hwhole
    exact (sync_of_run hwhole).delivers

/-- A write, and a poll after it. -/
theorem run_write_poll {ok : Tail → TailAction → Prop} {n : Nat} (hwrite : ok start (.append n))
    (hpoll : ok (start.next lines (.append n)) .poll) :
    Run (Step lines) ok start [.append n, .poll] (start.next lines (.append n)).poll :=
  (Run.nil.snoc hwrite rfl).snoc hpoll rfl

/-- What the first write puts on file. -/
theorem unread_write {line : AlertLine} {n : Nat} :
    (start.next (line :: lines) (.append n)).unread =
      (utf8 line.text ++ newline :: lineBytes (texts lines)).take n := by
  have hbytes : lineBytes (texts (line :: lines)) =
      utf8 line.text ++ newline :: lineBytes (texts lines) := terminated_cons
  rw [← hbytes]
  rfl

/-- A write that ends behind the first line. -/
theorem whole_of_write {line : AlertLine} {n : Nat} (hn : (utf8 line.text).length < n) :
    Whole (line :: lines) (start.next (line :: lines) (.append n)) .poll := by
  refine .inr (.inl ?_)
  obtain ⟨k, rfl⟩ := Nat.exists_eq_add_of_lt hn
  rw [unread_write, Nat.add_assoc, List.take_length_add_append]
  exact List.mem_append_right _ (.head _)

/-- A write that ends within the first line, and a poll after it. -/
theorem broken_of_write {line : AlertLine} {n : Nat} (hpos : n ≠ 0)
    (hn : n < (utf8 line.text).length) :
    Broken (line :: lines) (start.next (line :: lines) (.append n)).poll := by
  have hunread : (start.next (line :: lines) (.append n)).unread = (utf8 line.text).take n := by
    rw [unread_write, List.take_append_of_le_length (Nat.le_of_lt hn)]
  have hne : utf8 line.text ≠ [] := List.ne_nil_of_length_pos (Nat.zero_lt_of_lt hn)
  refine broken_of_cut (q := (utf8 line.text).drop n) rfl ?_ ?_ ?_ ⟨texts lines, rfl⟩
  · rw [hunread]
    simp [hpos, hne]
  · rw [hunread, List.take_append_drop]
  · exact mt List.drop_eq_nil_iff.mp (Nat.not_le.mpr hn)

/-- The line of an alert for a payload signature. -/
def signatureHitText : Str :=
  "\x7b\"ts_unix\":1700000000,\"severity\":\"High\",\"detector\":\"signature\",".toList ++
    "\"message\":\"payload matched rule 'r' (10.0.0.5 -> 10.0.0.9)\",".toList ++
    "\"src_ip\":\"10.0.0.5\",\"dst_ip\":\"10.0.0.9\",\"extra\":\x7b\"rule\":\"r\"\x7d\x7d".toList

/-- The text of the alert, as `AlertLine` asks for it. -/
theorem signatureHitText_spec : '\n' ∉ signatureHitText ∧ signatureHitText.head? = some '\x7b' ∧
    signatureHitText.getLast? ≠ some '\r' ∧ 9 < (utf8 signatureHitText).length ∧
      (utf8 signatureHitText).length < 200 := by
  unfold signatureHitText
  repeat rw [String.toList_ofList]
  decide +kernel

def signatureHit : AlertLine where
  text := signatureHitText
  newline_not_mem := signatureHitText_spec.1
  visible := ⟨'\x7b', signatureHitText_spec.2.1, by decide⟩
  last := signatureHitText_spec.2.2.1

/-- Polled after it was written, the alert reaches the parser. -/
theorem delivers_signatureHit :
    Delivers [signatureHit] (start.next [signatureHit] (.append 200)).poll :=
  (delivers_iff [signatureHit] (run_write_poll trivial trivial)).mpr
    (run_write_poll trivial (whole_of_write signatureHitText_spec.2.2.2.2))

/-- Polled while it is being written, it does not. -/
theorem not_delivers : ¬ ∀ (lines : List AlertLine) (as : List TailAction) (t : Tail),
    Run (Step lines) (fun _ _ => True) start as t → Delivers lines t := by
  intro h
  have hcut : Broken [signatureHit] (start.next [signatureHit] (.append 9)).poll :=
    broken_of_write (by decide) signatureHitText_spec.2.2.2.1
  exact not_delivers_of_broken hcut (h [signatureHit] _ _ (run_write_poll trivial trivial))

end Tail

end ActiveDefense.Bridges
