import Mathlib.Data.List.Basic

/-!
# Writes that are not yet synced

A crash may lose any of the writes since the last sync, and keeps the others in their order. Of a
file whose bytes were written piece by piece, a crash that loses a piece leaves a hole that reads as
blank, or a file that is too short, so what is left is the whole only where no piece is lost
(`eq_of_foldl_writesFrom`).
-/

namespace ActiveDefense

variable {α υ : Type}

/-- What is synced, and the writes since, oldest first. -/
structure Cached (α υ : Type) where
  synced : α
  pending : List υ
deriving DecidableEq, Repr

namespace Cached

/-- What is read. -/
def value (apply : α → υ → α) (c : Cached α υ) : α := c.pending.foldl apply c.synced

def write (c : Cached α υ) (u : υ) : Cached α υ := { c with pending := c.pending ++ [u] }

def sync (apply : α → υ → α) (c : Cached α υ) : Cached α υ := ⟨c.value apply, []⟩

/-- What is read after a crash that keeps these of the writes. -/
def after (apply : α → υ → α) (c : Cached α υ) (kept : List υ) : α := kept.foldl apply c.synced

end Cached

/-! ## Files -/

/-- A write of a file. -/
inductive FileWrite (α : Type) where
  | writeAt (offset : Nat) (bytes : List α)
  | truncate
deriving DecidableEq, Repr

/-- Bytes written at an offset; what was never written before it reads as `blank`. -/
def overwrite (blank : α) (content : List α) (offset : Nat) (bytes : List α) : List α :=
  (content ++ .replicate (offset - content.length) blank).take offset ++ bytes ++
    content.drop (offset + bytes.length)

def FileWrite.apply (blank : α) (content : List α) : FileWrite α → List α
  | .writeAt offset bytes => overwrite blank content offset bytes
  | .truncate => []

/-- Pieces that are written one after the other. -/
def writesFrom (offset : Nat) : List (List α) → List (FileWrite α)
  | [] => []
  | bytes :: rest => .writeAt offset bytes :: writesFrom (offset + bytes.length) rest

/-- The bytes are cut into the pieces, none of which is empty. -/
def Pieces (bytes : List α) (pieces : List (List α)) : Prop := [] ∉ pieces ∧ pieces.flatten = bytes

theorem Pieces.nil : Pieces ([] : List α) [] := ⟨List.not_mem_nil, rfl⟩

theorem Pieces.snoc {bytes piece : List α} {pieces : List (List α)} (h : Pieces bytes pieces)
    (hne : piece ≠ []) : Pieces (bytes ++ piece) (pieces ++ [piece]) := by
  refine ⟨fun hmem => ?_, ?_⟩
  · rcases List.mem_append.mp hmem with hmem | hmem
    · exact h.1 hmem
    · exact hne (List.mem_singleton.mp hmem).symm
  · rw [List.flatten_append, h.2, List.flatten_singleton]

variable {blank : α}

theorem overwrite_end {content : List α} {offset : Nat} (h : content.length = offset)
    (bytes : List α) : overwrite blank content offset bytes = content ++ bytes := by
  subst h
  rw [overwrite, Nat.sub_self, List.replicate_zero, List.append_nil, List.take_length,
    List.drop_eq_nil_of_le (Nat.le_add_right _ _), List.append_nil]

theorem writesFrom_append {pieces : List (List α)} {offset : Nat} (bytes : List α) :
    writesFrom offset (pieces ++ [bytes]) =
      writesFrom offset pieces ++ [.writeAt (offset + pieces.flatten.length) bytes] := by
  induction pieces generalizing offset with
  | nil => rfl
  | cons piece rest ih =>
    rw [List.cons_append, writesFrom, writesFrom, ih, List.flatten_cons, List.length_append,
      Nat.add_assoc, List.cons_append]

/-- Pieces that are all kept are the whole. -/
theorem foldl_writesFrom {pieces : List (List α)} {content : List α} {offset : Nat}
    (h : content.length = offset) :
    (writesFrom offset pieces).foldl (FileWrite.apply blank) content =
      content ++ pieces.flatten := by
  induction pieces generalizing content offset with
  | nil => exact (List.append_nil content).symm
  | cons bytes rest ih =>
    rw [writesFrom, List.foldl_cons, FileWrite.apply, overwrite_end h, ih (by simp [h]),
      List.append_assoc, List.flatten_cons]

theorem Pieces.foldl_writesFrom {bytes : List α} {pieces : List (List α)}
    (h : Pieces bytes pieces) :
    (writesFrom 0 pieces).foldl (FileWrite.apply blank) [] = bytes := by
  exact (ActiveDefense.foldl_writesFrom rfl).trans (by rw [h.2, List.nil_append])

/-- Nothing but `blank` can be read at the position. -/
def Blank (blank : α) (p : Nat) (content : List α) : Prop := ∀ a, content[p]? = some a → a = blank

/-- A write further on leaves the position blank. -/
theorem Blank.overwrite {p offset : Nat} {content : List α} (h : Blank blank p content)
    (hp : p < offset) (bytes : List α) : Blank blank p (overwrite blank content offset bytes) := by
  intro a ha
  have hlen : p <
      ((content ++ List.replicate (offset - content.length) blank).take offset).length := by
    simp only [List.length_take, List.length_append, List.length_replicate]
    omega
  rw [ActiveDefense.overwrite, List.append_assoc, List.getElem?_append_left hlen,
    List.getElem?_take_of_lt hp] at ha
  rcases Nat.lt_or_ge p content.length with hin | hout
  · rw [List.getElem?_append_left hin] at ha
    exact h a ha
  · rw [List.getElem?_append_right hout] at ha
    exact List.eq_of_mem_replicate (List.mem_of_getElem? ha)

/-- Pieces are written at their offsets or further on. -/
theorem exists_of_mem_writesFrom {pieces : List (List α)} {offset : Nat} {u : FileWrite α}
    (h : u ∈ writesFrom offset pieces) : ∃ o bytes, u = .writeAt o bytes ∧ offset ≤ o := by
  induction pieces generalizing offset with
  | nil => cases h
  | cons bytes rest ih =>
    rcases List.mem_cons.mp h with rfl | h
    · exact ⟨offset, bytes, rfl, Nat.le_refl _⟩
    · obtain ⟨o, b, rfl, ho⟩ := ih h
      exact ⟨o, b, rfl, by omega⟩

/-- Whatever is kept of pieces that are written further on, the position stays blank. -/
theorem Blank.foldl_writesFrom {p offset : Nat} {content : List α} {pieces : List (List α)}
    {kept : List (FileWrite α)} (h : Blank blank p content) (hp : p < offset)
    (hkept : kept.Sublist (writesFrom offset pieces)) :
    Blank blank p (kept.foldl (FileWrite.apply blank) content) := by
  have hfar : ∀ u ∈ kept, ∃ o bytes, u = .writeAt o bytes ∧ offset ≤ o :=
    fun u hu => exists_of_mem_writesFrom (hkept.subset hu)
  clear hkept
  induction kept generalizing content with
  | nil => exact h
  | cons u rest ih =>
    obtain ⟨o, bytes, rfl, ho⟩ := hfar u (.head _)
    exact ih (h.overwrite (by omega) bytes) fun v hv => hfar v (List.mem_cons_of_mem _ hv)

/-- The kept pieces of bytes without a blank are the whole only where all are kept. -/
theorem eq_of_foldl_writesFrom {pieces : List (List α)} {bytes content : List α} {offset : Nat}
    {kept : List (FileWrite α)} (hpieces : Pieces bytes pieces) (hblank : blank ∉ bytes)
    (hlen : content.length = offset) (hkept : kept.Sublist (writesFrom offset pieces))
    (hwhole : kept.foldl (FileWrite.apply blank) content = content ++ bytes) :
    kept = writesFrom offset pieces := by
  obtain ⟨hne, rfl⟩ := hpieces
  induction pieces generalizing content offset kept with
  | nil => exact List.sublist_nil.mp hkept
  | cons piece rest ih =>
    obtain ⟨a, tail, rfl⟩ := List.exists_cons_of_ne_nil (fun h => hne (h ▸ .head _))
    rcases List.sublist_cons_iff.mp hkept with hlost | ⟨kept', rfl, hkept'⟩
    · -- nothing is written any more where the lost piece begins
      have hstart : Blank blank offset content := by
        intro b hb
        rw [List.getElem?_eq_none (Nat.le_of_eq hlen)] at hb
        cases hb
      have hend := hstart.foldl_writesFrom (by simp) hlost a
      rw [hwhole, List.getElem?_append_right (Nat.le_of_eq hlen), hlen, Nat.sub_self] at hend
      exact absurd (hend rfl ▸ .head _) hblank
    · rw [List.foldl_cons, FileWrite.apply, overwrite_end hlen, List.flatten_cons,
        ← List.append_assoc] at hwhole
      have hlen' : (content ++ a :: tail).length = offset + (a :: tail).length := by simp [hlen]
      rw [writesFrom, ih hlen' hkept' (fun h => hne (List.mem_cons_of_mem _ h))
        (fun h => hblank (List.mem_append_right _ h)) hwhole]

end ActiveDefense
