import Mathlib.Data.List.Basic
import Mathlib.Data.List.Flatten

/-!
# Terminated records

A stream of records, each written as symbols without the separator and followed by it. Such a stream
falls apart into its records in one way only, also with the beginning of a further record at its end
(`eq_of_terminated_append`). What comes first in it is either a whole record with its separator, or
a beginning of that record (`terminated_cases`). `cutAfter` cuts what came of a stream so far into
its pieces and the rest behind the last separator. As the stream goes on, a rest that is empty stays
a place where the pieces can be cut anew, and any other becomes part of the next piece. Records that
are read one by one are read all or not at all.
-/

namespace ActiveDefense

variable {α β : Type} {sep : α} {write : β → List α}

/-- The records one after the other, each followed by the separator. -/
def terminated (sep : α) (write : β → List α) (records : List β) : List α :=
  records.flatMap fun r => write r ++ [sep]

@[simp] theorem terminated_nil : terminated sep write [] = [] := rfl

@[simp] theorem terminated_cons {r : β} {rs : List β} :
    terminated sep write (r :: rs) = write r ++ sep :: terminated sep write rs := by
  simp [terminated]

/-- Both sides are cut at the same place, the first separator. -/
theorem eq_of_append_sep {x y u v : List α} (hx : sep ∉ x) (hy : sep ∉ y)
    (h : x ++ sep :: u = y ++ sep :: v) : x = y ∧ u = v := by
  rcases List.append_eq_append_iff.mp h with ⟨z, hz, htail⟩ | ⟨z, hz, htail⟩
  · cases z with
    | nil => exact ⟨by simpa using hz.symm, (List.cons.inj htail).2⟩
    | cons a z =>
      cases (List.cons.inj htail).1
      exact absurd (hz ▸ List.mem_append_right _ (.head _)) hy
  · cases z with
    | nil => exact ⟨by simpa using hz, (List.cons.inj htail).2.symm⟩
    | cons a z =>
      cases (List.cons.inj htail).1
      exact absurd (hz ▸ List.mem_append_right _ (.head _)) hx

/-- Where a beginning of a stream ends: after the first record, or within it. -/
theorem terminated_cases {r : β} {rs : List β} {u v : List α}
    (h : u ++ v = terminated sep write (r :: rs)) :
    (∃ u', u = write r ++ sep :: u' ∧ u' ++ v = terminated sep write rs) ∨
      ∃ q, u ++ q = write r ∧ v = q ++ sep :: terminated sep write rs := by
  rw [terminated_cons] at h
  rcases List.append_eq_append_iff.mp h with ⟨q, hq, hv⟩ | ⟨u', hu, hrest⟩
  · exact .inr ⟨q, hq.symm, hv⟩
  · cases u' with
    | nil => exact .inr ⟨[], by rw [hu]; simp, by simpa using hrest.symm⟩
    | cons a u' =>
      obtain ⟨rfl, htail⟩ := List.cons.inj hrest
      exact .inl ⟨u', hu, htail.symm⟩

section
variable (hinj : Function.Injective write) {rs rs' : List β} (hrs : ∀ r ∈ rs, sep ∉ write r)
  (hrs' : ∀ r ∈ rs', sep ∉ write r)
include hinj hrs hrs'

/-- Records that a stream begins with are its first ones, whatever is at its end. -/
theorem prefix_of_terminated_prefix {x : List α} (hx : sep ∉ x)
    (h : terminated sep write rs <+: terminated sep write rs' ++ x) : rs <+: rs' := by
  obtain ⟨rest, h⟩ := h
  induction rs generalizing rs' with
  | nil => exact List.nil_prefix
  | cons r rs ih =>
    rw [terminated_cons, List.append_assoc, List.cons_append] at h
    cases rs' with
    | nil =>
      refine absurd ?_ hx
      rw [terminated_nil, List.nil_append] at h
      rw [← h]
      exact List.mem_append_right _ (.head _)
    | cons r' rs' =>
      rw [terminated_cons, List.append_assoc, List.cons_append] at h
      obtain ⟨hfirst, hrest⟩ := eq_of_append_sep (hrs r (.head _)) (hrs' r' (.head _)) h
      cases hinj hfirst
      exact List.cons_prefix_cons.mpr ⟨rfl, ih (fun r hr => hrs r (.tail _ hr))
        (fun r hr => hrs' r (.tail _ hr)) hrest⟩

/-- A stream falls apart in one way only. -/
theorem eq_of_terminated_append {x y : List α} (hx : sep ∉ x) (hy : sep ∉ y)
    (h : terminated sep write rs ++ x = terminated sep write rs' ++ y) : rs = rs' ∧ x = y := by
  have hle : rs <+: rs' :=
    prefix_of_terminated_prefix hinj hrs hrs' hy (h ▸ List.prefix_append _ _)
  have hge : rs' <+: rs :=
    prefix_of_terminated_prefix hinj hrs' hrs hx (h ▸ List.prefix_append _ _)
  cases hle.eq_of_length_le hge.length_le
  exact ⟨rfl, List.append_cancel_left h⟩

end

/-! ## Cutting -/

section
variable [DecidableEq α]

/-- The pieces that end with the separator, and what comes behind the last one. -/
def cutAfter (sep : α) : List α → List (List α) × List α
  | [] => ([], [])
  | x :: xs =>
    match cutAfter sep xs with
    | (pieces, rest) =>
      if x = sep then ([x] :: pieces, rest)
      else
        match pieces with
        | [] => ([], x :: rest)
        | piece :: pieces => ((x :: piece) :: pieces, rest)

theorem cutAfter_of_not_mem {xs : List α} (h : sep ∉ xs) : cutAfter sep xs = ([], xs) := by
  induction xs with
  | nil => rfl
  | cons x xs ih =>
    obtain ⟨hx, hxs⟩ := not_or.mp (List.mem_cons.not.mp h)
    rw [cutAfter, ih hxs]
    exact if_neg (Ne.symm hx)

/-- The first piece goes to the first separator. -/
theorem cutAfter_append_sep {xs : List α} (h : sep ∉ xs) (ys : List α) :
    cutAfter sep (xs ++ sep :: ys) =
      ((xs ++ [sep]) :: (cutAfter sep ys).1, (cutAfter sep ys).2) := by
  induction xs with
  | nil => simp [cutAfter]
  | cons x xs ih =>
    obtain ⟨hx, hxs⟩ := not_or.mp (List.mem_cons.not.mp h)
    rw [List.cons_append, cutAfter, ih hxs]
    exact if_neg (Ne.symm hx)

/-- What holds without a separator, and in front of what it holds for, holds for every list. -/
theorem cut_induction (sep : α) {P : List α → Prop} (rest : ∀ xs, sep ∉ xs → P xs)
    (piece : ∀ xs ys, sep ∉ xs → P ys → P (xs ++ sep :: ys)) (xs : List α) : P xs := by
  generalize hlen : xs.length = len
  induction len using Nat.strongRecOn generalizing xs with
  | ind len ih =>
    by_cases h : sep ∈ xs
    · obtain ⟨ys, zs, rfl, hys⟩ := List.eq_append_cons_of_mem h
      refine piece ys zs hys (ih _ ?_ zs rfl)
      rw [← hlen, List.length_append, List.length_cons]
      omega
    · exact rest xs h

/-- Cutting loses nothing. -/
theorem flatten_cutAfter (sep : α) (xs : List α) :
    (cutAfter sep xs).1.flatten ++ (cutAfter sep xs).2 = xs := by
  induction xs using cut_induction sep with
  | rest xs h => rw [cutAfter_of_not_mem h, List.flatten_nil, List.nil_append]
  | piece xs ys h ih =>
    rw [cutAfter_append_sep h, List.flatten_cons, List.append_assoc, ih, List.append_assoc]
    rfl

theorem not_mem_cutAfter (sep : α) (xs : List α) : sep ∉ (cutAfter sep xs).2 := by
  induction xs using cut_induction sep with
  | rest xs h => rwa [cutAfter_of_not_mem h]
  | piece xs ys h ih => rwa [cutAfter_append_sep h]

/-- What follows belongs to the rest, up to its own first separator. -/
theorem cutAfter_append (sep : α) (xs ys : List α) :
    cutAfter sep (xs ++ ys) =
      ((cutAfter sep xs).1 ++ (cutAfter sep ((cutAfter sep xs).2 ++ ys)).1,
        (cutAfter sep ((cutAfter sep xs).2 ++ ys)).2) := by
  induction xs using cut_induction sep with
  | rest xs h => rw [cutAfter_of_not_mem h, List.nil_append]
  | piece xs zs h ih =>
    rw [List.append_assoc, List.cons_append, cutAfter_append_sep h, cutAfter_append_sep h, ih]
    rfl

/-- Without a separator nothing is cut. -/
theorem cutAfter_append_of_not_mem {ys : List α} (h : sep ∉ ys) (xs : List α) :
    cutAfter sep (xs ++ ys) = ((cutAfter sep xs).1, (cutAfter sep xs).2 ++ ys) := by
  have hrest : sep ∉ (cutAfter sep xs).2 ++ ys := by simp [not_mem_cutAfter, h]
  rw [cutAfter_append, cutAfter_of_not_mem hrest, List.append_nil]

/-- With one, the pieces become more, and the rest is what is behind the last separator. -/
theorem cutAfter_append_of_mem {ys : List α} (h : sep ∈ ys) (xs : List α) :
    (cutAfter sep xs).1.length < (cutAfter sep (xs ++ ys)).1.length ∧
      (cutAfter sep (xs ++ ys)).2 = (cutAfter sep ys).2 := by
  obtain ⟨zs, ws, rfl, hzs⟩ := List.eq_append_cons_of_mem h
  have hrest : sep ∉ (cutAfter sep xs).2 ++ zs := by simp [not_mem_cutAfter, hzs]
  rw [cutAfter_append, ← List.append_assoc, cutAfter_append_sep hrest, cutAfter_append_sep hzs]
  exact ⟨by simp, rfl⟩

end

/-! ## Reading lists -/

section
variable {read : α → Option β}

theorem mapM_cons_eq_some {x : α} {xs : List α} {ys : List β} :
    (x :: xs).mapM read = some ys ↔
      ∃ y ys', read x = some y ∧ xs.mapM read = some ys' ∧ ys = y :: ys' := by
  simp only [List.mapM_cons, Option.bind_eq_bind, Option.bind_eq_some_iff, Option.pure_def,
    Option.some.injEq]
  grind

theorem mapM_append_eq_some {xs xs' : List α} {ys : List β} :
    (xs ++ xs').mapM read = some ys ↔
      ∃ zs zs', xs.mapM read = some zs ∧ xs'.mapM read = some zs' ∧ ys = zs ++ zs' := by
  simp only [List.mapM_append, Option.bind_eq_bind, Option.bind_eq_some_iff, Option.pure_def,
    Option.some.injEq]
  grind

/-- A list that can be read is read element by element. -/
theorem forall₂_of_mapM {xs : List α} {ys : List β} (h : xs.mapM read = some ys) :
    List.Forall₂ (fun x y => read x = some y) xs ys := by
  induction xs generalizing ys with
  | nil =>
    cases h
    exact .nil
  | cons x xs ih =>
    obtain ⟨y, ys', hx, hxs, rfl⟩ := mapM_cons_eq_some.mp h
    exact .cons hx (ih hxs)

/-- What can be read can be read without some of its elements. -/
theorem exists_mapM_filter (p : α → Bool) {xs : List α} {ys : List β}
    (h : xs.mapM read = some ys) :
    ∃ zs, (xs.filter p).mapM read = some zs ∧ zs.Sublist ys := by
  induction xs generalizing ys with
  | nil => exact ⟨[], rfl, List.nil_sublist ys⟩
  | cons x xs ih =>
    obtain ⟨y, ys', hx, hxs, rfl⟩ := mapM_cons_eq_some.mp h
    obtain ⟨zs, hzs, hsub⟩ := ih hxs
    cases hp : p x with
    | true =>
      rw [List.filter_cons_of_pos hp]
      exact ⟨y :: zs, mapM_cons_eq_some.mpr ⟨y, zs, hx, hzs, rfl⟩, hsub.cons_cons y⟩
    | false =>
      rw [List.filter_cons_of_neg (by simp [hp])]
      exact ⟨zs, hzs, hsub.cons y⟩

/-- A list each of whose elements can be read. -/
theorem mapM_eq_filterMap {xs : List α} (h : ∀ x ∈ xs, ∃ y, read x = some y) :
    xs.mapM read = some (xs.filterMap read) := by
  induction xs with
  | nil => rfl
  | cons x xs ih =>
    obtain ⟨y, hy⟩ := h x (.head _)
    refine mapM_cons_eq_some.mpr ⟨y, xs.filterMap read, hy, ?_, ?_⟩
    · exact ih fun x' hx' => h x' (List.mem_cons_of_mem _ hx')
    · rw [List.filterMap_cons_some hy]

end

end ActiveDefense
