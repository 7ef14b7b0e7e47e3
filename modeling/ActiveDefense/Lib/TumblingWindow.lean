import Mathlib.Data.List.Induction
import Mathlib.Data.List.TakeWhile

/-!
# Counters over windows that follow one another

A counter forgets what it has counted with the first item that comes more than a window after its
start, and starts again with that item. So it has counted a batch: the items since its start, which
are the last ones and come within a window (`batchAfter_suffix`, `batchAfter_recent`). Items that
come within a window may be spread over two batches; the threshold is reached in one of them where
there are nearly twice as many (`exists_dense`).
-/

namespace ActiveDefense

variable {α : Type}

/-- What has come since a start. -/
structure Batch (α : Type) where
  started : Nat
  items : List α
deriving DecidableEq, Repr

namespace Batch

/-- Whether an item that comes now is too late for the batch. -/
def late (window now : Nat) (b : Batch α) : Prop := window < now - b.started

instance {window now : Nat} {b : Batch α} : Decidable (b.late window now) :=
  inferInstanceAs (Decidable (window < now - b.started))

/-- The batch of an item that comes now, without it. -/
def opened (window now : Nat) (b : Option (Batch α)) : Batch α :=
  match b with
  | none => ⟨now, []⟩
  | some b => if b.late window now then ⟨now, []⟩ else b

/-- The batch of an item that comes now, with it. -/
def add (window : Nat) (b : Option (Batch α)) (now : Nat) (x : α) : Batch α :=
  let b := opened window now b
  { b with items := b.items ++ [x] }

/-- An item that is not too late is added. -/
theorem add_of_open {window now : Nat} {b : Batch α} {x : α} (h : ¬ b.late window now) :
    add window (some b) now x = ⟨b.started, b.items ++ [x]⟩ := by
  rw [add, opened, if_neg h]

/-- An item that is too late, or the first one, starts a batch. -/
theorem add_of_late {window now : Nat} {b : Option (Batch α)} {x : α}
    (h : ∀ b' ∈ b, b'.late window now) : add window b now x = ⟨now, [x]⟩ := by
  cases b with
  | none => rfl
  | some b => rw [add, opened, if_pos (h b rfl), List.nil_append]

end Batch

variable {window : Nat} {time : α → Nat} {b : Option (Batch α)} {xs ys : List α} {x : α}

/-- The batch after some items. -/
def batchAfter (window : Nat) (time : α → Nat) (b : Option (Batch α)) (xs : List α) :
    Option (Batch α) :=
  xs.foldl (fun b x => some (Batch.add window b (time x) x)) b

@[simp] theorem batchAfter_nil : batchAfter window time b [] = b := rfl

@[simp] theorem batchAfter_cons : batchAfter window time b (x :: xs) =
    batchAfter window time (some (Batch.add window b (time x) x)) xs := rfl

theorem batchAfter_append : batchAfter window time b (xs ++ ys) =
    batchAfter window time (batchAfter window time b xs) ys := List.foldl_append ..

theorem batchAfter_snoc : batchAfter window time b (xs ++ [x]) =
    some (Batch.add window (batchAfter window time b xs) (time x) x) := by
  rw [batchAfter_append, batchAfter_cons, batchAfter_nil]

/-! ## What a batch has -/

/-- What is true of the batches that a counter has: they are not empty, start with their first item,
and have only items that are not more than a window after it. -/
structure Batch.Valid (window : Nat) (time : α → Nat) (b : Batch α) : Prop where
  first : ∃ x rest, b.items = x :: rest ∧ time x = b.started
  recent : ∀ x ∈ b.items, time x ≤ b.started + window

theorem Batch.Valid.ne_nil {b : Batch α} (h : b.Valid window time) : b.items ≠ [] := by
  obtain ⟨x, rest, hitems, -⟩ := h.first
  simp [hitems]

/-- One more item. -/
theorem Batch.valid_add (h : ∀ b' ∈ b, b'.Valid window time) :
    (Batch.add window b (time x) x).Valid window time := by
  by_cases hover : ∀ b' ∈ b, b'.late window (time x)
  · rw [Batch.add_of_late hover]
    refine ⟨⟨x, [], rfl, rfl⟩, fun y hy => ?_⟩
    rw [List.mem_singleton.mp hy]
    exact Nat.le_add_right _ _
  · obtain ⟨b', hb', hopen⟩ : ∃ b', b = some b' ∧ ¬ b'.late window (time x) := by
      simpa using hover
    subst hb'
    obtain ⟨⟨y, rest, hitems, hy⟩, hrecent⟩ := h b' rfl
    rw [Batch.add_of_open hopen]
    refine ⟨⟨y, rest ++ [x], by simp [hitems], hy⟩, fun z hz => ?_⟩
    rcases List.mem_append.mp hz with hz | hz
    · exact hrecent z hz
    · rw [List.mem_singleton.mp hz]
      unfold Batch.late at hopen
      dsimp only
      omega

/-- The batch after any items. -/
theorem valid_batchAfter (h : ∀ b' ∈ b, b'.Valid window time) :
    ∀ b' ∈ batchAfter window time b xs, b'.Valid window time := by
  induction xs generalizing b with
  | nil => exact h
  | cons x xs ih =>
    refine ih fun b' hb' => ?_
    cases hb'
    exact Batch.valid_add h

/-- The batch has the last of the items. -/
theorem batchAfter_suffix {b : Batch α} (h : batchAfter window time none xs = some b) :
    b.items <:+ xs := by
  induction xs using List.reverseRecOn generalizing b with
  | nil => cases h
  | append_singleton xs x ih =>
    rw [batchAfter_snoc] at h
    cases h
    by_cases hover : ∀ b' ∈ batchAfter window time none xs, b'.late window (time x)
    · rw [Batch.add_of_late hover]
      exact List.suffix_append xs [x]
    · obtain ⟨b', hb', hopen⟩ : ∃ b', batchAfter window time none xs = some b' ∧
          ¬ b'.late window (time x) := by simpa using hover
      rw [hb', Batch.add_of_open hopen]
      obtain ⟨pre, hpre⟩ := ih hb'
      exact ⟨pre, by rw [← hpre, List.append_assoc]⟩

/-! ## How a batch goes on -/

/-- While the batch is open the items are added to it. -/
theorem batchAfter_of_open {b : Batch α} (h : ∀ x ∈ xs, ¬ b.late window (time x)) :
    batchAfter window time (some b) xs = some ⟨b.started, b.items ++ xs⟩ := by
  induction xs generalizing b with
  | nil => rw [batchAfter_nil, List.append_nil]
  | cons x xs ih =>
    rw [batchAfter_cons, Batch.add_of_open (h x (.head _)), ih, List.append_assoc,
      List.singleton_append]
    exact fun y hy => h y (List.mem_cons_of_mem _ hy)

/-- Once it is over, what comes within a window starts a batch and stays together. -/
theorem batchAfter_of_late (hover : ∀ b' ∈ b, b'.late window (time x))
    (hspan : ∀ y ∈ xs, time y ≤ time x + window) :
    batchAfter window time b (x :: xs) = some ⟨time x, x :: xs⟩ := by
  rw [batchAfter_cons, Batch.add_of_late hover, batchAfter_of_open, List.singleton_append]
  intro y hy
  have := hspan y hy
  simp only [Batch.late]
  omega

/-- What a counter keeps of its batch. -/
theorem foldl_eq_map_batchAfter {σ : Type} {summary : Batch α → σ} {next : Option σ → α → σ}
    (h : ∀ b x, next (b.map summary) x = summary (Batch.add window b (time x) x)) :
    xs.foldl (fun v x => some (next v x)) (b.map summary) =
      (batchAfter window time b xs).map summary := by
  induction xs generalizing b with
  | nil => rfl
  | cons x xs ih => rw [List.foldl_cons, batchAfter_cons, ← ih, h]; rfl

/-! ## Thresholds -/

variable {p : α → Bool}

/-- The item that is the `k`-th of its kind. -/
theorem exists_nth {k : Nat} (hk : 0 < k) (h : k ≤ xs.countP p) :
    ∃ ps x qs, xs = ps ++ x :: qs ∧ p x = true ∧ ps.countP p + 1 = k := by
  induction xs generalizing k with
  | nil => simp at h; omega
  | cons x xs ih =>
    rw [List.countP_cons] at h
    cases hx : p x with
    | false =>
      obtain ⟨ps, y, qs, rfl, hy, hcount⟩ := ih hk (by simpa [hx] using h)
      exact ⟨x :: ps, y, qs, rfl, hy, by simpa [hx] using hcount⟩
    | true =>
      by_cases hone : k = 1
      · exact ⟨[], x, xs, rfl, hx, by simp [hone]⟩
      · obtain ⟨ps, y, qs, rfl, hy, hcount⟩ := ih (k := k - 1) (by omega) (by simp [hx] at h; omega)
        exact ⟨x :: ps, y, qs, rfl, hy, by rw [List.countP_cons_of_pos hx]; omega⟩

/-- A batch that starts with the first of the items has the one that completes the threshold. -/
theorem exists_dense_of_late {threshold : Nat} (hpos : 0 < threshold)
    (hspan : ∀ x ∈ ys, ∀ y ∈ ys, time y ≤ time x + window) (henough : threshold ≤ ys.countP p)
    (hover : ∀ y ∈ ys.head?, ∀ b' ∈ b, b'.late window (time y)) :
    ∃ ps x qs b', ys = ps ++ x :: qs ∧ p x = true ∧
      batchAfter window time b (ps ++ [x]) = some b' ∧ b'.items.countP p = threshold := by
  obtain ⟨ps, x, qs, rfl, hx, hcount⟩ := exists_nth hpos henough
  have hbatch : ∃ started, batchAfter window time b (ps ++ [x]) = some ⟨started, ps ++ [x]⟩ := by
    cases ps with
    | nil => exact ⟨time x, batchAfter_of_late (hover x rfl) nofun⟩
    | cons y ps =>
      refine ⟨time y, batchAfter_of_late (hover y rfl) fun z hz => hspan y (.head _) z ?_⟩
      rcases List.mem_append.mp hz with hz | hz
      · simp [hz]
      · simp [List.mem_singleton.mp hz]
  obtain ⟨started, hbatch⟩ := hbatch
  refine ⟨ps, x, qs, _, rfl, hx, hbatch, ?_⟩
  rw [List.countP_append, List.countP_singleton, if_pos hx, hcount]

/-- The one that completes the threshold while a batch is open, or finds it complete. -/
theorem exists_dense_of_open {threshold : Nat} {b : Batch α}
    (hopen : ∀ y ∈ ys, ¬ b.late window (time y)) (hpos : 0 < ys.countP p)
    (henough : threshold ≤ b.items.countP p + ys.countP p) :
    ∃ ps x qs b', ys = ps ++ x :: qs ∧ p x = true ∧
      batchAfter window time (some b) (ps ++ [x]) = some b' ∧
      b'.items.countP p = max threshold (b.items.countP p + 1) := by
  have hmissing : max 1 (threshold - b.items.countP p) ≤ ys.countP p := by omega
  obtain ⟨ps, x, qs, rfl, hx, hcount⟩ := exists_nth (by omega) hmissing
  have hbatch : batchAfter window time (some b) (ps ++ [x]) =
      some ⟨b.started, b.items ++ (ps ++ [x])⟩ := by
    refine batchAfter_of_open fun y hy => hopen y ?_
    rcases List.mem_append.mp hy with hy | hy
    · simp [hy]
    · simp [List.mem_singleton.mp hy]
  refine ⟨ps, x, qs, _, rfl, hx, hbatch, ?_⟩
  rw [List.countP_append, List.countP_append, List.countP_singleton, if_pos hx]
  omega

/-- Where the items of a window are enough, one of them completes the threshold in its batch, or
finds it complete: those that come while the batch before them is open, or those that come after it.
They are enough if the open batch cannot take so many that too few are left. -/
theorem exists_dense {threshold : Nat} (hpos : 0 < threshold)
    (hspan : ∀ x ∈ ys, ∀ y ∈ ys, time y ≤ time x + window) (henough : threshold ≤ ys.countP p)
    (hopen : ∀ b' ∈ b, 2 * threshold ≤ ys.countP p + 1 + b'.items.countP p) :
    ∃ ps x qs b', ys = ps ++ x :: qs ∧ p x = true ∧
      batchAfter window time b (ps ++ [x]) = some b' ∧ threshold ≤ b'.items.countP p ∧
      (b'.items.countP p = threshold ∨ ∃ b₀ ∈ b, b'.items.countP p = b₀.items.countP p + 1) := by
  cases b with
  | none =>
    obtain ⟨ps, x, qs, b', hys, hx, hb', hcount⟩ :=
      exists_dense_of_late (b := none) hpos hspan henough (by simp)
    exact ⟨ps, x, qs, b', hys, hx, hb', by omega, .inl hcount⟩
  | some b =>
    have hopen := hopen b rfl
    let us := ys.takeWhile fun y => ¬ b.late window (time y)
    let vs := ys.dropWhile fun y => ¬ b.late window (time y)
    have hsplit : us ++ vs = ys := List.takeWhile_append_dropWhile
    have hus : ∀ y ∈ us, ¬ b.late window (time y) := fun y hy => by
      simpa using List.mem_takeWhile_imp hy
    have hcounts : us.countP p + vs.countP p = ys.countP p := by
      rw [← List.countP_append, hsplit]
    by_cases hfirst : 0 < us.countP p ∧ threshold ≤ b.items.countP p + us.countP p
    · obtain ⟨ps, x, qs, b', hys, hx, hb', hcount⟩ := exists_dense_of_open hus hfirst.1 hfirst.2
      refine ⟨ps, x, qs ++ vs, b', ?_, hx, hb', by omega, ?_⟩
      · rw [← hsplit, hys, List.append_assoc, List.cons_append]
      · rcases Nat.le_total threshold (b.items.countP p + 1) with hle | hle
        · exact .inr ⟨b, rfl, by omega⟩
        · exact .inl (by omega)
    · have hbatch := batchAfter_of_open hus
      have hspan' : ∀ x ∈ vs, ∀ y ∈ vs, time y ≤ time x + window := fun x hx y hy =>
        hspan x (hsplit ▸ List.mem_append_right us hx) y (hsplit ▸ List.mem_append_right us hy)
      have hover : ∀ y ∈ vs.head?, ∀ b' ∈ some (Batch.mk b.started (b.items ++ us)),
          b'.late window (time y) := by
        rintro y hy b' hb'
        cases hb'
        have hover := List.head?_dropWhile_not (fun y => decide ¬ b.late window (time y)) ys
        rw [Option.mem_def.mp hy] at hover
        have hlate : b.late window (time y) := by simpa using hover
        exact hlate
      obtain ⟨ps, x, qs, b', hvs, hx, hb', hcount⟩ :=
        exists_dense_of_late (p := p) hpos hspan' (by omega) hover
      refine ⟨us ++ ps, x, qs, b', ?_, hx, ?_, by omega, .inl hcount⟩
      · rw [← hsplit, hvs, List.append_assoc]
      · rw [List.append_assoc, batchAfter_append, hbatch, hb']

/-! ## Counters for keys

Each key has a counter of its own, for the items that have the key.
-/

variable {κ : Type} [DecidableEq κ] {key : α → Option κ} {k : κ}

/-- The items that have the key. -/
def ofKey (key : α → Option κ) (k : κ) (xs : List α) : List α :=
  xs.filter fun x => decide (key x = some k)

theorem ofKey_append : ofKey key k (xs ++ ys) = ofKey key k xs ++ ofKey key k ys :=
  List.filter_append ..

theorem ofKey_singleton (h : key x = some k) : ofKey key k [x] = [x] := by
  simp [ofKey, h]

/-- Where the items of a key are split, all are split. -/
theorem exists_split_of_ofKey {ps qs : List α} (h : ofKey key k xs = ps ++ x :: qs) :
    ∃ ps' qs', xs = ps' ++ x :: qs' ∧ key x = some k ∧ ofKey key k ps' = ps := by
  obtain ⟨l₁, l₂, rfl, rfl, hrest⟩ := List.filter_eq_append_iff.mp h
  obtain ⟨l₃, l₄, rfl, hnone, hx, -⟩ := List.filter_eq_cons_iff.mp hrest
  refine ⟨l₁ ++ l₃, l₄, by simp, of_decide_eq_true hx, ?_⟩
  have hempty : ofKey key k l₃ = [] := List.filter_eq_nil_iff.mpr hnone
  rw [ofKey_append, hempty, List.append_nil]
  rfl

/-- The batch of a key. -/
def batchOf (window : Nat) (time : α → Nat) (key : α → Option κ) (k : κ) (xs : List α) :
    Option (Batch α) :=
  batchAfter window time none (ofKey key k xs)

theorem batchOf_snoc (h : key x = some k) : batchOf window time key k (xs ++ [x]) =
    some (Batch.add window (batchOf window time key k xs) (time x) x) := by
  rw [batchOf, ofKey_append, ofKey_singleton h, batchAfter_snoc]
  rfl

/-- The batch of a key is valid, and has the last of its items. -/
theorem batchOf_spec {b : Batch α} (h : batchOf window time key k xs = some b) :
    b.Valid window time ∧ b.items <:+ ofKey key k xs :=
  ⟨valid_batchAfter (b := none) (by simp) b h, batchAfter_suffix h⟩

/-- Where the items of a key within a window are enough, one of them completes the threshold in the
batch of the key, or finds it complete there. -/
theorem exists_dense_of_key (threshold : Nat) (hpos : 0 < threshold)
    (hspan : ∀ x ∈ ys, ∀ y ∈ ys, time y ≤ time x + window)
    (henough : threshold ≤ (ofKey key k ys).countP p)
    (hopen : ∀ b ∈ batchOf window time key k xs,
      2 * threshold ≤ (ofKey key k ys).countP p + 1 + b.items.countP p) :
    ∃ ps x qs b, ys = ps ++ x :: qs ∧ key x = some k ∧ p x = true ∧
      batchOf window time key k ((xs ++ ps) ++ [x]) = some b ∧ threshold ≤ b.items.countP p ∧
      b.items.countP p ≤ max threshold (xs.length + 1) := by
  have hspan' : ∀ x ∈ ofKey key k ys, ∀ y ∈ ofKey key k ys, time y ≤ time x + window :=
    fun x hx y hy => hspan x (List.mem_filter.mp hx).1 y (List.mem_filter.mp hy).1
  obtain ⟨ps, x, qs, b, hsplit, hx, hb, hfull, hcount⟩ :=
    exists_dense (b := batchOf window time key k xs) hpos hspan' henough hopen
  obtain ⟨ps', qs', rfl, hkey, rfl⟩ := exists_split_of_ofKey hsplit
  refine ⟨ps', x, qs', b, rfl, hkey, hx, ?_, hfull, ?_⟩
  · rw [batchOf, List.append_assoc, ofKey_append, batchAfter_append, ← hb, ofKey_append,
      ofKey_singleton hkey]
    rfl
  · rcases hcount with hcount | ⟨b₀, hb₀, hcount⟩
    · exact hcount.le.trans (Nat.le_max_left _ _)
    · have hlen := (batchOf_spec hb₀).2.length_le.trans (List.length_filter_le _ _)
      have hle := (List.countP_le_length (p := p) (l := b₀.items)).trans hlen
      omega

end ActiveDefense
