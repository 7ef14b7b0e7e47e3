import ActiveDefense.Lib.Run
import ActiveDefense.Lib.Table
import ActiveDefense.Rust.Text
import Mathlib.Logic.Function.Basic

/-!
# The interner under many threads

`get_or_intern` looks a string up under the read lock, lets the lock go, and looks it up again under
the write lock before it takes a number from the counter. A call is a sequence of atomic steps, and
the calls of the threads interleave. Whatever the order, the two tables number a list of distinct
strings (`Interning.Numbers`): the position of a string is its id. The list grows by one string when
a thread inserts it, which only the holder of the write lock does.
-/

namespace ActiveDefense.Spectral

/-- The most entries of a map of a string and a `u64`: of a power of two of buckets seven eighths
are used, a bucket has 32 bytes, and an allocation less than `2 ^ 63`. -/
def maxEntries : Nat := 7 * 2 ^ 54

/-- Where a thread is in `get_or_intern`. -/
inductive Phase where
  | idle
  /-- Before `forward.read()`. -/
  | called (val : Str)
  /-- Under the read lock. -/
  | reading (val : Str)
  /-- Under the read lock, after the lookup. -/
  | looked (val : Str) (found : Option Nat)
  /-- Between the two locks. -/
  | missed (val : Str)
  /-- Under the write lock. -/
  | writing (val : Str)
  /-- Before `fetch_add`. -/
  | counting (val : Str)
  /-- Before the insertion into `forward`. -/
  | counted (val : Str) (id : Nat)
  /-- Before `reverse.write()`. -/
  | inserted (val : Str) (id : Nat)
  /-- Under the lock of `reverse`. -/
  | reversing (val : Str) (id : Nat)
  /-- Before the write lock is released. -/
  | finished (val : Str) (id : Nat)
deriving DecidableEq

/-- `NodeInterner`, its locks, the threads that call it and what the calls have returned. -/
structure Interning where
  counter : Nat
  forward : Table Str Nat
  reverse : Table Nat Str
  readers : List Nat
  writer : Option Nat
  reverseWriter : Option Nat
  poisoned : Bool
  phase : Nat → Phase
  returned : List (Str × Nat)

inductive InternAction where
  | call (thread : Nat) (val : Str)
  | turn (thread : Nat)
deriving DecidableEq

namespace Interning

/-- `NodeInterner::new`. -/
def new : Interning where
  counter := 1
  forward := ∅
  reverse := ∅
  readers := []
  writer := none
  reverseWriter := none
  poisoned := false
  phase := fun _ => .idle
  returned := []

/-- The thread goes on to a phase. -/
def goTo (s : Interning) (t : Nat) (p : Phase) : Interning :=
  { s with phase := Function.update s.phase t p }

/-- The next step of a thread; nothing, where it has to wait. A lock that is poisoned panics in
`unwrap`, and so does an insertion that finds no room; this one poisons the lock. -/
def turn (s : Interning) (t : Nat) : Option Interning :=
  match s.phase t with
  | .idle => none
  | .called val =>
    if s.writer.isSome then none
    else if s.poisoned then some (s.goTo t .idle)
    else some { s.goTo t (.reading val) with readers := t :: s.readers }
  | .reading val => some (s.goTo t (.looked val (s.forward.lookup val)))
  | .looked val (some id) =>
    some { s.goTo t .idle with
      readers := s.readers.erase t, returned := s.returned ++ [(val, id)] }
  | .looked val none => some { s.goTo t (.missed val) with readers := s.readers.erase t }
  | .missed val =>
    if s.writer.isSome || !s.readers.isEmpty then none
    else if s.poisoned then some (s.goTo t .idle)
    else some { s.goTo t (.writing val) with writer := some t }
  | .writing val =>
    match s.forward.lookup val with
    | some id => some (s.goTo t (.finished val id))
    | none => some (s.goTo t (.counting val))
  | .counting val =>
    some { s.goTo t (.counted val s.counter) with counter := (s.counter + 1) % 2 ^ 64 }
  | .counted val id =>
    if maxEntries ≤ s.forward.len then
      some { s.goTo t .idle with writer := none, poisoned := true }
    else some { s.goTo t (.inserted val id) with forward := s.forward.insert val id }
  | .inserted val id =>
    if s.reverseWriter.isSome then none
    else some { s.goTo t (.reversing val id) with reverseWriter := some t }
  | .reversing val id =>
    some { s.goTo t (.finished val id) with
      reverse := s.reverse.insert id val, reverseWriter := none }
  | .finished val id =>
    some { s.goTo t .idle with writer := none, returned := s.returned ++ [(val, id)] }

/-- A thread that is not in a call may begin one; one that is in a call takes its next step. -/
def next (s : Interning) : InternAction → Option Interning
  | .call t val => if s.phase t = .idle then some (s.goTo t (.called val)) else none
  | .turn t => s.turn t

/-- A step of some thread. -/
def Step (s : Interning) (a : InternAction) (t : Interning) : Prop := s.next a = some t

end Interning

/-! ## Phases -/

namespace Phase

/-- Under the write lock. -/
def writes : Phase → Prop
  | writing _ | counting _ | counted _ _ | inserted _ _ | reversing _ _ | finished _ _ => True
  | _ => False

/-- What a number has been taken for, but not inserted. -/
def taken : Phase → Option (Str × Nat)
  | counted val id => some (val, id)
  | _ => none

/-- What has been inserted into `forward` only. -/
def pending : Phase → Option (Str × Nat)
  | inserted val id | reversing val id => some (val, id)
  | _ => none

/-- What has an id that the call has not returned. -/
def named : Phase → Option (Str × Nat)
  | inserted val id | reversing val id | finished val id | looked val (some id) => some (val, id)
  | _ => none

end Phase

/-! ## The numbering -/

namespace Interning

/-- The tables number the strings of a list, from one on. -/
structure Numbers (s : Interning) (names : List Str) : Prop where
  nodup : names.Nodup
  lookup_iff : ∀ v id, s.forward.lookup v = some id ↔ 1 ≤ id ∧ names[id - 1]? = some v
  length_le : names.length ≤ maxEntries
  writer_iff : ∀ t, s.writer = some t ↔ (s.phase t).writes
  poisoned_free : s.poisoned = true → s.writer = none
  counter_eq : s.poisoned = false → (∀ t, (s.phase t).taken = none) →
    s.counter = names.length + 1
  missing : ∀ t v, s.phase t = .counting v → v ∉ names
  taken : ∀ t v id, (s.phase t).taken = some (v, id) →
    v ∉ names ∧ id = names.length + 1 ∧ s.counter = names.length + 2
  reverse_iff : ∀ v id, s.reverse.lookup id = some v ↔
    s.forward.lookup v = some id ∧ ∀ t, (s.phase t).pending ≠ some (v, id)
  named : ∀ t v id, (s.phase t).named = some (v, id) → s.forward.lookup v = some id
  returned : ∀ v id, (v, id) ∈ s.returned → s.forward.lookup v = some id
  known : ∀ v id, s.forward.lookup v = some id →
    (v, id) ∈ s.returned ∨ ∃ t, (s.phase t).named = some (v, id)

theorem numbers_new : new.Numbers [] where
  nodup := .nil
  lookup_iff v id := by simp [new]
  length_le := Nat.zero_le _
  writer_iff t := by simp [new, Phase.writes]
  poisoned_free := nofun
  counter_eq _ _ := rfl
  missing t v h := by cases h
  taken t v id h := by cases h
  reverse_iff v id := by simp [new]
  named t v id h := by cases h
  returned v id h := by cases h
  known v id h := by cases h

variable {s s' : Interning} {names : List Str} {t : Nat} {p q : Phase}

/-- A step that leaves the tables, the counter and what is about to go into them. -/
theorem Numbers.goTo (h : s.Numbers names) (hp : s.phase t = q) {r : List Nat} {w x : Option Nat}
    {out : List (Str × Nat)}
    (hself : w = some t ↔ p.writes)
    (hother : ∀ u, u ≠ t → (w = some u ↔ s.writer = some u))
    (hfree : s.poisoned = true → w = none)
    (htaken : p.taken = q.taken)
    (hpending : p.pending = q.pending)
    (hmissing : ∀ v, p = .counting v → v ∉ names)
    (hnamed : ∀ v id, p.named = some (v, id) → s.forward.lookup v = some id)
    (hkept : ∀ v id, q.named = some (v, id) → p.named = some (v, id) ∨ (v, id) ∈ out)
    (hout : ∀ v id, (v, id) ∈ out → s.forward.lookup v = some id) :
    Numbers { s.goTo t p with
      readers := r, writer := w, reverseWriter := x,
      returned := s.returned ++ out } names := by
  have hphase : ∀ u, (Function.update s.phase t p) u = if u = t then p else s.phase u :=
    fun u => Function.update_apply s.phase t p u
  have htaken' : ∀ u, (Function.update s.phase t p u).taken = (s.phase u).taken := by
    intro u
    rw [hphase]
    split
    · next hu =>
      rw [hu, hp, htaken]
    · rfl
  have hpending' : ∀ u, (Function.update s.phase t p u).pending = (s.phase u).pending := by
    intro u
    rw [hphase]
    split
    · next hu =>
      rw [hu, hp, hpending]
    · rfl
  exact {
    nodup := h.nodup
    lookup_iff := h.lookup_iff
    length_le := h.length_le
    writer_iff := fun u => by
      change w = some u ↔ (Function.update s.phase t p u).writes
      rw [hphase]
      split
      · next hu =>
        rw [hu, hself]
      · next hu =>
        rw [hother u hu, h.writer_iff]
    poisoned_free := hfree
    counter_eq := fun hp hall => h.counter_eq hp fun u => (htaken' u).symm.trans (hall u)
    missing := fun u v hu => by
      change Function.update s.phase t p u = _ at hu
      rw [hphase] at hu
      split at hu
      · exact hmissing v hu
      · exact h.missing u v hu
    taken := fun u v id hu => h.taken u v id ((htaken' u).symm.trans hu)
    reverse_iff := fun v id => by
      change s.reverse.lookup id = some v ↔ s.forward.lookup v = some id ∧
        ∀ u, (Function.update s.phase t p u).pending ≠ some (v, id)
      simp only [hpending', h.reverse_iff]
    named := fun u v id hu => by
      change (Function.update s.phase t p u).named = _ at hu
      rw [hphase] at hu
      split at hu
      · exact hnamed v id hu
      · exact h.named u v id hu
    returned := fun v id hv => (List.mem_append.mp hv).elim (h.returned v id) (hout v id)
    known := fun v id hv => by
      change (v, id) ∈ s.returned ++ out ∨ ∃ u, (Function.update s.phase t p u).named = some (v, id)
      rcases h.known v id hv with hold | ⟨u, hu⟩
      · exact .inl (List.mem_append_left _ hold)
      · by_cases hut : u = t
        · rcases hkept v id (by rw [← hp, ← hut, hu]) with hp | hmem
          · exact .inr ⟨t, by rw [hphase, if_pos rfl, hp]⟩
          · exact .inl (List.mem_append_right _ hmem)
        · exact .inr ⟨u, by rw [hphase, if_neg hut, hu]⟩ }

/-- Such a step that returns nothing. -/
theorem Numbers.quiet (h : s.Numbers names) (hp : s.phase t = q) {r : List Nat}
    {w x : Option Nat}
    (hself : w = some t ↔ p.writes)
    (hother : ∀ u, u ≠ t → (w = some u ↔ s.writer = some u))
    (hfree : s.poisoned = true → w = none)
    (htaken : p.taken = q.taken)
    (hpending : p.pending = q.pending)
    (hmissing : ∀ v, p = .counting v → v ∉ names)
    (hnamed : ∀ v id, p.named = some (v, id) → s.forward.lookup v = some id)
    (hkept : ∀ v id, q.named = some (v, id) → p.named = some (v, id)) :
    Numbers { s.goTo t p with
      readers := r, writer := w, reverseWriter := x } names := by
  have hnumbers := h.goTo hp (r := r) (x := x) hself hother hfree
    htaken hpending hmissing hnamed (fun v id hv => .inl (hkept v id hv))
    fun v id hv => absurd hv List.not_mem_nil
  rwa [List.append_nil] at hnumbers

theorem Numbers.lookup_eq_none_iff (h : s.Numbers names) {v : Str} :
    s.forward.lookup v = none ↔ v ∉ names := by
  rw [Option.eq_none_iff_forall_ne_some]
  constructor
  · intro hnone hmem
    obtain ⟨k, hk⟩ := List.getElem?_of_mem hmem
    exact hnone (k + 1) ((h.lookup_iff v (k + 1)).mpr ⟨Nat.succ_pos k, hk⟩)
  · intro hnot id hid
    exact hnot (List.mem_of_getElem? ((h.lookup_iff v id).mp hid).2)

/-- The table has an entry for each string of the list. -/
theorem Numbers.len_eq (h : s.Numbers names) : s.forward.len = names.length := by
  have hmem : ∀ v, v ∈ s.forward.keys ↔ v ∈ names := by
    intro v
    rw [← AList.mem_keys, ← not_iff_not, ← h.lookup_eq_none_iff, AList.lookup_eq_none]
  have hperm := (List.perm_ext_iff_of_nodup s.forward.keys_nodup h.nodup).mpr hmem
  rw [← hperm.length_eq, Table.len, AList.keys, List.keys, List.length_map]

/-- Only the holder of the write lock is under it. -/
theorem Numbers.eq_of_writes (h : s.Numbers names) {u : Nat} (ht : (s.phase t).writes)
    (hu : (s.phase u).writes) : u = t :=
  Option.some.inj (((h.writer_iff u).mpr hu).symm.trans ((h.writer_iff t).mpr ht))

theorem writes_of_taken {x : Str × Nat} (h : p.taken = some x) : p.writes := by
  cases p <;> first | exact trivial | cases h

theorem writes_of_pending {x : Str × Nat} (h : p.pending = some x) : p.writes := by
  cases p <;> first | exact trivial | cases h

/-- Of the threads only the holder of the write lock has something pending. -/
theorem Numbers.reverse_iff_of_writes (h : s.Numbers names) (ht : (s.phase t).writes) (v : Str)
    (id : Nat) : s.reverse.lookup id = some v ↔
      s.forward.lookup v = some id ∧ (s.phase t).pending ≠ some (v, id) := by
  rw [h.reverse_iff]
  refine and_congr_right fun _ => ⟨fun hall => hall t, fun hself u hu => ?_⟩
  rw [h.eq_of_writes ht (writes_of_pending hu)] at hu
  exact hself hu

/-- A step of the holder of the write lock that returns nothing: what has to be seen to is the new
tables and the thread itself. -/
theorem Numbers.hold (h : s.Numbers names) (ht : (s.phase t).writes) {names' : List Str}
    (hphase : s'.phase = Function.update s.phase t p) (hreturned : s'.returned = s.returned)
    (hnodup : names'.Nodup)
    (hlookup : ∀ v id, s'.forward.lookup v = some id ↔ 1 ≤ id ∧ names'[id - 1]? = some v)
    (hlength : names'.length ≤ maxEntries)
    (hwriter : s'.writer = some t ↔ p.writes) (hother : ∀ u, u ≠ t → s'.writer ≠ some u)
    (hpoisoned : s'.poisoned = true → s'.writer = none)
    (hcounter : s'.poisoned = false → p.taken = none → s'.counter = names'.length + 1)
    (htaken : ∀ v id, p.taken = some (v, id) →
      v ∉ names' ∧ id = names'.length + 1 ∧ s'.counter = names'.length + 2)
    (hmissing : ∀ v, p ≠ .counting v)
    (hreverse : ∀ v id, s'.reverse.lookup id = some v ↔
      s'.forward.lookup v = some id ∧ p.pending ≠ some (v, id))
    (hgrow : ∀ v id, s.forward.lookup v = some id → s'.forward.lookup v = some id)
    (hnamed : ∀ v id, p.named = some (v, id) → s'.forward.lookup v = some id)
    (hknown : ∀ v id, s'.forward.lookup v = some id → p.named = some (v, id) ∨
      s.forward.lookup v = some id ∧ (s.phase t).named ≠ some (v, id)) :
    s'.Numbers names' := by
  have hself : s'.phase t = p := by rw [hphase, Function.update_self]
  have hrest : ∀ u, u ≠ t → s'.phase u = s.phase u := fun u hut => by
    rw [hphase, Function.update_of_ne hut]
  have hfree : ∀ u, u ≠ t → ¬ (s.phase u).writes := fun u hut hu => hut (h.eq_of_writes ht hu)
  have htakes : ∀ u v id, (s'.phase u).taken = some (v, id) → p.taken = some (v, id) := by
    intro u v id hu
    by_cases hut : u = t
    · rw [← hself, ← hut, hu]
    · rw [hrest u hut] at hu
      exact absurd (writes_of_taken hu) (hfree u hut)
  exact {
    nodup := hnodup
    lookup_iff := hlookup
    length_le := hlength
    writer_iff := fun u => by
      by_cases hut : u = t
      · rw [hut, hself, hwriter]
      · rw [hrest u hut]
        exact iff_of_false (hother u hut) (hfree u hut)
    poisoned_free := hpoisoned
    counter_eq := fun hp hall => hcounter hp (hself ▸ hall t)
    missing := fun u v hu => by
      by_cases hut : u = t
      · rw [hut, hself] at hu
        exact absurd hu (hmissing v)
      · rw [hrest u hut] at hu
        exact absurd (hu ▸ trivial) (hfree u hut)
    taken := fun u v id hu => htaken v id (htakes u v id hu)
    reverse_iff := fun v id => by
      rw [hreverse]
      refine and_congr_right fun _ => ⟨fun hnot u hu => ?_, fun hall => hself ▸ hall t⟩
      by_cases hut : u = t
      · rw [hut, hself] at hu
        exact hnot hu
      · rw [hrest u hut] at hu
        exact hfree u hut (writes_of_pending hu)
    named := fun u v id hu => by
      by_cases hut : u = t
      · rw [hut, hself] at hu
        exact hnamed v id hu
      · rw [hrest u hut] at hu
        exact hgrow v id (h.named u v id hu)
    returned := fun v id hv => hgrow v id (h.returned v id (hreturned ▸ hv))
    known := fun v id hv => by
      rw [hreturned]
      rcases hknown v id hv with hp | ⟨hold, hnot⟩
      · exact .inr ⟨t, hself ▸ hp⟩
      · refine (h.known v id hold).imp_right fun ⟨u, hu⟩ => ⟨u, ?_⟩
        have hut : u ≠ t := by
          rintro rfl
          exact hnot hu
        rw [hrest u hut, hu] }

/-- Where the write lock is held it is not poisoned. -/
theorem Numbers.not_poisoned (h : s.Numbers names) (ht : (s.phase t).writes) :
    s.poisoned = false := by
  by_contra hpoisoned
  have hnone := h.poisoned_free (Bool.eq_true_of_not_eq_false hpoisoned)
  rw [(h.writer_iff t).mpr ht] at hnone
  cases hnone

/-- No other thread has the write lock than the one that is under it. -/
theorem Numbers.writer_ne (h : s.Numbers names) (ht : (s.phase t).writes) (u : Nat) (hut : u ≠ t) :
    s.writer ≠ some u := by
  rw [(h.writer_iff t).mpr ht]
  exact fun heq => hut (Option.some.inj heq).symm

/-- No number is taken unless by the holder of the write lock. -/
theorem Numbers.counter_of_writes (h : s.Numbers names) (ht : (s.phase t).writes)
    (hnone : (s.phase t).taken = none) : s.counter = names.length + 1 := by
  refine h.counter_eq (h.not_poisoned ht) fun u => Option.eq_none_iff_forall_ne_some.mpr ?_
  intro x hx
  rw [h.eq_of_writes ht (writes_of_taken hx), hnone] at hx
  cases hx

/-- `fetch_add` takes the next number: there is room, so the counter does not wrap. -/
theorem Numbers.count (h : s.Numbers names) {val : Str} (hp : s.phase t = .counting val) :
    Numbers { s.goTo t (.counted val s.counter) with counter := (s.counter + 1) % 2 ^ 64 }
      names := by
  have ht : (s.phase t).writes := hp ▸ trivial
  have hcounter := h.counter_of_writes ht (by rw [hp]; rfl)
  have hlt : s.counter + 1 < 2 ^ 64 := by
    have hle := h.length_le
    simp only [maxEntries] at hle
    omega
  rw [Nat.mod_eq_of_lt hlt]
  refine h.hold ht rfl rfl h.nodup h.lookup_iff h.length_le ?_ (h.writer_ne ht) h.poisoned_free nofun
    ?_ nofun ?_ (fun _ _ hv => hv) nofun ?_
  · exact iff_of_true ((h.writer_iff t).mpr ht) trivial
  · intro v id hv
    cases hv
    exact ⟨h.missing t val hp, hcounter, congrArg (· + 1) hcounter⟩
  · intro v id
    have hold := h.reverse_iff_of_writes ht v id
    rw [hp] at hold
    exact hold
  · intro v id hv
    rw [hp]
    exact .inr ⟨hv, nofun⟩

/-- An insertion that finds no room leaves the tables; nothing more is inserted. -/
theorem Numbers.panic (h : s.Numbers names) {val : Str} {id : Nat}
    (hp : s.phase t = .counted val id) :
    Numbers { s.goTo t .idle with writer := none, poisoned := true } names := by
  have ht : (s.phase t).writes := hp ▸ trivial
  refine h.hold ht rfl rfl h.nodup h.lookup_iff h.length_le ?_ (fun _ _ => nofun) (fun _ => rfl)
    nofun nofun nofun ?_ (fun _ _ hv => hv) nofun ?_
  · exact iff_of_false nofun fun hidle => hidle
  · intro v i
    have hold := h.reverse_iff_of_writes ht v i
    rw [hp] at hold
    exact hold
  · intro v i hv
    rw [hp]
    exact .inr ⟨hv, nofun⟩

/-- The insertion into `forward` adds the string to the list. -/
theorem Numbers.insert (h : s.Numbers names) {val : Str} {id : Nat}
    (hp : s.phase t = .counted val id) (hroom : s.forward.len < maxEntries) :
    Numbers { s.goTo t (.inserted val id) with forward := s.forward.insert val id }
      (names ++ [val]) := by
  have ht : (s.phase t).writes := hp ▸ trivial
  obtain ⟨hnew, hid, hcounter⟩ := h.taken t val id (by rw [hp]; rfl)
  have hmem : val ∉ s.forward := AList.lookup_eq_none.mp (h.lookup_eq_none_iff.mpr hnew)
  have hother : ∀ v, v ≠ val → AList.lookup v (AList.insert val id s.forward) =
      s.forward.lookup v := fun v hv => AList.lookup_insert_ne hv
  refine h.hold ht rfl rfl ?_ ?_ ?_ ?_ (h.writer_ne ht) h.poisoned_free ?_ nofun nofun ?_ ?_ ?_ ?_
  · exact h.nodup.append (List.nodup_singleton val) (by simpa using hnew)
  · intro v i
    change AList.lookup v (AList.insert val id s.forward) = some i ↔ _
    by_cases hv : v = val
    · rw [hv, AList.lookup_insert, hid]
      grind
    · rw [hother v hv, h.lookup_iff]
      grind
  · rw [List.length_append, List.length_singleton, ← h.len_eq]
    exact hroom
  · exact iff_of_true ((h.writer_iff t).mpr ht) trivial
  · intro _ _
    rw [List.length_append, List.length_singleton]
    exact hcounter
  · intro v i
    have hold := h.reverse_iff_of_writes ht v i
    rw [hp] at hold
    refine hold.trans ?_
    change _ ↔ AList.lookup v (AList.insert val id s.forward) = some i ∧ some (val, id) ≠ some (v, i)
    by_cases hv : v = val
    · rw [hv, AList.lookup_insert, h.lookup_eq_none_iff.mpr hnew]
      refine iff_of_false (fun hsome => Option.some_ne_none i hsome.1.symm) ?_
      rintro ⟨heq, hne⟩
      exact hne (by rw [Option.some.inj heq])
    · rw [hother v hv]
      refine and_congr_right fun _ => iff_of_true nofun fun heq => hv ?_
      exact (congrArg Prod.fst (Option.some.inj heq)).symm
  · exact fun v i hv => Table.lookup_insert_of_not_mem hmem hv
  · intro v i hv
    cases hv
    exact AList.lookup_insert _
  · intro v i hv
    change AList.lookup v (AList.insert val id s.forward) = some i at hv
    by_cases hval : v = val
    · rw [hval, AList.lookup_insert] at hv
      rw [hval, ← Option.some.inj hv]
      exact .inl rfl
    · rw [hother v hval] at hv
      rw [hp]
      exact .inr ⟨hv, nofun⟩

/-- Two strings have different ids. -/
theorem Numbers.string_unique (h : s.Numbers names) {v w : Str} {id : Nat}
    (hv : s.forward.lookup v = some id) (hw : s.forward.lookup w = some id) : v = w :=
  Option.some.inj (((h.lookup_iff v id).mp hv).2.symm.trans ((h.lookup_iff w id).mp hw).2)

/-- The insertion into `reverse` makes up for what was missing. -/
theorem Numbers.reverse (h : s.Numbers names) {val : Str} {id : Nat}
    (hp : s.phase t = .reversing val id) :
    Numbers { s.goTo t (.finished val id) with
      reverse := s.reverse.insert id val, reverseWriter := none } names := by
  have ht : (s.phase t).writes := hp ▸ trivial
  have hval : s.forward.lookup val = some id := h.named t val id (by rw [hp]; rfl)
  refine h.hold ht rfl rfl h.nodup h.lookup_iff h.length_le ?_ (h.writer_ne ht) h.poisoned_free ?_
    nofun nofun ?_ (fun _ _ hv => hv) ?_ ?_
  · exact iff_of_true ((h.writer_iff t).mpr ht) trivial
  · exact fun _ _ => h.counter_of_writes ht (by rw [hp]; rfl)
  · intro v i
    change AList.lookup i (AList.insert id val s.reverse) = some v ↔
      s.forward.lookup v = some i ∧ none ≠ some (v, i)
    rw [and_iff_left nofun]
    by_cases hi : i = id
    · rw [hi, AList.lookup_insert, Option.some.injEq]
      constructor
      · rintro rfl
        exact hval
      · exact h.string_unique hval
    · rw [AList.lookup_insert_ne hi, h.reverse_iff_of_writes ht, and_iff_left]
      rw [hp]
      exact fun heq => hi (congrArg Prod.snd (Option.some.inj heq)).symm
  · intro v i hv
    cases hv
    exact hval
  · intro v i hv
    by_cases hself : (Phase.finished val id).named = some (v, i)
    · exact .inl hself
    · rw [hp]
      exact .inr ⟨hv, hself⟩

/-! ## A step and a run -/

/-- A thread that stays on one side of the write lock. -/
theorem Numbers.keep (h : s.Numbers names) (hp : s.phase t = p) (hsame : p.writes ↔ q.writes) :
    s.writer = some t ↔ q.writes := by
  rw [h.writer_iff, hp, hsame]

/-- A step that returns nothing and leaves the write lock, too. -/
theorem Numbers.pass (h : s.Numbers names) (hp : s.phase t = q) {r : List Nat} {x : Option Nat}
    (hsame : q.writes ↔ p.writes) (htaken : p.taken = q.taken) (hpending : p.pending = q.pending)
    (hmissing : ∀ v, p = .counting v → v ∉ names)
    (hnamed : ∀ v id, p.named = some (v, id) → s.forward.lookup v = some id)
    (hkept : ∀ v id, q.named = some (v, id) → p.named = some (v, id)) :
    Numbers { s.goTo t p with readers := r, reverseWriter := x } names :=
  h.quiet hp (h.keep hp hsame) (fun _ _ => Iff.rfl) h.poisoned_free htaken hpending hmissing hnamed
    hkept

/-- What the lookup finds is the string's id. -/
theorem Numbers.look (h : s.Numbers names) {val : Str} (hp : s.phase t = .reading val) :
    Numbers (s.goTo t (.looked val (s.forward.lookup val))) names := by
  refine h.pass hp Iff.rfl rfl rfl nofun ?_ nofun
  intro v id hnamed
  cases hfound : s.forward.lookup val with
  | none =>
    rw [hfound] at hnamed
    cases hnamed
  | some i =>
    rw [hfound] at hnamed
    cases hnamed
    exact hfound

/-- The call returns the id that it has. -/
theorem Numbers.returns (h : s.Numbers names) (hp : s.phase t = q) {val : Str} {id : Nat}
    (hq : q.named = some (val, id)) {r : List Nat} {w x : Option Nat} (hself : w ≠ some t)
    (hother : ∀ u, u ≠ t → (w = some u ↔ s.writer = some u))
    (hfree : s.poisoned = true → w = none) (htaken : q.taken = none) (hpending : q.pending = none) :
    Numbers { s.goTo t .idle with
      readers := r, writer := w, reverseWriter := x,
      returned := s.returned ++ [(val, id)] } names := by
  have hval : s.forward.lookup val = some id := h.named t val id (by rw [hp, hq])
  refine h.goTo hp (iff_of_false hself fun hidle => hidle) hother hfree htaken.symm hpending.symm
    nofun nofun ?_ ?_
  · rintro v i hnamed
    cases hq.symm.trans hnamed
    exact .inr (List.mem_singleton_self _)
  · intro v i hmem
    cases List.mem_singleton.mp hmem
    exact hval

/-- The write lock is taken where no thread has it. -/
theorem Numbers.lock (h : s.Numbers names) {val : Str} (hp : s.phase t = .missed val)
    (hnone : s.writer = none) (hpoisoned : s.poisoned ≠ true) :
    Numbers { s.goTo t (.writing val) with writer := some t } names := by
  refine h.quiet hp (iff_of_true rfl trivial) ?_ ?_ rfl rfl nofun nofun nofun
  · intro u hut
    rw [hnone]
    exact iff_of_false (fun heq => hut (Option.some.inj heq).symm) nofun
  · exact fun htrue => absurd htrue hpoisoned

/-- The write lock is let go. -/
theorem Numbers.release (h : s.Numbers names) {val : Str} {id : Nat}
    (hp : s.phase t = .finished val id) :
    Numbers { s.goTo t .idle with
      writer := none, returned := s.returned ++ [(val, id)] } names := by
  have hwriter : s.writer = some t := (h.writer_iff t).mpr (hp ▸ trivial)
  refine h.returns hp rfl nofun ?_ (fun _ => rfl) rfl rfl
  intro u hut
  rw [hwriter]
  exact iff_of_false nofun fun heq => hut (Option.some.inj heq).symm

/-- Each step of a thread keeps the numbering, or adds a string at its end. -/
theorem Numbers.turn (h : s.Numbers names) (hturn : s.turn t = some s') :
    ∃ names', s'.Numbers names' := by
  cases hp : s.phase t with
  | idle =>
    rw [Interning.turn, hp] at hturn
    cases hturn
  | called val =>
    rw [Interning.turn, hp] at hturn
    change (if s.writer.isSome then _ else _) = _ at hturn
    split at hturn
    · cases hturn
    · split at hturn
      · cases hturn
        exact ⟨names, h.pass hp Iff.rfl rfl rfl nofun nofun nofun⟩
      · cases hturn
        exact ⟨names, h.pass hp Iff.rfl rfl rfl nofun nofun nofun⟩
  | reading val =>
    rw [Interning.turn, hp] at hturn
    cases hturn
    exact ⟨names, h.look hp⟩
  | looked val found =>
    rw [Interning.turn, hp] at hturn
    cases found with
    | none =>
      cases hturn
      exact ⟨names, h.pass hp Iff.rfl rfl rfl nofun nofun nofun⟩
    | some id =>
      cases hturn
      have hself : s.writer ≠ some t := fun heq => (h.keep hp Iff.rfl).mp heq
      exact ⟨names, h.returns hp rfl hself (fun _ _ => Iff.rfl) h.poisoned_free rfl rfl⟩
  | missed val =>
    rw [Interning.turn, hp] at hturn
    change (if s.writer.isSome || !s.readers.isEmpty then _ else _) = _ at hturn
    split at hturn
    · cases hturn
    · next hlocked =>
      have hnone : s.writer = none := by
        cases hw : s.writer with
        | none => rfl
        | some u =>
          rw [hw] at hlocked
          exact absurd rfl hlocked
      split at hturn
      · cases hturn
        exact ⟨names, h.pass hp Iff.rfl rfl rfl nofun nofun nofun⟩
      · next hpoisoned =>
        cases hturn
        exact ⟨names, h.lock hp hnone hpoisoned⟩
  | writing val =>
    rw [Interning.turn, hp] at hturn
    cases hfound : s.forward.lookup val with
    | none =>
      simp only [hfound] at hturn
      cases hturn
      refine ⟨names, h.pass hp Iff.rfl rfl rfl ?_ nofun nofun⟩
      intro v hv
      cases hv
      exact h.lookup_eq_none_iff.mp hfound
    | some id =>
      simp only [hfound] at hturn
      cases hturn
      refine ⟨names, h.pass hp Iff.rfl rfl rfl nofun ?_ nofun⟩
      intro v i hnamed
      cases hnamed
      exact hfound
  | counting val =>
    rw [Interning.turn, hp] at hturn
    cases hturn
    exact ⟨names, h.count hp⟩
  | counted val id =>
    rw [Interning.turn, hp] at hturn
    change (if maxEntries ≤ s.forward.len then _ else _) = _ at hturn
    split at hturn
    · cases hturn
      exact ⟨names, h.panic hp⟩
    · next hroom =>
      cases hturn
      exact ⟨names ++ [val], h.insert hp (Nat.lt_of_not_le hroom)⟩
  | inserted val id =>
    rw [Interning.turn, hp] at hturn
    change (if s.reverseWriter.isSome then _ else _) = _ at hturn
    split at hturn
    · cases hturn
    · cases hturn
      refine ⟨names, h.pass hp Iff.rfl rfl rfl nofun ?_ ?_⟩
      · intro v i hnamed
        exact h.named t v i (by rw [hp]; exact hnamed)
      · exact fun v i hnamed => hnamed
  | reversing val id =>
    rw [Interning.turn, hp] at hturn
    cases hturn
    exact ⟨names, h.reverse hp⟩
  | finished val id =>
    rw [Interning.turn, hp] at hturn
    cases hturn
    exact ⟨names, h.release hp⟩

/-- Each step keeps the numbering, or adds a string at its end. -/
theorem Numbers.step {a : InternAction} (h : s.Numbers names) (hstep : Step s a s') :
    ∃ names', s'.Numbers names' := by
  cases a with
  | turn t => exact h.turn hstep
  | call t val =>
    have hnext : (if s.phase t = .idle then some (s.goTo t (.called val)) else none) = some s' :=
      hstep
    split at hnext
    · next hp =>
      cases hnext
      exact ⟨names, h.pass hp Iff.rfl rfl rfl nofun nofun nofun⟩
    · cases hnext

/-- In every reachable state the tables number a list of distinct strings. -/
theorem numbers_of_reachable (h : Reachable Step new s) : ∃ names, s.Numbers names :=
  h.invariant (I := fun s => ∃ names, s.Numbers names) ⟨[], numbers_new⟩
    fun _ _ _ ⟨_, hI⟩ hst => hI.step hst

/-! ## What the ids tell -/

/-- The ids are the numbers from one to the number of strings. -/
theorem Numbers.exists_string_iff (h : s.Numbers names) {id : Nat} :
    (∃ v, s.forward.lookup v = some id) ↔ 1 ≤ id ∧ id ≤ s.forward.len := by
  simp only [h.lookup_iff, h.len_eq]
  constructor
  · rintro ⟨v, hid, hv⟩
    obtain ⟨hlt, -⟩ := List.getElem?_eq_some_iff.mp hv
    exact ⟨hid, by omega⟩
  · rintro ⟨hid, hle⟩
    exact ⟨names[id - 1], hid, List.getElem?_eq_getElem _⟩

/-- Once no call is in progress every string has been returned with its id. -/
theorem Numbers.mem_iff_returned (h : s.Numbers names) (hidle : ∀ t, s.phase t = .idle) {v : Str} :
    v ∈ s.forward ↔ ∃ id, (v, id) ∈ s.returned := by
  rw [Table.mem_iff_lookup]
  constructor
  · rintro ⟨id, hid⟩
    rcases h.known v id hid with hreturned | ⟨t, ht⟩
    · exact ⟨id, hreturned⟩
    · rw [hidle t] at ht
      cases ht
  · rintro ⟨id, hid⟩
    exact ⟨id, h.returned v id hid⟩

/-- Whatever the order of the steps of the threads: two calls return the same id if and only if they
were given the same string, the ids are the numbers from one to the number of distinct strings, and
whenever no call is in progress `reverse` is the inverse of `forward`, which has the strings that
the calls returned an id for. -/
theorem ids_of_reachable (h : Reachable Step new s) :
    (∀ v i w j, (v, i) ∈ s.returned → (w, j) ∈ s.returned → (i = j ↔ v = w)) ∧
      (∀ v id, (v, id) ∈ s.returned → s.forward.lookup v = some id) ∧
      (∀ id, (∃ v, s.forward.lookup v = some id) ↔ 1 ≤ id ∧ id ≤ s.forward.len) ∧
      ((∀ t, s.phase t = .idle) →
        (∀ v id, s.forward.lookup v = some id ↔ s.reverse.lookup id = some v) ∧
          ∀ v, v ∈ s.forward ↔ ∃ id, (v, id) ∈ s.returned) := by
  obtain ⟨names, hnumbers⟩ := numbers_of_reachable h
  refine ⟨fun v i w j hv hw => ⟨?_, ?_⟩, hnumbers.returned, fun _ => hnumbers.exists_string_iff,
    fun hidle => ⟨fun v id => ?_, fun v => hnumbers.mem_iff_returned hidle⟩⟩
  · rintro rfl
    exact hnumbers.string_unique (hnumbers.returned v i hv) (hnumbers.returned w i hw)
  · rintro rfl
    have hsome := (hnumbers.returned v i hv).symm.trans (hnumbers.returned v j hw)
    exact Option.some.inj hsome
  · rw [hnumbers.reverse_iff, and_iff_left]
    intro t
    rw [hidle t]
    nofun

/-- Two threads miss the same string under the read lock, and one of them numbers it. -/
def bothMiss : List InternAction :=
  [.call 0 "a".toList, .call 1 "a".toList, .turn 0, .turn 1, .turn 1, .turn 0, .turn 0, .turn 1,
    .turn 1, .turn 1, .turn 1, .turn 1, .turn 1, .turn 1, .turn 1, .turn 0, .turn 0, .turn 0]

/-- Both calls return the one id, and the tables are inverse to each other. -/
theorem ids_of_reachable_bothMiss :
    ∃ s, Reachable Step new s ∧ s.returned = [("a".toList, 1), ("a".toList, 1)] ∧
      (∀ id, (∃ v, s.forward.lookup v = some id) ↔ 1 ≤ id ∧ id ≤ 1) ∧
      ∀ v id, s.forward.lookup v = some id ↔ s.reverse.lookup id = some v := by
  obtain ⟨s, hrun, hlen, hreturned, hidle⟩ : ∃ s, bothMiss.foldlM next new = some s ∧
      s.forward.len = 1 ∧ s.returned = [("a".toList, 1), ("a".toList, 1)] ∧
      ∀ t, s.phase t = .idle := by
    refine ⟨_, rfl, rfl, rfl, fun t => ?_⟩
    by_cases hzero : t = 0
    · rw [hzero]
      rfl
    · by_cases hone : t = 1
      · rw [hone]
        rfl
      · simp [hzero, hone, goTo, new]
  have hreach : Reachable Step new s := ⟨bothMiss, .of_foldlM (fun _ _ _ h => h) hrun⟩
  obtain ⟨-, -, hids, hinverse⟩ := ids_of_reachable hreach
  exact ⟨s, hreach, hreturned, fun id => hlen ▸ hids id, (hinverse hidle).1⟩

end Interning

end ActiveDefense.Spectral
