import ActiveDefense.Lib.Table
import Mathlib.Algebra.Ring.Nat
import Mathlib.Data.List.Basic

/-!
# Deterministic machines

A machine takes an input in a state, gives an output and moves to the next state. `Machine.run`
feeds it a list of inputs. When one machine's states embed into another's and every single step
agrees along the embedding, every run agrees: the two give the same outputs, and the state of the
one is the embedded state of the other. A machine can keep account of an amount: what it takes in is
what it gives out, holds and loses. Over a run it accounts for everything exactly where no step
loses anything.

A machine with a table in its state is pointwise if a step changes the entry of a key in a way that
depends on that entry and the input only. Then the entry of a key after a run is a fold over the
inputs, whatever the others do in between (`Pointwise.lookup_run`), and of those only the inputs
that concern the key count (`Pointwise.lookup_run_of_key`).
-/

namespace ActiveDefense

/-- One step of a machine: the output and the next state. -/
abbrev Machine (σ ι ο : Type) := σ → ι → ο × σ

namespace Machine

variable {σ τ ι ο : Type}

/-- The outputs on a list of inputs, and the state after them. -/
def run (m : Machine σ ι ο) : σ → List ι → List ο × σ
  | s, [] => ([], s)
  | s, i :: is =>
    let (o, s') := m s i
    let (os, t) := run m s' is
    (o :: os, t)

/-- `f` embeds the machine `m` into `m'`: a step of `m'` from an embedded state is the embedded
step of `m`. -/
def Embeds (f : σ → τ) (m : Machine σ ι ο) (m' : Machine τ ι ο) : Prop :=
  ∀ s i, m' (f s) i = ((m s i).1, f (m s i).2)

/-- Machines that agree step by step agree on every run. -/
theorem Embeds.run {f : σ → τ} {m : Machine σ ι ο} {m' : Machine τ ι ο} (h : Embeds f m m')
    (s : σ) (is : List ι) : m'.run (f s) is = ((m.run s is).1, f (m.run s is).2) := by
  induction is generalizing s with
  | nil => rfl
  | cons i is ih => simp only [Machine.run, h s i, ih]

theorem run_append {m : Machine σ ι ο} {s : σ} {is js : List ι} : m.run s (is ++ js) =
    ((m.run s is).1 ++ (m.run (m.run s is).2 js).1, (m.run (m.run s is).2 js).2) := by
  induction is generalizing s with
  | nil => rfl
  | cons i is ih => simp only [List.cons_append, run, ih]

/-- The state after one more input. -/
theorem run_append_singleton {m : Machine σ ι ο} {s : σ} {is : List ι} {i : ι} :
    (m.run s (is ++ [i])).2 = (m (m.run s is).2 i).2 := by
  rw [run_append]
  rfl

/-- One output for each input. -/
theorem length_run {m : Machine σ ι ο} {s : σ} {is : List ι} :
    (m.run s is).1.length = is.length := by
  induction is generalizing s with
  | nil => rfl
  | cons i is ih => exact congrArg (· + 1) ih

/-- What holds at the start and is kept by the inputs holds after them. -/
theorem run_invariant {m : Machine σ ι ο} {I : σ → Prop} {s : σ} {is : List ι} (hs : I s)
    (hstep : ∀ i ∈ is, ∀ s, I s → I (m s i).2) : I (m.run s is).2 := by
  induction is generalizing s with
  | nil => exact hs
  | cons i is ih =>
    exact ih (hstep i (.head _) s hs) fun j hj => hstep j (List.mem_cons_of_mem _ hj)

/-- The state before the `n`-th input. -/
def stateAt (m : Machine σ ι ο) (s : σ) (is : List ι) (n : Nat) : σ := (m.run s (is.take n)).2

theorem stateAt_zero {m : Machine σ ι ο} {s : σ} {is : List ι} : m.stateAt s is 0 = s := by
  rw [stateAt, List.take_zero]
  rfl

theorem stateAt_succ {m : Machine σ ι ο} {s : σ} {is : List ι} {n : Nat} {i : ι}
    (h : is[n]? = some i) : m.stateAt s is (n + 1) = (m (m.stateAt s is n) i).2 := by
  rw [stateAt, List.take_add_one, h, Option.toList_some, run_append_singleton, stateAt]

theorem stateAt_succ_of_none {m : Machine σ ι ο} {s : σ} {is : List ι} {n : Nat}
    (h : is[n]? = none) : m.stateAt s is (n + 1) = m.stateAt s is n := by
  rw [stateAt, List.take_add_one, h, Option.toList_none, List.append_nil, stateAt]

/-- Every step of the run is taken in a state and with an input that `P` holds of. -/
def Each (m : Machine σ ι ο) (P : σ → ι → Prop) : σ → List ι → Prop
  | _, [] => True
  | s, i :: is => P s i ∧ m.Each P (m s i).2 is

/-- What the steps of a run lose together. -/
def totalLoss (m : Machine σ ι ο) (loss : σ → ι → Nat) : σ → List ι → Nat
  | _, [] => 0
  | s, i :: is => loss s i + m.totalLoss loss (m s i).2 is

theorem totalLoss_eq_zero_iff {m : Machine σ ι ο} {loss : σ → ι → Nat} {s : σ} {is : List ι} :
    m.totalLoss loss s is = 0 ↔ m.Each (fun s i => loss s i = 0) s is := by
  induction is generalizing s with
  | nil => exact iff_of_true rfl trivial
  | cons i is ih =>
    rw [totalLoss, Nat.add_eq_zero_iff, ih]
    rfl

theorem Each.congr {m : Machine σ ι ο} {P Q : σ → ι → Prop} (h : ∀ s i, P s i ↔ Q s i) {s : σ}
    {is : List ι} : m.Each P s is ↔ m.Each Q s is := by
  induction is generalizing s with
  | nil => exact Iff.rfl
  | cons i is ih => exact and_congr (h s i) ih

/-- A condition on the inputs alone. -/
theorem each_iff_forall {m : Machine σ ι ο} {P : ι → Prop} {s : σ} {is : List ι} :
    m.Each (fun _ i => P i) s is ↔ ∀ i ∈ is, P i := by
  induction is generalizing s with
  | nil => exact iff_of_true trivial nofun
  | cons i is ih => rw [Each, ih, List.forall_mem_cons]

/-- What holds at the start and is kept by exactly the steps that meet a condition holds after every
step of exactly the runs whose steps all meet it. -/
theorem each_after_iff {m : Machine σ ι ο} {I : σ → Prop} {P : σ → ι → Prop}
    (hstep : ∀ s i, I s → (I (m s i).2 ↔ P s i)) {s : σ} (hs : I s) {is : List ι} :
    m.Each (fun s i => I (m s i).2) s is ↔ m.Each P s is := by
  induction is generalizing s with
  | nil => exact Iff.rfl
  | cons i is ih =>
    constructor
    · rintro ⟨hfirst, hrest⟩
      exact ⟨(hstep s i hs).mp hfirst, (ih hfirst).mp hrest⟩
    · rintro ⟨hfirst, hrest⟩
      have hnext := (hstep s i hs).mpr hfirst
      exact ⟨hnext, (ih hnext).mpr hrest⟩

/-- A step takes in as much as it gives out, adds to what is held and loses. -/
def Accounts (m : Machine σ ι ο) (held : σ → Nat) (taken given : ο → Nat) (loss : σ → ι → Nat) :
    Prop :=
  ∀ s i, given (m s i).1 + held (m s i).2 + loss s i = held s + taken (m s i).1

variable {m : Machine σ ι ο} {held : σ → Nat} {taken given : ο → Nat} {loss : σ → ι → Nat}

/-- So does a run. -/
theorem Accounts.run (h : m.Accounts held taken given loss) (s : σ) (is : List ι) :
    ((m.run s is).1.map given).sum + held (m.run s is).2 + m.totalLoss loss s is =
      held s + ((m.run s is).1.map taken).sum := by
  induction is generalizing s with
  | nil => simp [Machine.run, totalLoss]
  | cons i is ih =>
    have hstep := h s i
    have hrest := ih (m s i).2
    simp only [Machine.run, totalLoss, List.map_cons, List.sum_cons]
    omega

/-- A machine that held nothing accounts for all that it took in exactly where it loses nothing. -/
theorem Accounts.balanced_iff (h : m.Accounts held taken given loss) {s : σ} (hs : held s = 0)
    (is : List ι) :
    ((m.run s is).1.map given).sum + held (m.run s is).2 = ((m.run s is).1.map taken).sum ↔
      m.Each (fun s i => loss s i = 0) s is := by
  have hrun := h.run s is
  rw [← totalLoss_eq_zero_iff]
  omega

end Machine

/-! ## An entry for each key -/

namespace Machine

variable {δ ι ο κ υ : Type} [DecidableEq κ] {m : Machine δ ι ο} {I : δ → Prop}
  {table : δ → Table κ υ} {step : κ → Option υ → ι → Option υ} {d : δ} {is : List ι} {k : κ}

/-- In the states of an invariant, a step of the machine is a step of each entry. -/
structure Pointwise (m : Machine δ ι ο) (I : δ → Prop) (table : δ → Table κ υ)
    (step : κ → Option υ → ι → Option υ) : Prop where
  keeps : ∀ d i, I d → I (m d i).2
  lookup : ∀ d i k, I d → (table (m d i).2).lookup k = step k ((table d).lookup k) i

namespace Pointwise

/-- The invariant holds after a run. -/
theorem run (h : m.Pointwise I table step) (hd : I d) : I (m.run d is).2 :=
  run_invariant hd fun i _ d => h.keeps d i

/-- The entry of a key after a run. -/
theorem lookup_run (h : m.Pointwise I table step) (hd : I d) :
    (table (m.run d is).2).lookup k = is.foldl (step k) ((table d).lookup k) := by
  induction is generalizing d with
  | nil => rfl
  | cons i is ih => rw [List.foldl_cons, ← h.lookup d i k hd, ← ih (h.keeps d i hd)]; rfl

/-- Where each input concerns one key at most, the entry of a key is a fold over the inputs that
concern it. -/
theorem lookup_run_of_key (h : m.Pointwise I table step) {key : ι → Option κ}
    (hother : ∀ k v i, key i ≠ some k → step k v i = v) (hd : I d) :
    (table (m.run d is).2).lookup k =
      (is.filter fun i => decide (key i = some k)).foldl (step k) ((table d).lookup k) := by
  rw [h.lookup_run hd, List.foldl_filter]
  congr 1
  funext v i
  split
  · rfl
  · next hkey => exact hother k v i (by simpa using hkey)

end Pointwise

/-- A machine that puts an entry for the key of its input into the table, and leaves the table where
the input has no key. -/
structure Keyed (m : Machine δ ι ο) (I : δ → Prop) (table : δ → Table κ υ) (key : ι → Option κ)
    (next : Option υ → ι → υ) : Prop where
  keeps : ∀ d i, I d → I (m d i).2
  other : ∀ d i, I d → key i = none → table (m d i).2 = table d
  own : ∀ d i k, I d → key i = some k →
    table (m d i).2 = AList.insert k (next ((table d).lookup k) i) (table d)

namespace Keyed

variable {key : ι → Option κ} {next : Option υ → ι → υ}

/-- It is pointwise. -/
theorem pointwise (h : m.Keyed I table key next) : m.Pointwise I table
    fun k v i => if key i = some k then some (next v i) else v where
  keeps := h.keeps
  lookup d i k hd := by
    cases hkey : key i with
    | none => rw [h.other d i hd hkey, if_neg nofun]
    | some k' =>
      rw [h.own d i k' hd hkey]
      by_cases hk : k = k'
      · rw [hk, AList.lookup_insert, if_pos rfl]
      · rw [AList.lookup_insert_ne hk, if_neg fun heq => hk (Option.some.inj heq).symm]

/-- The entry of a key after a run comes from the inputs that have the key. -/
theorem lookup_run (h : m.Keyed I table key next) (hd : I d) :
    (table (m.run d is).2).lookup k = (is.filter fun i => decide (key i = some k)).foldl
      (fun v i => some (next v i)) ((table d).lookup k) := by
  rw [h.pointwise.lookup_run_of_key (fun k v i (hne : key i ≠ some k) => if_neg hne) hd]
  refine List.foldl_ext _ _ _ fun v i hi => ?_
  exact if_pos (by simpa using (List.mem_filter.mp hi).2)

end Keyed

end Machine

end ActiveDefense
