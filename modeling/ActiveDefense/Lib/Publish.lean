import Mathlib.Data.Fintype.Defs
import Mathlib.Logic.Function.Basic
import Mathlib.Tactic.Simps.Basic
import ActiveDefense.Lib.Run

/-!
# Publishing a shared value through a temporary file

Each of any number of threads updates a shared live value, takes a snapshot of it, writes the
snapshot to a temporary file that all threads share, and renames that file over the published one.
Nothing but the update itself is protected, so the steps of different threads interleave freely.

`file_agrees` is the condition under which the published file shows the live value whenever no
thread is at work: a rename may not publish a snapshot older than one published before, unless
another thread has yet to publish one that is at least as new. The versions and `newest` are
bookkeeping for that condition; no step reads them.
-/

namespace ActiveDefense.Publish

variable {Tid S C Op : Type}

/-- A rendered snapshot and the number of updates it shows. -/
structure Snapshot (C : Type) where
  content : C
  version : Nat
deriving DecidableEq, Repr

/-- Where a thread is between an update and its publication. -/
inductive Phase (C : Type) where
  | idle
  | updated
  | snapped (c : Snapshot C)
  | written (c : Snapshot C)
deriving DecidableEq, Repr

structure State (Tid S C : Type) where
  live : S
  version : Nat
  file : Snapshot C
  newest : Nat
  temp : Option (Snapshot C)
  failed : Bool
  phase : Tid → Phase C

inductive Label (Tid Op : Type) where
  | update (i : Tid) (op : Op)
  | snapshot (i : Tid)
  | write (i : Tid)
  | rename (i : Tid)

/-- The start: no thread at work, and a file that counts as up to date. -/
def State.init (live : S) (file : C) (temp : Option (Snapshot C)) : State Tid S C where
  live := live
  version := 0
  file := ⟨file, 0⟩
  newest := 0
  temp := temp
  failed := false
  phase := fun _ => .idle

/-- No operation is in progress. -/
def Quiescent (s : State Tid S C) : Prop := ∀ i, s.phase i = .idle

/-- Thread `j` has yet to publish a snapshot that shows at least `v` updates. -/
def Promises (s : State Tid S C) (j : Tid) (v : Nat) : Prop :=
  s.phase j = .updated ∨ ∃ c, (s.phase j = .snapped c ∨ s.phase j = .written c) ∧ v ≤ c.version

section
variable [DecidableEq Tid]

/-- The state with thread `i` in phase `p`. -/
@[simps live version file newest temp failed]
def State.setPhase (s : State Tid S C) (i : Tid) (p : Phase C) : State Tid S C :=
  { s with phase := Function.update s.phase i p }

@[simp]
theorem setPhase_self (s : State Tid S C) (i : Tid) (p : Phase C) :
    (s.setPhase i p).phase i = p := by
  simp [State.setPhase]

@[simp]
theorem setPhase_of_ne (s : State Tid S C) {i j : Tid} (p : Phase C) (h : j ≠ i) :
    (s.setPhase i p).phase j = s.phase j := by
  simp [State.setPhase, h]

/-- One atomic step of one thread. An update that fails ends its operation; so do a failed write,
which leaves anything in the temporary file, and a failed rename. A rename needs the file to be
there. -/
inductive Step (apply : Op → S → Option S) (render : S → C) :
    State Tid S C → Label Tid Op → State Tid S C → Prop
  | update {s : State Tid S C} {i : Tid} {op : Op} {live : S} :
      s.phase i = .idle → apply op s.live = some live →
      Step apply render s (.update i op)
        ({ s with live := live, version := s.version + 1 }.setPhase i .updated)
  | reject {s : State Tid S C} {i : Tid} {op : Op} :
      s.phase i = .idle → apply op s.live = none → Step apply render s (.update i op) s
  | snapshot {s : State Tid S C} {i : Tid} : s.phase i = .updated →
      Step apply render s (.snapshot i)
        (s.setPhase i (.snapped ⟨render s.live, s.version⟩))
  | write {s : State Tid S C} {i : Tid} {c : Snapshot C} : s.phase i = .snapped c →
      Step apply render s (.write i) ({ s with temp := some c }.setPhase i (.written c))
  | writeFails {s : State Tid S C} {i : Tid} {c : Snapshot C} (temp : Option (Snapshot C)) :
      s.phase i = .snapped c →
      Step apply render s (.write i) ({ s with temp := temp, failed := true }.setPhase i .idle)
  | rename {s : State Tid S C} {i : Tid} {c t : Snapshot C} :
      s.phase i = .written c → s.temp = some t →
      Step apply render s (.rename i)
        ({ s with file := t, newest := max s.newest t.version, temp := none }.setPhase i .idle)
  | renameFails {s : State Tid S C} {i : Tid} {c : Snapshot C} : s.phase i = .written c →
      Step apply render s (.rename i) ({ s with failed := true }.setPhase i .idle)

end

/-- The step a label names, when nothing fails. -/
def State.next [DecidableEq Tid] (apply : Op → S → Option S) (render : S → C)
    (s : State Tid S C) : Label Tid Op → Option (State Tid S C)
  | .update i op =>
    match s.phase i, apply op s.live with
    | .idle, some live =>
      some ({ s with live := live, version := s.version + 1 }.setPhase i .updated)
    | _, _ => none
  | .snapshot i =>
    match s.phase i with
    | .updated => some (s.setPhase i (.snapped ⟨render s.live, s.version⟩))
    | _ => none
  | .write i =>
    match s.phase i with
    | .snapped c => some ({ s with temp := some c }.setPhase i (.written c))
    | _ => none
  | .rename i =>
    match s.phase i, s.temp with
    | .written _, some t =>
      some ({ s with file := t, newest := max s.newest t.version, temp := none }.setPhase i .idle)
    | _, _ => none

theorem step_of_next [DecidableEq Tid] {apply : Op → S → Option S} {render : S → C}
    (s : State Tid S C) (l : Label Tid Op) (t : State Tid S C)
    (h : s.next apply render l = some t) : Step apply render s l t := by
  cases l with
  | update i op =>
    simp only [State.next] at h
    split at h
    · rename_i hi hop
      cases h
      exact .update hi hop
    · cases h
  | snapshot i =>
    simp only [State.next] at h
    split at h
    · rename_i hi
      cases h
      exact .snapshot hi
    · cases h
  | write i =>
    simp only [State.next] at h
    split at h
    · rename_i hi
      cases h
      exact .write hi
    · cases h
  | rename i =>
    simp only [State.next] at h
    split at h
    · rename_i hi ht
      cases h
      exact .rename hi ht
    · cases h

/-- A rename does not publish a snapshot older than one published before, unless another thread has
yet to publish one that is at least as new. -/
def Meets (s : State Tid S C) (l : Label Tid Op) : Prop :=
  ∀ i t, l = .rename i → s.temp = some t →
    s.newest ≤ t.version ∨ ∃ j, j ≠ i ∧ Promises s j s.newest

/-! ### Deciding it -/

/-- The phase of a thread that has yet to publish a snapshot that shows at least `v` updates. -/
def Phase.promises (v : Nat) : Phase C → Bool
  | .idle => false
  | .updated => true
  | .snapped c | .written c => decide (v ≤ c.version)

theorem promises_iff {s : State Tid S C} {j : Tid} {v : Nat} :
    (s.phase j).promises v = true ↔ Promises s j v := by
  unfold Promises Phase.promises
  cases s.phase j <;> simp

instance (s : State Tid S C) (j : Tid) (v : Nat) : Decidable (Promises s j v) :=
  decidable_of_iff _ promises_iff

/-- The condition on the rename that a label may name. -/
def Label.MeetsAt (s : State Tid S C) : Label Tid Op → Prop
  | .rename i => ∀ t ∈ s.temp, s.newest ≤ t.version ∨ ∃ j, j ≠ i ∧ Promises s j s.newest
  | _ => True

instance [Fintype Tid] [DecidableEq Tid] (s : State Tid S C) (l : Label Tid Op) :
    Decidable (l.MeetsAt s) :=
  match l with
  | .rename i => inferInstanceAs (Decidable (∀ t ∈ s.temp,
      s.newest ≤ t.version ∨ ∃ j, j ≠ i ∧ Promises s j s.newest))
  | .update _ _ | .snapshot _ | .write _ => .isTrue trivial

theorem meetsAt_iff {s : State Tid S C} {l : Label Tid Op} : l.MeetsAt s ↔ Meets s l := by
  cases l with
  | rename i =>
    constructor
    · rintro h j t hj ht
      cases hj
      exact h t ht
    · exact fun h t ht => h i t rfl ht
  | update | snapshot | write => exact iff_of_true trivial fun i t hi => by cases hi

instance [Fintype Tid] [DecidableEq Tid] (s : State Tid S C) (l : Label Tid Op) :
    Decidable (Meets s l) :=
  decidable_of_iff _ meetsAt_iff

/-! ## The invariant -/

/-- Some write or rename has failed, or one of two threads that share the temporary file will: a
thread that has written it finds it gone, or two threads have written it. -/
def Doomed (s : State Tid S C) : Prop :=
  s.failed = true ∨ ∃ i c, s.phase i = .written c ∧
    (s.temp = none ∨ ∃ j d, j ≠ i ∧ s.phase j = .written d)

/-- A snapshot is no newer than the live value, and agrees with it if it shows every update. -/
def Faithful (Agrees : C → S → Prop) (s : State Tid S C) (c : Snapshot C) : Prop :=
  c.version ≤ s.version ∧ (c.version = s.version → Agrees c.content s.live)

/-- What holds of a state that is not doomed: the file and the threads hold faithful snapshots, the
temporary file is that of the thread that has written it, and the newest version and the newest
published version are in place or promised. -/
structure Sound (Agrees : C → S → Prop) (s : State Tid S C) : Prop where
  file : Faithful Agrees s s.file
  snapped : ∀ i c, s.phase i = .snapped c → Faithful Agrees s c
  written : ∀ i c, s.phase i = .written c → Faithful Agrees s c ∧ s.temp = some c
  newest_le : s.newest ≤ s.version
  latest : s.newest = s.version ∨ ∃ j, Promises s j s.version
  current : s.file.version = s.newest ∨ ∃ j, Promises s j s.newest

section
variable {Agrees : C → S → Prop}

theorem sound_init {live : S} {file : C} (h : Agrees file live) (temp : Option (Snapshot C)) :
    Sound Agrees (State.init live file temp : State Tid S C) where
  file := ⟨Nat.le_refl 0, fun _ => h⟩
  snapped := by simp [State.init]
  written := by simp [State.init]
  newest_le := Nat.le_refl 0
  latest := .inl rfl
  current := .inl rfl

/-- An update outdates every snapshot. -/
theorem Faithful.outdated {s t : State Tid S C} {c : Snapshot C} (h : Faithful Agrees s c)
    (hv : t.version = s.version + 1) : Faithful Agrees t c := by
  obtain ⟨hle, -⟩ := h
  refine ⟨by omega, fun heq => ?_⟩
  omega

/-- Threads in different phases are different. -/
theorem ne_of_phase {s : State Tid S C} {i j : Tid} {p q : Phase C} (hi : s.phase i = p)
    (hj : s.phase j = q) (h : p ≠ q) : i ≠ j := by
  rintro rfl
  exact h (hi.symm.trans hj)

/-- A thread at rest promises nothing. -/
theorem not_promises_of_idle {s : State Tid S C} {i : Tid} (h : s.phase i = .idle) (v : Nat) :
    ¬ Promises s i v := by
  rintro (hi | ⟨c, hi | hi, -⟩) <;> simp [h] at hi

/-- When no thread is at work, the file of a sound state agrees with the live value. -/
theorem Sound.agrees {s : State Tid S C} (h : Sound Agrees s) (hq : Quiescent s) :
    Agrees s.file.content s.live := by
  have hnone : ∀ v, ¬ ∃ j, Promises s j v := fun v ⟨j, hj⟩ => not_promises_of_idle (hq j) v hj
  have hcur := h.current.resolve_right (hnone _)
  have hlat := h.latest.resolve_right (hnone _)
  exact h.file.2 (hcur.trans hlat)

variable [DecidableEq Tid]

/-- A promise of another thread does not depend on this one's phase. -/
theorem promises_setPhase_of_ne {s : State Tid S C} {i j : Tid} {p : Phase C} {v : Nat}
    (h : j ≠ i) : Promises (s.setPhase i p) j v ↔ Promises s j v := by
  simp [Promises, h]

variable {apply : Op → S → Option S} {render : S → C} {s t : State Tid S C} {l : Label Tid Op}

/-- Two threads that share the temporary file stay a problem while a third one, which has not
written it, moves and leaves the file alone. -/
theorem doomed_setPhase {s' : State Tid S C} {k : Tid} {p q : Phase C}
    (hphase : s'.phase = s.phase) (htemp : s'.temp = s.temp) (hk : s.phase k = q)
    (hq : ∀ c, q ≠ .written c)
    (h : ∃ i c, s.phase i = .written c ∧
      (s.temp = none ∨ ∃ j d, j ≠ i ∧ s.phase j = .written d)) :
    Doomed (s'.setPhase k p) := by
  obtain ⟨i, c, hi, hbad⟩ := h
  have hki := ne_of_phase hi hk (hq c).symm
  refine .inr ⟨i, c, by simp [hki, hphase, hi], hbad.imp (fun h => htemp.trans h) ?_⟩
  rintro ⟨j, d, hji, hj⟩
  have hkj := ne_of_phase hj hk (hq d).symm
  exact ⟨j, d, hji, by simp [hkj, hphase, hj]⟩

/-- A doomed state stays doomed. -/
theorem Doomed.step (hs : Doomed s) (h : Step apply render s l t) : Doomed t := by
  rcases hs with hfail | hbad
  · left
    cases h <;> simp [hfail]
  · cases h with
    | update hk => exact doomed_setPhase rfl rfl hk (by simp) hbad
    | reject => exact .inr hbad
    | snapshot hk => exact doomed_setPhase rfl rfl hk (by simp) hbad
    | @write k e hk =>
      obtain ⟨i, c, hi, -⟩ := hbad
      have hki := ne_of_phase hi hk (by simp)
      exact .inr ⟨i, c, by simp [hki, hi], .inr ⟨k, e, hki.symm, by simp⟩⟩
    | writeFails => exact .inl rfl
    | @rename k d e hk htemp =>
      obtain ⟨i, c, hi, hnone | ⟨j, d', hji, hj⟩⟩ := hbad
      · simp [hnone] at htemp
      · -- the temporary file is gone, and one of the two threads is left
        by_cases hki : i = k
        · subst hki
          exact .inr ⟨j, d', by simp [hji, hj], .inl rfl⟩
        · exact .inr ⟨i, c, by simp [hki, hi], .inl rfl⟩
    | renameFails => exact .inl rfl

/-- A promise is kept when the thread that made it moves on with it. -/
theorem exists_promises_of_moved {s' : State Tid S C} {i : Tid} {p : Phase C} {v : Nat}
    (hphase : s'.phase = s.phase) (hp : Promises s i v → Promises (s'.setPhase i p) i v)
    (h : ∃ j, Promises s j v) : ∃ j, Promises (s'.setPhase i p) j v := by
  obtain ⟨j, hj⟩ := h
  by_cases hji : j = i
  · subst hji
    exact ⟨j, hp hj⟩
  · refine ⟨j, (promises_setPhase_of_ne hji).mpr ?_⟩
    simpa [Promises, hphase] using hj

/-- What a thread's phase is after one thread moved. -/
theorem setPhase_eq {i j : Tid} {p q : Phase C} (h : (s.setPhase i p).phase j = q) :
    (j = i ∧ p = q) ∨ (j ≠ i ∧ s.phase j = q) := by
  by_cases hji : j = i
  · subst hji
    exact .inl ⟨rfl, by simpa using h⟩
  · exact .inr ⟨hji, by simpa [hji] using h⟩

/-- Writing the snapshot keeps its promise. -/
theorem promises_written {i : Tid} {c : Snapshot C} {temp : Option (Snapshot C)} {v : Nat}
    (hi : s.phase i = .snapped c) (h : Promises s i v) :
    Promises ({ s with temp := temp }.setPhase i (.written c)) i v := by
  obtain h | ⟨d, h | h, hle⟩ := h
  · simp [hi] at h
  · rw [hi] at h
    cases h
    exact .inr ⟨c, .inr (by simp), hle⟩
  · simp [hi] at h

theorem Sound.update (hs : Sound Agrees s) {i : Tid} {live : S} :
    Sound Agrees ({ s with live := live, version := s.version + 1 }.setPhase i .updated) where
  file := hs.file.outdated rfl
  snapped j c hj := by
    obtain ⟨-, h⟩ | ⟨-, h⟩ := setPhase_eq hj
    · cases h
    · exact (hs.snapped j c h).outdated rfl
  written j c hj := by
    obtain ⟨-, h⟩ | ⟨-, h⟩ := setPhase_eq hj
    · cases h
    · exact ⟨(hs.written j c h).1.outdated rfl, (hs.written j c h).2⟩
  newest_le := Nat.le_succ_of_le hs.newest_le
  latest := .inr ⟨i, .inl (by simp)⟩
  current := hs.current.imp_right <|
    exists_promises_of_moved rfl fun _ => .inl (by simp)

theorem Sound.snapshot (hrender : ∀ m, Agrees (render m) m) (hs : Sound Agrees s) {i : Tid} :
    Sound Agrees (s.setPhase i (.snapped ⟨render s.live, s.version⟩)) where
  file := hs.file
  snapped j c hj := by
    obtain ⟨-, h⟩ | ⟨-, h⟩ := setPhase_eq hj
    · cases h
      exact ⟨Nat.le_refl _, fun _ => hrender s.live⟩
    · exact hs.snapped j c h
  written j c hj := by
    obtain ⟨-, h⟩ | ⟨-, h⟩ := setPhase_eq hj
    · cases h
    · exact hs.written j c h
  newest_le := hs.newest_le
  latest := hs.latest.imp_right <|
    exists_promises_of_moved rfl fun _ =>
      .inr ⟨⟨render s.live, s.version⟩, .inl (by simp), Nat.le_refl _⟩
  current := hs.current.imp_right <|
    exists_promises_of_moved rfl fun _ =>
      .inr ⟨⟨render s.live, s.version⟩, .inl (by simp), hs.newest_le⟩

/-- A thread that writes while no other has, keeps the state sound. -/
theorem Sound.write (hs : Sound Agrees s) {i : Tid} {c : Snapshot C} (hi : s.phase i = .snapped c)
    (halone : ∀ j d, j ≠ i → s.phase j ≠ .written d) :
    Sound Agrees ({ s with temp := some c }.setPhase i (.written c)) where
  file := hs.file
  snapped j d hj := by
    obtain ⟨-, h⟩ | ⟨-, h⟩ := setPhase_eq hj
    · cases h
    · exact hs.snapped j d h
  written j d hj := by
    obtain ⟨-, h⟩ | ⟨hne, h⟩ := setPhase_eq hj
    · cases h
      exact ⟨hs.snapped i c hi, rfl⟩
    · exact absurd h (halone j d hne)
  newest_le := hs.newest_le
  latest := hs.latest.imp_right <| exists_promises_of_moved rfl (promises_written hi)
  current := hs.current.imp_right <| exists_promises_of_moved rfl (promises_written hi)

/-- A rename that meets the condition, by the one thread that has written, keeps the state
sound. -/
theorem Sound.rename (hs : Sound Agrees s) {i : Tid} {c : Snapshot C} (hi : s.phase i = .written c)
    (halone : ∀ j d, j ≠ i → s.phase j ≠ .written d)
    (hmeets : s.newest ≤ c.version ∨ ∃ j, j ≠ i ∧ Promises s j s.newest) :
    Sound Agrees
      ({ s with file := c, newest := max s.newest c.version, temp := none }.setPhase i .idle) where
  file := (hs.written i c hi).1
  snapped j d hj := by
    obtain ⟨-, h⟩ | ⟨-, h⟩ := setPhase_eq hj
    · cases h
    · exact hs.snapped j d h
  written j d hj := by
    obtain ⟨-, h⟩ | ⟨hne, h⟩ := setPhase_eq hj
    · cases h
    · exact absurd h (halone j d hne)
  newest_le := Nat.max_le.mpr ⟨hs.newest_le, (hs.written i c hi).1.1⟩
  latest := by
    have hc := (hs.written i c hi).1.1
    have hn := hs.newest_le
    simp only [State.setPhase_newest, State.setPhase_version]
    obtain h | ⟨j, hj⟩ := hs.latest
    · left
      omega
    · by_cases hji : j = i
      · -- the newest version was this thread's to publish
        subst hji
        obtain h | ⟨d, h | h, hle⟩ := hj
        · simp [hi] at h
        · simp [hi] at h
        · rw [hi] at h
          cases h
          left
          omega
      · exact .inr ⟨j, (promises_setPhase_of_ne hji).mpr hj⟩
  current := by
    simp only [State.setPhase_newest, State.setPhase_file]
    by_cases hle : s.newest ≤ c.version
    · left
      omega
    · obtain ⟨j, hji, hj⟩ := hmeets.resolve_left hle
      refine .inr ⟨j, (promises_setPhase_of_ne hji).mpr ?_⟩
      rw [Nat.max_eq_left (by omega)]
      exact hj

/-- One step keeps a state that is doomed or sound so, if its rename meets the condition. -/
theorem doomed_or_sound_step (hrender : ∀ m, Agrees (render m) m)
    (hs : Doomed s ∨ Sound Agrees s) (hmeets : Meets s l) (h : Step apply render s l t) :
    Doomed t ∨ Sound Agrees t := by
  obtain hd | hs := hs
  · exact .inl (hd.step h)
  · cases h with
    | update => exact .inr hs.update
    | reject => exact .inr hs
    | snapshot => exact .inr (hs.snapshot hrender)
    | writeFails => exact .inl (.inl rfl)
    | renameFails => exact .inl (.inl rfl)
    | @write i c hi =>
      by_cases hother : ∃ j d, j ≠ i ∧ s.phase j = .written d
      · obtain ⟨j, d, hji, hj⟩ := hother
        exact .inl (.inr ⟨i, c, by simp, .inr ⟨j, d, hji, by simp [hji, hj]⟩⟩)
      · exact .inr (hs.write hi fun j d hji hj => hother ⟨j, d, hji, hj⟩)
    | @rename i c t hi htemp =>
      by_cases hother : ∃ j d, j ≠ i ∧ s.phase j = .written d
      · obtain ⟨j, d, hji, hj⟩ := hother
        exact .inl (.inr ⟨j, d, by simp [hji, hj], .inl rfl⟩)
      · have htc : t = c := Option.some.inj (htemp.symm.trans (hs.written i c hi).2)
        subst htc
        exact .inr (hs.rename hi (fun j d hji hj => hother ⟨j, d, hji, hj⟩) (hmeets i t rfl htemp))

/-- In a run whose renames meet the condition, whenever no thread is at work and every write and
rename has succeeded, the published file agrees with the live value. -/
theorem file_agrees (hrender : ∀ m, Agrees (render m) m) {live : S} {file : C}
    (hfile : Agrees file live) (temp : Option (Snapshot C)) {ls : List (Label Tid Op)}
    (h : Run (Step apply render) Meets (State.init live file temp) ls s) (hq : Quiescent s)
    (hok : s.failed = false) : Agrees s.file.content s.live := by
  have hinv : Doomed s ∨ Sound Agrees s :=
    h.invariant (I := fun s => Doomed s ∨ Sound Agrees s) (.inr (sound_init hfile temp))
      fun _ _ _ hs hmeets hst => doomed_or_sound_step hrender hs hmeets hst
  obtain (hfail | ⟨i, c, hi, -⟩) | hs := hinv
  · simp [hok] at hfail
  · simp [hq i] at hi
  · exact hs.agrees hq

/-- The state after thread `i` has run an operation alone. -/
def State.publishAlone (render : S → C) (s : State Tid S C) (i : Tid) (live : S) :
    State Tid S C where
  live := live
  version := s.version + 1
  file := ⟨render live, s.version + 1⟩
  newest := max s.newest (s.version + 1)
  temp := none
  failed := s.failed
  phase := Function.update s.phase i .idle

theorem quiescent_publishAlone (hs : Quiescent s) (i : Tid) (live : S) :
    Quiescent (s.publishAlone render i live) := by
  intro j
  by_cases hj : j = i
  · simp [State.publishAlone, hj]
  · simp [State.publishAlone, hj, hs j]

/-- A thread that runs its operation with no step of another in between publishes what it did. -/
theorem run_alone {ok : State Tid S C → Label Tid Op → Prop} {i : Tid} {op : Op} {live : S}
    (hi : s.phase i = .idle) (hop : apply op s.live = some live)
    (hok : ∀ s' l, Meets s' l → ok s' l) (hnewest : s.newest ≤ s.version + 1) :
    Run (Step apply render) ok s [.update i op, .snapshot i, .write i, .rename i]
      (s.publishAlone render i live) := by
  have htrivial : ∀ {s' : State Tid S C} {l : Label Tid Op}, (∀ j, l ≠ .rename j) → ok s' l :=
    fun hl => hok _ _ fun j t h => absurd h (hl j)
  have hfirst : Step apply render s (.update i op) _ := .update hi hop
  have hupdate := Run.nil.snoc (htrivial (by simp)) hfirst
  have hsnapshot := hupdate.snoc (htrivial (by simp)) (Step.snapshot (setPhase_self _ _ _))
  have hwrite := hsnapshot.snoc (htrivial (by simp)) (Step.write (setPhase_self _ _ _))
  have hrename := fun hmeets =>
    hwrite.snoc (hok _ _ hmeets) (Step.rename (setPhase_self _ _ _) rfl)
  have hmeets := hrename fun j t _ ht => by
    cases ht
    exact .inl hnewest
  simpa [State.publishAlone, State.setPhase] using hmeets

end

end ActiveDefense.Publish
