import ActiveDefense.Lib.Run
import ActiveDefense.Lib.Table
import ActiveDefense.Rust.Float
import ActiveDefense.Rust.Net
import ActiveDefense.Rust.Time

/-!
# Admission of connections per peer

An attempt checks the peer's token bucket under the lock of the map, asks the peer's semaphore for a
permit without it, and takes the token under the lock again. A step is one of these three, of any
attempt, or a connection that closes. A peer whose entry was not used for ten minutes is forgotten
at the next check, of whatever peer. A semaphore is a number, and its permits are those that nobody
holds.
-/

namespace ActiveDefense.Clam

inductive PeerKey where
  | uid (uid : UInt32)
  | ip (ip : IpAddr)
  | unknown
deriving DecidableEq

structure TokenBucket (φ : Type) where
  tokens : φ
  lastRefill : Instant

structure PeerState (φ : Type) where
  bucket : TokenBucket φ
  concurrency : Nat
  lastSeen : Instant

structure PeerLimits (φ : Type) where
  ratePerSec : φ
  burst : φ
  maxConcurrent : Nat
  state : Table PeerKey (PeerState φ)

/-- `IDLE_EVICT_AFTER`. -/
def idleEvictAfter : Duration := Duration.fromSecs 600

namespace PeerLimits

/-- `PeerLimits::new`. -/
def new {φ : Type} (ratePerSec burst : φ) (maxConcurrent : Nat) : PeerLimits φ :=
  ⟨ratePerSec, burst, maxConcurrent, ∅⟩

variable {φ : Type} [FloatArith φ]

/-- The entry is kept by the `retain` of a check. -/
def fresh (now : Instant) (entry : PeerState φ) : Bool :=
  decide (now.durationSince entry.lastSeen < idleEvictAfter)

/-- The entries after the `retain` of a check. -/
def kept (l : PeerLimits φ) (now : Instant) : Table PeerKey (PeerState φ) :=
  l.state.retain fun _ entry => fresh now entry

/-- The entry that a check finds or inserts, where a new one gets the given semaphore. -/
def entryAt (l : PeerLimits φ) (peer : PeerKey) (now : Instant) (semaphore : Nat) : PeerState φ :=
  ((l.kept now).lookup peer).getD ⟨⟨l.burst, now⟩, semaphore, now⟩

/-- The tokens of an entry after the refill of a check. -/
def refilled (l : PeerLimits φ) (entry : PeerState φ) (now : Instant) : φ :=
  let elapsed := (now.durationSince entry.bucket.lastRefill).asSecsF64
  minF64 (entry.bucket.tokens + elapsed * l.ratePerSec) l.burst

/-- The first critical section of `admit`: the limits after it, and the semaphore to ask, unless the
attempt is rate limited. -/
def check (l : PeerLimits φ) (peer : PeerKey) (now : Instant) (semaphore : Nat) :
    PeerLimits φ × Option Nat :=
  let entry := l.entryAt peer now semaphore
  let tokens := l.refilled entry now
  ({ l with state := (l.kept now).insert peer ⟨⟨tokens, now⟩, entry.concurrency, now⟩ },
    if tokens < 1.0 then none else some entry.concurrency)

/-- The second critical section of `admit`. -/
def spend (l : PeerLimits φ) (peer : PeerKey) : PeerLimits φ :=
  match l.state.lookup peer with
  | none => l
  | some entry =>
    let bucket := { entry.bucket with tokens := entry.bucket.tokens - 1.0 }
    { l with state := l.state.insert peer { entry with bucket := bucket } }

/-! What the two sections leave of each entry. -/

variable {l : PeerLimits φ} {peer other : PeerKey} {entry : PeerState φ} {now : Instant}
  {semaphore : Nat}

omit [FloatArith φ] in
theorem lookup_kept : (l.kept now).lookup peer = some entry ↔
    l.state.lookup peer = some entry ∧ fresh now entry = true :=
  Table.lookup_retain

omit [FloatArith φ] in
theorem entryAt_of_fresh (h : l.state.lookup peer = some entry) (hfresh : fresh now entry = true) :
    l.entryAt peer now semaphore = entry := by
  rw [entryAt, lookup_kept.mpr ⟨h, hfresh⟩]
  rfl

omit [FloatArith φ] in
/-- An entry that is not found among the fresh ones is new. -/
theorem entryAt_of_stale (h : ∀ entry, l.state.lookup peer = some entry → fresh now entry = false) :
    l.entryAt peer now semaphore = ⟨⟨l.burst, now⟩, semaphore, now⟩ := by
  have hnone : (l.kept now).lookup peer = none := by
    rw [Option.eq_none_iff_forall_ne_some]
    intro entry hentry
    obtain ⟨hl, hfresh⟩ := lookup_kept.mp hentry
    rw [h entry hl] at hfresh
    cases hfresh
  rw [entryAt, hnone]
  rfl

theorem lookup_check_self : (l.check peer now semaphore).1.state.lookup peer =
    some ⟨⟨l.refilled (l.entryAt peer now semaphore) now, now⟩,
      (l.entryAt peer now semaphore).concurrency, now⟩ :=
  AList.lookup_insert _

/-- The other entries are kept if they are fresh. -/
theorem lookup_check_of_ne (hne : other ≠ peer) :
    (l.check peer now semaphore).1.state.lookup other = some entry ↔
      l.state.lookup other = some entry ∧ fresh now entry = true := by
  rw [← lookup_kept, check, AList.lookup_insert_ne hne]

theorem lookup_spend_self (h : l.state.lookup peer = some entry) :
    (l.spend peer).state.lookup peer =
      some { entry with bucket := { entry.bucket with tokens := entry.bucket.tokens - 1.0 } } := by
  unfold spend
  rw [h]
  exact AList.lookup_insert _

theorem lookup_spend_of_ne (hne : other ≠ peer) :
    (l.spend peer).state.lookup other = l.state.lookup other := by
  unfold spend
  cases l.state.lookup peer with
  | none => rfl
  | some entry => exact AList.lookup_insert_ne hne

/-- Only the entries change. -/
theorem spend_eq (l : PeerLimits φ) (peer : PeerKey) :
    ∃ state, l.spend peer = { l with state := state } := by
  unfold spend
  cases l.state.lookup peer with
  | none => exact ⟨_, rfl⟩
  | some entry => exact ⟨_, rfl⟩

end PeerLimits

/-! ## Steps -/

/-- An attempt that has passed its check: the semaphore it goes to, and the clock reading of the
check. It is the only one an attempt takes, and so it dates the admission. -/
structure Attempt where
  peer : PeerKey
  semaphore : Nat
  now : Instant
deriving DecidableEq

structure Admissions (φ : Type) where
  limits : PeerLimits φ
  /-- the semaphore that the next new entry gets -/
  nextSemaphore : Nat
  clock : Instant
  /-- attempts before `try_acquire_owned` -/
  acquiring : List Attempt
  /-- attempts with a permit, before the second critical section -/
  spending : List Attempt
  /-- connections that are open -/
  connections : List Attempt
  /-- the attempts that were allowed so far -/
  granted : List Attempt

inductive AdmissionAction where
  | check (peer : PeerKey) (now : Instant)
  | acquire (attempt : Attempt)
  | spend (attempt : Attempt)
  /-- the connection is closed, and its permit dropped -/
  | release (connection : Attempt)

namespace Admissions

variable {φ : Type}

/-- The start, before any connection. -/
def start (ratePerSec burst : φ) (maxConcurrent : Nat) : Admissions φ where
  limits := .new ratePerSec burst maxConcurrent
  nextSemaphore := 0
  clock := 0
  acquiring := []
  spending := []
  connections := []
  granted := []

/-- Those who hold a permit. -/
def holders (s : Admissions φ) : List Attempt := s.spending ++ s.connections

/-- The permits of a peer that are held. -/
def held (s : Admissions φ) (peer : PeerKey) : Nat :=
  s.holders.countP fun a => decide (a.peer = peer)

/-- The semaphore has a permit that nobody holds. -/
def HasPermit (s : Admissions φ) (semaphore : Nat) : Prop :=
  (s.holders.countP fun a => decide (a.semaphore = semaphore)) < s.limits.maxConcurrent

instance {s : Admissions φ} {semaphore : Nat} : Decidable (s.HasPermit semaphore) :=
  inferInstanceAs (Decidable (_ < _))

/-- The attempts of a peer that have passed their check and not taken their token yet. -/
def underway (s : Admissions φ) (peer : PeerKey) : List Attempt :=
  (s.acquiring ++ s.spending).filter fun a => decide (a.peer = peer)

/-- The state after a step. The clock does not go back. -/
def next [FloatArith φ] (s : Admissions φ) : AdmissionAction → Option (Admissions φ)
  | .check peer now =>
    if now < s.clock then none
    else
      let (limits, passed) := s.limits.check peer now s.nextSemaphore
      let attempts := (passed.map fun semaphore => ⟨peer, semaphore, now⟩).toList
      some { s with
        limits := limits
        nextSemaphore := s.nextSemaphore + 1
        clock := now
        acquiring := attempts ++ s.acquiring }
  | .acquire a =>
    if a ∈ s.acquiring then
      let s' := { s with acquiring := s.acquiring.erase a }
      some (if s.HasPermit a.semaphore then { s' with spending := a :: s.spending } else s')
    else none
  | .spend a =>
    if a ∈ s.spending then
      some { s with
        limits := s.limits.spend a.peer
        spending := s.spending.erase a
        connections := a :: s.connections
        granted := a :: s.granted }
    else none
  | .release c =>
    if c ∈ s.connections then some { s with connections := s.connections.erase c } else none

/-- The steps. -/
def Step [FloatArith φ] (s : Admissions φ) (a : AdmissionAction) (t : Admissions φ) : Prop :=
  s.next a = some t

/-- What a step can do. -/
inductive Moved [FloatArith φ] (s : Admissions φ) : AdmissionAction → Admissions φ → Prop
  | checked {peer : PeerKey} {now : Instant} : s.clock ≤ now →
      Moved s (.check peer now) { s with
        limits := (s.limits.check peer now s.nextSemaphore).1
        nextSemaphore := s.nextSemaphore + 1
        clock := now
        acquiring := ((s.limits.check peer now s.nextSemaphore).2.map fun semaphore =>
          ⟨peer, semaphore, now⟩).toList ++ s.acquiring }
  | permitted {a : Attempt} : a ∈ s.acquiring → s.HasPermit a.semaphore →
      Moved s (.acquire a) { s with
        acquiring := s.acquiring.erase a
        spending := a :: s.spending }
  | refused {a : Attempt} : a ∈ s.acquiring → ¬ s.HasPermit a.semaphore →
      Moved s (.acquire a) { s with acquiring := s.acquiring.erase a }
  | spent {a : Attempt} : a ∈ s.spending →
      Moved s (.spend a) { s with
        limits := s.limits.spend a.peer
        spending := s.spending.erase a
        connections := a :: s.connections
        granted := a :: s.granted }
  | released {c : Attempt} : c ∈ s.connections →
      Moved s (.release c) { s with connections := s.connections.erase c }

theorem Step.moved [FloatArith φ] {s t : Admissions φ} {a : AdmissionAction} (h : Step s a t) :
    Moved s a t := by
  unfold Step at h
  cases a with
  | check peer now =>
    simp only [next, Option.ite_none_left_eq_some] at h
    obtain ⟨hnow, h⟩ := h
    cases h
    exact .checked (Nat.not_lt.mp hnow)
  | acquire a =>
    simp only [next, Option.ite_none_right_eq_some] at h
    obtain ⟨ha, h⟩ := h
    split at h
    · next hpermit =>
      cases h
      exact .permitted ha hpermit
    · next hpermit =>
      cases h
      exact .refused ha hpermit
  | spend a =>
    simp only [next, Option.ite_none_right_eq_some] at h
    obtain ⟨ha, h⟩ := h
    cases h
    exact .spent ha
  | release c =>
    simp only [next, Option.ite_none_right_eq_some] at h
    obtain ⟨hc, h⟩ := h
    cases h
    exact .released hc

/-- The limits stay what they were. -/
theorem Step.limits [FloatArith φ] {s t : Admissions φ} {a : AdmissionAction} (h : Step s a t) :
    ∃ state, t.limits = { s.limits with state := state } := by
  cases h.moved with
  | checked => exact ⟨_, rfl⟩
  | permitted | refused | released => exact ⟨_, rfl⟩
  | spent => exact PeerLimits.spend_eq s.limits _

/-- The limits stay what they were at the start. -/
theorem limits_of_run [FloatArith φ] {ok : Admissions φ → AdmissionAction → Prop}
    {ratePerSec burst : φ} {maxConcurrent : Nat} {s : Admissions φ} {as : List AdmissionAction}
    (h : Run Step ok (start ratePerSec burst maxConcurrent) as s) :
    ∃ state, s.limits = ⟨ratePerSec, burst, maxConcurrent, state⟩ :=
  h.invariant (I := fun s => ∃ state, s.limits = ⟨ratePerSec, burst, maxConcurrent, state⟩) ⟨∅, rfl⟩
    fun _ _ _ ⟨_, hs⟩ _ hst => by
      obtain ⟨state, ht⟩ := hst.limits
      exact ⟨state, by rw [ht, hs]⟩

end Admissions

end ActiveDefense.Clam
