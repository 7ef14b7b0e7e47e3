import ActiveDefense.Clam.PeerLimits
import ActiveDefense.Lib.TokenBucket

/-!
# The rate of admissions of one peer

A check looks at the tokens that the bucket holds, and not at those that attempts under way will
take; a peer that is forgotten comes back to a full bucket; and a sum of numbers of 64 bits can be
rounded up. Where every check that passes finds a token that nobody else will take, nobody is
forgotten whose bucket would not be full, and no refill and no taking of a token is rounded up, the
admissions of a peer in an interval of time are at most the burst and what the rate brings in it.
What a number of the program stands for is a parameter; where it is the number itself, nothing is
rounded (`roundsDown_exact`).
-/

namespace ActiveDefense.Clam

section
variable {K : Type} [Field K]

/-- A time or a duration in seconds. -/
def seconds (t : Nat) : K := t / (10 ^ 9 : Nat)

theorem seconds_sub {t u : Nat} (h : t ≤ u) : (seconds (u - t) : K) = seconds u - seconds t := by
  unfold seconds
  rw [Nat.cast_sub h, sub_div]

end

section
variable {φ K : Type} [FloatArith φ] [Field K]

namespace PeerLimits

/-- What the tokens of an entry and the rate come to by now, exactly. -/
def gained (val : φ → K) (l : PeerLimits φ) (entry : PeerState φ) (now : Instant) : K :=
  val entry.bucket.tokens +
    val l.ratePerSec * seconds (now.durationSince entry.bucket.lastRefill)

variable [LinearOrder K]

/-- The refill of a check is not rounded up. -/
def RoundsDown (val : φ → K) (l : PeerLimits φ) (entry : PeerState φ) (now : Instant) : Prop :=
  val (l.refilled entry now) ≤ min (l.gained val entry now) (val l.burst)

/-- The bucket of an entry would be full by now. -/
def Full (val : φ → K) (l : PeerLimits φ) (entry : PeerState φ) (now : Instant) : Prop :=
  val l.burst ≤ l.gained val entry now

end PeerLimits

namespace Admissions

variable [LinearOrder K]

/-- A check passes only if there is a token beside those for the peer's attempts under way, and
forgets a peer only if it has none under way and its bucket would be full. -/
def Pays (val : φ → K) (s : Admissions φ) : AdmissionAction → Prop
  | .check peer now =>
    let tokens := s.limits.refilled (s.limits.entryAt peer now s.nextSemaphore) now
    (tokens < 1.0 ∨ ((s.underway peer).length : K) + 1 ≤ val tokens) ∧
      ∀ e ∈ s.limits.state.entries, PeerLimits.fresh now e.2 = false →
        s.underway e.1 = [] ∧ s.limits.Full val e.2 now
  | _ => True

instance {val : φ → K} {s : Admissions φ} {a : AdmissionAction} : Decidable (s.Pays val a) :=
  match a with
  | .check _ _ => inferInstanceAs (Decidable ((_ ∨ _ ≤ _) ∧
      ∀ e ∈ s.limits.state.entries, _ → _ ∧ _ ≤ _))
  | .acquire _ | .spend _ | .release _ => instDecidableTrue

/-- Neither the refill of a check nor the taking of a token is rounded up. -/
def RoundsDown (val : φ → K) (s : Admissions φ) : AdmissionAction → Prop
  | .check peer now => s.limits.RoundsDown val (s.limits.entryAt peer now s.nextSemaphore) now
  | .spend a => ∀ entry ∈ s.limits.state.lookup a.peer,
      val (entry.bucket.tokens - 1.0) ≤ val entry.bucket.tokens - 1
  | _ => True

instance {val : φ → K} {s : Admissions φ} {a : AdmissionAction} : Decidable (s.RoundsDown val a) :=
  match a with
  | .check _ _ => inferInstanceAs (Decidable (_ ≤ _))
  | .spend _ => inferInstanceAs (Decidable (∀ entry ∈ s.limits.state.lookup _, _ ≤ _))
  | .acquire _ | .release _ => instDecidableTrue

/-- The admissions of a peer in an interval of time. -/
def grantedIn (s : Admissions φ) (peer : PeerKey) (t₀ : Instant) (length : Duration) : Nat :=
  s.granted.countP fun a => decide (a.peer = peer ∧ t₀ ≤ a.now ∧ a.now ≤ t₀ + length)

end Admissions

end

section
variable {φ K : Type} [Field K] [LinearOrder K] {val : φ → K}

variable (val) in
/-- The bucket of a peer is metered as long as the peer is known. -/
def PeerLimits.MeteredPeer (l : PeerLimits φ) (clock : Instant) (peer : PeerKey)
    (granted promised : List K) : Prop :=
  match l.state.lookup peer with
  | some entry => entry.bucket.lastRefill ≤ clock ∧
      Metered (val l.burst) (val l.ratePerSec) (val entry.bucket.tokens)
        (seconds entry.bucket.lastRefill) granted promised
  | none => promised = [] ∧ Rested (val l.burst) (val l.ratePerSec) (seconds clock) granted

namespace PeerLimits.MeteredPeer

variable {l : PeerLimits φ} {clock now : Instant} {peer other : PeerKey} {granted promised : List K}
  {semaphore : Nat}

theorem of_some {entry : PeerState φ} (h : l.MeteredPeer val clock peer granted promised)
    (hl : l.state.lookup peer = some entry) : entry.bucket.lastRefill ≤ clock ∧
      Metered (val l.burst) (val l.ratePerSec) (val entry.bucket.tokens)
        (seconds entry.bucket.lastRefill) granted promised := by
  unfold MeteredPeer at h
  rwa [hl] at h

/-- The order of the promises does not matter. -/
theorem perm {promised' : List K} (h : l.MeteredPeer val clock peer granted promised)
    (hperm : promised.Perm promised') : l.MeteredPeer val clock peer granted promised' := by
  unfold MeteredPeer at h ⊢
  split at h
  · exact ⟨h.1, h.2.perm hperm⟩
  · obtain ⟨rfl, hrested⟩ := h
    exact ⟨hperm.nil_eq.symm, hrested⟩

/-- A peer with an attempt under way is known. -/
theorem exists_lookup {c : K} (h : l.MeteredPeer val clock peer granted (c :: promised)) :
    ∃ entry, l.state.lookup peer = some entry := by
  unfold MeteredPeer at h
  cases hl : l.state.lookup peer with
  | some entry => exact ⟨entry, rfl⟩
  | none =>
    rw [hl] at h
    exact absurd h.1 (List.cons_ne_nil _ _)

end PeerLimits.MeteredPeer

end

/-! ## Exact arithmetic -/

section
variable {K : Type} [Field K] [LinearOrder K]

theorem seconds_le_seconds [IsStrictOrderedRing K] {t u : Nat} :
    (seconds t : K) ≤ seconds u ↔ t ≤ u := by
  unfold seconds
  rw [div_le_div_iff_of_pos_right (by positivity), Nat.cast_le]

theorem seconds_mono [IsStrictOrderedRing K] {t u : Nat} (h : t ≤ u) :
    (seconds t : K) ≤ seconds u :=
  seconds_le_seconds.mpr h

variable [FloorRing K]

theorem asSecsF64_eq (d : Duration) : (d.asSecsF64 : K) = seconds d := by
  show ((d / 10 ^ 9 : Nat) : K) + ((d % 10 ^ 9 : Nat) : K) / 1e9 = d / (10 ^ 9 : Nat)
  have hsplit : (d : K) = 10 ^ 9 * (d / 10 ^ 9 : Nat) + (d % 10 ^ 9 : Nat) := by
    exact_mod_cast (Nat.div_add_mod d (10 ^ 9)).symm
  rw [hsplit]
  norm_num
  ring

theorem minF64_eq (a b : K) : minF64 a b = min a b := by
  unfold minF64
  rcases lt_trichotomy a b with h | rfl | h
  · rw [if_pos h, min_eq_left h.le]
  · simp
  · rw [if_neg h.not_gt, if_pos h, min_eq_right h.le]

/-- What the refill of a check makes of the tokens of an entry. -/
theorem refilled_eq (l : PeerLimits K) (entry : PeerState K) {now : Instant}
    (h : entry.bucket.lastRefill ≤ now) : l.refilled entry now =
      min (entry.bucket.tokens + l.ratePerSec *
        (seconds now - seconds entry.bucket.lastRefill)) l.burst := by
  unfold PeerLimits.refilled
  rw [minF64_eq, asSecsF64_eq, Instant.durationSince, seconds_sub h, mul_comm]

/-- Exact numbers stand for themselves, and no refill of them is rounded. -/
theorem roundsDown_exact (l : PeerLimits K) (entry : PeerState K) (now : Instant) :
    l.RoundsDown id entry now := by
  unfold PeerLimits.RoundsDown PeerLimits.refilled PeerLimits.gained
  rw [minF64_eq, asSecsF64_eq, mul_comm]
  exact le_rfl

end

/-! ## The buckets of the peers -/

section
variable {φ K : Type} [FloatArith φ] [Field K] [LinearOrder K] {val : φ → K}

omit [FloatArith φ] [LinearOrder K] in
theorem PeerLimits.gained_eq {l : PeerLimits φ} {entry : PeerState φ} {now : Instant}
    (h : entry.bucket.lastRefill ≤ now) : l.gained val entry now =
      val entry.bucket.tokens +
        val l.ratePerSec * (seconds now - seconds entry.bucket.lastRefill) := by
  rw [gained, Instant.durationSince, seconds_sub h]

variable [IsStrictOrderedRing K]

namespace PeerLimits.MeteredPeer

variable {l : PeerLimits φ} {clock now : Instant} {peer other : PeerKey} {granted promised : List K}
  {semaphore : Nat}

omit [FloatArith φ] in
/-- An entry that is forgotten leaves a bucket that is rested. -/
theorem forget (h : l.MeteredPeer val clock peer granted promised) (hrate : 0 ≤ val l.ratePerSec)
    (hnow : clock ≤ now) (hfull : ∀ entry, l.state.lookup peer = some entry →
      promised = [] ∧ l.Full val entry now) :
    promised = [] ∧ Rested (val l.burst) (val l.ratePerSec) (seconds now) granted := by
  cases hl : l.state.lookup peer with
  | none =>
    unfold MeteredPeer at h
    rw [hl] at h
    exact ⟨h.1, h.2.later hrate (seconds_mono hnow)⟩
  | some entry =>
    obtain ⟨rfl, hburst⟩ := hfull entry hl
    obtain ⟨hlast, hmetered⟩ := h.of_some hl
    have hle := hlast.trans hnow
    rw [Full, gained_eq hle] at hburst
    exact ⟨rfl, hmetered.rest hrate (seconds_mono hle) hburst⟩

/-- After a refill that is not rounded up the bucket is metered. -/
theorem refill (semaphore : Nat) (h : l.MeteredPeer val clock peer granted promised)
    (hrate : 0 ≤ val l.ratePerSec) (hnow : clock ≤ now)
    (hround : l.RoundsDown val (l.entryAt peer now semaphore) now)
    (hfull : ∀ entry, l.state.lookup peer = some entry → fresh now entry = false →
      promised = [] ∧ l.Full val entry now) :
    Metered (val l.burst) (val l.ratePerSec)
      (val (l.refilled (l.entryAt peer now semaphore) now)) (seconds now) granted promised := by
  by_cases hfresh : ∃ entry, l.state.lookup peer = some entry ∧ fresh now entry = true
  · obtain ⟨entry, hl, hfresh⟩ := hfresh
    obtain ⟨hlast, hmetered⟩ := h.of_some hl
    rw [entryAt_of_fresh hl hfresh] at hround ⊢
    have hle := hlast.trans hnow
    rw [RoundsDown, gained_eq hle] at hround
    exact (hmetered.refill hrate (seconds_mono hle)).lower hround
  · have hstale : ∀ entry, l.state.lookup peer = some entry → fresh now entry = false :=
      fun entry hl => Bool.eq_false_iff.mpr fun hf => hfresh ⟨entry, hl, hf⟩
    obtain ⟨rfl, hrested⟩ := h.forget hrate hnow fun entry hl => hfull entry hl (hstale entry hl)
    exact hrested.enter.lower (hround.trans (min_le_right _ _))

omit [IsStrictOrderedRing K] in
theorem check_self (hmetered : Metered (val l.burst) (val l.ratePerSec)
      (val (l.refilled (l.entryAt peer now semaphore) now)) (seconds now) granted promised) :
    (l.check peer now semaphore).1.MeteredPeer val now peer granted promised := by
  unfold MeteredPeer
  rw [lookup_check_self]
  exact ⟨le_rfl, hmetered⟩

/-- A check of another peer. -/
theorem check_of_ne (semaphore : Nat) (h : l.MeteredPeer val clock other granted promised)
    (hrate : 0 ≤ val l.ratePerSec) (hnow : clock ≤ now) (hne : other ≠ peer)
    (hfull : ∀ entry, l.state.lookup other = some entry → fresh now entry = false →
      promised = [] ∧ l.Full val entry now) :
    (l.check peer now semaphore).1.MeteredPeer val now other granted promised := by
  unfold MeteredPeer
  cases hl : (l.check peer now semaphore).1.state.lookup other with
  | some entry =>
    obtain ⟨hl, -⟩ := (lookup_check_of_ne hne).mp hl
    obtain ⟨hlast, hmetered⟩ := h.of_some hl
    exact ⟨hlast.trans hnow, hmetered⟩
  | none =>
    refine h.forget hrate hnow fun entry hentry => hfull entry hentry ?_
    rw [← Bool.not_eq_true]
    intro hfresh
    rw [(lookup_check_of_ne hne).mpr ⟨hentry, hfresh⟩] at hl
    cases hl

omit [FloatArith φ] in
theorem withdraw {c : K} (h : l.MeteredPeer val clock peer granted (c :: promised)) :
    l.MeteredPeer val clock peer granted promised := by
  obtain ⟨entry, hl⟩ := h.exists_lookup
  obtain ⟨hlast, hmetered⟩ := h.of_some hl
  unfold MeteredPeer
  rw [hl]
  exact ⟨hlast, hmetered.withdraw⟩

/-- A token is taken, without rounding up what is left. -/
theorem spend {c : K} (h : l.MeteredPeer val clock peer granted (c :: promised))
    (hround : ∀ entry ∈ l.state.lookup peer,
      val (entry.bucket.tokens - 1.0) ≤ val entry.bucket.tokens - 1) :
    (l.spend peer).MeteredPeer val clock peer (c :: granted) promised := by
  obtain ⟨entry, hl⟩ := h.exists_lookup
  obtain ⟨hlast, hmetered⟩ := h.of_some hl
  obtain ⟨state, hlimits⟩ := spend_eq l peer
  unfold MeteredPeer
  rw [lookup_spend_self hl, hlimits]
  exact ⟨hlast, hmetered.spend.lower (hround entry hl)⟩

omit [FloatArith φ] in
/-- The admissions of an interval are within the rate, whether the peer is known or not. -/
theorem window (h : l.MeteredPeer val clock peer granted promised) {t₀ t₁ : K} (hle : t₀ ≤ t₁) :
    (countIn t₀ t₁ granted : K) ≤ val l.burst + val l.ratePerSec * (t₁ - t₀) := by
  unfold MeteredPeer at h
  split at h
  · have hwindow := h.2.window t₀ t₁ hle
    rw [countIn_append] at hwindow
    have hcount : (countIn t₀ t₁ granted : K) ≤
        (countIn t₀ t₁ granted + countIn t₀ t₁ promised : ℕ) := by
      exact_mod_cast Nat.le_add_right _ _
    exact hcount.trans hwindow
  · exact h.2.window t₀ t₁ hle

omit [IsStrictOrderedRing K] in
theorem spend_of_ne (h : l.MeteredPeer val clock other granted promised) (hne : other ≠ peer) :
    (l.spend peer).MeteredPeer val clock other granted promised := by
  obtain ⟨state, hlimits⟩ := spend_eq l peer
  have hl := lookup_spend_of_ne (l := l) hne
  unfold MeteredPeer at h ⊢
  rw [hl]
  rw [hlimits]
  exact h

end PeerLimits.MeteredPeer

namespace Admissions

section
omit [FloatArith φ] [LinearOrder K] [IsStrictOrderedRing K]

/-- The dates of the attempts of one peer. -/
def datesOf (peer : PeerKey) (attempts : List Attempt) : List K :=
  (attempts.filter fun a => decide (a.peer = peer)).map fun a => seconds a.now

theorem datesOf_perm {as bs : List Attempt} (h : as.Perm bs) (peer : PeerKey) :
    (datesOf peer as : List K).Perm (datesOf peer bs) :=
  (h.filter _).map _

theorem datesOf_cons_self (a : Attempt) (as : List Attempt) :
    (datesOf a.peer (a :: as) : List K) = seconds a.now :: datesOf a.peer as := by
  simp [datesOf]

theorem datesOf_cons_of_ne {peer : PeerKey} {a : Attempt} (hne : peer ≠ a.peer)
    (as : List Attempt) : (datesOf peer (a :: as) : List K) = datesOf peer as := by
  simp [datesOf, hne.symm]

end

variable (val) in
/-- Every peer that is known is metered, with limits that are not negative. -/
structure AllMetered (s : Admissions φ) : Prop where
  burst : 0 ≤ val s.limits.burst
  rate : 0 ≤ val s.limits.ratePerSec
  peers : ∀ peer, s.limits.MeteredPeer val s.clock peer (datesOf peer s.granted)
    (datesOf peer (s.acquiring ++ s.spending))

omit [FloatArith φ] in
theorem allMetered_start {ratePerSec burst : φ} (hrate : 0 ≤ val ratePerSec)
    (hburst : 0 ≤ val burst) (maxConcurrent : Nat) :
    (start ratePerSec burst maxConcurrent).AllMetered val where
  burst := hburst
  rate := hrate
  peers _ := ⟨rfl, .new hburst hrate⟩

theorem AllMetered.check {s t : Admissions φ} (h : s.AllMetered val) {peer : PeerKey}
    {now : Instant} (hpays : s.Pays val (.check peer now))
    (hround : s.RoundsDown val (.check peer now)) (hst : Step s (.check peer now) t) :
    t.AllMetered val := by
  obtain ⟨hnow⟩ := hst.moved
  obtain ⟨htoken, hforget⟩ := hpays
  have hfull : ∀ q entry, s.limits.state.lookup q = some entry →
      PeerLimits.fresh now entry = false →
        (datesOf q (s.acquiring ++ s.spending) : List K) = [] ∧ s.limits.Full val entry now := by
    intro q entry hl hstale
    obtain ⟨hnone, hburst⟩ := hforget ⟨q, entry⟩ (AList.mem_lookup_iff.mp hl) hstale
    exact ⟨List.map_eq_nil_iff.mpr hnone, hburst⟩
  let attempt : Attempt := ⟨peer, (s.limits.entryAt peer now s.nextSemaphore).concurrency, now⟩
  have hpassed : (s.limits.check peer now s.nextSemaphore).2 =
      if s.limits.refilled (s.limits.entryAt peer now s.nextSemaphore) now < (1.0 : φ) then none
      else some attempt.semaphore := rfl
  refine ⟨h.burst, h.rate, fun q => ?_⟩
  rcases eq_or_ne q peer with rfl | hne
  · have hmetered := (h.peers q).refill s.nextSemaphore h.rate hnow hround (hfull q)
    refine PeerLimits.MeteredPeer.check_self ?_
    rw [hpassed]
    split
    · exact hmetered
    · next hlow =>
      have hcovered := htoken.resolve_left hlow
      have hlength : (datesOf q (s.acquiring ++ s.spending) : List K).length =
          (s.underway q).length := by
        rw [datesOf, List.length_map]
        rfl
      rw [← hlength] at hcovered
      have hpromise := hmetered.promise h.rate hcovered
      have hdates : (datesOf q (attempt :: (s.acquiring ++ s.spending)) : List K) =
          seconds now :: datesOf q (s.acquiring ++ s.spending) := datesOf_cons_self attempt _
      rw [← hdates] at hpromise
      exact hpromise
  · have hother := (h.peers q).check_of_ne s.nextSemaphore h.rate hnow hne (hfull q)
    rw [hpassed]
    split
    · exact hother
    · have hdates : (datesOf q (attempt :: (s.acquiring ++ s.spending)) : List K) =
          datesOf q (s.acquiring ++ s.spending) := datesOf_cons_of_ne hne _
      rw [← hdates] at hother
      exact hother

theorem AllMetered.acquire {s t : Admissions φ} (h : s.AllMetered val) {a : Attempt}
    (hst : Step s (.acquire a) t) : t.AllMetered val := by
  have herase (ha : a ∈ s.acquiring) := (List.perm_cons_erase ha).append_right s.spending
  cases hst.moved with
  | permitted ha _ =>
    refine ⟨h.burst, h.rate, fun peer => (h.peers peer).perm (datesOf_perm ?_ peer)⟩
    exact (herase ha).trans List.perm_middle.symm
  | refused ha _ =>
    refine ⟨h.burst, h.rate, fun peer => ?_⟩
    have hpeer := (h.peers peer).perm (datesOf_perm (herase ha) peer)
    rcases eq_or_ne peer a.peer with rfl | hne
    · rw [List.cons_append, datesOf_cons_self] at hpeer
      exact hpeer.withdraw
    · rwa [List.cons_append, datesOf_cons_of_ne hne] at hpeer

theorem AllMetered.spend {s t : Admissions φ} (h : s.AllMetered val) {a : Attempt}
    (hround : s.RoundsDown val (.spend a)) (hst : Step s (.spend a) t) : t.AllMetered val := by
  cases hst.moved with
  | spent ha =>
    have herase : (s.acquiring ++ s.spending).Perm (a :: (s.acquiring ++ s.spending.erase a)) :=
      ((List.perm_cons_erase ha).append_left _).trans List.perm_middle
    obtain ⟨state, hlimits⟩ := PeerLimits.spend_eq s.limits a.peer
    refine ⟨by rw [hlimits]; exact h.burst, by rw [hlimits]; exact h.rate, fun peer => ?_⟩
    have hpeer := (h.peers peer).perm (datesOf_perm herase peer)
    rcases eq_or_ne peer a.peer with rfl | hne
    · rw [datesOf_cons_self] at hpeer ⊢
      exact hpeer.spend hround
    · rw [datesOf_cons_of_ne hne] at hpeer ⊢
      exact hpeer.spend_of_ne hne

theorem AllMetered.step {s t : Admissions φ} {action : AdmissionAction} (h : s.AllMetered val)
    (hpays : s.Pays val action) (hround : s.RoundsDown val action) (hst : Step s action t) :
    t.AllMetered val := by
  cases action with
  | check peer now => exact h.check hpays hround hst
  | acquire a => exact h.acquire hst
  | spend a => exact h.spend hround hst
  | release c =>
    obtain ⟨_⟩ := hst.moved
    exact ⟨h.burst, h.rate, h.peers⟩

omit [FloatArith φ] in
/-- The admissions of a peer are counted by their dates. -/
theorem grantedIn_eq (s : Admissions φ) (peer : PeerKey) (t₀ : Instant) (length : Duration) :
    s.grantedIn peer t₀ length =
      countIn (seconds t₀ : K) (seconds (t₀ + length)) (datesOf peer s.granted) := by
  unfold grantedIn countIn datesOf
  rw [List.countP_map, List.countP_filter]
  refine List.countP_congr fun a _ => ?_
  simp [seconds_le_seconds, and_comm]

variable (val) in
/-- In every run whose checks find a token for each attempt that passes, that forgets no peer whose
bucket is not full and that rounds nothing up, the admissions of a peer in an interval of time are
within the rate. -/
theorem grantedIn_le_of_run {ratePerSec burst : φ} (hrate : 0 ≤ val ratePerSec)
    (hburst : 0 ≤ val burst) {maxConcurrent : Nat} {s : Admissions φ} {as : List AdmissionAction}
    (h : Run Step (fun s a => s.Pays val a ∧ s.RoundsDown val a)
      (start ratePerSec burst maxConcurrent) as s)
    (peer : PeerKey) (t₀ : Instant) (length : Duration) :
    (s.grantedIn peer t₀ length : K) ≤ val burst + val ratePerSec * seconds length := by
  have hs : s.AllMetered val := h.invariant (allMetered_start hrate hburst maxConcurrent)
    fun _ _ _ hs hok hst => hs.step hok.1 hok.2 hst
  obtain ⟨state, hlimits⟩ := limits_of_run h
  have hwindow := (hs.peers peer).window (seconds_mono (Nat.le_add_right t₀ length))
  rw [← seconds_sub (Nat.le_add_right t₀ length), Nat.add_sub_cancel_left, hlimits] at hwindow
  rw [grantedIn_eq (K := K)]
  exact hwindow

end Admissions

end

/-! ## Numbers of 64 bits -/

namespace Admissions

/-- Two connections of one user at once, one of another, and one more of the first a second later. -/
def paidActions : List AdmissionAction :=
  [.check (.uid 1000) 0, .check (.uid 1000) 0, .acquire ⟨.uid 1000, 0, 0⟩,
    .acquire ⟨.uid 1000, 0, 0⟩, .spend ⟨.uid 1000, 0, 0⟩, .spend ⟨.uid 1000, 0, 0⟩,
    .check (.uid 1001) 0, .acquire ⟨.uid 1001, 2, 0⟩, .spend ⟨.uid 1001, 2, 0⟩,
    .check (.uid 1000) (10 ^ 9), .acquire ⟨.uid 1000, 0, 10 ^ 9⟩, .spend ⟨.uid 1000, 0, 10 ^ 9⟩]

/-- With a burst of two and one a second, three of the first user within a second are as many as
there can be. -/
theorem grantedIn_le_of_run_paid : ∃ s : Admissions Float,
    Run Step (fun s a => s.Pays f64Value a ∧ s.RoundsDown f64Value a) (start 1 2 8) paidActions s ∧
    s.grantedIn (.uid 1000) 0 (10 ^ 9) = 3 ∧
    (s.grantedIn (.uid 1000) 0 (10 ^ 9) : ℚ) ≤ f64Value 2 + f64Value 1 * seconds (10 ^ 9) := by
  obtain ⟨s, hrun, hgranted⟩ : ∃ s : Admissions Float,
      Run Step (fun s a => s.Pays f64Value a ∧ s.RoundsDown f64Value a) (start 1 2 8)
        paidActions s ∧ s.grantedIn (.uid 1000) 0 (10 ^ 9) = 3 :=
    Run.exists_of_guarded (fun _ _ _ hnext => hnext) (by decide +kernel)
  exact ⟨s, hrun, hgranted, grantedIn_le_of_run f64Value (by decide +kernel) (by decide +kernel)
    hrun _ 0 (10 ^ 9)⟩

/-- Two connections at once both find the one token of the burst. -/
theorem not_grantedIn_le : ¬ ∀ (s : Admissions Float) (peer : PeerKey) (t₀ : Instant)
    (length : Duration), Reachable Step (start 1 1 8) s →
      (s.grantedIn peer t₀ length : ℚ) ≤ f64Value 1 + f64Value 1 * seconds length := by
  intro hclaim
  have hend : (([.check (.uid 1000) 0, .check (.uid 1000) 0, .acquire ⟨.uid 1000, 0, 0⟩,
      .acquire ⟨.uid 1000, 0, 0⟩, .spend ⟨.uid 1000, 0, 0⟩, .spend ⟨.uid 1000, 0, 0⟩] :
        List AdmissionAction).foldlM next (start (1 : Float) 1 8)).any
      (fun s => decide (s.grantedIn (.uid 1000) 0 0 = 2)) = true := by
    decide +kernel
  obtain ⟨s, hrun, hgranted⟩ := (Option.any_eq_true _ _).mp hend
  have hle := hclaim s (.uid 1000) 0 0 ⟨_, .of_foldlM (fun _ _ _ h => h) hrun⟩
  rw [of_decide_eq_true hgranted] at hle
  exact absurd hle (by decide +kernel)

/-- What 0.3333333333333333 a second come to in three seconds is rounded up to a token, and a second
connection is admitted that is not within the rate. -/
theorem not_grantedIn_le_of_rounding : ¬ ∀ (s : Admissions Float) (as : List AdmissionAction)
    (peer : PeerKey) (t₀ : Instant) (length : Duration),
      Run Step (Pays f64Value) (start 0.3333333333333333 1 8) as s →
        (s.grantedIn peer t₀ length : ℚ) ≤
          f64Value 1 + f64Value 0.3333333333333333 * seconds length := by
  intro hclaim
  obtain ⟨s, hrun, hgranted⟩ : ∃ s : Admissions Float,
      Run Step (Pays f64Value) (start 0.3333333333333333 1 8)
        [.check (.uid 1000) 0, .acquire ⟨.uid 1000, 0, 0⟩, .spend ⟨.uid 1000, 0, 0⟩,
          .check (.uid 1000) (3 * 10 ^ 9), .acquire ⟨.uid 1000, 0, 3 * 10 ^ 9⟩,
          .spend ⟨.uid 1000, 0, 3 * 10 ^ 9⟩] s ∧
        s.grantedIn (.uid 1000) 0 (3 * 10 ^ 9) = 2 :=
    Run.exists_of_guarded (fun _ _ _ hnext => hnext) (by decide +kernel)
  have hle := hclaim s _ (.uid 1000) 0 (3 * 10 ^ 9) hrun
  rw [hgranted] at hle
  exact absurd hle (by decide +kernel)

end Admissions

end ActiveDefense.Clam
