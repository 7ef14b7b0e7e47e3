import ActiveDefense.Firewall.RateLimit
import ActiveDefense.Lib.Machine
import ActiveDefense.Lib.TokenBucket
import Mathlib.Algebra.Order.BigOperators.Group.List
import Mathlib.Data.List.ReduceOption

/-!
# What the rate limiter lets through

The limiter over exact numbers, call by call, for rules that have each a rate. A bucket that is not
in the table counts as full, so `Holds` has it `Rested`; a bucket that is there is `Metered` by the
packets that were allowed, and `Sourced`: nothing but them took its tokens. So the packets of a
source and a rule that are allowed stay within the rate's envelope, and none is refused while all
packets stay within it. A bucket that a sweep removes would be full by now, so that no decision
depends on it (`Resembles`).
-/

namespace ActiveDefense.Firewall.RateLimiter

/-- A call on the limiter: a packet of a source that matches a rule, or the maintenance sweep. -/
inductive Event where
  | packet (key : IpAddr × UInt32) (now : Instant)
  | sweep (now : Instant)
deriving DecidableEq, Repr

namespace Event

def time : Event → Instant
  | packet _ now => now
  | sweep now => now

def isPacket : Event → Bool
  | packet _ _ => true
  | sweep _ => false

end Event

/-- The limiter, call by call, with the rate of each rule: whether the packet is allowed. -/
def call (rates : UInt32 → UInt32) : Machine (RateLimiter ℚ) Event (Option Bool) := fun l e =>
  match e with
  | .packet key now =>
    let (allowed, l) := l.allow key.1 key.2 (rates key.2) now
    (some allowed, l)
  | .sweep now => (none, l.sweep (.fromSecs 300) now)

/-- A time in seconds. -/
def secs (t : Instant) : ℚ := TokenArith.asSecs t

theorem secs_sub {t u : Instant} (h : t ≤ u) : secs (u - t) = secs u - secs t := by
  simp only [secs, TokenArith.asSecs]
  rw [Nat.cast_sub h, sub_div]

theorem secs_le_secs {t u : Instant} (h : t ≤ u) : secs t ≤ secs u := by
  simp only [secs, TokenArith.asSecs]
  exact div_le_div_of_nonneg_right (Nat.cast_le.mpr h) (by positivity)

/-- The tokens of a bucket after its refill. -/
def refilled (b : Bucket ℚ) (rate : ℚ) (now : Instant) : ℚ :=
  min (b.tokens + secs (now.durationSince b.lastRefill) * rate) rate

section
variable {l : RateLimiter ℚ} {key : IpAddr × UInt32} {r : UInt32} {now : Instant}

theorem one_le_cast (hr : r ≠ 0) : (1 : ℚ) ≤ r.toNat := by
  have hpos : 0 < r.toNat := Nat.pos_of_ne_zero fun h => hr (UInt32.toNat_inj.mp h)
  exact_mod_cast hpos

/-- A packet that a limited rule matches: the bucket is refilled, and a token is taken if there is
one. -/
theorem allow_eq (hr : r ≠ 0) :
    l.allow key.1 key.2 r now =
      let b := (l.buckets.lookup key).getD ⟨r.toNat, now⟩
      let tokens := refilled b r.toNat now
      if 1 ≤ tokens then (true, ⟨l.buckets.insert key ⟨tokens - 1, now⟩⟩)
      else (false, ⟨l.buckets.insert key ⟨tokens, now⟩⟩) := by
  have hburst : max (r.toNat : ℚ) 1 = r.toNat := max_eq_left (one_le_cast hr)
  rw [allow, if_neg hr]
  change (let burst : ℚ := max (r.toNat : ℚ) 1
    let b := (l.buckets.lookup key).getD ⟨burst, now⟩
    let tokens := min (b.tokens + secs (now.durationSince b.lastRefill) * r.toNat) burst
    if 1 ≤ tokens then (true, (⟨l.buckets.insert key ⟨tokens - 1, now⟩⟩ : RateLimiter ℚ))
    else (false, ⟨l.buckets.insert key ⟨tokens, now⟩⟩)) = _
  rw [hburst]
  rfl

end

/-! ## The bucket of a source and a rule -/

/-- What the limiter has for a source and a rule meets the packets it has allowed: a bucket that is
there has been full, and lost tokens to them alone; one that is not there would be full. -/
structure Holds (l : RateLimiter ℚ) (key : IpAddr × UInt32) (rate : ℚ) (granted : List ℚ)
    (clock : Instant) : Prop where
  absent : l.buckets.lookup key = none → Rested rate rate (secs clock) granted
  present : ∀ b, l.buckets.lookup key = some b →
    b.lastRefill ≤ clock ∧ 0 ≤ b.tokens ∧
      Metered rate rate b.tokens (secs b.lastRefill) granted [] ∧
      Sourced rate rate b.tokens (secs b.lastRefill) granted

section
variable {l : RateLimiter ℚ} {key key' : IpAddr × UInt32} {rate : ℚ} {r : UInt32}
  {granted : List ℚ} {clock now : Instant}

theorem holds_new (hrate : 0 ≤ rate) : (new : RateLimiter ℚ).Holds key rate [] clock where
  absent _ := .new hrate hrate
  present b h := by cases h

/-- The bucket alone decides. -/
theorem Holds.congr {l' : RateLimiter ℚ} (h : l.Holds key rate granted clock)
    (heq : l'.buckets.lookup key = l.buckets.lookup key) (hrate : 0 ≤ rate) (hle : clock ≤ now) :
    l'.Holds key rate granted now where
  absent hnone := (h.absent (heq ▸ hnone)).later hrate (secs_le_secs hle)
  present b hsome := by
    obtain ⟨hlast, hmetered⟩ := h.present b (heq ▸ hsome)
    exact ⟨hlast.trans hle, hmetered⟩

/-- A bucket that is refilled at the time of its packet. -/
theorem holds_insert {tokens : ℚ} (htokens : 0 ≤ tokens)
    (hmetered : Metered rate rate tokens (secs now) granted [])
    (hsourced : Sourced rate rate tokens (secs now) granted) :
    Holds ⟨l.buckets.insert key ⟨tokens, now⟩⟩ key rate granted now where
  absent hnone := by
    rw [AList.lookup_insert] at hnone
    cases hnone
  present b hsome := by
    rw [AList.lookup_insert] at hsome
    cases hsome
    exact ⟨Nat.le_refl now, htokens, hmetered, hsourced⟩

theorem refilled_eq {b : Bucket ℚ} (hle : b.lastRefill ≤ now) :
    refilled b rate now = min (b.tokens + rate * (secs now - secs b.lastRefill)) rate := by
  rw [refilled, Instant.durationSince, secs_sub hle, mul_comm]

/-- The bucket of a packet, after its refill. -/
theorem Holds.refilled (h : l.Holds key rate granted clock) (hrate : 0 ≤ rate)
    (hle : clock ≤ now) :
    0 ≤ RateLimiter.refilled ((l.buckets.lookup key).getD ⟨rate, now⟩) rate now ∧
      Metered rate rate
        (RateLimiter.refilled ((l.buckets.lookup key).getD ⟨rate, now⟩) rate now) (secs now)
        granted [] ∧
      Sourced rate rate
        (RateLimiter.refilled ((l.buckets.lookup key).getD ⟨rate, now⟩) rate now) (secs now)
        granted := by
  cases hb : l.buckets.lookup key with
  | none =>
    have hfull : RateLimiter.refilled ⟨rate, now⟩ rate now = rate := by
      rw [refilled_eq (Nat.le_refl now), sub_self, mul_zero, add_zero, min_self]
    have hrested := (h.absent hb).later hrate (secs_le_secs hle)
    rw [Option.getD_none, hfull]
    exact ⟨hrate, hrested.enter, .full⟩
  | some b =>
    obtain ⟨hlast, htokens, hmetered, hsourced⟩ := h.present b hb
    have hlast := hlast.trans hle
    have hgain := mul_nonneg hrate (sub_nonneg.mpr (secs_le_secs hlast))
    rw [Option.getD_some, refilled_eq hlast]
    exact ⟨le_min (add_nonneg htokens hgain) hrate, hmetered.refill hrate (secs_le_secs hlast),
      hsourced.refill (secs_le_secs hlast)⟩

/-- A packet of the source and the rule. -/
theorem Holds.allow (h : l.Holds key r.toNat granted clock) (hr : r ≠ 0) (hle : clock ≤ now) :
    (l.allow key.1 key.2 r now).2.Holds key r.toNat
        (if (l.allow key.1 key.2 r now).1 then secs now :: granted else granted) now ∧
      ((∀ t₀ ≤ secs now,
          (countIn t₀ (secs now) granted : ℚ) + 1 ≤ r.toNat + r.toNat * (secs now - t₀)) →
        (l.allow key.1 key.2 r now).1 = true) := by
  have hrate : (0 : ℚ) ≤ r.toNat := Nat.cast_nonneg _
  obtain ⟨htokens, hmetered, hsourced⟩ := h.refilled hrate hle
  rw [allow_eq hr]
  dsimp only
  split
  · next htoken =>
    have hpromised := hmetered.promise hrate (by simpa using htoken)
    exact ⟨holds_insert (sub_nonneg.mpr htoken) hpromised.spend hsourced.spend, fun _ => rfl⟩
  · next htoken =>
    exact ⟨holds_insert htokens hmetered hsourced, fun hroom => absurd (hsourced.one_le hroom) htoken⟩

/-- A packet of another source or rule leaves the bucket. -/
theorem lookup_allow_of_ne (hne : key' ≠ key) :
    (l.allow key.1 key.2 r now).2.buckets.lookup key' = l.buckets.lookup key' := by
  rcases eq_or_ne r 0 with hr | hr
  · rw [RateLimiter.allow, if_pos hr]
  · rw [allow_eq hr]
    dsimp only
    split <;> exact AList.lookup_insert_ne hne

/-- A bucket that was left alone for a second would be full, whatever its rate. -/
theorem le_refilled {b : Bucket ℚ} {maxIdle : Duration} (hidle : 1 ≤ secs maxIdle)
    (hrate : 0 ≤ rate) (htokens : 0 ≤ b.tokens)
    (hold : maxIdle ≤ now.durationSince b.lastRefill) :
    rate ≤ b.tokens + secs (now.durationSince b.lastRefill) * rate := by
  have helapsed := hidle.trans (secs_le_secs hold)
  have hgain := le_mul_of_one_le_left hrate helapsed
  linarith

/-- The bucket of a key is removed by a sweep, or left. -/
theorem lookup_sweep {maxIdle : Duration} {b : Bucket ℚ} :
    (l.sweep maxIdle now).buckets.lookup key = some b ↔
      l.buckets.lookup key = some b ∧ now.durationSince b.lastRefill < maxIdle := by
  rw [RateLimiter.sweep, Table.lookup_retain, decide_eq_true_eq]

theorem maxIdle_le_of_lookup_sweep {maxIdle : Duration} {b : Bucket ℚ}
    (hnone : (l.sweep maxIdle now).buckets.lookup key = none)
    (hb : l.buckets.lookup key = some b) : maxIdle ≤ now.durationSince b.lastRefill := by
  by_contra hnew
  cases hnone.symm.trans (lookup_sweep.mpr ⟨hb, Nat.not_le.mp hnew⟩)

/-- A sweep removes a bucket only when it would be full. -/
theorem Holds.sweep {maxIdle : Duration} (h : l.Holds key rate granted clock)
    (hidle : 1 ≤ secs maxIdle) (hrate : 0 ≤ rate) (hle : clock ≤ now) :
    (l.sweep maxIdle now).Holds key rate granted now where
  absent hnone := by
    cases hb : l.buckets.lookup key with
    | none => exact (h.absent hb).later hrate (secs_le_secs hle)
    | some b =>
      obtain ⟨hlast, htokens, hmetered, -⟩ := h.present b hb
      have hlast := hlast.trans hle
      have hfull := le_refilled hidle hrate htokens (maxIdle_le_of_lookup_sweep hnone hb)
      rw [Instant.durationSince, secs_sub hlast, mul_comm] at hfull
      exact hmetered.rest hrate (secs_le_secs hlast) hfull
  present b hsome := by
    obtain ⟨hlast, hmetered⟩ := h.present b (lookup_sweep.mp hsome).1
    exact ⟨hlast.trans hle, hmetered⟩

/-- The maintenance thread sweeps what is idle for five minutes. -/
theorem one_le_secs_maintenance : 1 ≤ secs (Duration.fromSecs 300) := by
  have hsecs : secs (Duration.fromSecs 300) = ((300 * 10 ^ 9 : ℕ) : ℚ) / 10 ^ 9 := rfl
  rw [hsecs]
  norm_num

/-- The packets that were allowed are within the envelope of the rate. -/
theorem Holds.window (h : l.Holds key rate granted clock) {t₀ t₁ : ℚ} (ht : t₀ ≤ t₁) :
    (countIn t₀ t₁ granted : ℚ) ≤ rate + rate * (t₁ - t₀) := by
  cases hb : l.buckets.lookup key with
  | none => exact (h.absent hb).window t₀ t₁ ht
  | some b =>
    have hwindow := (h.present b hb).2.2.1.window t₀ t₁ ht
    rwa [List.append_nil] at hwindow

end

/-! ## Sequences of calls -/

section
variable (rates : UInt32 → UInt32) (events : List Event)

/-- The limiter before the call at a position. -/
def before (n : ℕ) : RateLimiter ℚ := (call rates).stateAt new events n

/-- The packet at a position is allowed. -/
def allowedAt (n : ℕ) : Bool :=
  events[n]?.any fun e => (call rates (before rates events n) e).1 = some true

/-- The time of a packet of the source and the rule. -/
def Event.date? (key : IpAddr × UInt32) : Event → Option ℚ
  | packet key' now => if key' = key then some (secs now) else none
  | sweep _ => none

/-- The times of the packets of a source and a rule before a position, the latest first. -/
def arrivals (key : IpAddr × UInt32) : ℕ → List ℚ
  | 0 => []
  | n + 1 => (events[n]?.bind (Event.date? key)).toList ++ arrivals key n

/-- Of these the ones that were allowed. -/
def allowed (key : IpAddr × UInt32) : ℕ → List ℚ
  | 0 => []
  | n + 1 =>
    (if allowedAt rates events n then (events[n]?.bind (Event.date? key)).toList else []) ++
      allowed key n

/-- The times of the calls do not decrease. -/
def Sorted : Prop := (events.map Event.time).Pairwise (· ≤ ·)

variable {rates events} {key : IpAddr × UInt32} {n : ℕ} {e : Event} {now : Instant}

theorem before_succ (h : events[n]? = some e) :
    before rates events (n + 1) = (call rates (before rates events n) e).2 :=
  Machine.stateAt_succ h

theorem Sorted.le (h : Sorted events) {j : ℕ} {e' : Event} (hj : j < n)
    (hej : events[j]? = some e') (hen : events[n]? = some e) : e'.time ≤ e.time := by
  obtain ⟨hjlen, rfl⟩ := List.getElem?_eq_some_iff.mp hej
  obtain ⟨hnlen, rfl⟩ := List.getElem?_eq_some_iff.mp hen
  have hle := List.pairwise_iff_getElem.mp h j n (by simpa using hjlen) (by simpa using hnlen) hj
  rwa [List.getElem_map, List.getElem_map] at hle

theorem allowed_sublist : (allowed rates events key n).Sublist (arrivals events key n) := by
  induction n with
  | zero => exact .slnil
  | succ n ih =>
    refine List.Sublist.append ?_ ih
    split
    · exact .refl _
    · exact List.nil_sublist _

theorem allowedAt_eq (he : events[n]? = some (.packet key now)) : allowedAt rates events n =
    ((before rates events n).allow key.1 key.2 (rates key.2) now).1 := by
  rw [allowedAt, he]
  simp [RateLimiter.call]

/-- A call leaves what the limiter has meeting what it has allowed. -/
theorem Holds.call {clock : Instant} (hrate : rates key.2 ≠ 0) (he : events[n]? = some e)
    (hle : clock ≤ e.time)
    (h : (before rates events n).Holds key (rates key.2).toNat (allowed rates events key n) clock) :
    (before rates events (n + 1)).Holds key (rates key.2).toNat
      (allowed rates events key (n + 1)) e.time := by
  have hnonneg : (0 : ℚ) ≤ (rates key.2).toNat := Nat.cast_nonneg _
  rw [before_succ he, allowed, he, Option.bind_some]
  cases e with
  | sweep now =>
    rw [Event.date?, Option.toList_none, ite_self, List.nil_append]
    exact h.sweep one_le_secs_maintenance hnonneg hle
  | packet key' now =>
    rcases eq_or_ne key' key with rfl | hne
    · obtain ⟨hafter, -⟩ := h.allow hrate hle
      have hgranted (ok : Bool) (granted : List ℚ) : (if ok then [secs now] else []) ++ granted =
          if ok then secs now :: granted else granted := by
        cases ok <;> rfl
      rw [Event.date?, if_pos rfl, Option.toList_some, allowedAt_eq he, hgranted]
      exact hafter
    · rw [Event.date?, if_neg hne, Option.toList_none, ite_self, List.nil_append]
      exact h.congr (lookup_allow_of_ne hne.symm) hnonneg hle

theorem holds_before (hsorted : Sorted events) (hrate : rates key.2 ≠ 0) (hn : n ≤ events.length)
    (hnow : ∀ j e, j < n → events[j]? = some e → e.time ≤ now) :
    (before rates events n).Holds key (rates key.2).toNat (allowed rates events key n) now := by
  induction n generalizing now with
  | zero =>
    rw [before, Machine.stateAt_zero]
    exact holds_new (Nat.cast_nonneg _)
  | succ n ih =>
    have he := List.getElem?_eq_getElem (Nat.lt_of_succ_le hn)
    have hpast := ih (Nat.le_of_succ_le hn) fun j e hj hej => hsorted.le hj hej he
    have hafter := Holds.call hrate he (Nat.le_refl _) hpast
    exact hafter.congr rfl (Nat.cast_nonneg _) (hnow n _ (Nat.lt_succ_self n) he)

/-- The packets of a source and a limited rule that are allowed are within the envelope. -/
theorem countIn_allowed_le (hsorted : Sorted events) (hrate : rates key.2 ≠ 0) {t₀ t₁ : ℚ}
    (ht : t₀ ≤ t₁) : (countIn t₀ t₁ (allowed rates events key events.length) : ℚ) ≤
      (rates key.2).toNat + (rates key.2).toNat * (t₁ - t₀) := by
  have hlast : ∀ j e, j < events.length → events[j]? = some e →
      e.time ≤ (events.map Event.time).sum := fun j e _ hej =>
    List.le_sum_of_mem (List.mem_map_of_mem (List.mem_of_getElem? hej))
  exact (holds_before hsorted hrate le_rfl hlast).window ht

/-- A rule without a limit refuses no packet. -/
theorem allowedAt_of_zero (hzero : rates key.2 = 0) (he : events[n]? = some (.packet key now)) :
    allowedAt rates events n = true := by
  rw [allowedAt_eq he, RateLimiter.allow, if_pos hzero]

/-- No packet is refused as long as the packets of its source and rule are within the envelope. -/
theorem allowedAt_of_envelope (hsorted : Sorted events)
    (he : events[n]? = some (.packet key now))
    (henvelope : ∀ t₀ t₁, t₀ ≤ t₁ → (countIn t₀ t₁ (arrivals events key (n + 1)) : ℚ) ≤
      (rates key.2).toNat + (rates key.2).toNat * (t₁ - t₀)) :
    allowedAt rates events n = true := by
  rcases eq_or_ne (rates key.2) 0 with hzero | hrate
  · exact allowedAt_of_zero hzero he
  · rw [allowedAt_eq he]
    have hlen := (List.getElem?_eq_some_iff.mp he).1
    have hholds := holds_before hsorted hrate hlen.le fun j e hj hej => hsorted.le hj hej he
    refine (hholds.allow hrate (Nat.le_refl now)).2 fun t₀ ht₀ => ?_
    have harrivals : arrivals events key (n + 1) = secs now :: arrivals events key n := by
      rw [arrivals, he, Option.bind_some, Event.date?, if_pos rfl]
      rfl
    have hnow := henvelope t₀ (secs now) ht₀
    rw [harrivals, countIn_cons, if_pos ⟨ht₀, le_rfl⟩] at hnow
    have hcount : (countIn t₀ (secs now) (allowed rates events key n) : ℚ) ≤
        countIn t₀ (secs now) (arrivals events key n) :=
      Nat.cast_le.mpr (allowed_sublist.countP_le)
    push_cast at hnow
    linarith

end

/-! ## Sweeps -/

/-- A limiter that is swept and one that is not decide alike from now on: what only the second has
would be full by now. -/
structure Resembles (l l' : RateLimiter ℚ) (clock : Instant) : Prop where
  same : ∀ key, l.buckets.lookup key = l'.buckets.lookup key ∨
    l.buckets.lookup key = none ∧ ∃ b, l'.buckets.lookup key = some b ∧
      Duration.fromSecs 300 ≤ clock.durationSince b.lastRefill
  nonneg : ∀ key b, l'.buckets.lookup key = some b → 0 ≤ b.tokens

namespace Resembles

variable {l l' : RateLimiter ℚ} {clock now : Instant} {key : IpAddr × UInt32} {r : UInt32}

theorem refl_new : Resembles new new clock where
  same _ := .inl rfl
  nonneg _ _ h := by cases h

theorem later (h : Resembles l l' clock) (hle : clock ≤ now) : Resembles l l' now where
  same key := by
    rcases h.same key with heq | ⟨hnone, b, hb, hold⟩
    · exact .inl heq
    · exact .inr ⟨hnone, b, hb, hold.trans (Nat.sub_le_sub_right hle b.lastRefill)⟩
  nonneg := h.nonneg

variable (key) in
/-- Both have the same tokens for a packet, and not less than none. -/
theorem refilled_eq (h : Resembles l l' clock) (hle : clock ≤ now) (rate : ℚ)
    (hrate : 0 ≤ rate) :
    refilled ((l.buckets.lookup key).getD ⟨rate, now⟩) rate now =
        refilled ((l'.buckets.lookup key).getD ⟨rate, now⟩) rate now ∧
      0 ≤ refilled ((l'.buckets.lookup key).getD ⟨rate, now⟩) rate now := by
  have hnew : refilled ⟨rate, now⟩ rate now = rate := by
    rw [RateLimiter.refilled_eq (Nat.le_refl now), sub_self, mul_zero, add_zero, min_self]
  have hsecs (t : Instant) : 0 ≤ secs t := by
    simp only [secs, TokenArith.asSecs]
    positivity
  constructor
  · rcases (h.later hle).same key with heq | ⟨hnone, b, hb, hold⟩
    · rw [heq]
    · rw [hnone, hb, Option.getD_none, Option.getD_some, hnew, refilled,
        min_eq_right (le_refilled one_le_secs_maintenance hrate (h.nonneg key b hb) hold)]
  · cases hb : l'.buckets.lookup key with
    | none =>
      rw [Option.getD_none, hnew]
      exact hrate
    | some b =>
      rw [Option.getD_some, refilled]
      exact le_min (add_nonneg (h.nonneg key b hb) (mul_nonneg (hsecs _) hrate)) hrate

/-- Both get the same new bucket. -/
theorem insert (h : Resembles l l' clock) (b : Bucket ℚ) (hb : 0 ≤ b.tokens) :
    Resembles ⟨l.buckets.insert key b⟩ ⟨l'.buckets.insert key b⟩ clock where
  same key' := by
    rcases eq_or_ne key' key with rfl | hne
    · exact .inl ((AList.lookup_insert l.buckets).trans (AList.lookup_insert l'.buckets).symm)
    · rw [AList.lookup_insert_ne hne, AList.lookup_insert_ne hne]
      exact h.same key'
  nonneg key' b' hb' := by
    rcases eq_or_ne key' key with rfl | hne
    · cases (AList.lookup_insert _).symm.trans hb'
      exact hb
    · rw [AList.lookup_insert_ne hne] at hb'
      exact h.nonneg key' b' hb'

variable (key r) in
/-- A packet is decided alike. -/
theorem allow (h : Resembles l l' clock) (hle : clock ≤ now) :
    (l.allow key.1 key.2 r now).1 = (l'.allow key.1 key.2 r now).1 ∧
      Resembles (l.allow key.1 key.2 r now).2 (l'.allow key.1 key.2 r now).2 now := by
  rcases eq_or_ne r 0 with hr | hr
  · rw [RateLimiter.allow, RateLimiter.allow, if_pos hr, if_pos hr]
    exact ⟨rfl, h.later hle⟩
  · obtain ⟨heq, hnonneg⟩ := h.refilled_eq key hle r.toNat (Nat.cast_nonneg _)
    rw [allow_eq hr, allow_eq hr]
    dsimp only
    rw [heq]
    split
    · next htoken => exact ⟨rfl, (h.later hle).insert _ (sub_nonneg.mpr htoken)⟩
    · exact ⟨rfl, (h.later hle).insert _ hnonneg⟩

/-- One of them is swept. -/
theorem sweep (h : Resembles l l' clock) (hle : clock ≤ now) :
    Resembles (l.sweep (.fromSecs 300) now) l' now where
  same key := by
    cases hswept : (l.sweep (.fromSecs 300) now).buckets.lookup key with
    | some b =>
      obtain ⟨hb, -⟩ := lookup_sweep.mp hswept
      rcases h.same key with heq | ⟨hnone, -⟩
      · exact .inl (hb.symm.trans heq)
      · cases hnone.symm.trans hb
    | none =>
      rcases (h.later hle).same key with heq | ⟨-, hold⟩
      · cases hb : l.buckets.lookup key with
        | none => exact .inl (hb.symm.trans heq)
        | some b => exact .inr ⟨rfl, b, heq ▸ hb, maxIdle_le_of_lookup_sweep hswept hb⟩
      · exact .inr ⟨rfl, hold⟩
  nonneg := h.nonneg

end Resembles

/-- The decisions on the packets of a sequence. -/
def decisions (rates : UInt32 → UInt32) (l : RateLimiter ℚ) (events : List Event) : List Bool :=
  ((call rates).run l events).1.reduceOption

/-- The decisions are those of the sequence without its sweeps. -/
theorem Resembles.decisions_eq {rates : UInt32 → UInt32} {l l' : RateLimiter ℚ} {clock : Instant}
    {events : List Event} (h : Resembles l l' clock) (hsorted : Sorted events)
    (hclock : ∀ e ∈ events, clock ≤ e.time) :
    decisions rates l events = decisions rates l' (events.filter Event.isPacket) := by
  induction events generalizing l l' clock with
  | nil => rfl
  | cons e es ih =>
    obtain ⟨hfirst, hrest⟩ := List.pairwise_cons.mp hsorted
    have hle := hclock e List.mem_cons_self
    have hlater : ∀ e' ∈ es, e.time ≤ e'.time := fun e' he' =>
      hfirst e'.time (List.mem_map_of_mem he')
    cases e with
    | packet key now =>
      obtain ⟨heq, hnext⟩ := h.allow key (rates key.2) hle
      have hes := ih hnext hrest hlater
      rw [List.filter_cons_of_pos rfl]
      exact List.cons_eq_cons.mpr ⟨heq, hes⟩
    | sweep now =>
      have hes := ih (h.sweep hle) hrest hlater
      rw [List.filter_cons_of_neg (by exact Bool.false_ne_true), ← hes]
      rfl

/-! ## The envelope of a rate -/

/-- Whatever the packets and the sweeps, at times that do not decrease: of the packets of a source
and a limited rule those allowed in an interval of time are at most the rate and what it brings in
the interval, and of a rule without a limit all are allowed; none is refused that is within this
envelope with those before it; and the decisions are those of the packets without the sweeps. -/
theorem envelope (rates : UInt32 → UInt32) {events : List Event} (hsorted : Sorted events)
    (key : IpAddr × UInt32) :
    (rates key.2 ≠ 0 → ∀ t₀ t₁, t₀ ≤ t₁ →
      (countIn t₀ t₁ (allowed rates events key events.length) : ℚ) ≤
        (rates key.2).toNat + (rates key.2).toNat * (t₁ - t₀)) ∧
    (rates key.2 = 0 → ∀ n now, events[n]? = some (.packet key now) →
      allowedAt rates events n = true) ∧
    (∀ n now, events[n]? = some (.packet key now) →
      (∀ t₀ t₁, t₀ ≤ t₁ → (countIn t₀ t₁ (arrivals events key (n + 1)) : ℚ) ≤
        (rates key.2).toNat + (rates key.2).toNat * (t₁ - t₀)) →
      allowedAt rates events n = true) ∧
    decisions rates new events = decisions rates new (events.filter Event.isPacket) :=
  ⟨fun hrate _ _ ht => countIn_allowed_le hsorted hrate ht,
    fun hzero _ _ he => allowedAt_of_zero hzero he,
    fun _ _ he henvelope => allowedAt_of_envelope hsorted he henvelope,
    Resembles.refl_new.decisions_eq hsorted fun _ _ => Nat.zero_le _⟩

/-- One packet a second for a rule, and no limit for the others. -/
def sampleRates (ruleId : UInt32) : UInt32 := if ruleId = 0 then 1 else 0

/-- Two packets of a source within a second for the limited rule, and two at once for another one;
a sweep, and a packet six minutes later. -/
def sampleEvents : List Event :=
  [.packet (.v4 1, 0) 0, .packet (.v4 1, 0) (5 * 10 ^ 8), .packet (.v4 1, 1) (5 * 10 ^ 8),
    .packet (.v4 1, 1) (5 * 10 ^ 8), .sweep (330 * 10 ^ 9), .packet (.v4 1, 0) (360 * 10 ^ 9)]

theorem sorted_sampleEvents : Sorted sampleEvents := by
  unfold Sorted
  decide

theorem envelope_sample :
    decisions sampleRates new sampleEvents = [true, false, true, true, true] ∧
    (∀ t₀ t₁, t₀ ≤ t₁ →
      (countIn t₀ t₁ (allowed sampleRates sampleEvents (.v4 1, 0) 6) : ℚ) ≤
        (1 : UInt32).toNat + (1 : UInt32).toNat * (t₁ - t₀)) ∧
    allowedAt sampleRates sampleEvents 3 = true ∧
    decisions sampleRates new sampleEvents =
      decisions sampleRates new (sampleEvents.filter Event.isPacket) := by
  obtain ⟨hlimited, -, -, hswept⟩ := envelope sampleRates sorted_sampleEvents (.v4 1, 0)
  obtain ⟨-, hunlimited, -, -⟩ := envelope sampleRates sorted_sampleEvents (.v4 1, 1)
  have hrate : (1 : UInt32) ≠ 0 := by decide
  exact ⟨by decide +kernel, hlimited hrate, hunlimited rfl 3 _ rfl, hswept⟩

/-- A rate of zero is no limit. -/
theorem not_countIn_allowed_le :
    ¬ ∀ (rates : UInt32 → UInt32) (events : List Event), Sorted events →
      ∀ (key : IpAddr × UInt32) (t₀ t₁ : ℚ), t₀ ≤ t₁ →
        (countIn t₀ t₁ (allowed rates events key events.length) : ℚ) ≤
          (rates key.2).toNat + (rates key.2).toNat * (t₁ - t₀) := by
  intro h
  have hsorted : Sorted [.packet (.v4 1, 0) 0] := List.pairwise_singleton _ _
  have hone := h (fun _ => 0) _ hsorted (.v4 1, 0) 0 0 le_rfl
  exact absurd hone (by decide +kernel)

end ActiveDefense.Firewall.RateLimiter
