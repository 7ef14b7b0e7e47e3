import ActiveDefense.Lib.Run
import ActiveDefense.Lib.SlidingWindow
import ActiveDefense.Nsm.Xdp
import Mathlib.Data.List.Perm.Subperm

/-!
# The rate of blocks

`block_ipv4_inner` asks the rate limiter under its lock, and inserts into the kernel map later,
under the lock of the map. Between the two steps of one call come steps of others. The limiter
admits at most `rate_limit` calls in any span of `rate_window` (`Governed`), so as many inserts at
most fall into one whose calls were admitted in it (`inserts_le`); those of calls that were admitted
before come on top (`not_inserts_le_rateLimit`).
-/

namespace ActiveDefense.Nsm

/-! ## The calls in progress -/

/-- A call that the limiter has admitted, and that has yet to insert its key. -/
structure AdmittedCall where
  admitted : Nat
  key : PrefixKey 32
  ttlNs : Nat
deriving DecidableEq

/-- A call that has inserted its key. -/
structure InsertedCall where
  admitted : Nat
  inserted : Nat
deriving DecidableEq

/-- What the calls share, those between their two steps, and what has happened so far. -/
structure Blocker (M : Type) where
  rateLimiter : RateLimiter
  blocklist : M
  pending : List AdmittedCall
  clock : Nat
  admissions : List Nat
  inserts : List InsertedCall

/-- What happens next: a thread calls `block_ipv4` or `force_block_ipv4`, one of the admitted calls
goes on, or the map is changed elsewhere. -/
inductive BlockAction (M : Type) where
  | request (ip : Ipv4Addr) (ttlNs : Nat) (prefixLen : Option UInt8) (bypassEnforceGate : Bool)
  | insert (i : Nat) (wallNs : UInt64)
  | elsewhere (blocklist : M)

variable {M : Type}

/-- A capture handle at work. -/
def Blocker.ofCapture (c : XdpCapture M) (clock : Nat) : Blocker M where
  rateLimiter := c.rateLimiter
  blocklist := c.blocklist
  pending := []
  clock := clock
  admissions := []
  inserts := []

/-- `block_ipv4_inner` up to the limiter. -/
def Blocker.request (config : AutoBlockConfig) (s : Blocker M) (instant : Nat) (ip : Ipv4Addr)
    (ttlNs : Nat) (prefixLen : Option UInt8) (bypassEnforceGate : Bool) : Blocker M :=
  if config.allowlists ip then { s with clock := instant }
  else if !config.enforce && !bypassEnforceGate then { s with clock := instant }
  else
    let (allowed, rateLimiter) := s.rateLimiter.allow instant
    if !allowed then { s with rateLimiter, clock := instant }
    else
      { s with
        rateLimiter
        clock := instant
        pending := s.pending ++ [⟨instant, config.blockKey ip prefixLen, ttlNs⟩]
        admissions := s.admissions ++ [instant] }

/-- What a request comes to: it stops before the limiter, or there, or it is admitted. -/
theorem Blocker.request_cases (config : AutoBlockConfig) (s : Blocker M) (instant : Nat)
    (ip : Ipv4Addr) (ttlNs : Nat) (prefixLen : Option UInt8) (bypass : Bool) :
    ((config.allowlists ip || (!config.enforce && !bypass)) = true ∧
      s.request config instant ip ttlNs prefixLen bypass = { s with clock := instant }) ∨
    ((config.allowlists ip || (!config.enforce && !bypass)) = false ∧
      (s.rateLimiter.allow instant).1 = false ∧
      s.request config instant ip ttlNs prefixLen bypass =
        { s with rateLimiter := (s.rateLimiter.allow instant).2, clock := instant }) ∨
    ((config.allowlists ip || (!config.enforce && !bypass)) = false ∧
      (s.rateLimiter.allow instant).1 = true ∧
      s.request config instant ip ttlNs prefixLen bypass =
        { s with
          rateLimiter := (s.rateLimiter.allow instant).2
          clock := instant
          pending := s.pending ++ [⟨instant, config.blockKey ip prefixLen, ttlNs⟩]
          admissions := s.admissions ++ [instant] }) := by
  unfold request
  cases config.allowlists ip with
  | true => exact .inl ⟨rfl, rfl⟩
  | false =>
    cases !config.enforce && !bypass with
    | true => exact .inl ⟨rfl, rfl⟩
    | false =>
      obtain ⟨allowed, rateLimiter⟩ := s.rateLimiter.allow instant
      cases allowed with
      | false => exact .inr (.inl ⟨rfl, rfl, rfl⟩)
      | true => exact .inr (.inr ⟨rfl, rfl, rfl⟩)

section
variable [PrefixMap M 32 UInt64]

/-- `block_ipv4_inner` from there on. -/
def Blocker.insert (s : Blocker M) (instant : Nat) (i : Nat) (call : AdmittedCall)
    (wallNs : UInt64) : Blocker M :=
  let s := { s with clock := instant, pending := s.pending.eraseIdx i }
  match PrefixMap.insert s.blocklist call.key (expiryNs wallNs call.ttlNs) with
  | none => s
  | some blocklist =>
    { s with blocklist, inserts := s.inserts ++ [⟨call.admitted, instant⟩] }

/-- The state after an action at an instant. -/
def Blocker.next (config : AutoBlockConfig) (s : Blocker M) :
    Nat × BlockAction M → Option (Blocker M)
  | (instant, .request ip ttlNs prefixLen bypassEnforceGate) =>
    some (s.request config instant ip ttlNs prefixLen bypassEnforceGate)
  | (instant, .insert i wallNs) => (s.pending[i]?).map fun call => s.insert instant i call wallNs
  | (instant, .elsewhere blocklist) => some { s with blocklist, clock := instant }

/-- A step, at an instant that is not before the last one. -/
def BlockStep (config : AutoBlockConfig) (s : Blocker M) (a : Nat × BlockAction M)
    (t : Blocker M) : Prop :=
  s.clock ≤ a.1 ∧ s.next config a = some t

/-- A call whose two steps come one after the other does to the map what `blockIpv4Inner` does. -/
theorem request_insert_eq (c : XdpCapture M) (env : Env) (ip : Ipv4Addr) (ttlNs : Nat)
    (prefixLen : Option UInt8) (bypass : Bool) :
    let s :=
      (Blocker.ofCapture c env.instant).request c.config env.instant ip ttlNs prefixLen bypass
    let after := (c.blockIpv4Inner env ip ttlNs prefixLen bypass).2.blocklist
    (c.admits env ip bypass = false → s.pending = [] ∧ s.blocklist = after) ∧
    (c.admits env ip bypass = true →
      ∃ t, s.next c.config (env.instant, .insert 0 env.wallNs) = some t ∧ t.blocklist = after) := by
  intro s after
  have hafter : after = _ := c.blockIpv4Inner_blocklist env ip ttlNs prefixLen bypass
  have hgates : c.admits env ip bypass =
      (!(c.config.allowlists ip || (!c.config.enforce && !bypass)) &&
        (c.rateLimiter.allow env.instant).1) := by
    rw [XdpCapture.admits, Bool.not_or, Bool.not_and, Bool.not_not, Bool.not_not]
  obtain ⟨hgate, hs⟩ | ⟨hgate, hallow, hs⟩ | ⟨hgate, hallow, hs⟩ :=
    (Blocker.ofCapture c env.instant).request_cases c.config env.instant ip ttlNs prefixLen bypass
  · have hadmits : c.admits env ip bypass = false := by rw [hgates, hgate]; rfl
    rw [hadmits] at hafter ⊢
    have hs' : s = _ := hs
    rw [hs', hafter]
    exact ⟨fun _ => ⟨rfl, rfl⟩, nofun⟩
  · have hadmits : c.admits env ip bypass = false := by
      rw [hgates, hgate]
      exact hallow
    rw [hadmits] at hafter ⊢
    have hs' : s = _ := hs
    rw [hs', hafter]
    exact ⟨fun _ => ⟨rfl, rfl⟩, nofun⟩
  · have hadmits : c.admits env ip bypass = true := by
      rw [hgates, hgate]
      exact hallow
    rw [hadmits] at hafter ⊢
    refine ⟨nofun, fun _ => ?_⟩
    have hs' : s = _ := hs
    rw [hs', hafter, if_pos rfl]
    refine ⟨_, rfl, ?_⟩
    simp only [Blocker.insert, Blocker.ofCapture]
    cases PrefixMap.insert c.blocklist (c.config.blockKey ip prefixLen)
      (expiryNs env.wallNs ttlNs) <;> rfl

end

/-! ## The limiter -/

/-- The limiter's times are in order and its length fits, so it forgets what is over and nothing
else, and compares the length that it has. -/
theorem RateLimiter.allow_eq {rl : RateLimiter} (now : Nat) (hsorted : rl.events.Pairwise (· ≤ ·))
    (hfew : rl.events.length ≤ rl.limit.toNat) :
    rl.allow now =
      if (within (rl.window + 1) now rl.events).length < rl.limit.toNat then
        (true, { rl with events := within (rl.window + 1) now rl.events ++ [now] })
      else (false, { rl with events := within (rl.window + 1) now rl.events }) := by
  have hforget : (rl.events.dropWhile fun front => rl.window < now - front) =
      within (rl.window + 1) now rl.events := dropWhile_eq_within hsorted
  have hlen : (within (rl.window + 1) now rl.events).length ≤ rl.limit.toNat :=
    Nat.le_trans (List.length_filter_le _ _) hfew
  have hfull : rl.limit ≤ UInt32.ofNat (within (rl.window + 1) now rl.events).length ↔
      ¬ (within (rl.window + 1) now rl.events).length < rl.limit.toNat := by
    rw [UInt32.le_iff_toNat_le,
      UInt32.toNat_ofNat_of_lt' (Nat.lt_of_le_of_lt hlen rl.limit.toNat_lt), Nat.not_lt]
  rw [allow, hforget]
  by_cases hroom : (within (rl.window + 1) now rl.events).length < rl.limit.toNat
  · rw [if_pos hroom, if_neg (fun h => hfull.mp h hroom)]
  · rw [if_neg hroom, if_pos (hfull.mpr hroom)]

/-- A time as an event of `Limited`. -/
def stamp (t : Nat) : Stamped := ⟨t, t⟩

/-- The limiter remembers the admissions that still count, and never admitted more than its limit in
a window; every call that has been inserted or is yet to be has an admission of its own. -/
structure Governed (config : AutoBlockConfig) (s : Blocker M) : Prop where
  limit : s.rateLimiter.limit = config.rateLimit
  window : s.rateLimiter.window = config.rateWindow
  sorted : s.rateLimiter.events.Pairwise (· ≤ ·)
  past : ∀ t ∈ s.rateLimiter.events, t ≤ s.clock
  limited : Limited (config.rateWindow + 1) config.rateLimit.toNat (s.admissions.map stamp)
    s.rateLimiter.events s.clock
  calls : (s.inserts.map (·.admitted) ++ s.pending.map (·.admitted)).Subperm s.admissions
  pending : ∀ call ∈ s.pending, call.admitted ≤ s.clock
  ordered : ∀ call ∈ s.inserts, call.admitted ≤ call.inserted

/-- Time goes on. -/
theorem Governed.later {config : AutoBlockConfig} {s : Blocker M} (h : Governed config s)
    {instant : Nat} (hclock : s.clock ≤ instant) (blocklist : M) :
    Governed config { s with clock := instant, blocklist } :=
  { h with
    past := fun t ht => Nat.le_trans (h.past t ht) hclock
    limited := h.limited.later hclock
    pending := fun call hcall => Nat.le_trans (h.pending call hcall) hclock }

/-- The limiter admits a call, or it does not. -/
theorem Governed.request {config : AutoBlockConfig} {s : Blocker M} (h : Governed config s)
    {instant : Nat} (hclock : s.clock ≤ instant) (ip : Ipv4Addr) (ttlNs : Nat)
    (prefixLen : Option UInt8) (bypass : Bool) :
    Governed config (s.request config instant ip ttlNs prefixLen bypass) := by
  have hlater := h.later hclock s.blocklist
  have hfew : s.rateLimiter.events.length ≤ s.rateLimiter.limit.toNat := h.limit ▸ h.limited.few
  have hallow := RateLimiter.allow_eq instant h.sorted hfew
  rw [h.limit, h.window] at hallow
  have hpast : ∀ t ∈ within (config.rateWindow + 1) instant s.rateLimiter.events, t ≤ instant :=
    fun t ht => hlater.past t (List.mem_of_mem_filter ht)
  have hsorted := h.sorted.filter (fun t => decide (instant - t < config.rateWindow + 1))
  obtain ⟨-, hs⟩ | ⟨-, hdenied, hs⟩ | ⟨-, hallowed, hs⟩ :=
    s.request_cases config instant ip ttlNs prefixLen bypass
  · exact hs ▸ hlater
  · split at hallow
    · rw [hallow] at hdenied
      cases hdenied
    · rw [hs, hallow]
      exact { hlater with
        limit := rfl, window := rfl, sorted := hsorted, past := hpast
        limited := h.limited.forget hclock }
  · split at hallow
    · next hroom =>
      rw [hs, hallow]
      have hadmit := h.limited.admit (stamp instant) hclock (Nat.le_refl _) (Nat.le_refl _) hroom
      refine { hlater with
        limit := rfl, window := rfl, sorted := ?_, past := fun t ht => ?_
        limited := ?_, calls := ?_, pending := fun call hcall => ?_ }
      · refine List.pairwise_append.mpr
          ⟨hsorted, List.pairwise_singleton _ _, fun t ht t' ht' => ?_⟩
        rw [List.mem_singleton.mp ht']
        exact hpast t ht
      · rcases List.mem_append.mp ht with ht | ht
        · exact hpast t ht
        · exact Nat.le_of_eq (List.mem_singleton.mp ht)
      · rw [List.map_append]
        exact hadmit
      · rw [List.map_append, ← List.append_assoc]
        exact h.calls.append (List.Subperm.refl _)
      · rcases List.mem_append.mp hcall with hcall | hcall
        · exact hlater.pending call hcall
        · cases List.mem_singleton.mp hcall
          exact Nat.le_refl _
    · rw [hallow] at hallowed
      cases hallowed

/-- The calls that were admitted and have inserted within a window are no more than the limit. -/
theorem Governed.countP_le {config : AutoBlockConfig} {s : Blocker M} (h : Governed config s)
    {a b : Nat} (hab : b ≤ a + config.rateWindow) :
    s.inserts.countP (fun e => decide (a ≤ e.admitted ∧ e.inserted ≤ b)) ≤
      config.rateLimit.toNat := by
  let inWindow (t : Nat) : Bool := decide (a ≤ t ∧ t < a + (config.rateWindow + 1))
  have hown : (s.inserts.map (·.admitted)).Subperm s.admissions :=
    (List.sublist_append_left _ _).subperm.trans h.calls
  calc s.inserts.countP (fun e => decide (a ≤ e.admitted ∧ e.inserted ≤ b))
      ≤ (s.inserts.map (·.admitted)).countP inWindow := by
        rw [List.countP_map]
        refine List.countP_mono_left fun e he hin => ?_
        have hordered := h.ordered e he
        simp only [inWindow, Function.comp_apply, decide_eq_true_eq] at hin ⊢
        omega
    _ ≤ s.admissions.countP inWindow := hown.countP_le inWindow
    _ = countFrom (config.rateWindow + 1) a (s.admissions.map stamp) := by
        rw [countFrom, List.countP_map]
        rfl
    _ ≤ config.rateLimit.toNat := h.limited.bounded a

section
variable [PrefixMap M 32 UInt64]

theorem governed_ofCapture (config : AutoBlockConfig) (iface : Str) (persist : Option FileRead)
    (now : UInt64) (clock : Nat) :
    Governed config (.ofCapture (start config iface persist now : XdpCapture M) clock) where
  limit := rfl
  window := rfl
  sorted := .nil
  past := nofun
  limited := limited_nil clock
  calls := List.Subperm.refl []
  pending := nofun
  ordered := nofun

theorem Governed.insert {config : AutoBlockConfig} {s : Blocker M} (h : Governed config s)
    {instant i : Nat} (hclock : s.clock ≤ instant) {call : AdmittedCall}
    (hcall : s.pending[i]? = some call) (wallNs : UInt64) :
    Governed config (s.insert instant i call wallNs) := by
  have hmem : call ∈ s.pending := List.mem_of_getElem? hcall
  have hperm : (call :: s.pending.eraseIdx i).Perm s.pending := by
    obtain ⟨hi, rfl⟩ := List.getElem?_eq_some_iff.mp hcall
    exact List.getElem_cons_eraseIdx_perm hi
  have hlater := h.later hclock s.blocklist
  have hpending : ∀ call' ∈ s.pending.eraseIdx i, call'.admitted ≤ instant :=
    fun call' hcall' => hlater.pending call' (List.mem_of_mem_eraseIdx hcall')
  unfold Blocker.insert
  dsimp only
  split
  · refine { hlater with calls := List.Subperm.trans ?_ h.calls, pending := hpending }
    exact (List.Sublist.append_left ((List.eraseIdx_sublist ..).map _) _).subperm
  · refine { hlater with calls := ?_, pending := hpending, ordered := fun call' hcall' => ?_ }
    · refine (List.Perm.subperm ?_).trans h.calls
      rw [List.map_append, List.append_assoc]
      exact (hperm.map AdmittedCall.admitted).append_left _
    · rcases List.mem_append.mp hcall' with hcall' | hcall'
      · exact h.ordered call' hcall'
      · cases List.mem_singleton.mp hcall'
        exact hlater.pending call hmem

theorem Governed.step {config : AutoBlockConfig} {s t : Blocker M} (h : Governed config s)
    {l : Nat × BlockAction M} (hstep : BlockStep config s l t) : Governed config t := by
  obtain ⟨hclock, hnext⟩ := hstep
  obtain ⟨instant, action⟩ := l
  cases action with
  | request ip ttlNs prefixLen bypass =>
    cases hnext
    exact h.request hclock ip ttlNs prefixLen bypass
  | insert i wallNs =>
    obtain ⟨call, hcall, rfl⟩ := Option.map_eq_some_iff.mp hnext
    exact h.insert hclock hcall wallNs
  | elsewhere blocklist =>
    cases hnext
    exact h.later hclock blocklist

/-- Whatever the threads do and whenever: within a span of at most `rate_window` no more than
`rate_limit` entries are inserted, but for those of calls that the limiter had admitted before. -/
theorem inserts_le (config : AutoBlockConfig) (iface : Str) (persist : Option FileRead)
    (now : UInt64) (clock : Nat) {ls : List (Nat × BlockAction M)} {s : Blocker M}
    (h : Run (BlockStep config) (fun _ _ => True)
      (.ofCapture (start config iface persist now) clock) ls s)
    {a b : Nat} (hab : b ≤ a + config.rateWindow) :
    s.inserts.countP (fun e => decide (a ≤ e.inserted ∧ e.inserted ≤ b)) ≤
      config.rateLimit.toNat +
        s.inserts.countP fun e => decide (e.admitted < a ∧ a ≤ e.inserted ∧ e.inserted ≤ b) := by
  have hgoverned := h.invariant (governed_ofCapture config iface persist now clock)
    fun _ _ _ hs _ hstep => hs.step hstep
  have hsplit := List.countP_eq_countP_filter_add s.inserts
    (fun e => decide (a ≤ e.inserted ∧ e.inserted ≤ b)) fun e => decide (e.admitted < a)
  rw [hsplit, List.countP_filter, List.countP_filter, Nat.add_comm]
  refine Nat.add_le_add (Nat.le_trans (List.countP_mono_left fun e he hin => ?_)
    (hgoverned.countP_le hab)) (List.countP_mono_left fun e he hin => ?_)
  · have hordered := hgoverned.ordered e he
    simp only [Bool.and_eq_true, Bool.not_eq_true', decide_eq_true_eq,
      decide_eq_false_iff_not] at hin ⊢
    omega
  · simp only [Bool.and_eq_true, decide_eq_true_eq] at hin ⊢
    omega

end

/-- One block a minute. -/
def oneAMinute : AutoBlockConfig := { AutoBlockConfig.default with enforce := true, rateLimit := 1 }

/-- A handle without blocks. -/
def idleBlocker : Blocker (ListTrie 32 UInt64 16) :=
  .ofCapture (start oneAMinute "eth0".toList none 0) 0

/-- Thread `A` is admitted at 0 s and goes on at 61 s, when thread `B` has been admitted too. -/
def delayedInsert : List (Nat × BlockAction (ListTrie 32 UInt64 16)) :=
  [(0, .request (Ipv4Addr.new 10 0 0 8) (300 * 10 ^ 9) none false),
    (61 * 10 ^ 9, .request (Ipv4Addr.new 10 0 0 9) (300 * 10 ^ 9) none false),
    (61 * 10 ^ 9, .insert 0 0), (61 * 10 ^ 9, .insert 0 0)]

/-- The states that a list of actions leads to, as far as it can be followed. -/
def Blocker.follow (config : AutoBlockConfig) (s : Blocker (ListTrie 32 UInt64 16))
    (a : Nat × BlockAction (ListTrie 32 UInt64 16)) : Option (Blocker (ListTrie 32 UInt64 16)) :=
  if s.clock ≤ a.1 then s.next config a else none

theorem blockStep_of_follow {config : AutoBlockConfig} {s t : Blocker (ListTrie 32 UInt64 16)}
    {a : Nat × BlockAction (ListTrie 32 UInt64 16)} (h : s.follow config a = some t) :
    BlockStep config s a t := by
  unfold Blocker.follow at h
  split at h
  · next hclock => exact ⟨hclock, h⟩
  · cases h

/-- Both insert at 61 s. -/
theorem exists_delayedInsert :
    ∃ s, Run (BlockStep oneAMinute) (fun _ _ => True) idleBlocker delayedInsert s ∧
      s.inserts = [⟨0, 61 * 10 ^ 9⟩, ⟨61 * 10 ^ 9, 61 * 10 ^ 9⟩] := by
  have htwo : (delayedInsert.foldlM (Blocker.follow oneAMinute) idleBlocker).map (·.inserts) =
      some [⟨0, 61 * 10 ^ 9⟩, ⟨61 * 10 ^ 9, 61 * 10 ^ 9⟩] := by
    decide
  obtain ⟨s, hs, hinserts⟩ := Option.map_eq_some_iff.mp htwo
  exact ⟨s, Run.of_foldlM (fun _ _ _ => blockStep_of_follow) hs, hinserts⟩

/-- One of the two inserts in the minute from 61 s on is of a call admitted before. -/
theorem inserts_le_delayed :
    ∃ s, Run (BlockStep oneAMinute) (fun _ _ => True) idleBlocker delayedInsert s ∧
      s.inserts.countP (fun e => decide (61 * 10 ^ 9 ≤ e.inserted ∧ e.inserted ≤ 121 * 10 ^ 9)) ≤
        oneAMinute.rateLimit.toNat + s.inserts.countP fun e =>
          decide (e.admitted < 61 * 10 ^ 9 ∧ 61 * 10 ^ 9 ≤ e.inserted ∧
            e.inserted ≤ 121 * 10 ^ 9) := by
  obtain ⟨s, hrun, -⟩ := exists_delayedInsert
  exact ⟨s, hrun, inserts_le oneAMinute _ none 0 0 hrun (by decide)⟩

/-- Both are in one second, where one a minute is allowed. -/
theorem not_inserts_le_rateLimit :
    ¬ ∀ (config : AutoBlockConfig) (ls : List (Nat × BlockAction (ListTrie 32 UInt64 16)))
      (s : Blocker (ListTrie 32 UInt64 16)) (a b : Nat),
      Run (BlockStep config) (fun _ _ => True)
        (.ofCapture (start config "eth0".toList none 0) 0) ls s →
      b ≤ a + config.rateWindow →
      s.inserts.countP (fun e => decide (a ≤ e.inserted ∧ e.inserted ≤ b)) ≤
        config.rateLimit.toNat := by
  intro h
  obtain ⟨s, hrun, hinserts⟩ := exists_delayedInsert
  have hle := h oneAMinute delayedInsert s (61 * 10 ^ 9) (61 * 10 ^ 9) hrun (by decide)
  rw [hinserts] at hle
  exact absurd hle (by decide)

end ActiveDefense.Nsm
