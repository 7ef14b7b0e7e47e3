import ActiveDefense.Nsm.Persist

/-!
# The userspace half of the XDP path

`XdpCapture` owns the kernel map `BLOCKLIST_V4` and changes it in four ways: `start` restores the
persisted file, `blockIpv4Inner` inserts a prefix, `unblockIpv4` removes one, and the sweep removes
the expired ones. What an operation reads from outside (the clocks, whether the persisted file
could be replaced) is its `Env`. Each operation has one lemma that says what it can do to the map.
-/

namespace ActiveDefense.Nsm

/-- `AutoBlockConfig`; the window is in nanoseconds. -/
structure AutoBlockConfig where
  allowlist : List Ipv4Network
  enforce : Bool
  prefixLen : UInt8
  rateLimit : UInt32
  rateWindow : Nat
deriving DecidableEq, Repr

/-- `AutoBlockConfig::default`. -/
def AutoBlockConfig.default : AutoBlockConfig where
  allowlist := []
  enforce := false
  prefixLen := 32
  rateLimit := 20
  rateWindow := 60 * 10 ^ 9

/-- Whether the address is in one of the networks that must never be blocked. -/
def AutoBlockConfig.allowlists (config : AutoBlockConfig) (ip : Ipv4Addr) : Bool :=
  config.allowlist.any fun net => net.contains ip

/-- What one operation reads from outside: `now_ns`, `Instant::now` in nanoseconds, and whether the
persisted file can be written and renamed. -/
structure Env where
  wallNs : UInt64
  instant : Nat
  writeOk : Bool
deriving DecidableEq, Repr

/-! ## The rate limiter -/

/-- `RateLimiter`, its events oldest first. -/
structure RateLimiter where
  events : List Nat
  limit : UInt32
  window : Nat
deriving DecidableEq, Repr

def RateLimiter.new (limit : UInt32) (window : Nat) : RateLimiter := ⟨[], limit, window⟩

/-- `RateLimiter::allow`. -/
def RateLimiter.allow (rl : RateLimiter) (now : Nat) : Bool × RateLimiter :=
  let events := rl.events.dropWhile fun front => rl.window < now - front
  if rl.limit ≤ UInt32.ofNat events.length then (false, { rl with events })
  else (true, { rl with events := events ++ [now] })

/-! ## The capture handle -/

/-- `XdpCapture`. `persist` is `none` without a persistence path, and otherwise what reading the
file at that path gives. -/
structure XdpCapture (M : Type) where
  blocklist : M
  iface : Str
  config : AutoBlockConfig
  rateLimiter : RateLimiter
  persist : Option FileRead
deriving Repr

/-- `BlockOutcome`. -/
inductive BlockOutcome where
  | blocked
  | allowlisted
  | observeOnly
  | rateLimited
deriving DecidableEq, Repr

/-- `Key::new(prefix_len, ip.octets())`. -/
def blockKey (ip : Ipv4Addr) (prefixLen : UInt8) : PrefixKey 32 := ⟨prefixLen.toNat, ip⟩

/-- `prefix_len.clamp(1, 32)`. -/
def clampPrefix (prefixLen : UInt8) : UInt8 :=
  if prefixLen < 1 then 1 else if 32 < prefixLen then 32 else prefixLen

/-- The key a block of `ip` is inserted at: the configured length unless one is given. -/
def AutoBlockConfig.blockKey (config : AutoBlockConfig) (ip : Ipv4Addr)
    (prefixLen : Option UInt8) : PrefixKey 32 :=
  Nsm.blockKey ip (clampPrefix (prefixLen.getD config.prefixLen))

/-- The key an unblock of `ip` removes. -/
def unblockKey (ip : Ipv4Addr) (prefixLen : Option UInt8) : PrefixKey 32 :=
  blockKey ip (clampPrefix (prefixLen.getD 32))

/-- The expiry a block stores: `now_ns() + ttl.as_nanos() as u64`. -/
def expiryNs (wallNs : UInt64) (ttlNs : Nat) : UInt64 := wallNs + UInt64.ofNat ttlNs

/-- The context `block_ipv4_inner` gives a failed insert. -/
def insertError (ip : Ipv4Addr) (key : PrefixKey 32) : Str :=
  "inserting ".toList ++ ip.display ++ '/' :: decimal key.prefixLen ++ " into BLOCKLIST_V4".toList

section
variable {M : Type} [PrefixMap M 32 UInt64]

/-- `list_blocked_raw`. -/
def listBlockedRaw (m : M) : List BlocklistEntry :=
  (PrefixMap.entries m).map fun e => (e.1.data, UInt8.ofNat e.1.prefixLen, e.2)

/-- `list_blocked`: the live entries with their remaining seconds. -/
def listBlocked (m : M) (now : UInt64) : List BlocklistEntry :=
  (PrefixMap.entries m).filterMap fun e =>
    if e.2 ≤ now then none
    else some (e.1.data, UInt8.ofNat e.1.prefixLen, (e.2 - now) / 1000000000)

/-- `persist_blocklist`: a failed write leaves the file as it was. -/
def XdpCapture.persistBlocklist (c : XdpCapture M) (env : Env) : XdpCapture M :=
  match c.persist with
  | none => c
  | some _ =>
    if env.writeOk then
      { c with persist := some (.contents (renderBlocklist (listBlockedRaw c.blocklist))) }
    else c

/-- `block_ipv4_inner`. -/
def XdpCapture.blockIpv4Inner (c : XdpCapture M) (env : Env) (ip : Ipv4Addr) (ttlNs : Nat)
    (prefixLen : Option UInt8) (bypassEnforceGate : Bool) :
    Except Str BlockOutcome × XdpCapture M :=
  if c.config.allowlists ip then (.ok .allowlisted, c)
  else if !c.config.enforce && !bypassEnforceGate then (.ok .observeOnly, c)
  else
    let (allowed, rateLimiter) := c.rateLimiter.allow env.instant
    let c := { c with rateLimiter }
    if !allowed then (.ok .rateLimited, c)
    else
      let key := c.config.blockKey ip prefixLen
      match PrefixMap.insert c.blocklist key (expiryNs env.wallNs ttlNs) with
      | none => (.error (insertError ip key), c)
      | some blocklist => (.ok .blocked, { c with blocklist }.persistBlocklist env)

/-- `block_ipv4`, the automatic path. -/
def XdpCapture.blockIpv4 (c : XdpCapture M) (env : Env) (ip : Ipv4Addr) (ttlNs : Nat)
    (prefixLen : Option UInt8) : Except Str BlockOutcome × XdpCapture M :=
  c.blockIpv4Inner env ip ttlNs prefixLen false

/-- `force_block_ipv4`, the control socket's. -/
def XdpCapture.forceBlockIpv4 (c : XdpCapture M) (env : Env) (ip : Ipv4Addr) (ttlNs : Nat)
    (prefixLen : Option UInt8) : Except Str BlockOutcome × XdpCapture M :=
  c.blockIpv4Inner env ip ttlNs prefixLen true

/-- `unblock_ipv4`: removing a key that is not stored is no error. -/
def XdpCapture.unblockIpv4 (c : XdpCapture M) (env : Env) (ip : Ipv4Addr)
    (prefixLen : Option UInt8) : XdpCapture M :=
  let blocklist := (PrefixMap.remove c.blocklist (unblockKey ip prefixLen)).getD c.blocklist
  { c with blocklist }.persistBlocklist env

/-- The first half of a sweep: the keys of the expired entries. -/
def expiredKeys (m : M) (now : UInt64) : List (PrefixKey 32) :=
  ((PrefixMap.entries m).filter fun e => e.2 ≤ now).map (·.1)

/-- The second half of a sweep, under a new lock: the collected keys are removed. -/
def removeKeys (m : M) (keys : List (PrefixKey 32)) : M :=
  keys.foldl (fun m key => (PrefixMap.remove m key).getD m) m

/-- One entry of the persisted file at start-up: an expired one is skipped, a failed insert is only
logged. The allowlist is not consulted. -/
def restoreEntry (now : UInt64) (m : M) (e : BlocklistEntry) : M :=
  if e.2.2 ≤ now then m else (PrefixMap.insert m (blockKey e.1 e.2.1) e.2.2).getD m

/-- `start`, as far as the handle: a file that cannot be read restores nothing. -/
def start (config : AutoBlockConfig) (iface : Str) (persist : Option FileRead) (now : UInt64) :
    XdpCapture M where
  blocklist :=
    match persist with
    | none => PrefixMap.empty
    | some file =>
      ((loadPersistedBlocklist file).getD []).foldl (restoreEntry now) PrefixMap.empty
  iface := iface
  config := config
  rateLimiter := .new config.rateLimit config.rateWindow
  persist := persist

/-! ## What an operation can do to the map -/

@[simp]
theorem XdpCapture.persistBlocklist_blocklist (c : XdpCapture M) (env : Env) :
    (c.persistBlocklist env).blocklist = c.blocklist := by
  unfold persistBlocklist
  split
  · rfl
  · split <;> rfl

@[simp]
theorem XdpCapture.persistBlocklist_config (c : XdpCapture M) (env : Env) :
    (c.persistBlocklist env).config = c.config := by
  unfold persistBlocklist
  split
  · rfl
  · split <;> rfl

/-- The gates of `block_ipv4_inner`, in the state before it. -/
def XdpCapture.admits (c : XdpCapture M) (env : Env) (ip : Ipv4Addr) (bypassEnforceGate : Bool) :
    Bool :=
  !c.config.allowlists ip && (c.config.enforce || bypassEnforceGate) &&
    (c.rateLimiter.allow env.instant).1

/-- The block passes the gates and the map takes its key. -/
def XdpCapture.takes (c : XdpCapture M) (env : Env) (ip : Ipv4Addr) (ttlNs : Nat)
    (prefixLen : Option UInt8) (bypassEnforceGate : Bool) : Bool :=
  c.admits env ip bypassEnforceGate &&
    (PrefixMap.insert c.blocklist (c.config.blockKey ip prefixLen)
      (expiryNs env.wallNs ttlNs)).isSome

/-- What a block can do: stop at a gate, fail to insert, or insert its key. The configuration is
never touched, and the map only in the last case. -/
theorem XdpCapture.blockIpv4Inner_cases (c : XdpCapture M) (env : Env) (ip : Ipv4Addr)
    (ttlNs : Nat) (prefixLen : Option UInt8) (bypass : Bool) :
    ∃ res c', c.blockIpv4Inner env ip ttlNs prefixLen bypass = (res, c') ∧ c'.config = c.config ∧
      ((c.admits env ip bypass = false ∧ res ≠ .ok .blocked ∧ c'.blocklist = c.blocklist) ∨
        (c.admits env ip bypass = true ∧
          PrefixMap.insert c.blocklist (c.config.blockKey ip prefixLen)
            (expiryNs env.wallNs ttlNs) = none ∧
          res ≠ .ok .blocked ∧ c'.blocklist = c.blocklist) ∨
        (c.admits env ip bypass = true ∧
          PrefixMap.insert c.blocklist (c.config.blockKey ip prefixLen)
            (expiryNs env.wallNs ttlNs) = some c'.blocklist ∧
          res = .ok .blocked ∧
          ∃ rateLimiter, c' =
            { c with rateLimiter, blocklist := c'.blocklist }.persistBlocklist env)) := by
  unfold blockIpv4Inner admits
  cases c.config.allowlists ip with
  | true => exact ⟨_, _, rfl, rfl, .inl ⟨rfl, by simp, rfl⟩⟩
  | false =>
    cases hgate : c.config.enforce || bypass with
    | false =>
      obtain ⟨h1, h2⟩ := Bool.or_eq_false_iff.mp hgate
      rw [h1, h2]
      exact ⟨_, _, rfl, rfl, .inl ⟨rfl, by simp, rfl⟩⟩
    | true =>
      have hnot : (!c.config.enforce && !bypass) = false := by simp [← Bool.not_or, hgate]
      rw [hnot]
      obtain ⟨allowed, rateLimiter⟩ := c.rateLimiter.allow env.instant
      cases allowed with
      | false => exact ⟨_, _, rfl, rfl, .inl ⟨rfl, by simp, rfl⟩⟩
      | true =>
        cases hins : PrefixMap.insert c.blocklist (c.config.blockKey ip prefixLen)
          (expiryNs env.wallNs ttlNs) with
        | none =>
          refine ⟨.error (insertError ip (c.config.blockKey ip prefixLen)), { c with rateLimiter },
            ?_, rfl, .inr (.inl ⟨rfl, rfl, by simp, rfl⟩)⟩
          simp [hins]
        | some blocklist =>
          refine ⟨.ok .blocked, { c with rateLimiter, blocklist }.persistBlocklist env, ?_,
            by simp, .inr (.inr ⟨rfl, by simp, rfl, rateLimiter, by simp⟩)⟩
          simp [hins]

@[simp]
theorem XdpCapture.blockIpv4Inner_config (c : XdpCapture M) (env : Env) (ip : Ipv4Addr)
    (ttlNs : Nat) (prefixLen : Option UInt8) (bypass : Bool) :
    (c.blockIpv4Inner env ip ttlNs prefixLen bypass).2.config = c.config := by
  obtain ⟨res, c', h, hconfig, -⟩ := c.blockIpv4Inner_cases env ip ttlNs prefixLen bypass
  rw [h, hconfig]

/-- A block that passes the gates attempts to insert its key; any other leaves the map alone. -/
theorem XdpCapture.blockIpv4Inner_blocklist (c : XdpCapture M) (env : Env) (ip : Ipv4Addr)
    (ttlNs : Nat) (prefixLen : Option UInt8) (bypass : Bool) :
    (c.blockIpv4Inner env ip ttlNs prefixLen bypass).2.blocklist =
      if c.admits env ip bypass then
        (PrefixMap.insert c.blocklist (c.config.blockKey ip prefixLen)
          (expiryNs env.wallNs ttlNs)).getD c.blocklist
      else c.blocklist := by
  obtain ⟨res, c', h, -, ⟨ha, -, hm⟩ | ⟨ha, hi, -, hm⟩ | ⟨ha, hi, -⟩⟩ :=
    c.blockIpv4Inner_cases env ip ttlNs prefixLen bypass
  · simp [h, ha, hm]
  · simp [h, ha, hi, hm]
  · simp [h, ha, hi]

/-- A block that is taken inserts its key. -/
theorem XdpCapture.insert_of_takes {c : XdpCapture M} {env : Env} {ip : Ipv4Addr} {ttlNs : Nat}
    {prefixLen : Option UInt8} {bypass : Bool} (h : c.takes env ip ttlNs prefixLen bypass = true) :
    PrefixMap.insert c.blocklist (c.config.blockKey ip prefixLen) (expiryNs env.wallNs ttlNs) =
      some (c.blockIpv4Inner env ip ttlNs prefixLen bypass).2.blocklist := by
  obtain ⟨hadmits, hins⟩ := Bool.and_eq_true_iff.mp h
  obtain ⟨m, hm⟩ := Option.isSome_iff_exists.mp hins
  rw [c.blockIpv4Inner_blocklist, if_pos hadmits, hm, Option.getD_some]

/-- A block that is taken and whose file can be written leaves the new map in the file. -/
theorem XdpCapture.persist_of_takes {c : XdpCapture M} {env : Env} {ip : Ipv4Addr} {ttlNs : Nat}
    {prefixLen : Option UInt8} {bypass : Bool} (h : c.takes env ip ttlNs prefixLen bypass = true)
    (hw : env.writeOk = true) {file : FileRead} (hp : c.persist = some file) :
    (c.blockIpv4Inner env ip ttlNs prefixLen bypass).2.persist =
      some (.contents (renderBlocklist
        (listBlockedRaw (c.blockIpv4Inner env ip ttlNs prefixLen bypass).2.blocklist))) := by
  obtain ⟨res, c', hres, -, ⟨ha, -⟩ | ⟨-, hi, -⟩ | ⟨-, -, -, rateLimiter, hc'⟩⟩ :=
    c.blockIpv4Inner_cases env ip ttlNs prefixLen bypass
  · simp [takes, ha] at h
  · simp [takes, hi] at h
  · rw [hres]
    conv_lhs => rw [hc']
    simp [persistBlocklist, hp, hw]

/-- A block that is not taken leaves the map alone. -/
theorem XdpCapture.blocklist_of_not_takes {c : XdpCapture M} {env : Env} {ip : Ipv4Addr}
    {ttlNs : Nat} {prefixLen : Option UInt8} {bypass : Bool}
    (h : c.takes env ip ttlNs prefixLen bypass = false) :
    (c.blockIpv4Inner env ip ttlNs prefixLen bypass).2.blocklist = c.blocklist := by
  rw [c.blockIpv4Inner_blocklist]
  rcases Bool.and_eq_false_iff.mp h with hadmits | hins
  · simp [hadmits]
  · rw [Option.isSome_eq_false_iff, Option.isNone_iff_eq_none] at hins
    simp [hins]

/-- A block reported as done passed the gates and inserted its key. -/
theorem XdpCapture.insert_of_blocked {c : XdpCapture M} {env : Env} {ip : Ipv4Addr} {ttlNs : Nat}
    {prefixLen : Option UInt8} {bypass : Bool}
    (hb : (c.blockIpv4Inner env ip ttlNs prefixLen bypass).1 = .ok .blocked) :
    PrefixMap.insert c.blocklist (c.config.blockKey ip prefixLen) (expiryNs env.wallNs ttlNs) =
      some (c.blockIpv4Inner env ip ttlNs prefixLen bypass).2.blocklist := by
  obtain ⟨res, c', h, -, ⟨-, hne, -⟩ | ⟨-, -, hne, -⟩ | ⟨-, hi, -⟩⟩ :=
    c.blockIpv4Inner_cases env ip ttlNs prefixLen bypass
  · rw [h] at hb
    exact absurd hb hne
  · rw [h] at hb
    exact absurd hb hne
  · rw [h, hi]

@[simp]
theorem XdpCapture.unblockIpv4_blocklist (c : XdpCapture M) (env : Env) (ip : Ipv4Addr)
    (prefixLen : Option UInt8) :
    (c.unblockIpv4 env ip prefixLen).blocklist =
      (PrefixMap.remove c.blocklist (unblockKey ip prefixLen)).getD c.blocklist := by
  simp [unblockIpv4]

@[simp]
theorem XdpCapture.unblockIpv4_config (c : XdpCapture M) (env : Env) (ip : Ipv4Addr)
    (prefixLen : Option UInt8) : (c.unblockIpv4 env ip prefixLen).config = c.config := by
  simp [unblockIpv4]

section Lawful
variable [LawfulPrefixMap M]

/-- An attempted removal leaves the entries of the other prefixes, and no other. -/
theorem mem_remove_getD {m : M} {k : PrefixKey 32} {e : PrefixKey 32 × UInt64} :
    e ∈ PrefixMap.entries ((PrefixMap.remove m k).getD m) ↔
      e ∈ PrefixMap.entries m ∧ ¬ e.1.Same k := by
  cases hrem : PrefixMap.remove m k with
  | some m' => exact LawfulPrefixMap.mem_remove hrem e
  | none =>
    refine ⟨fun he => ⟨he, fun hs => ?_⟩, And.left⟩
    have := LawfulPrefixMap.remove_isSome he hs
    simp [hrem] at this

/-- Removing keys leaves only entries that were there. -/
theorem mem_of_mem_removeKeys {m : M} {keys : List (PrefixKey 32)} {e : PrefixKey 32 × UInt64}
    (h : e ∈ PrefixMap.entries (removeKeys m keys)) : e ∈ PrefixMap.entries m := by
  induction keys generalizing m with
  | nil => exact h
  | cons k keys ih => exact (mem_remove_getD.mp (ih h)).1

end Lawful

end

end ActiveDefense.Nsm
