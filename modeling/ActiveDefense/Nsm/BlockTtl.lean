import ActiveDefense.Nsm.Control

/-!
# The expiry of a block

The TTL of a `BLOCK` is any `u64` of seconds. Its nanoseconds are cut to 64 bits and added to the
clock without a check, so the expiry that is stored is the sum modulo 2^64 (`storesExpiry_iff`). For
the TTLs up to a given one the expiries are the requested ones, in order and not in the past, if and
only if the longest of them fits (`block_expiry_iff`): the first TTL that does not fit is stored as
an expiry of the first second of 1970.
-/

namespace ActiveDefense.Nsm

/-- When the block is to end, in nanoseconds. -/
def requestedEnd (wallNs ttlSecs : UInt64) : Nat := wallNs.toNat + fromSecs ttlSecs.toNat

/-- Some `BLOCK` command with the TTL is carried out at the time, and the map then holds its key
with the expiry. -/
def StoresExpiry (wallNs ttlSecs expiryNs : UInt64) : Prop :=
  ∃ (M : Type) (_ : PrefixMap M 32 UInt64) (_ : LawfulPrefixMap M) (c : XdpCapture M) (env : Env)
    (line : Str) (ip : Ipv4Addr) (prefixLen : Option UInt8),
    env.wallNs = wallNs ∧ parseRequest line = .block ip prefixLen ttlSecs.toNat ∧
      (c.forceBlockIpv4 env ip (fromSecs ttlSecs.toNat) prefixLen).1 = .ok .blocked ∧
      (c.config.blockKey ip prefixLen, expiryNs) ∈
        PrefixMap.entries (handleControlCommand c env line).2.blocklist

/-- The expiry is the requested one if that fits, and otherwise no earlier than those of shorter
TTLs that fit; no shorter TTL has a later one; it is not in the past. -/
structure ExpiryKept (wallNs ttlSecs expiryNs : UInt64) : Prop where
  exact : requestedEnd wallNs ttlSecs < 2 ^ 64 → expiryNs.toNat = requestedEnd wallNs ttlSecs
  late : 2 ^ 64 ≤ requestedEnd wallNs ttlSecs → ∀ shorter < ttlSecs,
    requestedEnd wallNs shorter < 2 ^ 64 → requestedEnd wallNs shorter ≤ expiryNs.toNat
  monotone : ∀ shorter ≤ ttlSecs, ∀ earlier,
    StoresExpiry wallNs shorter earlier → earlier ≤ expiryNs
  future : wallNs ≤ expiryNs

/-! ## What is stored -/

theorem expiryNs_toNat (wallNs ttlSecs : UInt64) :
    (expiryNs wallNs (fromSecs ttlSecs.toNat)).toNat = requestedEnd wallNs ttlSecs % 2 ^ 64 := by
  rw [expiryNs, UInt64.toNat_add, UInt64.toNat_ofNat', Nat.add_mod_mod, requestedEnd]

theorem requestedEnd_mono (wallNs : UInt64) {shorter ttlSecs : UInt64} (h : shorter ≤ ttlSecs) :
    requestedEnd wallNs shorter ≤ requestedEnd wallNs ttlSecs :=
  Nat.add_le_add_left (Nat.mul_le_mul_right _ (UInt64.le_iff_toNat_le.mp h)) _

/-- Any TTL can be requested. -/
theorem parseRequest_block_ttl (ttlSecs : UInt64) :
    parseRequest ("BLOCK 10.0.0.9 ".toList ++ decimal ttlSecs.toNat) =
      .block (Ipv4Addr.new 10 0 0 9) none ttlSecs.toNat := by
  have htarget : parseIpPrefix "10.0.0.9".toList = .ok (Ipv4Addr.new 10 0 0 9, none) := by decide
  have hword : ∀ c ∈ "10.0.0.9".toList, isWhitespace c = false :=
    not_isWhitespace_of_all (by decide)
  exact parseRequest_blockTtlLine (by decide) hword htarget ttlSecs

/-- A handle with no block yet. -/
def emptyCapture : XdpCapture (ListTrie 32 UInt64 16) := start .default "eth0".toList none 0

/-- It carries out a `BLOCK` with any TTL. -/
theorem emptyCapture_blocks (wallNs : UInt64) (ttlNs : Nat) :
    (emptyCapture.forceBlockIpv4 ⟨wallNs, 0, true⟩ (Ipv4Addr.new 10 0 0 9) ttlNs none).1 =
      .ok .blocked := rfl

/-- What is stored is what `block_ipv4_inner` computes, and nothing else. -/
theorem storesExpiry_iff {wallNs ttlSecs expiry : UInt64} :
    StoresExpiry wallNs ttlSecs expiry ↔ expiry = expiryNs wallNs (fromSecs ttlSecs.toNat) := by
  constructor
  · rintro ⟨M, _, _, c, env, line, ip, prefixLen, rfl, hline, hblocked, hstored⟩
    have hins := XdpCapture.insert_of_blocked hblocked
    rw [handleControlCommand, hline, XdpCapture.answer_block, XdpCapture.forceBlockIpv4] at hstored
    rcases (LawfulPrefixMap.mem_insert hins _).mp hstored with h | ⟨-, hother⟩
    · exact (Prod.mk.inj h).2
    · exact absurd (PrefixKey.Same.refl _) hother
  · rintro rfl
    have hline := parseRequest_block_ttl ttlSecs
    have hblocked := emptyCapture_blocks wallNs (fromSecs ttlSecs.toNat)
    refine ⟨_, inferInstance, inferInstance, emptyCapture, ⟨wallNs, 0, true⟩, _, _, _, rfl, hline,
      hblocked, ?_⟩
    rw [handleControlCommand, hline, XdpCapture.answer_block, XdpCapture.forceBlockIpv4]
    exact (LawfulPrefixMap.mem_insert (XdpCapture.insert_of_blocked hblocked) _).mpr (.inl rfl)

theorem stores_expiryNs (wallNs ttlSecs : UInt64) :
    StoresExpiry wallNs ttlSecs (expiryNs wallNs (fromSecs ttlSecs.toNat)) :=
  storesExpiry_iff.mpr rfl

/-! ## When it is the requested expiry -/

/-- A TTL that fits is kept. -/
theorem expiryKept_of_fits {wallNs ttlSecs : UInt64} (h : requestedEnd wallNs ttlSecs < 2 ^ 64) :
    ExpiryKept wallNs ttlSecs (expiryNs wallNs (fromSecs ttlSecs.toNat)) := by
  have hexact := expiryNs_toNat wallNs ttlSecs
  rw [Nat.mod_eq_of_lt h] at hexact
  refine ⟨fun _ => hexact, fun hlate => absurd h (by omega), fun shorter hle earlier hstored => ?_,
    ?_⟩
  · obtain rfl := storesExpiry_iff.mp hstored
    have hend := requestedEnd_mono wallNs hle
    have hearlier := expiryNs_toNat wallNs shorter
    rw [Nat.mod_eq_of_lt (Nat.lt_of_le_of_lt hend h)] at hearlier
    rw [UInt64.le_iff_toNat_le, hexact, hearlier]
    exact hend
  · rw [UInt64.le_iff_toNat_le, hexact]
    exact Nat.le_add_right _ _

/-- If some TTL does not fit, then the first that does not is no longer than it, and is stored as an
earlier expiry than the last one that fits. -/
theorem exists_earlier_of_not_fits {wallNs longest : UInt64}
    (h : 2 ^ 64 ≤ requestedEnd wallNs longest) :
    ∃ ttl ≤ longest, ∃ shorter ≤ ttl,
      expiryNs wallNs (fromSecs ttl.toNat) < expiryNs wallNs (fromSecs shorter.toNat) := by
  have hwall := wallNs.toNat_lt
  have hlongest := longest.toNat_lt
  let first := (2 ^ 64 - wallNs.toNat + 10 ^ 9 - 1) / 10 ^ 9
  have hfirst : 2 ^ 64 ≤ wallNs.toNat + first * 10 ^ 9 ∧
      wallNs.toNat + first * 10 ^ 9 < 2 ^ 64 + 10 ^ 9 := by
    omega
  have hle : first ≤ longest.toNat := by
    unfold requestedEnd fromSecs at h
    omega
  have hfit : (UInt64.ofNat first).toNat = first :=
    UInt64.toNat_ofNat_of_lt' (Nat.lt_of_le_of_lt hle hlongest)
  have hprev : (UInt64.ofNat (first - 1)).toNat = first - 1 :=
    UInt64.toNat_ofNat_of_lt' (Nat.lt_of_le_of_lt (Nat.le_trans (Nat.sub_le _ _) hle) hlongest)
  refine ⟨UInt64.ofNat first, ?_, UInt64.ofNat (first - 1), ?_, ?_⟩
  · rw [UInt64.le_iff_toNat_le, hfit]
    exact hle
  · rw [UInt64.le_iff_toNat_le, hfit, hprev]
    exact Nat.sub_le _ _
  · rw [UInt64.lt_iff_toNat_lt, expiryNs_toNat, expiryNs_toNat]
    rw [requestedEnd, requestedEnd, fromSecs, fromSecs, hfit, hprev]
    omega

/-- Of the TTLs up to `longest` every expiry that is stored is kept, if and only if `longest` still
fits in 64 bits of nanoseconds after the time. -/
theorem block_expiry_iff (wallNs longest : UInt64) :
    (∀ ttl ≤ longest, ∀ expiry, StoresExpiry wallNs ttl expiry → ExpiryKept wallNs ttl expiry) ↔
      wallNs.toNat + longest.toNat * 10 ^ 9 < 2 ^ 64 := by
  constructor
  · intro h
    by_contra hlong
    obtain ⟨ttl, hle, shorter, hshorter, hlt⟩ := exists_earlier_of_not_fits (Nat.not_lt.mp hlong)
    have hkept := h ttl hle _ (stores_expiryNs wallNs ttl)
    have hmono := hkept.monotone shorter hshorter _ (stores_expiryNs wallNs shorter)
    exact absurd hlt (UInt64.not_lt.mpr hmono)
  · intro h ttl hle expiry hstored
    obtain rfl := storesExpiry_iff.mp hstored
    exact expiryKept_of_fits (Nat.lt_of_le_of_lt (requestedEnd_mono wallNs hle) h)

/-- In 2023, the longest TTL there is ends one second before it begins. -/
theorem not_expiryKept :
    ¬ ∀ wallNs ttl expiry : UInt64,
      StoresExpiry wallNs ttl expiry → ExpiryKept wallNs ttl expiry := by
  intro h
  have hkept := h 1700000000000000000 18446744073709551615 _ (stores_expiryNs _ _)
  have hfuture := UInt64.le_iff_toNat_le.mp hkept.future
  rw [expiryNs_toNat, requestedEnd, fromSecs] at hfuture
  exact absurd hfuture (by decide)

end ActiveDefense.Nsm
