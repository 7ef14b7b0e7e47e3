import ActiveDefense.Nsm.Xdp

/-!
# The control commands

One line in, one line back: `handleControlCommand` reads a request off the line, runs it on the
capture handle and renders the reply. `unblock_undoes_block_iff` says for which arguments an
`UNBLOCK` takes back the `BLOCK` of the same argument: the two verbs default to different prefix
lengths.
-/

namespace ActiveDefense.Nsm

/-! ## Requests -/

/-- What a line asks for; `bad` carries the reply to a line that asks for nothing. -/
inductive ControlRequest where
  | block (ip : Ipv4Addr) (prefixLen : Option UInt8) (ttlSecs : Nat)
  | unblock (ip : Ipv4Addr) (prefixLen : Option UInt8)
  | list
  | status
  | blank
  | bad (reply : Str)
deriving DecidableEq, Repr

/-- Parses the address of a `parse_ip_prefix` argument. -/
def parseIp4 (s : Str) : Except Str Ipv4Addr :=
  match parseIpv4 s with
  | .ok ip => .ok ip
  | .error e => .error ("bad IP '".toList ++ s ++ "': ".toList ++ e.toList)

/-- `parse_ip_prefix`. -/
def parseIpPrefix (s : Str) : Except Str (Ipv4Addr × Option UInt8) :=
  match splitOnce '/' s with
  | some (ip, prefixLen) => do
    let addr ← parseIp4 ip
    match parseUnsigned 256 prefixLen with
    | .ok n => .ok (addr, some (UInt8.ofNat n))
    | .error e =>
      .error ("bad prefix '".toList ++ prefixLen ++ "': ".toList ++ e.display.toList)
  | none => do
    let addr ← parseIp4 s
    .ok (addr, none)

/-- The request of a line, `ttl_secs` defaulting to 300. -/
def parseRequest (line : Str) : ControlRequest :=
  let parts := splitWhitespace line
  let verb := (parts.head?.getD []).map toAsciiUppercase
  if verb = "BLOCK".toList then
    match parts.tail with
    | [] => .bad "ERROR: usage: BLOCK <ip>[/prefix] [ttl_secs]".toList
    | target :: rest =>
      match parseIpPrefix target with
      | .error e => .bad ("ERROR: ".toList ++ e)
      | .ok (ip, prefixLen) =>
        let ttlSecs := (rest.head?.bind fun s => (parseUnsigned (2 ^ 64) s).toOption).getD 300
        .block ip prefixLen ttlSecs
  else if verb = "UNBLOCK".toList then
    match parts.tail with
    | [] => .bad "ERROR: usage: UNBLOCK <ip>[/prefix]".toList
    | target :: _ =>
      match parseIpPrefix target with
      | .error e => .bad ("ERROR: ".toList ++ e)
      | .ok (ip, prefixLen) => .unblock ip prefixLen
  else if verb = "LIST".toList then .list
  else if verb = "STATUS".toList then .status
  else if verb = [] then .blank
  else
    .bad ("ERROR: unknown command '".toList ++ verb ++
      "' (try BLOCK, UNBLOCK, LIST, STATUS)".toList)

/-- A `BLOCK` of one word, with a TTL. -/
def blockTtlLine (target : Str) (ttlSecs : UInt64) : Str :=
  "BLOCK".toList ++ ' ' :: (target ++ ' ' :: decimal ttlSecs.toNat)

section
variable {target : Str} (hne : target ≠ []) (hword : ∀ c ∈ target, isWhitespace c = false)
include hne hword

theorem splitWhitespace_blockTtlLine (ttlSecs : UInt64) :
    splitWhitespace (blockTtlLine target ttlSecs) =
      ["BLOCK".toList, target, decimal ttlSecs.toNat] := by
  have hverb : ∀ c ∈ "BLOCK".toList, isWhitespace c = false :=
    not_isWhitespace_of_all (by decide)
  rw [blockTtlLine, splitWhitespace_append_blank (by decide) hverb,
    splitWhitespace_append_blank hne hword,
    splitWhitespace_word (decimal_ne_nil _) fun c hc => not_isWhitespace_of_mem_decimal hc]

theorem parseRequest_blockTtlLine {ip : Ipv4Addr} {prefixLen : Option UInt8}
    (htarget : parseIpPrefix target = .ok (ip, prefixLen)) (ttlSecs : UInt64) :
    parseRequest (blockTtlLine target ttlSecs) = .block ip prefixLen ttlSecs.toNat := by
  have hupper : "BLOCK".toList.map toAsciiUppercase = "BLOCK".toList := by decide
  have httl : parseUnsigned (2 ^ 64) (decimal ttlSecs.toNat) = .ok ttlSecs.toNat :=
    parseUnsigned_decimal ttlSecs.toNat_lt
  rw [parseRequest, splitWhitespace_blockTtlLine hne hword]
  simp only [List.head?_cons, Option.getD_some, hupper, if_true, List.tail_cons, htarget,
    Option.bind_some, httl]
  rfl

end

/-! ## Replies -/

/-- `Debug` of a `BlockOutcome`. -/
def BlockOutcome.debug : BlockOutcome → Str
  | .blocked => "Blocked".toList
  | .allowlisted => "Allowlisted".toList
  | .observeOnly => "ObserveOnly".toList
  | .rateLimited => "RateLimited".toList

/-- `Display` of a `bool`. -/
def displayBool (b : Bool) : Str := if b then "true".toList else "false".toList

/-- A number of units and its fraction of `width` decimal digits, trailing zeros dropped. -/
def displayFraction (width whole fraction : Nat) : Str :=
  let digits := List.replicate (width - (decimal fraction).length) '0' ++ decimal fraction
  let digits := (digits.reverse.dropWhile (· = '0')).reverse
  decimal whole ++ if fraction = 0 then [] else '.' :: digits

/-- `Debug` of a `Duration`, given in nanoseconds. -/
def debugDuration (ns : Nat) : Str :=
  if 10 ^ 9 ≤ ns then displayFraction 9 (ns / 10 ^ 9) (ns % 10 ^ 9) ++ "s".toList
  else if 10 ^ 6 ≤ ns then displayFraction 6 (ns / 10 ^ 6) (ns % 10 ^ 6) ++ "ms".toList
  else if 10 ^ 3 ≤ ns then displayFraction 3 (ns / 10 ^ 3) (ns % 10 ^ 3) ++ "µs".toList
  else decimal ns ++ "ns".toList

/-- `<ip>/<prefix>`. -/
def displayPrefix (ip : Ipv4Addr) (prefixLen : UInt8) : Str :=
  ip.display ++ '/' :: decimal prefixLen.toNat

/-- `Duration::from_secs`, in nanoseconds. -/
def fromSecs (secs : Nat) : Nat := secs * 10 ^ 9

/-- The reply to a `BLOCK`; without a prefix length in the request it shows the configured one. -/
def blockReply (config : AutoBlockConfig) (ip : Ipv4Addr) (prefixLen : Option UInt8) :
    Except Str BlockOutcome → Str
  | .ok outcome =>
    "OK: ".toList ++ outcome.debug ++ ' ' :: displayPrefix ip (prefixLen.getD config.prefixLen)
  | .error e => "ERROR: ".toList ++ e

/-- The reply to a `LIST`. -/
def listReply (entries : List BlocklistEntry) : Str :=
  if entries.isEmpty then "OK: (blocklist empty)".toList
  else
    "; ".toList.intercalate <| entries.map fun e =>
      displayPrefix e.1 e.2.1 ++ ' ' :: (decimal e.2.2.toNat ++ ['s'])

/-- The reply to a `STATUS`. -/
def statusReply (iface : Str) (config : AutoBlockConfig) : Str :=
  "OK: iface=".toList ++ iface ++ " enforce=".toList ++ displayBool config.enforce ++
    " prefix_len=".toList ++ decimal config.prefixLen.toNat ++ " rate_limit=".toList ++
    decimal config.rateLimit.toNat ++ '/' :: debugDuration config.rateWindow ++
    " allowlist_entries=".toList ++ decimal config.allowlist.length

section
variable {M : Type} [PrefixMap M 32 UInt64]

/-- Runs a request: the reply and the handle afterwards. -/
def XdpCapture.answer (c : XdpCapture M) (env : Env) : ControlRequest → Str × XdpCapture M
  | .block ip prefixLen ttlSecs =>
    let (res, c') := c.forceBlockIpv4 env ip (fromSecs ttlSecs) prefixLen
    (blockReply c.config ip prefixLen res, c')
  | .unblock ip prefixLen =>
    ("OK: unblocked ".toList ++ displayPrefix ip (prefixLen.getD 32),
      c.unblockIpv4 env ip prefixLen)
  | .list => (listReply (listBlocked c.blocklist env.wallNs), c)
  | .status => (statusReply c.iface c.config, c)
  | .blank => ([], c)
  | .bad reply => (reply, c)

/-- `handle_control_command`. -/
def handleControlCommand (c : XdpCapture M) (env : Env) (line : Str) : Str × XdpCapture M :=
  c.answer env (parseRequest line)

/-! ## What a command can do to the map -/

@[simp]
theorem XdpCapture.answer_block (c : XdpCapture M) (env : Env) (ip : Ipv4Addr)
    (prefixLen : Option UInt8) (ttlSecs : Nat) :
    (c.answer env (.block ip prefixLen ttlSecs)).2 =
      (c.forceBlockIpv4 env ip (fromSecs ttlSecs) prefixLen).2 := rfl

@[simp]
theorem XdpCapture.answer_unblock (c : XdpCapture M) (env : Env) (ip : Ipv4Addr)
    (prefixLen : Option UInt8) :
    (c.answer env (.unblock ip prefixLen)).2 = c.unblockIpv4 env ip prefixLen := rfl

/-- A request that is neither a `BLOCK` nor an `UNBLOCK` leaves the handle alone. -/
theorem XdpCapture.answer_cases (c : XdpCapture M) (env : Env) (req : ControlRequest) :
    (∃ ip prefixLen ttlSecs, req = .block ip prefixLen ttlSecs ∧
      (c.answer env req).2 = (c.forceBlockIpv4 env ip (fromSecs ttlSecs) prefixLen).2) ∨
    (∃ ip prefixLen, req = .unblock ip prefixLen ∧
      (c.answer env req).2 = c.unblockIpv4 env ip prefixLen) ∨
    (c.answer env req).2 = c := by
  cases req with
  | block ip prefixLen ttlSecs => exact .inl ⟨ip, prefixLen, ttlSecs, rfl, rfl⟩
  | unblock ip prefixLen => exact .inr (.inl ⟨ip, prefixLen, rfl, rfl⟩)
  | list | status | blank | bad => exact .inr (.inr rfl)

@[simp]
theorem XdpCapture.answer_config (c : XdpCapture M) (env : Env) (req : ControlRequest) :
    (c.answer env req).2.config = c.config := by
  obtain ⟨ip, prefixLen, ttlSecs, rfl, h⟩ | ⟨ip, prefixLen, rfl, h⟩ | h := c.answer_cases env req
  · rw [h, forceBlockIpv4, blockIpv4Inner_config]
  · rw [h, unblockIpv4_config]
  · rw [h]

end

/-! ## Taking a block back -/

/-- An argument names a prefix length exactly when it has a slash. -/
theorem parseIpPrefix_isSome {arg : Str} {ip : Ipv4Addr} {prefixLen : Option UInt8}
    (h : parseIpPrefix arg = .ok (ip, prefixLen)) : prefixLen.isSome ↔ '/' ∈ arg := by
  unfold parseIpPrefix at h
  by_cases hmem : '/' ∈ arg
  · obtain ⟨s, t, rfl, hs⟩ := List.eq_append_cons_of_mem hmem
    rw [splitOnce_append hs] at h
    simp only at h
    cases hip : parseIp4 s with
    | error e => simp [hip, bind, Except.bind] at h
    | ok addr =>
      cases hn : parseUnsigned 256 t with
      | error e => simp [hip, hn, bind, Except.bind] at h
      | ok n =>
        simp only [hip, hn, bind, Except.bind, Except.ok.injEq, Prod.mk.injEq] at h
        simp [← h.2]
  · rw [splitOnce_of_not_mem hmem] at h
    simp only at h
    cases hip : parseIp4 arg with
    | error e => simp [hip, bind, Except.bind] at h
    | ok addr =>
      simp only [hip, bind, Except.bind, Except.ok.injEq, Prod.mk.injEq] at h
      simp [← h.2, hmem]

/-- The line is a command of the given verb, in any case, with `arg` as its first argument. -/
def IsCommand (verb : String) (arg line : Str) : Prop :=
  ∃ v rest, splitWhitespace line = v :: arg :: rest ∧ v.map toAsciiUppercase = verb.toList

/-- A `BLOCK` request carries what its argument parses to. -/
theorem parseIpPrefix_of_block {arg line : Str} (h : IsCommand "BLOCK" arg line) {ip : Ipv4Addr}
    {prefixLen : Option UInt8} {ttlSecs : Nat}
    (hreq : parseRequest line = .block ip prefixLen ttlSecs) :
    parseIpPrefix arg = .ok (ip, prefixLen) := by
  obtain ⟨v, rest, hsplit, hv⟩ := h
  cases harg : parseIpPrefix arg with
  | error e => simp [parseRequest, hsplit, hv, harg] at hreq
  | ok r =>
    simp [parseRequest, hsplit, hv, harg] at hreq
    rw [← hreq.1, ← hreq.2.1]

/-- An `UNBLOCK` line asks for what its argument parses to. -/
theorem parseRequest_unblock {arg line : Str} (h : IsCommand "UNBLOCK" arg line) {ip : Ipv4Addr}
    {prefixLen : Option UInt8} (harg : parseIpPrefix arg = .ok (ip, prefixLen)) :
    parseRequest line = .unblock ip prefixLen := by
  obtain ⟨v, rest, hsplit, hv⟩ := h
  simp [parseRequest, hsplit, hv, harg]

/-- A length clamps to 32 exactly when it is at least that. -/
theorem clampPrefix_eq_iff (p : UInt8) : clampPrefix p = 32 ↔ 32 ≤ p := by
  unfold clampPrefix
  simp only [UInt8.lt_iff_toNat_lt, UInt8.le_iff_toNat_le, ← UInt8.toNat_inj]
  split
  · simp at *; omega
  · split <;> simp at * <;> omega

/-- A block and an unblock of one argument use one key exactly when the argument names a length or
the configured one is 32. -/
theorem blockKey_eq_unblockKey_iff (config : AutoBlockConfig) (ip : Ipv4Addr)
    (prefixLen : Option UInt8) :
    config.blockKey ip prefixLen = unblockKey ip prefixLen ↔
      prefixLen.isSome ∨ 32 ≤ config.prefixLen := by
  cases prefixLen with
  | some p => simp [AutoBlockConfig.blockKey, unblockKey]
  | none =>
    have h32 : clampPrefix 32 = 32 := (clampPrefix_eq_iff 32).mpr (UInt8.le_refl 32)
    simp [AutoBlockConfig.blockKey, unblockKey, blockKey, h32, ← clampPrefix_eq_iff,
      ← UInt8.toNat_inj]

section
variable {M : Type} [PrefixMap M 32 UInt64]

/-- The line is a `BLOCK` of `ip` that the handle carries out. -/
def XdpCapture.Accepts (c : XdpCapture M) (env : Env) (line : Str) (ip : Ipv4Addr)
    (prefixLen : Option UInt8) : Prop :=
  ∃ ttlSecs, parseRequest line = .block ip prefixLen ttlSecs ∧
    (c.forceBlockIpv4 env ip (fromSecs ttlSecs) prefixLen).1 = .ok .blocked

/-- The map afterwards is the map before, less the prefix `key`. -/
def Undone (key : PrefixKey 32) (before after : M) : Prop :=
  ∀ e, e ∈ PrefixMap.entries after ↔ e ∈ PrefixMap.entries before ∧ ¬ e.1.Same key

/-- An accepted `BLOCK` followed by the `UNBLOCK` of the same argument leaves nothing of the block
exactly when the argument names a prefix length or the configured one is 32. -/
theorem unblock_undoes_block_iff [LawfulPrefixMap M] (c : XdpCapture M) (env₁ env₂ : Env)
    {arg line₁ line₂ : Str} {ip : Ipv4Addr} {prefixLen : Option UInt8}
    (h₁ : IsCommand "BLOCK" arg line₁) (hacc : c.Accepts env₁ line₁ ip prefixLen)
    (h₂ : IsCommand "UNBLOCK" arg line₂) :
    Undone (c.config.blockKey ip prefixLen) c.blocklist
        (handleControlCommand (handleControlCommand c env₁ line₁).2 env₂ line₂).2.blocklist ↔
      '/' ∈ arg ∨ 32 ≤ c.config.prefixLen := by
  obtain ⟨ttlSecs, hreq, hb⟩ := hacc
  have harg := parseIpPrefix_of_block h₁ hreq
  rw [← parseIpPrefix_isSome harg, ← blockKey_eq_unblockKey_iff c.config ip]
  have hins := XdpCapture.insert_of_blocked hb
  rw [handleControlCommand, parseRequest_unblock h₂ harg, XdpCapture.answer_unblock,
    handleControlCommand, hreq, XdpCapture.answer_block, XdpCapture.forceBlockIpv4]
  generalize (c.blockIpv4Inner env₁ ip (fromSecs ttlSecs) prefixLen true).2 = c₁ at hins
  have hmem : ∀ e, e ∈ PrefixMap.entries (c₁.unblockIpv4 env₂ ip prefixLen).blocklist ↔
      (e = (c.config.blockKey ip prefixLen, expiryNs env₁.wallNs (fromSecs ttlSecs)) ∨
        e ∈ PrefixMap.entries c.blocklist ∧ ¬ e.1.Same (c.config.blockKey ip prefixLen)) ∧
      ¬ e.1.Same (unblockKey ip prefixLen) := by
    intro e
    rw [XdpCapture.unblockIpv4_blocklist, mem_remove_getD, LawfulPrefixMap.mem_insert hins]
  constructor
  · -- the inserted entry survives the removal of another key
    intro h
    by_contra hne
    have hkey : ¬ (c.config.blockKey ip prefixLen).Same (unblockKey ip prefixLen) := fun hs =>
      hne (by simpa [AutoBlockConfig.blockKey, unblockKey, blockKey] using hs.1)
    have hin := (hmem _).mpr ⟨.inl rfl, hkey⟩
    exact ((h _).mp hin).2 (PrefixKey.Same.refl _)
  · intro hkey e
    rw [hmem, ← hkey]
    constructor
    · rintro ⟨rfl | he, hn⟩
      · exact absurd (PrefixKey.Same.refl _) hn
      · exact he
    · intro he
      exact ⟨.inr he, he.2⟩

end

/-- A handle that blocks `/24` networks, over an empty reference map. -/
def slash24Capture : XdpCapture (ListTrie 32 UInt64 16) :=
  start { AutoBlockConfig.default with prefixLen := 24 } "eth0".toList none 0

/-- An `Env` at the epoch. -/
def epochEnv : Env := ⟨0, 0, true⟩

/-- `BLOCK 10.0.0.9/24` is undone by `UNBLOCK 10.0.0.9/24`. -/
theorem unblock_undoes_block_slash24 :
    Undone ⟨24, Ipv4Addr.new 10 0 0 9⟩ slash24Capture.blocklist
      (handleControlCommand
        (handleControlCommand slash24Capture epochEnv "BLOCK 10.0.0.9/24".toList).2 epochEnv
        "UNBLOCK 10.0.0.9/24".toList).2.blocklist :=
  (@unblock_undoes_block_iff _ _ _ slash24Capture epochEnv epochEnv "10.0.0.9/24".toList _ _ _
    (some 24) ⟨"BLOCK".toList, [], by decide, by decide⟩
    ⟨300, by decide, by decide⟩
    ⟨"UNBLOCK".toList, [], by decide, by decide⟩).mpr (.inl (by decide))

/-- With the same configuration `UNBLOCK 10.0.0.9` does not undo an accepted `BLOCK 10.0.0.9`. -/
theorem not_undone_without_prefix :
    ¬ ∀ (c : XdpCapture (ListTrie 32 UInt64 16)) (env₁ env₂ : Env) (arg line₁ line₂ : Str)
      (ip : Ipv4Addr) (prefixLen : Option UInt8),
      IsCommand "BLOCK" arg line₁ → c.Accepts env₁ line₁ ip prefixLen →
      IsCommand "UNBLOCK" arg line₂ →
      Undone (c.config.blockKey ip prefixLen) c.blocklist
        (handleControlCommand (handleControlCommand c env₁ line₁).2 env₂ line₂).2.blocklist := by
  intro h
  have hundone := h slash24Capture epochEnv epochEnv "10.0.0.9".toList "BLOCK 10.0.0.9".toList
    "UNBLOCK 10.0.0.9".toList (Ipv4Addr.new 10 0 0 9) none
    ⟨"BLOCK".toList, [], by decide, by decide⟩
    ⟨300, by decide, by decide⟩
    ⟨"UNBLOCK".toList, [], by decide, by decide⟩
  -- the /24 entry is still there
  have hleft := (hundone (⟨24, Ipv4Addr.new 10 0 0 9⟩, 300000000000)).mp (by decide)
  exact hleft.2 (by decide)

end ActiveDefense.Nsm
