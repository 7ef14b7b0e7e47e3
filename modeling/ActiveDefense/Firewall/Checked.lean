import ActiveDefense.Firewall.Evidence
import ActiveDefense.Firewall.FastPath
import ActiveDefense.Firewall.Load

/-!
# The firewall in a build with overflow checks

The numbers of the workers' queues, the body of the packet loop and the payload of a reject reply,
with every sum checked that the program makes with `+`. The checked loop does what the loop does
wherever no sum leaves its type. The matches that are counted towards a ban always fit (`Roomy`),
and so does the checksum of a reply. What can leave its type are the number of a queue, the two
counters of a flow, and the end of a ban (`launches_iff`).
-/

namespace ActiveDefense.Firewall.Checked

/-! ## Start-up -/

/-- The numbers that `main` gives its workers: `queue_num + i`. -/
def queueNums (cfg : Config) : Except Panic (List UInt16) :=
  (List.range cfg.queueWorkers.toNat).mapM fun i => sumU16 cfg.queueNum (.ofNat i)

/-! ## Reject replies -/

/-- The first loop of `icmpv4_checksum`: the sum of the big-endian words, and of what is left. -/
def sumWords : List UInt8 → UInt32 → Except Panic UInt32
  | a :: b :: rest, sum => do
    let sum ← sumU32 sum (.ofNat (a.toNat * 256 + b.toNat))
    sumWords rest sum
  | [a], sum => sumU32 sum (a.toUInt32 <<< 8)
  | [], sum => .ok sum

/-- The low word of a sum, and its carries. -/
theorem toNat_carries (sum : UInt32) :
    (sum &&& (0xffff : UInt32)).toNat = sum.toNat % 65536 ∧
      (sum >>> 16).toNat = sum.toNat / 65536 := by
  constructor
  · rw [UInt32.toNat_and]
    exact Nat.and_two_pow_sub_one_eq_mod sum.toNat 16
  · simp [UInt32.toNat_shiftRight, Nat.shiftRight_eq_div_pow]

/-- The carries fit in when they are added to the low word. -/
theorem carries_fit (sum : UInt32) :
    (sum &&& (0xffff : UInt32)).toNat + (sum >>> 16).toNat < 2 ^ 32 := by
  obtain ⟨hlow, hhigh⟩ := toNat_carries sum
  have hlt := sum.toNat_lt
  omega

/-- Adding them makes the sum smaller. -/
theorem toNat_carries_lt {sum : UInt32} (hsum : sum >>> 16 ≠ 0) :
    ((sum &&& (0xffff : UInt32)) + (sum >>> 16)).toNat < sum.toNat := by
  obtain ⟨hlow, hhigh⟩ := toNat_carries sum
  have hpos : (sum >>> 16).toNat ≠ 0 := fun hzero => hsum (UInt32.toNat_inj.mp hzero)
  rw [UInt32.toNat_add, Nat.mod_eq_of_lt (carries_fit sum)]
  omega

/-- The second loop: the carries are added to the low word, as long as there are any. -/
def foldCarries (sum : UInt32) : Except Panic UInt32 :=
  if _hsum : sum >>> 16 ≠ 0 then
    -- the sum is checked, and the loop goes on with it
    (sumU32 (sum &&& (0xffff : UInt32)) (sum >>> 16)).bind fun _ =>
      foldCarries ((sum &&& (0xffff : UInt32)) + (sum >>> 16))
  else .ok sum
termination_by sum.toNat
decreasing_by exact toNat_carries_lt ‹_›

/-- `icmpv4_checksum`. -/
def icmpv4Checksum (data : List UInt8) : Except Panic UInt16 := do
  let sum ← sumWords data 0
  let sum ← foldCarries sum
  .ok (~~~ sum.toUInt16)

/-- The payload that `send_icmp_unreachable_v4` sends: the header of the message, and the start of
the packet. -/
def icmpUnreachableV4 (originalIpPayload : List UInt8) : Except Panic (List UInt8) := do
  let echoed := originalIpPayload.take 28
  let checksum ← icmpv4Checksum ([3, 3, 0, 0, 0, 0, 0, 0] ++ echoed)
  let header : List UInt8 :=
    [3, 3, (checksum >>> 8).toUInt8, (checksum &&& 0xff).toUInt8, 0, 0, 0, 0]
  .ok (header ++ echoed)

/-- `reject`, as far as the program computes a reply itself: to packets over IPv4 that are not TCP.
The other replies come from `etherparse`. -/
def reject (pkt : ParsedPacket) (originalIpPayload : List UInt8) :
    Except Panic (Option (List UInt8)) :=
  match pkt.srcIp, pkt.dstIp, pkt.proto with
  | .v4 _, .v4 _, .tcp => .ok none
  | .v4 _, .v4 _, _ => (icmpUnreachableV4 originalIpPayload).map some
  | _, _, _ => .ok none

/-! ## The tables -/

/-- `ThresholdTracker::record_and_check`. -/
def recordAndCheck (t : ThresholdTracker) (ruleIdx : Nat) (ip : IpAddr) (threshold : UInt32)
    (window : Duration) (now : Instant) : Except Panic (Bool × ThresholdTracker) :=
  if threshold ≤ 1 then .ok (true, t)
  else do
    let entry := (t.counts.lookup (ruleIdx, ip)).getD (0, now)
    let entry := if window < now.durationSince entry.2 then (0, now) else entry
    let count ← sumU32 entry.1 1
    if threshold ≤ count then .ok (true, ⟨t.counts.insert (ruleIdx, ip) (0, now)⟩)
    else .ok (false, ⟨t.counts.insert (ruleIdx, ip) (count, entry.2)⟩)

/-- `ConnTrack::lookup_or_admit`. -/
def lookupOrAdmit (c : ConnTrack) (pkt : ParsedPacket) (now : Instant) :
    Except Panic (LookupResult × ConnTrack) :=
  match c.table.lookup pkt.flowKey with
  | some entry => do
    let packets ← sumU64 entry.packets 1
    let bytes ← sumU64 entry.bytes (.ofNat pkt.payloadLen)
    let entry := { entry.see pkt now with packets, bytes }
    .ok (.established, { c with table := c.table.insert pkt.flowKey entry })
  | none => .ok (if c.cfg.maxEntries ≤ c.table.len then (.tableFull, c) else (.new, c))

/-! ## The packet loop -/

/-- `gate_auto_block`. -/
def gateAutoBlock (t : ThresholdTracker) (ruleIdx : Nat) (rule : Rule) (srcIp : IpAddr)
    (now : Instant) : Except Panic (Option UInt64 × ThresholdTracker) :=
  match rule.autoBlockSecs with
  | none => .ok (none, t)
  | some secs => do
    let (reached, t) ← recordAndCheck t ruleIdx srcIp rule.autoBlockThreshold
      (.fromSecs rule.autoBlockWindowSecs) now
    .ok (if reached then some secs else none, t)

section
variable {τ : Type} [TokenArith τ]

/-- The body of the loop of `evaluate` for a rule that matches. -/
def apply (rule : Rule) (idx : Nat) (pkt : ParsedPacket) (t : Tables τ) (r : Readings) :
    Except Panic (Decision × Tables τ) :=
  let (allowed, rateLimiter) := rule.withinRate idx pkt t.rateLimiter r.allow
  if !allowed then do
    let (autoBlockSecs, thresholdTracker) ←
      gateAutoBlock t.thresholdTracker idx rule pkt.srcIp r.check
    .ok ({ verdict := .drop, ruleName := rule.name ++ ":rate-limit-exceeded".toList, log := true
           autoBlockSecs }, { rateLimiter, thresholdTracker })
  else if rule.action.verdict = .accept then
    .ok ({ verdict := .accept, ruleName := rule.name, log := rule.log, autoBlockSecs := none },
      { rateLimiter, thresholdTracker := t.thresholdTracker })
  else do
    let (autoBlockSecs, thresholdTracker) ←
      gateAutoBlock t.thresholdTracker idx rule pkt.srcIp r.check
    .ok ({ verdict := rule.action.verdict, ruleName := rule.name, log := rule.log, autoBlockSecs },
      { rateLimiter, thresholdTracker })

/-- The loop of `evaluate` over the candidates. -/
def walk (rules : List Rule) (aliases : Table Str (List IpNet)) (defaultPolicy : Action)
    (pkt : ParsedPacket) (t : Tables τ) (r : Readings) :
    List (Fin rules.length) → Except Panic (Decision × Tables τ)
  | [] => .ok (defaultDecision defaultPolicy, t)
  | idx :: rest =>
    if ruleMatches aliases (rules.get idx) pkt then apply (rules.get idx) idx pkt t r
    else walk rules aliases defaultPolicy pkt t r rest

/-- `evaluate`. -/
def evaluate (e : Engine τ) (pkt : ParsedPacket) (r : Readings) :
    Except Panic (Decision × Engine τ) :=
  if e.isTrusted pkt.srcIp then .ok (trustedBypass, e)
  else do
    let (d, tables) ←
      walk e.rules e.aliases e.defaultPolicy pkt e.tables r (e.index.candidates pkt)
    .ok (d, { e with tables })

/-- The branch of a new flow, of a worker that could open a socket for rejects or not. -/
def newFlow (rejecter : Bool) (w : Wall τ) (pkt : ParsedPacket) (raw : List UInt8)
    (r : PacketReadings) : Except Panic (Outcome × Wall τ) := do
  let (decision, engine) ← evaluate w.engine pkt r.evaluate
  let conntrack :=
    if decision.verdict = .accept then w.conntrack.recordNew pkt r.recordNew else w.conntrack
  let _reply ← if decision.verdict = .reject ∧ rejecter then reject pkt raw else .ok none
  let quarantine ← Wall.autoBlock w.quarantine decision pkt.srcIp r.ban
  .ok (.evaluated pkt decision, { engine, conntrack, quarantine })

/-- The body of the loop on a packet that parses. -/
def processParsed (rejecter : Bool) (w : Wall τ) (pkt : ParsedPacket) (raw : List UInt8)
    (r : PacketReadings) : Except Panic (Outcome × Wall τ) :=
  if !w.engine.isTrusted pkt.srcIp && w.quarantine.isActive pkt.srcIp r.isActive then
    .ok (.quarantined pkt, w)
  else do
    match ← lookupOrAdmit w.conntrack pkt r.lookup with
    | (.established, conntrack) => .ok (.established pkt, { w with conntrack })
    | (.tableFull, conntrack) => .ok (.tableFull pkt, { w with conntrack })
    | (.new, _) => newFlow rejecter w pkt raw r

/-- The body of the loop of `run`. -/
def process (rejecter : Bool) (E : Etherparse) (w : Wall τ) (raw : List UInt8)
    (r : PacketReadings) : Except Panic (Outcome × Wall τ) :=
  match parse E raw with
  | .unclassifiableFragment => .ok (.fragment, w)
  | .malformed => .ok (.malformed, w)
  | .parsed pkt => processParsed rejecter w pkt raw r

/-- What an event does. Only packets make the program add: the sweeps compare times, and the time
between two instants is zero at least. -/
def next (rejecter : Bool) (E : Etherparse) (s : System τ) (e : Event) :
    Except Panic (System τ) :=
  match e with
  | .packet msg r => do
    let (outcome, wall) ← process rejecter E s.wall msg.payload r
    .ok ⟨wall, ⟨msg, outcome⟩ :: s.handled⟩
  | e => s.next E e

/-- The program on a configuration: its workers get their queues, and the events come. -/
def launch (rejecter : Bool) (E : Etherparse) (cfg : Config) (osSync : Option SyncQueue)
    (events : List Event) : Except Panic (List UInt16 × System τ) := do
  let queues ← queueNums cfg
  let s ← events.foldlM (next rejecter E) (System.new cfg osSync)
  .ok (queues, s)

end

/-! ## Sums that fit -/

theorem exists_foldCarries (sum : UInt32) : ∃ s, foldCarries sum = .ok s := by
  induction sum using foldCarries.induct with
  | case1 sum hsum ih =>
    obtain ⟨s, hs⟩ := ih
    rw [foldCarries, dif_pos hsum, sumU32_of_lt (carries_fit sum)]
    exact ⟨s, hs⟩
  | case2 sum hsum =>
    rw [foldCarries, dif_neg hsum]
    exact ⟨sum, rfl⟩

/-- The words of a short message fit into their sum. -/
theorem exists_sumWords {data : List UInt8} {sum : UInt32}
    (h : sum.toNat + 65536 * data.length < 2 ^ 32) : ∃ s, sumWords data sum = .ok s := by
  induction data, sum using sumWords.induct with
  | case1 a b rest sum ih =>
    have ha := a.toNat_lt
    have hb := b.toNat_lt
    have hword : (UInt32.ofNat (a.toNat * 256 + b.toNat)).toNat = a.toNat * 256 + b.toNat :=
      Nat.mod_eq_of_lt (by omega)
    rw [List.length_cons, List.length_cons] at h
    have hfits : sum.toNat + (UInt32.ofNat (a.toNat * 256 + b.toNat)).toNat < 2 ^ 32 := by omega
    have hsum := toNat_of_sumU32 (sumU32_of_lt hfits)
    rw [sumWords, sumU32_of_lt hfits]
    exact ih _ (by omega)
  | case2 a sum =>
    have ha := a.toNat_lt
    have hword : (a.toUInt32 <<< 8).toNat = a.toNat * 256 := by
      simp [UInt32.toNat_shiftLeft, Nat.shiftLeft_eq]
      omega
    rw [List.length_singleton] at h
    exact ⟨_, sumU32_of_lt (by omega)⟩
  | case3 sum => exact ⟨sum, rfl⟩

theorem exists_icmpv4Checksum {data : List UInt8} (h : data.length ≤ 36) :
    ∃ checksum, icmpv4Checksum data = .ok checksum := by
  have hfits : (0 : UInt32).toNat + 65536 * data.length < 2 ^ 32 := by
    rw [UInt32.toNat_zero]
    omega
  obtain ⟨sum, hsum⟩ := exists_sumWords hfits
  obtain ⟨folded, hfolded⟩ := exists_foldCarries sum
  exact ⟨_, bind_eq_ok.mpr ⟨sum, hsum, bind_eq_ok.mpr ⟨folded, hfolded, rfl⟩⟩⟩

/-- A reject reply is made of any packet. -/
theorem exists_reject (pkt : ParsedPacket) (raw : List UInt8) :
    ∃ reply, reject pkt raw = .ok reply := by
  have hpayload : ∃ payload, icmpUnreachableV4 raw = .ok payload := by
    have hlen : ([3, 3, 0, 0, 0, 0, 0, 0] ++ raw.take 28).length ≤ 36 := by
      rw [List.length_append, List.length_take]
      exact Nat.add_le_add_left (Nat.min_le_left 28 raw.length) 8
    obtain ⟨checksum, hchecksum⟩ := exists_icmpv4Checksum hlen
    exact ⟨_, bind_eq_ok.mpr ⟨checksum, hchecksum, rfl⟩⟩
  obtain ⟨payload, hpayload⟩ := hpayload
  unfold reject
  split
  · exact ⟨none, rfl⟩
  · exact ⟨some payload, by rw [hpayload]; rfl⟩
  · exact ⟨none, rfl⟩

/-! ## Counts that fit -/

/-- Each count of matches has room for one more. -/
def Roomy (t : ThresholdTracker) : Prop :=
  ∀ key entry, t.counts.lookup key = some entry → entry.1.toNat + 1 < 2 ^ 32

section
variable {t : ThresholdTracker} {ruleIdx : Nat} {ip : IpAddr} {threshold : UInt32}
  {window maxIdle : Duration} {now : Instant}

theorem roomy_new : Roomy .new := fun _ _ h => by cases h

theorem Roomy.sweep (h : Roomy t) : Roomy (t.sweep maxIdle now) := fun key entry hentry =>
  h key entry (Table.lookup_retain.mp hentry).1

/-- The count that a match is added to has room for it. -/
theorem Roomy.openEntry (h : Roomy t) (key : Nat × IpAddr) (window : Duration) (now : Instant) :
    (t.openEntry key window now).1.toNat + 1 < 2 ^ 32 := by
  rw [ThresholdTracker.openEntry]
  split
  · exact Nat.one_lt_two_pow (by decide)
  · cases hentry : t.counts.lookup key with
    | none => exact Nat.one_lt_two_pow (by decide)
    | some entry => exact h key entry hentry

/-- So counting a match does not overflow. -/
theorem recordAndCheck_eq (h : Roomy t) :
    recordAndCheck t ruleIdx ip threshold window now =
      .ok (t.recordAndCheck ruleIdx ip threshold window now) := by
  have hcount := sumU32_of_lt (b := 1) (h.openEntry (ruleIdx, ip) window now)
  unfold recordAndCheck ThresholdTracker.recordAndCheck
  split
  · rfl
  · change (sumU32 (t.openEntry (ruleIdx, ip) window now).1 1).bind _ = _
    rw [hcount]
    exact (apply_ite Except.ok _ _ _).symm

/-- A new entry with room for one more. -/
theorem Roomy.insert (h : Roomy t) {key : Nat × IpAddr} {entry : UInt32 × Instant}
    (hroom : entry.1.toNat + 1 < 2 ^ 32) : Roomy ⟨t.counts.insert key entry⟩ := by
  intro key' entry' hentry
  rcases eq_or_ne key' key with rfl | hne
  · rw [AList.lookup_insert] at hentry
    cases hentry
    exact hroom
  · rw [AList.lookup_insert_ne hne] at hentry
    exact h key' entry' hentry

/-- A count that is left has not reached its threshold. -/
theorem Roomy.recordAndCheck (h : Roomy t) :
    Roomy (t.recordAndCheck ruleIdx ip threshold window now).2 := by
  rcases UInt32.lt_or_le 1 threshold with hthreshold | hthreshold
  · rw [ThresholdTracker.recordAndCheck_eq (ruleIdx, ip) hthreshold]
    split
    · exact h.insert (Nat.one_lt_two_pow (by decide))
    · next hreached =>
      have hlt := UInt32.lt_iff_toNat_lt.mp (UInt32.not_le.mp hreached)
      have hroom := threshold.toNat_lt
      refine h.insert ?_
      dsimp only
      omega
  · rw [ThresholdTracker.recordAndCheck_of_le_one (ruleIdx, ip) hthreshold]
    exact h

variable {rule : Rule} {srcIp : IpAddr}

theorem gateAutoBlock_eq (h : Roomy t) :
    gateAutoBlock t ruleIdx rule srcIp now =
      .ok (Firewall.gateAutoBlock t ruleIdx rule srcIp now) := by
  unfold gateAutoBlock Firewall.gateAutoBlock
  cases rule.autoBlockSecs with
  | none => rfl
  | some secs =>
    dsimp only
    rw [recordAndCheck_eq h]
    rfl

theorem Roomy.gateAutoBlock (h : Roomy t) :
    Roomy (Firewall.gateAutoBlock t ruleIdx rule srcIp now).2 := by
  unfold Firewall.gateAutoBlock
  split
  · exact h
  · exact h.recordAndCheck

end

section
variable {τ : Type} [TokenArith τ] {t : Tables τ} {pkt : ParsedPacket} {r : Readings}

/-- Neither does a rule that matches. -/
theorem apply_eq (h : Roomy t.thresholdTracker) (rule : Rule) (idx : Nat) :
    apply rule idx pkt t r = .ok (rule.apply idx pkt t r) := by
  unfold apply Rule.apply
  dsimp only
  rw [gateAutoBlock_eq h]
  split
  · rfl
  · split <;> rfl

theorem Roomy.apply (h : Roomy t.thresholdTracker) (rule : Rule) (idx : Nat) :
    Roomy (rule.apply idx pkt t r).2.thresholdTracker := by
  unfold Rule.apply
  dsimp only
  split
  · exact h.gateAutoBlock
  · split
    · exact h
    · exact h.gateAutoBlock

variable {rules : List Rule} {aliases : Table Str (List IpNet)} {defaultPolicy : Action}
  {candidates : List (Fin rules.length)}

theorem walk_eq (h : Roomy t.thresholdTracker) :
    walk rules aliases defaultPolicy pkt t r candidates =
      .ok (Firewall.walk rules aliases defaultPolicy pkt t r candidates) := by
  induction candidates with
  | nil => rfl
  | cons idx rest ih =>
    rw [walk, ih, apply_eq h]
    exact (apply_ite Except.ok _ _ _).symm

theorem Roomy.walk (h : Roomy t.thresholdTracker) :
    Roomy (Firewall.walk rules aliases defaultPolicy pkt t r candidates).2.thresholdTracker := by
  induction candidates with
  | nil => exact h
  | cons idx rest ih =>
    rw [Firewall.walk]
    split
    · exact h.apply _ _
    · exact ih

variable {e : Engine τ}

/-- The rules make no sum that does not fit. -/
theorem evaluate_eq (h : Roomy e.tables.thresholdTracker) :
    evaluate e pkt r = .ok (e.evaluate pkt r) := by
  unfold evaluate Engine.evaluate
  rw [walk_eq h]
  split <;> rfl

theorem Roomy.evaluate (h : Roomy e.tables.thresholdTracker) :
    Roomy (e.evaluate pkt r).2.tables.thresholdTracker := by
  unfold Engine.evaluate
  split
  · exact h
  · exact h.walk

end

/-! ## What can overflow -/

/-- The counters of the flow of a packet have room for it. -/
def CountersFit (c : ConnTrack) (pkt : ParsedPacket) : Prop :=
  ∀ entry, c.table.lookup pkt.flowKey = some entry →
    entry.packets.toNat + 1 < 2 ^ 64 ∧
      entry.bytes.toNat + (UInt64.ofNat pkt.payloadLen).toNat < 2 ^ 64

/-- The ban that a decision calls for ends at an instant that there is. -/
def BanFits (decision : Decision) (now : Instant) : Prop :=
  ∀ secs, decision.autoBlockSecs = some secs → now + Duration.fromSecs secs ≤ Instant.last

/-- What a packet makes the program add fits: to the counters of its flow, and to the time for the
end of a ban, where the rules are asked. -/
def PacketFits {τ : Type} [TokenArith τ] (w : Wall τ) (pkt : ParsedPacket) (r : PacketReadings) :
    Prop :=
  w.engine.isTrusted pkt.srcIp = true ∨ w.quarantine.isActive pkt.srcIp r.isActive = false →
    CountersFit w.conntrack pkt ∧
      (pkt.flowKey ∉ w.conntrack.table → w.conntrack.table.len < w.conntrack.cfg.maxEntries →
        BanFits (w.engine.evaluate pkt r.evaluate).1 r.ban)

/-- What an event makes the program add fits. -/
def Fits {τ : Type} [TokenArith τ] (E : Etherparse) (s : System τ) : Event → Prop
  | .packet msg r => ∀ pkt, parse E msg.payload = .parsed pkt → PacketFits s.wall pkt r
  | _ => True

/-- It does at every event of a run. -/
def AllFit {τ : Type} [TokenArith τ] (E : Etherparse) : System τ → List Event → Prop
  | _, [] => True
  | s, e :: es => Fits E s e ∧ ∀ t, s.next E e = .ok t → AllFit E t es

/-- The numbers of the queues fit. -/
def QueuesFit (cfg : Config) : Prop :=
  cfg.queueWorkers = 0 ∨ cfg.queueNum.toNat + cfg.queueWorkers.toNat ≤ 2 ^ 16

/-- A list of computations that may panic succeeds if each of them does. -/
theorem exists_mapM_iff {α β : Type} {f : α → Except Panic β} {as : List α} :
    (∃ bs, as.mapM f = .ok bs) ↔ ∀ a ∈ as, ∃ b, f a = .ok b := by
  induction as with
  | nil => exact iff_of_true ⟨[], rfl⟩ fun _ h => absurd h List.not_mem_nil
  | cons a as ih =>
    rw [List.mapM_cons, List.forall_mem_cons, ← ih]
    constructor
    · rintro ⟨bs, h⟩
      obtain ⟨b, hb, h⟩ := bind_eq_ok.mp h
      obtain ⟨bs', hbs, -⟩ := bind_eq_ok.mp h
      exact ⟨⟨b, hb⟩, bs', hbs⟩
    · rintro ⟨⟨b, hb⟩, bs, hbs⟩
      exact ⟨b :: bs, bind_eq_ok.mpr ⟨b, hb, bind_eq_ok.mpr ⟨bs, hbs, rfl⟩⟩⟩

theorem exists_sumU16_iff {a b : UInt16} :
    (∃ c, sumU16 a b = .ok c) ↔ a.toNat + b.toNat < 2 ^ 16 := by
  constructor
  · rintro ⟨c, h⟩
    by_contra hover
    rw [sumU16, if_neg hover] at h
    cases h
  · intro h
    exact ⟨a + b, sumU16_of_lt h⟩

theorem queueNums_iff (cfg : Config) : (∃ queues, queueNums cfg = .ok queues) ↔ QueuesFit cfg := by
  have hworkers := cfg.queueWorkers.toNat_lt
  have htoNat {i : ℕ} (hi : i < cfg.queueWorkers.toNat) : (UInt16.ofNat i).toNat = i :=
    Nat.mod_eq_of_lt (hi.trans hworkers)
  rw [queueNums, exists_mapM_iff, QueuesFit]
  simp only [List.mem_range, exists_sumU16_iff]
  constructor
  · intro h
    rcases Nat.eq_zero_or_pos cfg.queueWorkers.toNat with hzero | hpos
    · exact .inl (UInt16.toNat_inj.mp hzero)
    · have hlast := h (cfg.queueWorkers.toNat - 1) (by omega)
      rw [htoNat (by omega)] at hlast
      exact .inr (by omega)
  · rintro (hzero | hle) i hi
    · rw [hzero] at hi
      cases hi
    · rw [htoNat hi]
      omega

/-! ## Where the checked loop goes on -/

section
variable {c : ConnTrack} {pkt : ParsedPacket} {now : Instant}

theorem lookupOrAdmit_of_fits (h : CountersFit c pkt) :
    lookupOrAdmit c pkt now = .ok (c.lookupOrAdmit pkt now) := by
  unfold lookupOrAdmit ConnTrack.lookupOrAdmit
  cases hentry : c.table.lookup pkt.flowKey with
  | none => rfl
  | some entry =>
    obtain ⟨hpackets, hbytes⟩ := h entry hentry
    exact bind_eq_ok.mpr ⟨_, sumU64_of_lt hpackets, bind_eq_ok.mpr ⟨_, sumU64_of_lt hbytes, rfl⟩⟩

theorem lt_of_sumU64 {a b s : UInt64} (h : sumU64 a b = .ok s) : a.toNat + b.toNat < 2 ^ 64 := by
  by_contra hover
  rw [sumU64, if_neg hover] at h
  cases h

theorem countersFit_of_ok {result : LookupResult × ConnTrack}
    (h : lookupOrAdmit c pkt now = .ok result) : CountersFit c pkt := by
  intro entry hentry
  unfold lookupOrAdmit at h
  rw [hentry] at h
  obtain ⟨packets, hpackets, h⟩ := bind_eq_ok.mp h
  obtain ⟨bytes, hbytes, -⟩ := bind_eq_ok.mp h
  exact ⟨lt_of_sumU64 hpackets, lt_of_sumU64 hbytes⟩

/-- A ban succeeds if there is an instant for its end. -/
theorem exists_ban_iff {q : Quarantine} {ip : IpAddr} {duration : Duration} :
    (∃ result, q.ban ip duration now = .ok result) ↔ now + duration ≤ Instant.last := by
  constructor
  · rintro ⟨result, h⟩
    obtain ⟨expiry, hexpiry, -⟩ := bind_eq_ok.mp h
    by_contra hover
    rw [Instant.add, if_neg hover] at hexpiry
    cases hexpiry
  · intro h
    have hexpiry : now.add duration = .ok (now + duration) := if_pos h
    rw [Quarantine.ban, hexpiry]
    cases hentry : q.table.lookup ip with
    | some expiry => exact ⟨_, rfl⟩
    | none =>
      by_cases hfull : q.maxEntries ≤ q.table.len
      · exact ⟨_, if_pos hfull⟩
      · exact ⟨_, if_neg hfull⟩

theorem exists_autoBlock_iff (q : Quarantine) (decision : Decision) (ip : IpAddr) :
    (∃ q', Wall.autoBlock q decision ip now = .ok q') ↔ BanFits decision now := by
  unfold Wall.autoBlock BanFits
  cases decision.autoBlockSecs with
  | none => exact iff_of_true ⟨q, rfl⟩ fun secs h => by cases h
  | some secs =>
    have hban : (∃ q', (q.ban ip (.fromSecs secs) now).map Prod.snd = .ok q') ↔
        ∃ result, q.ban ip (.fromSecs secs) now = .ok result := by
      cases q.ban ip (.fromSecs secs) now with
      | error e => exact iff_of_false (fun ⟨_, h⟩ => by cases h) fun ⟨_, h⟩ => by cases h
      | ok result => exact iff_of_true ⟨result.2, rfl⟩ ⟨result, rfl⟩
    dsimp only
    rw [hban, exists_ban_iff]
    simp only [Option.some.injEq, forall_eq']

end

section
variable {τ : Type} [TokenArith τ] {rejecter : Bool} {w : Wall τ} {pkt : ParsedPacket}
  {raw : List UInt8} {r : PacketReadings}

/-- A new flow is handled as in the loop: the rules and the reply make no sum that does not fit. -/
theorem newFlow_eq (h : Roomy w.engine.tables.thresholdTracker) :
    newFlow rejecter w pkt raw r = w.newFlow pkt r := by
  obtain ⟨reply, hreply⟩ := exists_reject pkt raw
  unfold newFlow
  rw [evaluate_eq h, hreply]
  by_cases hreject : (w.engine.evaluate pkt r.evaluate).1.verdict = .reject ∧ rejecter
  · simp only [bind, Except.bind, if_pos hreject]
    rfl
  · simp only [bind, Except.bind, if_neg hreject]
    rfl

/-- Only the end of a ban may not fit there. -/
theorem exists_newFlow_iff (h : Roomy w.engine.tables.thresholdTracker) :
    (∃ result, newFlow rejecter w pkt raw r = .ok result) ↔
      BanFits (w.engine.evaluate pkt r.evaluate).1 r.ban := by
  rw [newFlow_eq h, ← exists_autoBlock_iff w.quarantine _ pkt.srcIp]
  constructor
  · rintro ⟨result, hresult⟩
    obtain ⟨quarantine, hquarantine, -⟩ := bind_eq_ok.mp hresult
    exact ⟨quarantine, hquarantine⟩
  · rintro ⟨quarantine, hquarantine⟩
    exact ⟨_, bind_eq_ok.mpr ⟨quarantine, hquarantine, rfl⟩⟩

/-- A packet of no banned source goes on to the connection table. -/
theorem processParsed_of_free
    (hfree : w.engine.isTrusted pkt.srcIp = true ∨
      w.quarantine.isActive pkt.srcIp r.isActive = false) :
    processParsed rejecter w pkt raw r = (lookupOrAdmit w.conntrack pkt r.lookup).bind fun
      | (.established, conntrack) => .ok (.established pkt, { w with conntrack })
      | (.tableFull, conntrack) => .ok (.tableFull pkt, { w with conntrack })
      | (.new, _) => newFlow rejecter w pkt raw r := by
  rw [processParsed, if_neg]
  · rfl
  · rcases hfree with htrusted | hinactive
    · simp [htrusted]
    · simp [hinactive]

/-- A packet is handled if what it adds fits. -/
theorem exists_processParsed_iff (h : Roomy w.engine.tables.thresholdTracker) :
    (∃ result, processParsed rejecter w pkt raw r = .ok result) ↔ PacketFits w pkt r := by
  by_cases hfree : w.engine.isTrusted pkt.srcIp = true ∨
      w.quarantine.isActive pkt.srcIp r.isActive = false
  · rw [processParsed_of_free hfree, PacketFits, imp_iff_right hfree]
    by_cases hcounters : CountersFit w.conntrack pkt
    · rw [lookupOrAdmit_of_fits hcounters, and_iff_right hcounters]
      by_cases hmem : pkt.flowKey ∈ w.conntrack.table
      · rw [ConnTrack.lookupOrAdmit_of_mem hmem]
        exact iff_of_true ⟨_, rfl⟩ fun hnew => absurd hmem hnew
      · rw [ConnTrack.lookupOrAdmit_of_not_mem hmem, imp_iff_right hmem]
        by_cases hfull : w.conntrack.cfg.maxEntries ≤ w.conntrack.table.len
        · rw [if_pos hfull]
          exact iff_of_true ⟨_, rfl⟩ fun hroom => absurd hfull (Nat.not_le.mpr hroom)
        · rw [if_neg hfull, imp_iff_right (Nat.not_le.mp hfull)]
          exact exists_newFlow_iff h
    · refine iff_of_false ?_ fun hfits => hcounters hfits.1
      rintro ⟨result, hresult⟩
      obtain ⟨looked, hlooked, -⟩ := bind_eq_ok.mp hresult
      exact hcounters (countersFit_of_ok hlooked)
  · have hbanned : (!w.engine.isTrusted pkt.srcIp && w.quarantine.isActive pkt.srcIp r.isActive) =
        true := by
      simpa using hfree
    rw [processParsed, if_pos hbanned]
    exact iff_of_true ⟨_, rfl⟩ fun hfree' => absurd hfree' hfree

/-- And then it is handled as in the loop. -/
theorem processParsed_eq (h : Roomy w.engine.tables.thresholdTracker)
    (hfits : PacketFits w pkt r) :
    processParsed rejecter w pkt raw r = w.processParsed pkt r := by
  unfold processParsed Wall.processParsed
  split
  · rfl
  · next hfree =>
    have hfree : w.engine.isTrusted pkt.srcIp = true ∨
        w.quarantine.isActive pkt.srcIp r.isActive = false := by
      simpa [or_iff_not_imp_left] using hfree
    rw [lookupOrAdmit_of_fits (hfits hfree).1]
    rcases w.conntrack.lookupOrAdmit pkt r.lookup with ⟨result, conntrack⟩
    cases result with
    | established => rfl
    | tableFull => rfl
    | new => exact newFlow_eq h

variable {E : Etherparse} {s t : System τ} {e : Event}

/-- An event does something if what it adds fits. -/
theorem exists_next_iff (h : Roomy s.wall.engine.tables.thresholdTracker) :
    (∃ t, next rejecter E s e = .ok t) ↔ Fits E s e := by
  cases e with
  | packet msg r =>
    have hnext : (∃ t, next rejecter E s (.packet msg r) = .ok t) ↔
        ∃ result, process rejecter E s.wall msg.payload r = .ok result := by
      constructor
      · rintro ⟨t, ht⟩
        obtain ⟨result, hresult, -⟩ := bind_eq_ok.mp ht
        exact ⟨result, hresult⟩
      · rintro ⟨result, hresult⟩
        exact ⟨_, bind_eq_ok.mpr ⟨result, hresult, rfl⟩⟩
    rw [hnext, process, Fits]
    cases hparse : parse E msg.payload with
    | unclassifiableFragment => exact iff_of_true ⟨_, rfl⟩ fun pkt hpkt => by cases hpkt
    | malformed => exact iff_of_true ⟨_, rfl⟩ fun pkt hpkt => by cases hpkt
    | parsed pkt =>
      dsimp only
      rw [exists_processParsed_iff h]
      simp only [ParseOutcome.parsed.injEq, forall_eq']
  | sweepConntrack => exact iff_of_true ⟨_, rfl⟩ trivial
  | sweepQuarantine => exact iff_of_true ⟨_, rfl⟩ trivial
  | engineMaintenance => exact iff_of_true ⟨_, rfl⟩ trivial
  | reload => exact iff_of_true ⟨_, rfl⟩ trivial
  | unban => exact iff_of_true ⟨_, rfl⟩ trivial

/-- And then it does what it does in the system. -/
theorem next_eq (h : Roomy s.wall.engine.tables.thresholdTracker) (hfits : Fits E s e) :
    next rejecter E s e = s.next E e := by
  cases e with
  | packet msg r =>
    have hprocess : process rejecter E s.wall msg.payload r =
        s.wall.process E msg.payload r := by
      unfold process Wall.process
      cases hparse : parse E msg.payload with
      | unclassifiableFragment => rfl
      | malformed => rfl
      | parsed pkt => exact processParsed_eq h (hfits pkt hparse)
    rw [next, System.next, hprocess]
  | sweepConntrack => rfl
  | sweepQuarantine => rfl
  | engineMaintenance => rfl
  | reload => rfl
  | unban => rfl

/-- An event leaves room in the counts of matches. -/
theorem Roomy.next (h : Roomy s.wall.engine.tables.thresholdTracker)
    (hnext : s.next E e = .ok t) : Roomy t.wall.engine.tables.thresholdTracker := by
  cases e with
  | packet msg r =>
    obtain ⟨⟨outcome, wall⟩, hprocess, hnext⟩ := bind_eq_ok.mp hnext
    cases hnext
    cases Wall.processed_of_process hprocess with
    | fragment | malformed | quarantined | established | tableFull => exact h
    | evaluated => exact h.evaluate
  | sweepConntrack => cases hnext; exact h
  | sweepQuarantine => cases hnext; exact h
  | engineMaintenance => cases hnext; exact h.sweep
  | reload => cases hnext; exact roomy_new
  | unban => cases hnext; exact h

/-- The events of a run happen if what each of them adds fits. -/
theorem exists_run_iff (rejecter : Bool) {events : List Event}
    (h : Roomy s.wall.engine.tables.thresholdTracker) :
    (∃ t, events.foldlM (next rejecter E) s = .ok t) ↔ AllFit E s events := by
  induction events generalizing s with
  | nil => exact iff_of_true ⟨s, rfl⟩ trivial
  | cons e events ih =>
    rw [List.foldlM_cons, AllFit]
    constructor
    · rintro ⟨u, hu⟩
      obtain ⟨t, ht, hu⟩ := bind_eq_ok.mp hu
      have hfits := (exists_next_iff h).mp ⟨t, ht⟩
      rw [next_eq h hfits] at ht
      refine ⟨hfits, fun t' ht' => ?_⟩
      obtain rfl : t = t' := Except.ok.inj (ht.symm.trans ht')
      exact (ih (h.next ht)).mp ⟨u, hu⟩
    · rintro ⟨hfits, hrest⟩
      obtain ⟨t, ht⟩ := (exists_next_iff h).mpr hfits
      have hstep := (next_eq h hfits).symm.trans ht
      obtain ⟨u, hu⟩ := (ih (h.next hstep)).mpr (hrest t hstep)
      exact ⟨u, bind_eq_ok.mpr ⟨t, ht, hu⟩⟩

end

/-! ## The program -/

/-- The program starts and handles its packets without an overflow or a panic exactly if the numbers
of its queues fit and so does what each event adds. -/
theorem launches_iff {τ : Type} [TokenArith τ] (rejecter : Bool) (E : Etherparse) (cfg : Config)
    (osSync : Option SyncQueue) (events : List Event) :
    (∃ result, launch (τ := τ) rejecter E cfg osSync events = .ok result) ↔
      QueuesFit cfg ∧ AllFit E (System.new (τ := τ) cfg osSync) events := by
  have hroomy : Roomy (System.new (τ := τ) cfg osSync).wall.engine.tables.thresholdTracker :=
    roomy_new
  rw [← queueNums_iff, ← exists_run_iff rejecter hroomy]
  constructor
  · rintro ⟨result, hresult⟩
    obtain ⟨queues, hqueues, hresult⟩ := bind_eq_ok.mp hresult
    obtain ⟨s, hs, -⟩ := bind_eq_ok.mp hresult
    exact ⟨⟨queues, hqueues⟩, s, hs⟩
  · rintro ⟨⟨queues, hqueues⟩, s, hs⟩
    exact ⟨_, bind_eq_ok.mpr ⟨queues, hqueues, bind_eq_ok.mpr ⟨s, hs, rfl⟩⟩⟩

/-- A file for two workers from the last queue on. -/
def lastQueueText : Str := "queue_num = 65535\nqueue_workers = 2\n".toList

/-- The document in it. -/
def lastQueueDoc : TomlValue :=
  .table [("queue_num".toList, .integer 65535), ("queue_workers".toList, .integer 2)]

/-- The crate `toml` on this file. -/
def lastQueueToml : TomlCrate where
  fromStr text := if text = lastQueueText then some lastQueueDoc else none
  toStringPretty _ := none

theorem readConfig_lastQueueDoc (parseIpNet : Str → Option IpNet) :
    readConfig parseIpNet lastQueueDoc = some { queueNum := 65535, queueWorkers := 2 } := by
  rfl

/-- The file is accepted. -/
theorem load_lastQueueText (parseIpNet : Str → Option IpNet) :
    Config.load lastQueueToml parseIpNet lastQueueText =
      some { queueNum := 65535, queueWorkers := 2 } := by
  have hparse : lastQueueToml.fromStr lastQueueText = some lastQueueDoc := by
    simp [lastQueueToml]
  rw [Config.load, hparse, Option.bind_eq_bind, Option.bind_some, readConfig_lastQueueDoc]
  rfl

/-- The second worker of that file would get the queue 65536. -/
theorem not_launches :
    ¬ ∀ (T : TomlCrate) (parseIpNet : Str → Option IpNet) (text : Str) (cfg : Config),
      Config.load T parseIpNet text = some cfg →
      ∀ (rejecter : Bool) (E : Etherparse) (osSync : Option SyncQueue) (events : List Event),
        ∃ result, launch (τ := Float) rejecter E cfg osSync events = .ok result := by
  intro hall
  obtain ⟨result, hresult⟩ := hall lastQueueToml (fun _ => none) lastQueueText _
    (load_lastQueueText _) true bareEtherparse none []
  obtain ⟨queues, hqueues, -⟩ := bind_eq_ok.mp hresult
  rcases (queueNums_iff _).mp ⟨queues, hqueues⟩ with hzero | hle
  · cases hzero
  · exact absurd hle (by decide)

end ActiveDefense.Firewall.Checked
