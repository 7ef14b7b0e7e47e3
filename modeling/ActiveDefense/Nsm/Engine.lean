import ActiveDefense.Nsm.Beacon

/-!
# The detection engine

`DetectionEngine` shows every packet to the four detectors, each of which reads the clocks for
itself, and then looks for the patterns of the signatures in its payload. Only a port scan of five
times the threshold and a signature of critical severity are reported as critical and with a source
(`critical_analyze`).
-/

namespace ActiveDefense.Nsm

/-! ## Signatures -/

/-- `Rule`. -/
structure Rule where
  name : Str
  pattern : List UInt8
  severity : Severity
deriving DecidableEq, Repr

/-- `SignatureEngine`. -/
structure SignatureEngine where
  rules : List Rule
deriving DecidableEq, Repr

/-- A byte string. -/
def byteString (s : String) : List UInt8 := s.toList.map fun c => UInt8.ofNat c.toNat

/-- `SignatureEngine::with_default_ruleset`. -/
def SignatureEngine.withDefaultRuleset : SignatureEngine where
  rules :=
    [ ⟨"cleartext-http-basic-auth".toList, byteString "Authorization: Basic", .medium⟩,
      ⟨"ftp-cleartext-user".toList, byteString "USER ", .low⟩,
      ⟨"suspicious-user-agent-curl".toList, byteString "User-Agent: curl", .info⟩,
      ⟨"possible-webshell-cmd".toList, byteString "cmd=", .medium⟩,
      ⟨"possible-sqli-union-select".toList, byteString "UNION SELECT", .high⟩,
      ⟨"possible-log4shell".toList, byteString "$\x7bjndi:", .critical⟩,
      ⟨"eicar-test-string".toList, byteString "EICAR-STANDARD-ANTIVIRUS-TEST-FILE", .high⟩ ]

/-- `haystack.windows(n)`. -/
def slidingWindows (n : Nat) (haystack : List UInt8) : List (List UInt8) :=
  (List.range (haystack.length + 1 - n)).map fun i => (haystack.drop i).take n

/-- `contains`. -/
def contains (haystack needle : List UInt8) : Bool :=
  if needle.isEmpty || decide (haystack.length < needle.length) then false
  else (slidingWindows needle.length haystack).any (· = needle)

/-- The alert of a rule. -/
def Rule.alert (rule : Rule) (tsUnix : UInt64) (pkt : PacketMeta) : Alert where
  tsUnix
  severity := rule.severity
  detector := "signature".toList
  message := "payload matched rule '".toList ++ rule.name ++ "' (".toList ++ pkt.srcIp.display ++
    " -> ".toList ++ pkt.dstIp.display ++ ")".toList
  srcIp := some pkt.srcIp
  dstIp := some pkt.dstIp
  extra := [("rule".toList, .string rule.name)]

/-- `SignatureEngine::scan`; the clock is read for each rule that matches. -/
def SignatureEngine.scan (e : SignatureEngine) (now : Rule → UInt64) (pkt : PacketMeta) :
    List Alert :=
  if pkt.payloadHead.isEmpty then []
  else (e.rules.filter fun r => contains pkt.payloadHead r.pattern).map fun r => r.alert (now r) pkt

theorem mem_slidingWindows {n : Nat} {haystack w : List UInt8} (hn : n ≤ haystack.length) :
    w ∈ slidingWindows n haystack ↔ w.length = n ∧ w <:+: haystack := by
  simp only [slidingWindows, List.mem_map, List.mem_range]
  constructor
  · rintro ⟨i, hi, rfl⟩
    refine ⟨by rw [List.length_take, List.length_drop]; omega, ?_⟩
    exact (List.take_prefix _ _).isInfix.trans (List.drop_suffix _ _).isInfix
  · rintro ⟨rfl, before, after, rfl⟩
    refine ⟨before.length, by simp only [List.length_append]; omega, ?_⟩
    rw [List.append_assoc, List.drop_left, List.take_left]

/-- A pattern is found exactly where it occurs, and the empty one nowhere. -/
theorem contains_iff {haystack needle : List UInt8} :
    contains haystack needle = true ↔ needle ≠ [] ∧ needle <:+: haystack := by
  unfold contains
  split
  · next h =>
    rw [Bool.or_eq_true, List.isEmpty_iff, decide_eq_true_eq] at h
    refine iff_of_false nofun ?_
    rintro ⟨hne, hinfix⟩
    exact absurd hinfix.length_le (Nat.not_le.mpr (h.resolve_left hne))
  · next h =>
    rw [Bool.or_eq_true, List.isEmpty_iff, decide_eq_true_eq, not_or] at h
    rw [List.any_eq_true]
    constructor
    · rintro ⟨w, hw, heq⟩
      obtain rfl := of_decide_eq_true heq
      exact ⟨h.1, ((mem_slidingWindows (by omega)).mp hw).2⟩
    · rintro ⟨-, hinfix⟩
      exact ⟨needle, (mem_slidingWindows (by omega)).mpr ⟨rfl, hinfix⟩, decide_eq_true rfl⟩

/-! ## The engine -/

/-- `DetectionEngine`. -/
structure DetectionEngine (φ : Type) where
  portscan : PortScanDetector
  synflood : SynFloodDetector
  dnsTunnel : DnsTunnelDetector
  beacon : BeaconDetector φ
  signatures : SignatureEngine

/-- What the two clocks say. -/
structure Clock where
  instant : Nat
  tsUnix : UInt64
deriving DecidableEq, Repr

/-- A packet seen at such a time. -/
def Clock.sighting (clock : Clock) (pkt : PacketMeta) : Sighting :=
  ⟨clock.instant, clock.tsUnix, pkt⟩

/-- What they say to each detector. -/
structure Clocks where
  portscan : Clock
  synflood : Clock
  dnsTunnel : Clock
  beacon : Clock
  signatures : Rule → UInt64

/-- A packet, with what the clocks say of it. -/
structure ClockedPacket extends Clocks where
  pkt : PacketMeta

section
variable {φ : Type} [DetectArith φ]

/-- `DetectionEngine::new`. -/
def DetectionEngine.new (localIps : Finset IpAddr) : DetectionEngine φ where
  portscan := .new localIps (10 * 10 ^ 9) ⟨20, 15⟩ ⟨60, 40⟩
  synflood := .new (5 * 10 ^ 9) 100
  dnsTunnel := .new (30 * 10 ^ 9) 60
  beacon := .new
  signatures := .withDefaultRuleset

variable (φ) in
/-- An alert without floating-point values. -/
def Alert.measured (alert : Alert) : MeasuredAlert φ := { alert with measures := [] }

variable (φ) in
/-- `DetectionEngine::analyze`. -/
def DetectionEngine.analyze (w : UsizeWidth) :
    Machine (DetectionEngine φ) ClockedPacket (List (MeasuredAlert φ)) := fun e a =>
  let (scan, portscan) := PortScanDetector.observe w e.portscan (a.portscan.sighting a.pkt)
  let (flood, synflood) := SynFloodDetector.observe e.synflood (a.synflood.sighting a.pkt)
  let (tunnel, dnsTunnel) := DnsTunnelDetector.observe φ e.dnsTunnel (a.dnsTunnel.sighting a.pkt)
  let (call, beacon) := BeaconDetector.observe φ e.beacon (a.beacon.sighting a.pkt)
  ((scan.map (Alert.measured φ)).toList ++ (flood.map (Alert.measured φ)).toList ++
      tunnel.toList ++ call.toList ++
      (e.signatures.scan a.signatures a.pkt).map (Alert.measured φ),
    { e with portscan, synflood, dnsTunnel, beacon })

/-! ## Critical alerts -/

variable {w : UsizeWidth} {e : DetectionEngine φ} {a : ClockedPacket}

omit [DetectArith φ] in
/-- A flood has no source. -/
theorem srcIp_of_flood {d : SynFloodDetector} {s : Sighting} {alert : Alert}
    (h : (SynFloodDetector.observe d s).1 = some alert) : alert.srcIp = none := by
  unfold SynFloodDetector.observe SynFloodDetector.report at h
  split at h
  · dsimp only at h
    split at h <;> cases h
    rfl
  · cases h

/-- A tunnel is not critical. -/
theorem severity_of_tunnel {d : DnsTunnelDetector} {s : Sighting} {alert : MeasuredAlert φ}
    (h : (DnsTunnelDetector.observe φ d s).1 = some alert) : alert.severity ≠ .critical := by
  unfold DnsTunnelDetector.observe DnsTunnelDetector.report at h
  split at h
  · cases h
  · dsimp only at h
    split at h
    · cases h
      exact nofun
    · split at h <;> cases h
      exact nofun

/-- Nor is a beacon. -/
theorem severity_of_beacon {d : BeaconDetector φ} {s : Sighting} {alert : MeasuredAlert φ}
    (h : (BeaconDetector.observe φ d s).1 = some alert) : alert.severity ≠ .critical := by
  unfold BeaconDetector.observe BeaconDetector.report at h
  split at h
  · dsimp only at h
    split at h
    · cases h
    · split at h
      · cases h
      · split at h <;> cases h
        exact nofun
  · cases h

/-- A critical alert with a source is a port scan, or a signature in the payload. -/
theorem critical_analyze {alert : MeasuredAlert φ} {src : IpAddr}
    (h : alert ∈ (e.analyze φ w a).1) (hcritical : alert.severity = .critical)
    (hsrc : alert.srcIp = some src) :
    (PortScanDetector.observe w e.portscan (a.portscan.sighting a.pkt)).1 = some alert.toAlert ∨
      a.pkt.payloadHead ≠ [] ∧ a.pkt.srcIp = src ∧
        ∃ rule ∈ e.signatures.rules, rule.severity = .critical ∧
          rule.pattern <:+: a.pkt.payloadHead := by
  simp only [DetectionEngine.analyze, List.mem_append, List.mem_map, Option.mem_toList,
    Option.map_eq_some_iff] at h
  obtain (((⟨scan, hscan, rfl⟩ | ⟨flood, hflood, rfl⟩) | htunnel) | hcall) | ⟨hit, hhit, rfl⟩ := h
  · exact .inl hscan
  · cases (srcIp_of_flood hflood).symm.trans hsrc
  · exact absurd hcritical (severity_of_tunnel htunnel)
  · exact absurd hcritical (severity_of_beacon hcall)
  · unfold SignatureEngine.scan at hhit
    split at hhit
    · cases hhit
    · next hpayload =>
      obtain ⟨rule, hrule, rfl⟩ := List.mem_map.mp hhit
      obtain ⟨hmem, hcontains⟩ := List.mem_filter.mp hrule
      exact .inr ⟨by simpa using hpayload, Option.some.inj hsrc, rule, hmem, hcritical,
        (contains_iff.mp hcontains).2⟩

end

end ActiveDefense.Nsm
