import ActiveDefense.Firewall.Config
import ActiveDefense.Firewall.Packet
import ActiveDefense.Firewall.RateLimit
import ActiveDefense.Firewall.Threshold

/-!
# The rule engine

`Engine.new` sorts the rules of a configuration into an index by protocol and exact destination
port and a list of the rest. `Engine.evaluate` merges the packet's bucket of the index with that
list, back in rule order, and takes the first rule that matches. Indices of rules carry the proof
that they are in range, so that no lookup of a rule can fail.
-/

namespace ActiveDefense.Firewall

inductive Verdict where
  | accept
  | drop
  | reject
deriving DecidableEq, Repr

structure Decision where
  verdict : Verdict
  ruleName : Str
  log : Bool
  autoBlockSecs : Option UInt64
deriving DecidableEq, Repr

/-- The verdict of an action. -/
def Action.verdict : Action → Verdict
  | .accept => .accept
  | .drop => .drop
  | .reject => .reject

/-- `proto_num`. -/
def Protocol.protoNum : Protocol → Option UInt8
  | .tcp => some 6
  | .udp => some 17
  | .icmp => some 1
  | .any => none

/-- `proto_matches`. -/
def protoMatches : Protocol → L4Proto → Bool
  | .any, _ => true
  | .tcp, .tcp => true
  | .udp, .udp => true
  | .icmp, .icmp => true
  | _, _ => false

/-- `direction_matches`. -/
def directionMatches (_ruleDir : Direction) (_pkt : ParsedPacket) : Bool := true

/-! ## What a rule does with a packet it matches -/

/-- The tables that an engine keeps from packet to packet: `rate_limiter` and
`threshold_tracker`. -/
structure Tables (τ : Type) where
  rateLimiter : RateLimiter τ
  thresholdTracker : ThresholdTracker

/-- The readings of the clock in one evaluation, by the rate limiter and by the tracker. -/
structure Readings where
  allow : Instant
  check : Instant
deriving DecidableEq, Repr

/-- `gate_auto_block`. -/
def gateAutoBlock (t : ThresholdTracker) (ruleIdx : Nat) (rule : Rule) (srcIp : IpAddr)
    (now : Instant) : Option UInt64 × ThresholdTracker :=
  match rule.autoBlockSecs with
  | none => (none, t)
  | some secs =>
    let (reached, t) := t.recordAndCheck ruleIdx srcIp rule.autoBlockThreshold
      (.fromSecs rule.autoBlockWindowSecs) now
    (if reached then some secs else none, t)

section
variable {τ : Type} [TokenArith τ]

/-- `RateLimiter::new` and `ThresholdTracker::new`. -/
def Tables.new : Tables τ := ⟨.new, .new⟩

/-- `periodic_maintenance`, with the readings of the clock by the two sweeps. -/
def Tables.periodicMaintenance (t : Tables τ) (r : Readings) : Tables τ where
  rateLimiter := t.rateLimiter.sweep (.fromSecs 300) r.allow
  thresholdTracker := t.thresholdTracker.sweep (.fromSecs 300) r.check

/-- The check of `rate_limit_pps`. -/
def Rule.withinRate (rule : Rule) (idx : Nat) (pkt : ParsedPacket) (l : RateLimiter τ)
    (now : Instant) : Bool × RateLimiter τ :=
  match rule.rateLimitPps with
  | none => (true, l)
  | some rate => l.allow pkt.srcIp (UInt32.ofNat idx) rate now

/-- The body of the loop of `evaluate` for a rule that matches. -/
def Rule.apply (rule : Rule) (idx : Nat) (pkt : ParsedPacket) (t : Tables τ) (r : Readings) :
    Decision × Tables τ :=
  let (allowed, rateLimiter) := rule.withinRate idx pkt t.rateLimiter r.allow
  if !allowed then
    let (autoBlockSecs, thresholdTracker) :=
      gateAutoBlock t.thresholdTracker idx rule pkt.srcIp r.check
    ({ verdict := .drop, ruleName := rule.name ++ ":rate-limit-exceeded".toList, log := true
       autoBlockSecs }, { rateLimiter, thresholdTracker })
  else if rule.action.verdict = .accept then
    ({ verdict := .accept, ruleName := rule.name, log := rule.log, autoBlockSecs := none },
      { rateLimiter, thresholdTracker := t.thresholdTracker })
  else
    let (autoBlockSecs, thresholdTracker) :=
      gateAutoBlock t.thresholdTracker idx rule pkt.srcIp r.check
    ({ verdict := rule.action.verdict, ruleName := rule.name, log := rule.log, autoBlockSecs },
      { rateLimiter, thresholdTracker })

end

/-- The decision on a packet from a trusted source. -/
def trustedBypass : Decision where
  verdict := .accept
  ruleName := "trusted-bypass".toList
  log := false
  autoBlockSecs := none

/-- The decision on a packet that no rule matches. -/
def defaultDecision (defaultPolicy : Action) : Decision where
  verdict := defaultPolicy.verdict
  ruleName := "default-policy".toList
  log := true
  autoBlockSecs := none

/-! ## Which packets a rule matches -/

/-- The alias table of a configuration; of two aliases with one name the later one counts. -/
def aliasTable (aliases : List Alias) : Table Str (List IpNet) :=
  aliases.foldl (fun t a => t.insert a.name a.cidrs) ∅

/-- `network_matches`. -/
def networkMatches (aliases : Table Str (List IpNet)) : NetworkMatch → IpAddr → Bool
  | .cidr net, ip => net.contains ip
  | .alias name, ip =>
    match aliases.lookup name with
    | some cidrs => cidrs.any fun net => net.contains ip
    | none => false

/-- `rule_matches`. -/
def ruleMatches (aliases : Table Str (List IpNet)) (rule : Rule) (pkt : ParsedPacket) : Bool :=
  protoMatches rule.protocol pkt.proto &&
    networkMatches aliases rule.src pkt.srcIp &&
    networkMatches aliases rule.dst pkt.dstIp &&
    rule.srcPort.contains pkt.srcPort &&
    rule.dstPort.contains pkt.dstPort &&
    directionMatches rule.direction pkt

/-! ## The engine -/

/-- The index of a list of rules: by protocol and exact destination port, and the rules that have
no such key. -/
structure RuleIndex (rules : List Rule) where
  exactPortIndex : Table (UInt8 × UInt16) (List (Fin rules.length))
  wildcardRules : List (Fin rules.length)

/-- The key a rule is indexed under, if it has one. -/
def Rule.exactKey (rule : Rule) : Option (UInt8 × UInt16) :=
  match rule.protocol.protoNum, rule.dstPort.lo == rule.dstPort.hi with
  | some proto, true => some (proto, rule.dstPort.lo)
  | _, _ => none

namespace RuleIndex

variable {rules : List Rule}

/-- The bucket of a key: `get(..).cloned().unwrap_or_default()`. -/
def bucket (ix : RuleIndex rules) (key : UInt8 × UInt16) : List (Fin rules.length) :=
  (ix.exactPortIndex.lookup key).getD []

/-- The loop body of `Engine::new`. -/
def add (ix : RuleIndex rules) (idx : Fin rules.length) : RuleIndex rules :=
  match rules[idx].exactKey with
  | some key =>
    { ix with exactPortIndex := ix.exactPortIndex.insert key (ix.bucket key ++ [idx]) }
  | none => { ix with wildcardRules := ix.wildcardRules ++ [idx] }

/-- The loop of `Engine::new`, over the rules in their order. -/
def build (rules : List Rule) : RuleIndex rules :=
  (List.finRange rules.length).foldl add ⟨∅, []⟩

/-- The rules that `evaluate` looks at, in order. -/
def candidates (ix : RuleIndex rules) (pkt : ParsedPacket) : List (Fin rules.length) :=
  (ix.bucket (pkt.proto.protoNum, pkt.dstPort) ++ ix.wildcardRules).mergeSort

end RuleIndex

/-- The loop of `evaluate` over the candidates: the first rule that matches decides, and the
default policy if none does. -/
def walk {τ : Type} [TokenArith τ] (rules : List Rule) (aliases : Table Str (List IpNet))
    (defaultPolicy : Action) (pkt : ParsedPacket) (t : Tables τ) (r : Readings) :
    List (Fin rules.length) → Decision × Tables τ
  | [] => (defaultDecision defaultPolicy, t)
  | idx :: rest =>
    if ruleMatches aliases rules[idx] pkt then rules[idx].apply idx pkt t r
    else walk rules aliases defaultPolicy pkt t r rest

structure Engine (τ : Type) where
  rules : List Rule
  aliases : Table Str (List IpNet)
  index : RuleIndex rules
  defaultPolicy : Action
  trusted : List IpAddr
  tables : Tables τ

namespace Engine

variable {τ : Type} [TokenArith τ]

/-- `Engine::new`. -/
def new (cfg : Config) : Engine τ where
  rules := cfg.rules
  aliases := aliasTable cfg.aliases
  index := .build cfg.rules
  defaultPolicy := cfg.defaultPolicy
  trusted := cfg.trusted
  tables := .new

/-- `is_trusted`. -/
def isTrusted (e : Engine τ) (ip : IpAddr) : Bool := e.trusted.contains ip

/-- `evaluate`. -/
def evaluate (e : Engine τ) (pkt : ParsedPacket) (r : Readings) : Decision × Engine τ :=
  if e.isTrusted pkt.srcIp then (trustedBypass, e)
  else
    let (d, tables) :=
      walk e.rules e.aliases e.defaultPolicy pkt e.tables r (e.index.candidates pkt)
    (d, { e with tables })

/-- `periodic_maintenance`. -/
def periodicMaintenance (e : Engine τ) (r : Readings) : Engine τ :=
  { e with tables := e.tables.periodicMaintenance r }

end Engine

end ActiveDefense.Firewall
