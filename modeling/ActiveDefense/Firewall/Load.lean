import ActiveDefense.Firewall.Config
import ActiveDefense.Rust.Toml

/-!
# Loading the configuration file

`Config::load`: the text is read as TOML, its tables as the structs of the configuration, and what
comes out is validated. Networks are read by the crate `ipnet`, which is a parameter. Of the fields
that no modelled function uses it is only checked that they can be read.
-/

namespace ActiveDefense.Firewall

open TomlValue

/-! ## The structs -/

def readProtocol (v : TomlValue) : Option Protocol := do
  let name ← v.readVariant
  if name = "tcp".toList then some .tcp
  else if name = "udp".toList then some .udp
  else if name = "icmp".toList then some .icmp
  else if name = "any".toList then some .any
  else none

def readAction (v : TomlValue) : Option Action := do
  let name ← v.readVariant
  if name = "accept".toList then some .accept
  else if name = "drop".toList then some .drop
  else if name = "reject".toList then some .reject
  else none

def readDirection (v : TomlValue) : Option Direction := do
  let name ← v.readVariant
  if name = "inbound".toList then some .inbound
  else if name = "outbound".toList then some .outbound
  else if name = "any".toList then some .any
  else none

/-- A port of a range, blanks around it dropped. -/
def parsePort (s : Str) : Option UInt16 :=
  ((parseUnsigned (2 ^ 16) (trim s)).toOption).map .ofNat

/-- `PortRange::deserialize`. -/
def readPortRange (v : TomlValue) : Option PortRange := do
  let s ← v.readString
  if s = "*".toList ∨ s = [] then some ⟨0, 65535⟩
  else
    match splitOnce '-' s with
    | some (lo, hi) =>
      let lo ← parsePort lo
      let hi ← parsePort hi
      if hi < lo then none else some ⟨lo, hi⟩
    | none =>
      let p ← parsePort s
      some ⟨p, p⟩

/-- What stands in front of the name of an alias. -/
def aliasPrefix : Str := "alias:".toList

/-- `NetworkMatch::deserialize`. -/
def readNetworkMatch (parseIpNet : Str → Option IpNet) (v : TomlValue) :
    Option NetworkMatch := do
  let s ← v.readString
  if aliasPrefix.isPrefixOf s then some (.alias (s.drop aliasPrefix.length))
  else (parseIpNet s).map .cidr

/-- `Alias`. -/
def readAlias (parseIpNet : Str → Option IpNet) (v : TomlValue) : Option Alias := do
  let name ← v.field readString "name" 0
  let cidrs ← v.field (readVec (readParsed parseIpNet)) "cidrs" 1
  some { name, cidrs }

/-- `Rule`. -/
def readRule (parseIpNet : Str → Option IpNet) (v : TomlValue) : Option Rule := do
  let name ← v.field readString "name" 0
  let protocol ← v.fieldOr readProtocol .any "protocol" 1
  let direction ← v.fieldOr readDirection .any "direction" 2
  let src ← v.fieldOr (readNetworkMatch parseIpNet) defaultNet "src" 3
  let dst ← v.fieldOr (readNetworkMatch parseIpNet) defaultNet "dst" 4
  let srcPort ← v.fieldOr readPortRange defaultPorts "src_port" 5
  let dstPort ← v.fieldOr readPortRange defaultPorts "dst_port" 6
  let action ← v.field readAction "action" 7
  let rateLimitPps ← v.fieldOption readU32 "rate_limit_pps" 8
  let autoBlockSecs ← v.fieldOr (fun w => (readU64 w).map some) none "auto_block_secs" 9
  let autoBlockThreshold ← v.fieldOr readU32 1 "auto_block_threshold" 10
  let autoBlockWindowSecs ← v.fieldOr readU64 60 "auto_block_window_secs" 11
  let log ← v.fieldOr readBool false "log" 12
  some { name, protocol, direction, src, dst, srcPort, dstPort, action, rateLimitPps, autoBlockSecs,
         autoBlockThreshold, autoBlockWindowSecs, log }

/-- `ConntrackConfig`. -/
def readConntrack (v : TomlValue) : Option ConntrackConfig :=
  if v.isStruct then do
    let tcpEstablishedTimeoutSecs ← v.fieldOr readU64 3600 "tcp_established_timeout_secs" 0
    let tcpTransitoryTimeoutSecs ← v.fieldOr readU64 60 "tcp_transitory_timeout_secs" 1
    let udpTimeoutSecs ← v.fieldOr readU64 30 "udp_timeout_secs" 2
    let maxEntries ← v.fieldOr readUsize 250000 "max_entries" 3
    some { tcpEstablishedTimeoutSecs, tcpTransitoryTimeoutSecs, udpTimeoutSecs, maxEntries }
  else none

/-- The fields of `Config` beside its rules and aliases. -/
def readSettings (v : TomlValue) : Option Config := do
  let queueNum ← v.fieldOr readU16 0 "queue_num" 0
  let queueWorkers ← v.fieldOr readU16 1 "queue_workers" 1
  let defaultPolicy ← v.fieldOr readAction .drop "default_policy" 2
  let conntrack ← v.fieldOr readConntrack {} "conntrack" 3
  let trusted ← v.fieldOr (readVec (readParsed parseIpAddr)) [] "trusted" 6
  let _logMaxPerSec ← v.fieldOr readU64 200 "log_max_per_sec" 7
  let _metricsListen ← v.fieldOr (fun w => (readString w).map some) none "metrics_listen" 8
  let _metricsAuthToken ← v.fieldOr (fun w => (readString w).map some) none "metrics_auth_token" 9
  let quarantineMaxEntries ← v.fieldOr readUsize 100000 "quarantine_max_entries" 10
  let _syncToOsFirewall ← v.fieldOr readBool false "sync_to_os_firewall" 11
  some { queueNum, queueWorkers, defaultPolicy, conntrack, trusted, quarantineMaxEntries }

/-- `Config`, of a document. -/
def readConfig (parseIpNet : Str → Option IpNet) (v : TomlValue) : Option Config :=
  if v.isStruct then do
    let settings ← readSettings v
    let rules ← v.fieldOr (readVec (readRule parseIpNet)) [] "rules" 4
    let aliases ← v.fieldOr (readVec (readAlias parseIpNet)) [] "aliases" 5
    some { settings with rules, aliases }
  else none

/-! ## Validation -/

/-- A name that a rule refers to is the name of an alias. -/
def NetworkMatch.defined (aliases : List Alias) : NetworkMatch → Bool
  | .cidr _ => true
  | .alias name => aliases.any fun a => a.name = name

/-- `Config::validate`. -/
def Config.validate (cfg : Config) : Bool :=
  (cfg.rules.all fun r => r.srcPort.lo ≤ r.srcPort.hi && r.dstPort.lo ≤ r.dstPort.hi) &&
    decide (cfg.aliases.map Alias.name).Nodup &&
    cfg.rules.all fun r => r.src.defined cfg.aliases && r.dst.defined cfg.aliases

/-- `Config::load`, of the text of the file. -/
def Config.load (T : TomlCrate) (parseIpNet : Str → Option IpNet) (text : Str) : Option Config := do
  let doc ← T.fromStr text
  let cfg ← readConfig parseIpNet doc
  if cfg.validate then some cfg else none

section
variable {parseIpNet : Str → Option IpNet} {cfg : Config}

theorem readConfig_eq_some_iff {v : TomlValue} :
    readConfig parseIpNet v = some cfg ↔ v.isStruct = true ∧ ∃ settings rs as,
      readSettings v = some settings ∧
      v.fieldOr (readVec (readRule parseIpNet)) [] "rules" 4 = some rs ∧
      v.fieldOr (readVec (readAlias parseIpNet)) [] "aliases" 5 = some as ∧
      cfg = { settings with rules := rs, aliases := as } := by
  rw [readConfig]
  split
  · next hstruct =>
    simp only [Option.bind_eq_bind, Option.bind_eq_some_iff, Option.some.injEq, hstruct, true_and]
    grind
  · next hstruct => simp [hstruct]

theorem Config.load_eq_some_iff {T : TomlCrate} {text : Str} :
    Config.load T parseIpNet text = some cfg ↔ ∃ doc, T.fromStr text = some doc ∧
      readConfig parseIpNet doc = some cfg ∧ cfg.validate = true := by
  simp only [Config.load, Option.bind_eq_bind, Option.bind_eq_some_iff]
  grind

/-- The aliases of a valid configuration have distinct names. -/
theorem nodup_of_validate (h : cfg.validate = true) : (cfg.aliases.map Alias.name).Nodup := by
  simp only [Config.validate, Bool.and_eq_true, decide_eq_true_eq] at h
  exact h.1.2

end

end ActiveDefense.Firewall
