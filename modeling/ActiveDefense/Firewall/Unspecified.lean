import ActiveDefense.Firewall.Engine
import ActiveDefense.Firewall.Load

/-!
# What a rule leaves open

A field that the configuration file leaves out gets a default, and the matchers read it as they
read any other value. Any protocol, any direction and all ports match every packet. The default of
the two networks is `0.0.0.0/0`, in which there is every IPv4 address and no IPv6 address: so a
rule that leaves out its source or its destination is about IPv4 only.
-/

namespace ActiveDefense

/-- `IpAddr::is_ipv4`. -/
def IpAddr.isIpv4 : IpAddr → Bool
  | .v4 _ => true
  | .v6 _ => false

namespace Firewall

open TomlValue

/-- A field of a rule that `rule_matches` asks about. -/
inductive RuleField where
  | protocol
  | direction
  | src
  | dst
  | srcPort
  | dstPort
deriving DecidableEq

namespace RuleField

/-- The key of the field in the file. -/
def key : RuleField → String
  | protocol => "protocol"
  | direction => "direction"
  | src => "src"
  | dst => "dst"
  | srcPort => "src_port"
  | dstPort => "dst_port"

/-- The place of the field among those of `Rule`. -/
def index : RuleField → Nat
  | protocol => 1
  | direction => 2
  | src => 3
  | dst => 4
  | srcPort => 5
  | dstPort => 6

/-- A rule of the file leaves the field out. -/
def Unspecified (f : RuleField) (item : TomlValue) : Prop := item.slot f.key.toList f.index = none

/-- What `rule_matches` asks about the field. -/
def admits (f : RuleField) (aliases : Table Str (List IpNet)) (rule : Rule) (pkt : ParsedPacket) :
    Bool :=
  match f with
  | protocol => protoMatches rule.protocol pkt.proto
  | direction => directionMatches rule.direction pkt
  | src => networkMatches aliases rule.src pkt.srcIp
  | dst => networkMatches aliases rule.dst pkt.dstIp
  | srcPort => rule.srcPort.contains pkt.srcPort
  | dstPort => rule.dstPort.contains pkt.dstPort

end RuleField

/-- A rule matches a packet if each of its fields admits it. -/
theorem ruleMatches_iff {aliases : Table Str (List IpNet)} {rule : Rule} {pkt : ParsedPacket} :
    ruleMatches aliases rule pkt = true ↔
      ∀ f : RuleField, f.admits aliases rule pkt = true := by
  simp only [ruleMatches, Bool.and_eq_true]
  constructor
  · rintro ⟨⟨⟨⟨⟨hproto, hsrc⟩, hdst⟩, hsrcPort⟩, hdstPort⟩, hdirection⟩ f
    cases f with
    | protocol => exact hproto
    | direction => exact hdirection
    | src => exact hsrc
    | dst => exact hdst
    | srcPort => exact hsrcPort
    | dstPort => exact hdstPort
  · intro h
    exact ⟨⟨⟨⟨⟨h .protocol, h .src⟩, h .dst⟩, h .srcPort⟩, h .dstPort⟩, h .direction⟩

/-! ## The defaults -/

theorem contains_defaultPorts (port : UInt16) : defaultPorts.contains port = true := by
  have hlo : (0 : UInt16) ≤ port := UInt16.le_iff_toNat_le.mpr (Nat.zero_le _)
  have hhi : port ≤ (65535 : UInt16) := UInt16.le_iff_toNat_le.mpr (by
    have := port.toNat_lt
    change port.toNat ≤ 65535
    omega)
  simp [PortRange.contains, defaultPorts, hlo, hhi]

theorem networkMatches_defaultNet (aliases : Table Str (List IpNet)) (ip : IpAddr) :
    networkMatches aliases defaultNet ip = ip.isIpv4 := by
  cases ip with
  | v4 ip =>
    have hcovers : (Network.key ⟨0, 0, by decide⟩ : PrefixKey 32).Covers ip := by
      simp only [Network.key, PrefixKey.Covers, SamePrefix]
      apply BitVec.eq_of_toNat_eq
      have := ip.isLt
      simp only [BitVec.toNat_ushiftRight, Nat.shiftRight_eq_div_pow]
      omega
    simpa [networkMatches, defaultNet, IpNet.contains, Network.contains, IpAddr.isIpv4]
      using hcovers
  | v6 ip => rfl

/-- A field that is left out has its default. -/
theorem fieldOr_of_unspecified {α : Type} {read : TomlValue → Option α} {default a : α}
    {name : String} {index : Nat} {item : TomlValue} (h : item.slot name.toList index = none)
    (hread : item.fieldOr read default name index = some a) : a = default := by
  rw [fieldOr, h] at hread
  cases hread
  rfl

section
variable {parseIpNet : Str → Option IpNet} {item : TomlValue} {rule : Rule}

/-- Each field of a rule is read on its own. -/
theorem readRule_spec (h : readRule parseIpNet item = some rule) :
    item.fieldOr readProtocol .any "protocol" 1 = some rule.protocol ∧
      item.fieldOr (readNetworkMatch parseIpNet) defaultNet "src" 3 = some rule.src ∧
      item.fieldOr (readNetworkMatch parseIpNet) defaultNet "dst" 4 = some rule.dst ∧
      item.fieldOr readPortRange defaultPorts "src_port" 5 = some rule.srcPort ∧
      item.fieldOr readPortRange defaultPorts "dst_port" 6 = some rule.dstPort := by
  obtain ⟨name, -, h⟩ := Option.bind_eq_some_iff.mp h
  obtain ⟨protocol, hprotocol, h⟩ := Option.bind_eq_some_iff.mp h
  obtain ⟨direction, -, h⟩ := Option.bind_eq_some_iff.mp h
  obtain ⟨src, hsrc, h⟩ := Option.bind_eq_some_iff.mp h
  obtain ⟨dst, hdst, h⟩ := Option.bind_eq_some_iff.mp h
  obtain ⟨srcPort, hsrcPort, h⟩ := Option.bind_eq_some_iff.mp h
  obtain ⟨dstPort, hdstPort, h⟩ := Option.bind_eq_some_iff.mp h
  obtain ⟨action, -, h⟩ := Option.bind_eq_some_iff.mp h
  obtain ⟨rateLimitPps, -, h⟩ := Option.bind_eq_some_iff.mp h
  obtain ⟨autoBlockSecs, -, h⟩ := Option.bind_eq_some_iff.mp h
  obtain ⟨autoBlockThreshold, -, h⟩ := Option.bind_eq_some_iff.mp h
  obtain ⟨autoBlockWindowSecs, -, h⟩ := Option.bind_eq_some_iff.mp h
  obtain ⟨log, -, h⟩ := Option.bind_eq_some_iff.mp h
  cases h
  exact ⟨hprotocol, hsrc, hdst, hsrcPort, hdstPort⟩

/-- What a field that is left out admits: everything, but of the networks only IPv4. -/
theorem admits_of_unspecified (h : readRule parseIpNet item = some rule)
    (aliases : Table Str (List IpNet)) (pkt : ParsedPacket) {f : RuleField}
    (hf : f.Unspecified item) : f.admits aliases rule pkt = true ↔
      (f = .src → pkt.srcIp.isIpv4 = true) ∧ (f = .dst → pkt.dstIp.isIpv4 = true) := by
  obtain ⟨hprotocol, hsrc, hdst, hsrcPort, hdstPort⟩ := readRule_spec h
  cases f with
  | protocol =>
    refine iff_of_true ?_ ⟨nofun, nofun⟩
    rw [RuleField.admits, fieldOr_of_unspecified hf hprotocol]
    rfl
  | direction => exact iff_of_true rfl ⟨nofun, nofun⟩
  | src =>
    rw [RuleField.admits, fieldOr_of_unspecified hf hsrc, networkMatches_defaultNet]
    simp
  | dst =>
    rw [RuleField.admits, fieldOr_of_unspecified hf hdst, networkMatches_defaultNet]
    simp
  | srcPort =>
    refine iff_of_true ?_ ⟨nofun, nofun⟩
    rw [RuleField.admits, fieldOr_of_unspecified hf hsrcPort]
    exact contains_defaultPorts pkt.srcPort
  | dstPort =>
    refine iff_of_true ?_ ⟨nofun, nofun⟩
    rw [RuleField.admits, fieldOr_of_unspecified hf hdstPort]
    exact contains_defaultPorts pkt.dstPort

end

/-! ## Loaded rules -/

/-- The rules of a document, before they are read. -/
def ruleItems (doc : TomlValue) : List TomlValue :=
  match doc.slot "rules".toList 4 with
  | some (.array items) => items
  | _ => []

/-- The rules that are loaded are those of the document, in its order. -/
theorem forall₂_of_load {T : TomlCrate} {parseIpNet : Str → Option IpNet} {text : Str}
    {doc : TomlValue} {cfg : Config} (hdoc : T.fromStr text = some doc)
    (hload : Config.load T parseIpNet text = some cfg) :
    List.Forall₂ (fun item rule => readRule parseIpNet item = some rule) (ruleItems doc)
      cfg.rules := by
  obtain ⟨doc', hdoc', hread, -⟩ := Config.load_eq_some_iff.mp hload
  cases hdoc.symm.trans hdoc'
  obtain ⟨-, settings, rules, aliases, -, hrules, -, rfl⟩ := readConfig_eq_some_iff.mp hread
  rw [ruleItems]
  rw [fieldOr] at hrules
  cases hslot : doc.slot "rules".toList 4 with
  | none =>
    rw [hslot] at hrules
    cases hrules
    exact .nil
  | some v =>
    rw [hslot] at hrules
    cases v with
    | array items => exact forall₂_of_mapM hrules
    | _ => cases hrules

/-- For every rule that is loaded and every packet: each field that the file leaves out admits the
packet, if and only if the packet is one of IPv4 where the file leaves out a network; and a rule
that says no more than its direction matches the packet if and only if it is one of IPv4. -/
theorem unspecified_iff {T : TomlCrate} {parseIpNet : Str → Option IpNet} {text : Str}
    {doc : TomlValue} {cfg : Config} (hdoc : T.fromStr text = some doc)
    (hload : Config.load T parseIpNet text = some cfg) :
    List.Forall₂ (fun item rule => ∀ pkt : ParsedPacket,
      ((∀ f : RuleField, f.Unspecified item →
          f.admits (aliasTable cfg.aliases) rule pkt = true) ↔
        (RuleField.src.Unspecified item → pkt.srcIp.isIpv4 = true) ∧
          (RuleField.dst.Unspecified item → pkt.dstIp.isIpv4 = true)) ∧
      ((∀ f : RuleField, f ≠ .direction → f.Unspecified item) →
        (ruleMatches (aliasTable cfg.aliases) rule pkt = true ↔
          pkt.srcIp.isIpv4 = true ∧ pkt.dstIp.isIpv4 = true)))
      (ruleItems doc) cfg.rules := by
  refine (forall₂_of_load hdoc hload).imp fun item rule hread pkt => ?_
  have hadmits := @admits_of_unspecified _ _ _ hread (aliasTable cfg.aliases) pkt
  refine ⟨⟨fun h => ⟨fun hsrc => ?_, fun hdst => ?_⟩, ?_⟩, fun hopen => ?_⟩
  · exact ((hadmits hsrc).mp (h _ hsrc)).1 rfl
  · exact ((hadmits hdst).mp (h _ hdst)).2 rfl
  · rintro ⟨hsrc, hdst⟩ f hf
    refine (hadmits hf).mpr ⟨?_, ?_⟩
    · rintro rfl
      exact hsrc hf
    · rintro rfl
      exact hdst hf
  · have hsrc : RuleField.src.Unspecified item := hopen _ nofun
    have hdst : RuleField.dst.Unspecified item := hopen _ nofun
    rw [ruleMatches_iff]
    constructor
    · intro h
      exact ⟨((hadmits hsrc).mp (h _)).1 rfl, ((hadmits hdst).mp (h _)).2 rfl⟩
    · rintro ⟨hsrc4, hdst4⟩ f
      by_cases hf : f = .direction
      · rw [hf]
        rfl
      · exact (hadmits (hopen f hf)).mpr ⟨fun _ => hsrc4, fun _ => hdst4⟩

/-! ## A rule that says nothing of the packet -/

/-- A file with one rule. -/
def openText : Str := "[[rules]]\nname = \"all\"\naction = \"drop\"\n".toList

def openItem : TomlValue :=
  .table [("action".toList, .string "drop".toList), ("name".toList, .string "all".toList)]

/-- The document in it. -/
def openDoc : TomlValue := .table [("rules".toList, .array [openItem])]

/-- The crate `toml` on this text. -/
def openToml : TomlCrate where
  fromStr text := if text = openText then some openDoc else none
  toStringPretty _ := none

/-- The length of the prefix of the network in which there is every IPv4 address. -/
theorem anyLen_le : 0 ≤ 32 := Nat.zero_le 32

/-- The crate `ipnet` on the text of the default network. -/
def openIpNet (s : Str) : Option IpNet :=
  if s = "0.0.0.0/0".toList then some (.v4 ⟨0, 0, anyLen_le⟩) else none

def openRule : Rule where
  name := "all".toList
  action := .drop

theorem load_openText : Config.load openToml openIpNet openText = some { rules := [openRule] } := by
  rfl

theorem unspecified_openItem (f : RuleField) : f.Unspecified openItem := by
  cases f <;> rfl

/-- A DNS query between two hosts. -/
def query (srcIp dstIp : IpAddr) : ParsedPacket where
  srcIp := srcIp
  dstIp := dstIp
  proto := .udp
  srcPort := 40000
  dstPort := 53
  tcpFlags := none
  payloadLen := 29

/-- The query of an IPv4 host. -/
def query4 : ParsedPacket := query (.v4 (Ipv4Addr.new 10 0 0 5)) (.v4 (Ipv4Addr.new 10 0 0 1))

/-- The query of 2001:db8::5. -/
def query6 : ParsedPacket :=
  query (.v6 0x20010db8000000000000000000000005) (.v6 0x20010db8000000000000000000000001)

/-- The rule matches the query of the IPv4 host. -/
theorem unspecified_iff_open :
    Config.load openToml openIpNet openText = some { rules := [openRule] } ∧
      ruleMatches (aliasTable []) openRule query4 = true := by
  have hdoc : openToml.fromStr openText = some openDoc := rfl
  have hrules := unspecified_iff hdoc load_openText
  have hopen := ((List.forall₂_cons.mp hrules).1 query4).2 fun f _ => unspecified_openItem f
  exact ⟨load_openText, hopen.mpr ⟨rfl, rfl⟩⟩

/-- The rule does not match the query of the IPv6 host. -/
theorem not_unspecified : ¬ ∀ (T : TomlCrate) (parseIpNet : Str → Option IpNet) (text : Str)
    (doc : TomlValue) (cfg : Config), T.fromStr text = some doc →
    Config.load T parseIpNet text = some cfg →
    List.Forall₂ (fun item rule => ∀ pkt : ParsedPacket,
      (∀ f : RuleField, f.Unspecified item → f.admits (aliasTable cfg.aliases) rule pkt = true) ∧
      ((∀ f : RuleField, f ≠ .direction → f.Unspecified item) →
        ruleMatches (aliasTable cfg.aliases) rule pkt = true))
      (ruleItems doc) cfg.rules := by
  intro h
  have hrules := h openToml openIpNet openText openDoc _ rfl load_openText
  have hmatches := ((List.forall₂_cons.mp hrules).1 query6).2 fun f _ => unspecified_openItem f
  exact absurd hmatches (by decide)

end Firewall

end ActiveDefense
