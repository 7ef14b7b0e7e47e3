import ActiveDefense.Bridges.ManagedRule
import ActiveDefense.Firewall.FastPath

/-!
# Which packets the managed rule drops

After a call that succeeds `rustwall` loads the file it was written to, unless an alias of the
managed name was written as an array. The managed rule is the first of the loaded configuration, so
it decides on every packet it matches: those whose source is in the network of a host and whose
destination is an IPv4 address, which is the default of a rule without one. `managed_drops_iff` is
what follows for the two families.
-/

namespace ActiveDefense.Bridges

open Firewall TomlValue

section
variable {parseIpNet : Str → Option IpNet} {hosts : List IpAddr}

/-! ## Loading the file after a call -/

/-- Every name of an alias is still one after a call, and the managed one is. -/
theorem Upserted.mem_names {a : Alias} {items : List TomlValue} {aliases aliases' : List Alias}
    (ha : a.name = confirmedMaliciousAlias) (h : Upserted a items aliases aliases') {name : Str} :
    name ∈ aliases'.map Alias.name ↔
      name ∈ aliases.map Alias.name ∨ name = confirmedMaliciousAlias := by
  rcases h with ⟨pre, old, post, entries, rfl, rfl, hold, -, -⟩ | ⟨rfl, -⟩
  · simp only [List.map_append, List.map_cons, List.mem_append, List.mem_cons, ha, hold]
    tauto
  · simp only [List.map_append, List.map_cons, List.map_nil, List.mem_append, List.mem_singleton, ha]

theorem defined_iff {aliases : List Alias} {m : NetworkMatch} :
    m.defined aliases = true ↔ ∀ name, m = .alias name → name ∈ aliases.map Alias.name := by
  rcases m with net | name
  · simp [NetworkMatch.defined]
  · simp [NetworkMatch.defined, List.any_eq_true]

/-- Nothing but the names of the aliases can make the configuration after a call invalid. -/
theorem validate_synced_iff {cfg : Config} (hvalid : cfg.validate = true) {rules' : List Rule}
    (hsub : rules'.Sublist cfg.rules) {items : List TomlValue} {aliases' : List Alias}
    (hupserted : Upserted (managedAlias parseIpNet hosts) items cfg.aliases aliases') :
    Config.validate { cfg with rules := managedRule :: rules', aliases := aliases' } = true ↔
      (aliases'.map Alias.name).Nodup := by
  simp only [Config.validate, Bool.and_eq_true, List.all_eq_true, decide_eq_true_eq,
    defined_iff] at hvalid ⊢
  obtain ⟨⟨hports, -⟩, hdefined⟩ := hvalid
  have hkept : ∀ name ∈ cfg.aliases.map Alias.name, name ∈ aliases'.map Alias.name :=
    fun name hname => (Upserted.mem_names rfl hupserted).mpr (.inl hname)
  constructor
  · exact fun h => h.1.2
  · refine fun hnodup => ⟨⟨fun r hr => ?_, hnodup⟩, fun r hr => ?_⟩
    · rcases List.mem_cons.mp hr with rfl | hr
      · decide
      · exact hports r (hsub.subset hr)
    · rcases List.mem_cons.mp hr with rfl | hr
      · refine ⟨fun name hname => ?_, fun name hname => by cases hname⟩
        cases hname
        exact (Upserted.mem_names rfl hupserted).mpr (.inr rfl)
      · obtain ⟨hsrc, hdst⟩ := hdefined r (hsub.subset hr)
        exact ⟨fun name hname => hkept name (hsrc name hname),
          fun name hname => hkept name (hdst name hname)⟩

/-- The configuration that `rustwall` loads after a call, if the names of the aliases allow it. -/
theorem load_synced (T : TomlCrate) (hT : T.RoundTrips)
    (hnet : ∀ ip ∈ hosts, ReadsHost parseIpNet ip) {env : SyncEnv} {pid : UInt32} {text : Str}
    {cfg : Config} (hcfg : Config.load T parseIpNet text = some cfg) {file' : Option Str}
    (hsync : syncConfirmedHosts T env pid hosts (some text) = some (.ok (), file')) :
    ∃ doc items text' rules' aliases', T.fromStr text = some (.table doc) ∧
      arrayAt aliasesKey doc = some items ∧ file' = some text' ∧
      ((aliases'.map Alias.name).Nodup ↔ NoArrayNamed confirmedMaliciousAlias items) ∧
      managedAlias parseIpNet hosts ∈ aliases' ∧
      Config.load T parseIpNet text' = if (aliases'.map Alias.name).Nodup then
        some { cfg with rules := managedRule :: rules', aliases := aliases' } else none := by
  obtain ⟨_, doc, items, rules, text', hfile, hparse, haliases, hrules, htext', hfile', -⟩ :=
    sync_ok hsync
  cases hfile
  obtain ⟨_, hdoc, hread, hok⟩ := Config.load_eq_some_iff.mp hcfg
  cases hparse.symm.trans hdoc
  obtain ⟨rules', aliases', hread', hsub, hitems, hupserted⟩ :=
    readConfig_syncedDoc hnet haliases hrules hread
  refine ⟨doc, items, text', rules', aliases', hparse, haliases, hfile',
    upserted_nodup_iff hitems (nodup_of_validate hok) hupserted, ?_, ?_⟩
  · rcases hupserted with ⟨pre, old, post, entries, -, rfl, -⟩ | ⟨rfl, -⟩
    · simp
    · simp
  · have hload : Config.load T parseIpNet text' =
        if Config.validate { cfg with rules := managedRule :: rules', aliases := aliases' } then
          some { cfg with rules := managedRule :: rules', aliases := aliases' } else none := by
      simp only [Config.load, hT _ _ htext', Option.bind_eq_bind, Option.bind_some, hread']
    rw [hload]
    exact if_congr (validate_synced_iff hok hsub hupserted) rfl rfl

/-! ## The packets that the rule matches -/

/-- Among aliases of distinct names each has its networks in the table. -/
theorem lookup_aliasTable {aliases : List Alias} (hnodup : (aliases.map Alias.name).Nodup)
    {a : Alias} (ha : a ∈ aliases) : (aliasTable aliases).lookup a.name = some a.cidrs := by
  induction aliases using List.reverseRecOn with
  | nil => cases ha
  | append_singleton as b ih =>
    have hlast : aliasTable (as ++ [b]) = (aliasTable as).insert b.name b.cidrs := by
      simp [aliasTable]
    simp only [List.map_append, List.map_cons, List.map_nil, List.nodup_append,
      List.mem_singleton] at hnodup
    obtain ⟨has, -, hfresh⟩ := hnodup
    rw [hlast]
    rcases List.mem_append.mp ha with ha | ha
    · have hne : a.name ≠ b.name := hfresh a.name (List.mem_map_of_mem ha) b.name rfl
      rw [AList.lookup_insert_ne hne, ih has ha]
    · cases List.mem_singleton.mp ha
      exact AList.lookup_insert _

/-- The default network is every IPv4 address, and no IPv6 address. -/
theorem networkMatches_defaultNet (aliases : Table Str (List IpNet)) (ip : IpAddr) :
    networkMatches aliases defaultNet ip = true ↔ ∃ a, ip = .v4 a := by
  cases ip with
  | v4 a =>
    refine iff_of_true ?_ ⟨a, rfl⟩
    have hall : SamePrefix 0 0 a := by
      rw [SamePrefix, BitVec.ushiftRight_eq_zero (Nat.le_refl 32),
        BitVec.ushiftRight_eq_zero (Nat.le_refl 32)]
    exact decide_eq_true hall
  | v6 a => simp [networkMatches, defaultNet, IpNet.contains]

/-- The networks of the alias and the default destination decide on a match. -/
theorem ruleMatches_managedRule {aliases : Table Str (List IpNet)}
    (hlookup : aliases.lookup confirmedMaliciousAlias = some (hostNets parseIpNet hosts))
    (pkt : ParsedPacket) :
    ruleMatches aliases managedRule pkt = true ↔
      (hostNets parseIpNet hosts).any (fun net => net.contains pkt.srcIp) = true ∧
        ∃ a, pkt.dstIp = .v4 a := by
  have hports : ∀ port : UInt16, defaultPorts.contains port = true := by
    intro port
    have hle : port ≤ 65535 := UInt16.le_iff_toNat_le.mpr (Nat.le_of_lt_succ port.toNat_lt)
    simp [PortRange.contains, defaultPorts, hle]
  have hsrc : networkMatches aliases managedRule.src pkt.srcIp =
      (hostNets parseIpNet hosts).any fun net => net.contains pkt.srcIp := by
    simp [managedRule, networkMatches, hlookup]
  have hdst : managedRule.dst = defaultNet := rfl
  have hproto : protoMatches managedRule.protocol pkt.proto = true := rfl
  simp only [ruleMatches, hproto, hsrc, hdst, Bool.true_and, Bool.and_eq_true,
    networkMatches_defaultNet, directionMatches, and_true]
  constructor
  · exact fun h => ⟨h.1.1.1, h.1.1.2⟩
  · exact fun h => ⟨⟨⟨h.1, h.2⟩, hports _⟩, hports _⟩

/-- The two addresses of a packet are of one family. -/
theorem family_of_parse {E : Etherparse} {raw : List UInt8} {pkt : ParsedPacket}
    (h : parse E raw = .parsed pkt) :
    (∃ a b, pkt.srcIp = .v4 a ∧ pkt.dstIp = .v4 b) ∨
      ∃ a b, pkt.srcIp = .v6 a ∧ pkt.dstIp = .v6 b := by
  obtain ⟨headers, ip, -, -, haddresses⟩ := exists_headers_of_parsed h
  cases ip with
  | version4 source destination =>
    obtain ⟨hsrc, hdst⟩ := Prod.mk.inj haddresses
    exact .inl ⟨source, destination, hsrc.symm, hdst.symm⟩
  | version6 source destination =>
    obtain ⟨hsrc, hdst⟩ := Prod.mk.inj haddresses
    exact .inr ⟨source, destination, hsrc.symm, hdst.symm⟩

/-- The managed rule matches the packets that come from an IPv4 host. -/
theorem ruleMatches_managedRule_iff (hnet : ∀ ip ∈ hosts, ReadsHost parseIpNet ip)
    {aliases : Table Str (List IpNet)}
    (hlookup : aliases.lookup confirmedMaliciousAlias = some (hostNets parseIpNet hosts))
    {E : Etherparse} {raw : List UInt8} {pkt : ParsedPacket} (hparse : parse E raw = .parsed pkt) :
    ruleMatches aliases managedRule pkt = true ↔ pkt.srcIp ∈ hosts ∧ ∃ a, pkt.srcIp = .v4 a := by
  rw [ruleMatches_managedRule hlookup]
  obtain ⟨a, b, hsrc, hdst⟩ | ⟨a, b, hsrc, hdst⟩ := family_of_parse hparse
  · simp [hsrc, hdst, any_hostNets_v4 hnet]
  · simp [hsrc, hdst]

end

/-! ## The packet loop after a reload -/

section
variable {τ : Type} [TokenArith τ]

/-- The tables after a reload: the engine is a new one. -/
def reloaded (cfg : Config) (w : Wall τ) : Wall τ := { w with engine := .new cfg }

/-- The handler of `SIGHUP`: a file that does not load leaves the rules as they are. -/
def onSighup (T : TomlCrate) (parseIpNet : Str → Option IpNet) (file : Option Str) (w : Wall τ) :
    Wall τ :=
  match file.bind (Config.load T parseIpNet) with
  | some cfg => reloaded cfg w
  | none => w

/-- The packet opens a flow, and the first rule drops it. -/
def ManagedDrops (E : Etherparse) (w : Wall τ) (raw : List UInt8) (r : PacketReadings) : Prop :=
  ∃ pkt d w', w.process E raw r = .ok (.evaluated pkt d, w') ∧ d.verdict = .drop ∧
    (w.engine.decidedBy pkt).map Fin.val = some 0

/-- The packet of a source that is neither trusted nor banned opens a flow. -/
structure OpensFlow (E : Etherparse) (w : Wall τ) (raw : List UInt8) (r : PacketReadings)
    (pkt : ParsedPacket) : Prop where
  parsed : parse E raw = .parsed pkt
  untrusted : w.engine.isTrusted pkt.srcIp = false
  unbanned : w.quarantine.isActive pkt.srcIp r.isActive = false
  admitted : (w.conntrack.lookupOrAdmit pkt r.lookup).1 = .new

theorem OpensFlow.process_eq {E : Etherparse} {w : Wall τ} {raw : List UInt8} {r : PacketReadings}
    {pkt : ParsedPacket} (h : OpensFlow E w raw r pkt) :
    w.process E raw r = w.newFlow pkt r := by
  have hnew := h.admitted
  generalize hres : w.conntrack.lookupOrAdmit pkt r.lookup = res at hnew
  obtain ⟨result, conntrack⟩ := res
  cases hnew
  simp [Wall.process, h.parsed, Wall.processParsed, h.unbanned, hres]

/-- What the rules decide on a packet that opens a flow is the outcome. -/
theorem eq_of_newFlow {w w' : Wall τ} {pkt : ParsedPacket} {r : PacketReadings} {o : Outcome}
    (h : w.newFlow pkt r = .ok (o, w')) :
    o = .evaluated pkt (w.engine.evaluate pkt r.evaluate).1 := by
  dsimp only [Wall.newFlow] at h
  cases hban : Wall.autoBlock w.quarantine (w.engine.evaluate pkt r.evaluate).1 pkt.srcIp r.ban with
  | error e =>
    rw [hban] at h
    cases h
  | ok quarantine =>
    rw [hban] at h
    cases h
    rfl

/-- A decision without a ban does not panic. -/
theorem exists_newFlow {w : Wall τ} {pkt : ParsedPacket} {r : PacketReadings}
    (h : (w.engine.evaluate pkt r.evaluate).1.autoBlockSecs = none) :
    ∃ o w', w.newFlow pkt r = .ok (o, w') := by
  have hban : Wall.autoBlock w.quarantine (w.engine.evaluate pkt r.evaluate).1 pkt.srcIp r.ban =
      .ok w.quarantine := by
    rw [Wall.autoBlock, h]
  dsimp only [Wall.newFlow]
  rw [hban]
  exact ⟨_, _, rfl⟩

/-- A packet that opens a flow is dropped by the managed rule exactly when the rule matches it. -/
theorem managedDrops_iff_ruleMatches {E : Etherparse} {w : Wall τ} {cfg : Config}
    {rest : List Rule} (hrules : cfg.rules = managedRule :: rest) {raw : List UInt8}
    {r : PacketReadings} {pkt : ParsedPacket} (h : OpensFlow E (reloaded cfg w) raw r pkt) :
    ManagedDrops E (reloaded cfg w) raw r ↔
      ruleMatches (aliasTable cfg.aliases) managedRule pkt = true := by
  rw [← Engine.decidedBy_new_zero (τ := τ) hrules h.untrusted]
  constructor
  · rintro ⟨pkt', d, w', hprocess, -, hdecided⟩
    have houtcome := eq_of_newFlow (h.process_eq.symm.trans hprocess)
    cases houtcome
    exact hdecided
  · intro hdecided
    obtain ⟨idx, hidx, hzero⟩ := Option.map_eq_some_iff.mp hdecided
    have hrule : (Engine.new cfg : Engine τ).rules[idx] = managedRule := by
      have hget : cfg.rules[idx.val]? = some managedRule := by simp [hzero, hrules]
      exact (List.getElem?_eq_some_iff.mp hget).2
    have hdecision : ((reloaded cfg w).engine.evaluate pkt r.evaluate).1 =
        { verdict := .drop, ruleName := confirmedMaliciousRule, log := true,
          autoBlockSecs := none } := by
      refine (Engine.evaluate_of_decidedBy hidx r.evaluate).trans ?_
      rw [hrule]
      rfl
    obtain ⟨o, w', hflow⟩ := exists_newFlow (w := reloaded cfg w) (r := r) (by rw [hdecision])
    have houtcome := eq_of_newFlow hflow
    subst houtcome
    exact ⟨pkt, _, w', h.process_eq.trans hflow, by rw [hdecision], hdecided⟩

/-! ## The packets of the hosts -/

/-- No alias of the managed name is written as an array in the file. -/
def NoArrayAliasIn (T : TomlCrate) (text : Str) : Prop :=
  ∀ doc items, T.fromStr text = some (.table doc) → arrayAt aliasesKey doc = some items →
    NoArrayNamed confirmedMaliciousAlias items

section
variable {T : TomlCrate} (hT : T.RoundTrips) {parseIpNet : Str → Option IpNet}
  {hosts : List IpAddr} (hnet : ∀ ip ∈ hosts, ReadsHost parseIpNet ip) {env : SyncEnv}
  {pid : UInt32} {text : Str} {cfg : Config} (hcfg : Config.load T parseIpNet text = some cfg)
  {file' : Option Str} (hsync : syncConfirmedHosts T env pid hosts (some text) = some (.ok (), file'))
include hT hnet hcfg hsync

omit [TokenArith τ] in
/-- The reload after a call, if no alias of the managed name was an array. -/
theorem exists_reloaded (harray : NoArrayAliasIn T text) :
    ∃ rules' aliases', file'.bind (Config.load T parseIpNet) =
        some { cfg with rules := managedRule :: rules', aliases := aliases' } ∧
      (aliasTable aliases').lookup confirmedMaliciousAlias = some (hostNets parseIpNet hosts) ∧
      ∀ w : Wall τ, onSighup T parseIpNet file' w =
        reloaded { cfg with rules := managedRule :: rules', aliases := aliases' } w := by
  obtain ⟨doc, items, text', rules', aliases', hparse, hitems, rfl, hnodup, hmanaged, hload⟩ :=
    load_synced T hT hnet hcfg hsync
  have hnames := hnodup.mpr (harray doc items hparse hitems)
  rw [if_pos hnames] at hload
  refine ⟨rules', aliases', hload, lookup_aliasTable hnames hmanaged, fun w => ?_⟩
  have hfile : (some text').bind (Config.load T parseIpNet) = _ := hload
  rw [onSighup, hfile]

/-- Otherwise the file does not load. -/
theorem not_reloaded (harray : ¬ NoArrayAliasIn T text) :
    file'.bind (Config.load T parseIpNet) = none := by
  obtain ⟨doc, items, text', rules', aliases', hparse, hitems, rfl, hnodup, -, hload⟩ :=
    load_synced T hT hnet hcfg hsync
  have hnames : ¬ (aliases'.map Alias.name).Nodup := by
    refine fun hnames => harray fun doc' items' hparse' hitems' => ?_
    cases hparse.symm.trans hparse'
    cases hitems.symm.trans hitems'
    exact hnodup.mp hnames
  rw [if_neg hnames] at hload
  exact hload

/-- After the reload the managed rule drops what comes from the IPv4 hosts. -/
theorem managedDrops_onSighup_iff (harray : NoArrayAliasIn T text) {E : Etherparse} {w : Wall τ}
    {raw : List UInt8} {r : PacketReadings} {pkt : ParsedPacket}
    (hflow : OpensFlow E (onSighup T parseIpNet file' w) raw r pkt) :
    ManagedDrops E (onSighup T parseIpNet file' w) raw r ↔
      pkt.srcIp ∈ hosts ∧ ∃ a, pkt.srcIp = .v4 a := by
  obtain ⟨rules', aliases', -, hlookup, hwall⟩ :=
    exists_reloaded (τ := τ) hT hnet hcfg hsync harray
  rw [hwall] at hflow ⊢
  rw [managedDrops_iff_ruleMatches rfl hflow,
    ruleMatches_managedRule_iff hnet hlookup hflow.parsed]

end

/-- After a call that succeeds, on a file that `rustwall` loads, the file loads again and the managed
rule drops a packet that opens a flow exactly if its source is one of the hosts: that holds exactly
if no alias of the managed name was written as an array and the source, if it is one of the hosts,
is an IPv4 address. -/
theorem managed_drops_iff (T : TomlCrate) (hT : T.RoundTrips) {parseIpNet : Str → Option IpNet}
    {hosts : List IpAddr} (hnet : ∀ ip ∈ hosts, ReadsHost parseIpNet ip) {env : SyncEnv}
    {pid : UInt32} {text : Str} {cfg : Config} (hcfg : Config.load T parseIpNet text = some cfg)
    {file' : Option Str}
    (hsync : syncConfirmedHosts T env pid hosts (some text) = some (.ok (), file'))
    {E : Etherparse} {w : Wall τ} {raw : List UInt8} {r : PacketReadings} {pkt : ParsedPacket}
    (hflow : OpensFlow E (onSighup T parseIpNet file' w) raw r pkt) :
    (file'.bind (Config.load T parseIpNet)).isSome ∧
        (ManagedDrops E (onSighup T parseIpNet file' w) raw r ↔ pkt.srcIp ∈ hosts) ↔
      NoArrayAliasIn T text ∧ (pkt.srcIp ∈ hosts → ∃ a, pkt.srcIp = .v4 a) := by
  by_cases harray : NoArrayAliasIn T text
  · obtain ⟨rules', aliases', hfile, -, -⟩ := exists_reloaded (τ := τ) hT hnet hcfg hsync harray
    rw [managedDrops_onSighup_iff hT hnet hcfg hsync harray hflow, hfile]
    simp only [Option.isSome_some, true_and, harray]
    constructor
    · exact fun h hmem => (h.mpr hmem).2
    · exact fun h => ⟨fun hdrops => hdrops.1, fun hmem => ⟨hmem, h hmem⟩⟩
  · simp [not_reloaded hT hnet hcfg hsync harray, harray]

end

/-! ## A file and two hosts -/

/-- A configuration file, and the document in it. -/
def sampleText : Str := "queue_num = 0\n".toList

def sampleDoc : List (Str × TomlValue) := [("queue_num".toList, .integer 0)]

/-- The text of that document after a call for one host. -/
def syncedText (cidr : Str) : Str :=
  sampleText ++ '\n' :: ("[[aliases]]\ncidrs = [\"".toList ++ cidr ++
    "\"]\nname = \"asd_confirmed_malicious\"\n\n[[rules]]\naction = \"drop\"\nlog = true\n".toList ++
    "name = \"asd-confirmed-malicious-block\"\nprotocol = \"any\"\n".toList ++
    "src = \"alias:asd_confirmed_malicious\"\n".toList)

open Classical in
/-- The crate `toml` on these texts. -/
noncomputable def sampleToml (host : IpAddr) : TomlCrate where
  fromStr text :=
    if text = syncedText (cidrText host) then some (.table (syncedDoc [host] [] [] sampleDoc))
    else if text = sampleText then some (.table sampleDoc)
    else none
  toStringPretty v :=
    if v = .table (syncedDoc [host] [] [] sampleDoc) then some (syncedText (cidrText host))
    else none

/-- The crate `ipnet` on the text of one host. -/
def sampleIpNet (host : IpAddr) (s : Str) : Option IpNet :=
  if s = cidrText host then some (net32 host) else none

/-- Everything succeeds. -/
def sampleEnv : SyncEnv := ⟨true, true, some 0⟩

theorem sampleToml_roundTrips (host : IpAddr) : (sampleToml host).RoundTrips := by
  intro v text h
  by_cases hv : v = .table (syncedDoc [host] [] [] sampleDoc)
  · simp only [sampleToml, hv, if_true, Option.some.injEq] at h
    simp [sampleToml, ← h, hv]
  · simp [sampleToml, hv] at h

theorem syncedText_ne (cidr : Str) : sampleText ≠ syncedText cidr := by
  intro h
  rw [syncedText, List.self_eq_append_right] at h
  cases h

theorem readConfig_sampleDoc (parseIpNet : Str → Option IpNet) :
    readConfig parseIpNet (.table sampleDoc) = some {} := by
  rfl

theorem load_sampleText (host : IpAddr) :
    Config.load (sampleToml host) (sampleIpNet host) sampleText = some {} := by
  have hparse : (sampleToml host).fromStr sampleText = some (.table sampleDoc) := by
    simp [sampleToml, syncedText_ne]
  rw [Config.load, hparse, Option.bind_eq_bind, Option.bind_some, readConfig_sampleDoc]
  rfl

theorem sync_sampleText (host : IpAddr) :
    syncConfirmedHosts (sampleToml host) sampleEnv 1 [host] (some sampleText) =
      some (.ok (), some (syncedText (cidrText host))) := by
  have hparse : (sampleToml host).fromStr sampleText = some (.table sampleDoc) := by
    simp [sampleToml, syncedText_ne]
  have hwritten : (sampleToml host).toStringPretty (.table (syncedDoc [host] [] [] sampleDoc)) =
      some (syncedText (cidrText host)) := by
    simp [sampleToml]
  have hload : load (sampleToml host) (some sampleText) = .ok sampleDoc := by
    rw [load, hparse]
  have hsave : save (sampleToml host) sampleEnv (syncedDoc [host] [] [] sampleDoc) =
      .ok (syncedText (cidrText host)) := by
    rw [save, hwritten]
    rfl
  exact sync_eq hload rfl rfl hsave 1

theorem noArrayAliasIn_sampleText (host : IpAddr) :
    NoArrayAliasIn (sampleToml host) sampleText := by
  intro doc items hparse hitems
  have hdoc : (sampleToml host).fromStr sampleText = some (.table sampleDoc) := by
    simp [sampleToml, syncedText_ne]
  cases hdoc.symm.trans hparse
  cases hitems
  simp [NoArrayNamed]

theorem readsHost_sample (host : IpAddr) : ∀ ip ∈ [host], ReadsHost (sampleIpNet host) ip := by
  intro ip hip
  rw [List.mem_singleton] at hip
  subst hip
  simp [ReadsHost, sampleIpNet]

/-- `rustwall` with that file, after the call. -/
noncomputable def sampleWall (host : IpAddr) : Wall Float :=
  onSighup (sampleToml host) (sampleIpNet host) (some (syncedText (cidrText host))) (.new {} none)

/-- Every clock reads zero. -/
def zeroReadings : PacketReadings := ⟨0, 0, ⟨0, 0⟩, 0, 0⟩

/-- Nothing is trusted, banned or open. -/
theorem opensFlow_sampleWall (host : IpAddr) {E : Etherparse} {raw : List UInt8}
    {pkt : ParsedPacket} (hparse : parse E raw = .parsed pkt) :
    OpensFlow E (sampleWall host) raw zeroReadings pkt := by
  obtain ⟨rules', aliases', -, -, hwall⟩ := exists_reloaded (τ := Float)
    (sampleToml_roundTrips host) (readsHost_sample host) (load_sampleText host)
    (sync_sampleText host) (noArrayAliasIn_sampleText host)
  rw [sampleWall, hwall]
  exact ⟨hparse, rfl, rfl, rfl⟩

/-- A packet from 10.0.0.1, a confirmed host. -/
theorem managed_drops_v4Host :
    ManagedDrops bareEtherparse (sampleWall (.v4 (Ipv4Addr.new 10 0 0 1)))
      (tunnelPacket 47).payload zeroReadings := by
  have hparse : parse bareEtherparse (tunnelPacket 47).payload = .parsed tunnelParsed := by
    decide
  have hclaim := managed_drops_iff _ (sampleToml_roundTrips _) (readsHost_sample _)
    (load_sampleText _) (sync_sampleText _) (opensFlow_sampleWall (.v4 (Ipv4Addr.new 10 0 0 1)) hparse)
  refine (hclaim.mpr ⟨noArrayAliasIn_sampleText _, fun _ => ⟨_, rfl⟩⟩).2.mpr ?_
  exact List.mem_singleton.mpr rfl

/-- The host 2001:db8::1. -/
def v6Host : Ipv6Addr := 0x20010db8000000000000000000000001

/-- `etherparse` on an IPv6 packet without payload from that host to 2001:db8::2. -/
def v6Etherparse : Etherparse where
  ipHeaderFromSlice _ := some (.version6 v6Host (v6Host + 1) none, 59)
  packetHeadersFromIpSlice _ := some ⟨some (.version6 v6Host (v6Host + 1) none), none, 0⟩

/-- That packet. -/
def v6Packet : List UInt8 :=
  [0x60, 0, 0, 0, 0, 0, 59, 64,
    0x20, 0x01, 0x0d, 0xb8, 0, 0, 0, 0, 0, 0, 0, 0, 0, 0, 0, 1,
    0x20, 0x01, 0x0d, 0xb8, 0, 0, 0, 0, 0, 0, 0, 0, 0, 0, 0, 2]

/-- A packet from a confirmed IPv6 host is not dropped. -/
theorem not_managed_drops :
    ¬ ∀ (T : TomlCrate) (parseIpNet : Str → Option IpNet) (hosts : List IpAddr) (env : SyncEnv)
      (pid : UInt32) (text : Str) (cfg : Config) (file' : Option Str) (E : Etherparse)
      (w : Wall Float) (raw : List UInt8) (r : PacketReadings) (pkt : ParsedPacket),
      T.RoundTrips → (∀ ip ∈ hosts, ReadsHost parseIpNet ip) →
      Config.load T parseIpNet text = some cfg →
      syncConfirmedHosts T env pid hosts (some text) = some (.ok (), file') →
      OpensFlow E (onSighup T parseIpNet file' w) raw r pkt →
      (ManagedDrops E (onSighup T parseIpNet file' w) raw r ↔ pkt.srcIp ∈ hosts) := by
  intro h
  have hparse : parse v6Etherparse v6Packet =
      .parsed ⟨.v6 v6Host, .v6 (v6Host + 1), .other 0, 0, 0, none, 0⟩ := rfl
  have hflow := opensFlow_sampleWall (.v6 v6Host) hparse
  have hdrops := (h _ _ _ _ _ _ _ _ _ _ _ _ _ (sampleToml_roundTrips (.v6 v6Host))
    (readsHost_sample _) (load_sampleText _) (sync_sampleText _) hflow).mpr (List.mem_singleton.mpr rfl)
  obtain ⟨-, a, ha⟩ := (managedDrops_onSighup_iff (sampleToml_roundTrips (.v6 v6Host))
    (readsHost_sample _) (load_sampleText _) (sync_sampleText _) (noArrayAliasIn_sampleText _)
    hflow).mp hdrops
  cases ha

end ActiveDefense.Bridges
