import ActiveDefense.Bridges.FirewallSync
import ActiveDefense.Firewall.LinearScan
import ActiveDefense.Firewall.Load
import ActiveDefense.Firewall.Nfqueue

/-!
# What the managed rule drops

The two ends of the rule sync: the document that the bridge writes, and what `rustwall` makes of it
when it loads the file. The loaded configuration has the managed rule in front and the networks of
the hosts under its alias (`load_synced`). The bridge writes every host with `/32`, and it leaves
the destination of the rule to `rustwall`, whose default is every IPv4 address, so that
`managed_drops_iff` holds of the sources of one family only.
-/

namespace ActiveDefense.Bridges

open Firewall TomlValue

/-! ## The networks of the hosts -/

/-- The network of 32 leading bits around an address, of either family. -/
def net32 : IpAddr → IpNet
  | .v4 ip => .v4 ⟨ip, 32, hostLen_le⟩
  | .v6 ip => .v6 ⟨ip, 32, by decide⟩

/-- The crate `ipnet` reads `<ip>/32` as that network. -/
def ReadsHost (parseIpNet : Str → Option IpNet) (ip : IpAddr) : Prop :=
  parseIpNet (cidrText ip) = some (net32 ip)

/-- What a list without runs of one element has is what the list has. -/
theorem mem_destutter_ne {α : Type} [DecidableEq α] {xs : List α} {x : α} :
    x ∈ xs.destutter (· ≠ ·) ↔ x ∈ xs := by
  cases xs with
  | nil => simp
  | cons y ys =>
    rw [List.destutter_cons']
    induction ys generalizing y with
    | nil => simp
    | cons z zs ih =>
      rw [List.destutter'_cons]
      split
      · rw [List.mem_cons, ih, List.mem_cons (a := x) (b := y)]
      · next hyz =>
        have hyz : y = z := not_not.mp hyz
        rw [ih, hyz]
        simp

theorem mem_cidrsOf {hosts : List IpAddr} {s : Str} :
    s ∈ cidrsOf hosts ↔ ∃ ip ∈ hosts, cidrText ip = s := by
  rw [cidrsOf, mem_destutter_ne, List.mem_mergeSort, List.mem_map]

/-- The networks that the alias lists. -/
def hostNets (parseIpNet : Str → Option IpNet) (hosts : List IpAddr) : List IpNet :=
  (cidrsOf hosts).filterMap parseIpNet

section
variable {parseIpNet : Str → Option IpNet} {hosts : List IpAddr}

theorem mem_hostNets (hnet : ∀ ip ∈ hosts, ReadsHost parseIpNet ip) {net : IpNet} :
    net ∈ hostNets parseIpNet hosts ↔ ∃ ip ∈ hosts, net32 ip = net := by
  simp only [hostNets, List.mem_filterMap, mem_cidrsOf]
  constructor
  · rintro ⟨_, ⟨ip, hip, rfl⟩, hread⟩
    rw [hnet ip hip] at hread
    exact ⟨ip, hip, Option.some.inj hread⟩
  · rintro ⟨ip, hip, rfl⟩
    exact ⟨cidrText ip, ⟨ip, hip, rfl⟩, hnet ip hip⟩

/-- An IPv4 source is in one of the networks exactly when it is one of the hosts. -/
theorem any_hostNets_v4 (hnet : ∀ ip ∈ hosts, ReadsHost parseIpNet ip) (src : Ipv4Addr) :
    (hostNets parseIpNet hosts).any (fun net => net.contains (.v4 src)) = true ↔
      .v4 src ∈ hosts := by
  rw [List.any_eq_true]
  constructor
  · rintro ⟨_, hmem, hcontains⟩
    obtain ⟨ip, hip, rfl⟩ := (mem_hostNets hnet).mp hmem
    cases ip with
    | v4 ip =>
      simp only [net32, IpNet.contains, Network.contains, Network.key, PrefixKey.Covers,
        SamePrefix, Nat.sub_self, BitVec.ushiftRight_zero, decide_eq_true_eq] at hcontains
      rwa [← hcontains]
    | v6 ip => simp [net32, IpNet.contains] at hcontains
  · intro hsrc
    refine ⟨net32 (.v4 src), (mem_hostNets hnet).mpr ⟨_, hsrc, rfl⟩, ?_⟩
    simp [net32, IpNet.contains, Network.contains, PrefixKey.Covers, Network.key, SamePrefix]

/-! ## The loaded document -/

/-- The managed rule as `rustwall` reads it. -/
def managedRule : Rule where
  name := confirmedMaliciousRule
  src := .alias confirmedMaliciousAlias
  action := .drop
  log := true

/-- The managed alias as `rustwall` reads it. -/
def managedAlias (parseIpNet : Str → Option IpNet) (hosts : List IpAddr) : Alias where
  name := confirmedMaliciousAlias
  cidrs := hostNets parseIpNet hosts

theorem readRule_blockingRule : readRule parseIpNet blockingRule = some managedRule := by
  rfl

theorem readVec_cidrsValue (hnet : ∀ ip ∈ hosts, ReadsHost parseIpNet ip) :
    readVec (readParsed parseIpNet) (cidrsValue hosts) = some (hostNets parseIpNet hosts) := by
  have hread : ∀ s ∈ cidrsOf hosts, ∃ net, parseIpNet s = some net := by
    intro s hs
    obtain ⟨ip, hip, rfl⟩ := mem_cidrsOf.mp hs
    exact ⟨net32 ip, hnet ip hip⟩
  simp only [cidrsValue, readVec, List.mapM_map]
  exact mapM_eq_filterMap hread

/-- The name that `rustwall` reads of an element, be it a table or an array. -/
def readName (v : TomlValue) : Option Str := v.field readString nameKey 0

theorem readName_of_readAlias {v : TomlValue} {a : Alias} (h : readAlias parseIpNet v = some a) :
    readName v = some a.name := by
  obtain ⟨name, hname, h⟩ := Option.bind_eq_some_iff.mp h
  obtain ⟨cidrs, -, h⟩ := Option.bind_eq_some_iff.mp h
  cases h
  exact hname

theorem readAlias_of_fields {v : TomlValue} {name : Str} {cidrs : List IpNet}
    (hname : readName v = some name)
    (hcidrs : v.field (readVec (readParsed parseIpNet)) cidrsKey 1 = some cidrs) :
    readAlias parseIpNet v = some ⟨name, cidrs⟩ :=
  Option.bind_eq_some_iff.mpr ⟨name, hname, Option.bind_eq_some_iff.mpr ⟨cidrs, hcidrs, rfl⟩⟩

/-- Of a table the bridge reads the same name. -/
theorem isNamed_table {name : Str} {entries : List (Str × TomlValue)} :
    isNamed name (.table entries) = true ↔ readName (.table entries) = some name := by
  rw [isNamed, decide_eq_true_eq]
  rfl

theorem readName_insertEntry (cidrs : TomlValue) (entries : List (Str × TomlValue)) :
    readName (.table (insertEntry cidrsKey.toList cidrs entries)) = readName (.table entries) := by
  rw [readName, field, slot, lookup_insertEntry, if_neg (by decide)]
  rfl

theorem isNamed_insertEntry (name : Str) (cidrs : TomlValue) (entries : List (Str × TomlValue)) :
    isNamed name (.table (insertEntry cidrsKey.toList cidrs entries)) =
      isNamed name (.table entries) := by
  rw [isNamed, isNamed, TomlValue.get, TomlValue.get, lookup_insertEntry, if_neg (by decide)]

/-- An alias of the managed name with the new list is the managed alias. -/
theorem readAlias_insertEntry (hnet : ∀ ip ∈ hosts, ReadsHost parseIpNet ip)
    {entries : List (Str × TomlValue)}
    (hname : isNamed confirmedMaliciousAlias (.table entries) = true) :
    readAlias parseIpNet (.table (insertEntry cidrsKey.toList (cidrsValue hosts) entries)) =
      some (managedAlias parseIpNet hosts) := by
  refine readAlias_of_fields ?_ ?_
  · rw [readName_insertEntry, isNamed_table.mp hname]
  · rw [field, slot, lookup_insertEntry, if_pos rfl, Option.bind_some, readVec_cidrsValue hnet]

theorem readAlias_newAlias (hnet : ∀ ip ∈ hosts, ReadsHost parseIpNet ip) :
    readAlias parseIpNet (newAlias (cidrsValue hosts)) = some (managedAlias parseIpNet hosts) :=
  readAlias_of_fields rfl (readVec_cidrsValue hnet)

/-- The aliases after a call: one table of the managed name has become `a`, or `a` is added behind
aliases none of which is such a table. -/
def Upserted (a : Alias) (items : List TomlValue) (aliases aliases' : List Alias) : Prop :=
  (∃ pre old post entries, aliases = pre ++ old :: post ∧ aliases' = pre ++ a :: post ∧
      old.name = confirmedMaliciousAlias ∧ .table entries ∈ items ∧
      isNamed confirmedMaliciousAlias (.table entries) = true) ∨
    (aliases' = aliases ++ [a] ∧ ∀ v ∈ items, isNamed confirmedMaliciousAlias v = false)

theorem readAlias_upsertItem (hnet : ∀ ip ∈ hosts, ReadsHost parseIpNet ip)
    {items : List TomlValue} {aliases : List Alias}
    (h : items.mapM (readAlias parseIpNet) = some aliases) :
    ∃ aliases', (upsertItem (cidrsValue hosts) items).mapM (readAlias parseIpNet) = some aliases' ∧
      Upserted (managedAlias parseIpNet hosts) items aliases aliases' := by
  obtain ⟨pre, entries, post, rfl, hnamed, heq⟩ | ⟨hnone, heq⟩ :=
    upsertItem_cases (cidrsValue hosts) items
  · -- the first table of the name
    obtain ⟨as, rest, has, hrest, rfl⟩ := mapM_append_eq_some.mp h
    obtain ⟨old, bs, hold, hbs, rfl⟩ := mapM_cons_eq_some.mp hrest
    refine ⟨as ++ managedAlias parseIpNet hosts :: bs, ?_,
      .inl ⟨as, old, bs, entries, rfl, rfl, ?_, by simp, hnamed⟩⟩
    · have hnew := mapM_cons_eq_some.mpr ⟨_, bs, readAlias_insertEntry hnet hnamed, hbs, rfl⟩
      rw [heq]
      exact mapM_append_eq_some.mpr ⟨as, _, has, hnew, rfl⟩
    · have hname := readName_of_readAlias hold
      rw [isNamed_table.mp hnamed] at hname
      exact (Option.some.inj hname).symm
  · refine ⟨aliases ++ [managedAlias parseIpNet hosts], ?_, .inr ⟨rfl, hnone⟩⟩
    have hnew : [newAlias (cidrsValue hosts)].mapM (readAlias parseIpNet) =
        some [managedAlias parseIpNet hosts] :=
      mapM_cons_eq_some.mpr ⟨_, [], readAlias_newAlias hnet, rfl, rfl⟩
    rw [heq]
    exact mapM_append_eq_some.mpr ⟨aliases, _, h, hnew, rfl⟩

/-! ## When the file loads again -/

/-- No element of the name is written as an array, where the bridge does not see it. -/
def NoArrayNamed (name : Str) (items : List TomlValue) : Prop :=
  ∀ v ∈ items, v.isArray = true → readName v ≠ some name

theorem map_readName {items : List TomlValue} {aliases : List Alias}
    (h : items.mapM (readAlias parseIpNet) = some aliases) :
    items.map readName = (aliases.map Alias.name).map some := by
  induction items generalizing aliases with
  | nil =>
    cases h
    rfl
  | cons v items ih =>
    obtain ⟨a, as, hv, hitems, rfl⟩ := mapM_cons_eq_some.mp h
    simp [readName_of_readAlias hv, ih hitems]

/-- The names of the aliases stay distinct exactly if no array has the managed name. -/
theorem upserted_nodup_iff {items : List TomlValue} {aliases aliases' : List Alias}
    (h : items.mapM (readAlias parseIpNet) = some aliases)
    (hnodup : (aliases.map Alias.name).Nodup)
    (hupserted : Upserted (managedAlias parseIpNet hosts) items aliases aliases') :
    (aliases'.map Alias.name).Nodup ↔ NoArrayNamed confirmedMaliciousAlias items := by
  have hnames := map_readName h
  rcases hupserted with ⟨pre, old, post, entries, rfl, rfl, hold, hmem, htable⟩ | ⟨rfl, hnone⟩
  · have hsame : ((pre ++ managedAlias parseIpNet hosts :: post).map Alias.name) =
        (pre ++ old :: post).map Alias.name := by
      simp [managedAlias, hold]
    rw [hsame]
    refine iff_of_true hnodup fun v hv harray hname => ?_
    -- two elements of one name are one element
    have hdistinct : (items.map readName).Nodup := by
      rw [hnames]
      exact hnodup.map (Option.some_injective _)
    have heq := List.inj_on_of_nodup_map hdistinct hv hmem
      (hname.trans (isNamed_table.mp htable).symm)
    rw [heq] at harray
    cases harray
  · have hfresh : (aliases ++ [managedAlias parseIpNet hosts]).map Alias.name =
        aliases.map Alias.name ++ [confirmedMaliciousAlias] := by
      simp [managedAlias]
    rw [hfresh, List.nodup_append_comm, List.singleton_append, List.nodup_cons,
      and_iff_left hnodup]
    have hmem : confirmedMaliciousAlias ∈ aliases.map Alias.name ↔
        ∃ v ∈ items, readName v = some confirmedMaliciousAlias := by
      have hsome : some confirmedMaliciousAlias ∈ items.map readName ↔
          confirmedMaliciousAlias ∈ aliases.map Alias.name := by
        rw [hnames]
        simp
      rw [← hsome, List.mem_map]
    rw [hmem]
    constructor
    · exact fun hno v hv _ hname => hno ⟨v, hv, hname⟩
    · rintro harrays ⟨v, hv, hname⟩
      refine harrays v hv ?_ hname
      cases v with
      | array => rfl
      | table entries => exact absurd (isNamed_table.mpr hname) (by simp [hnone _ hv])
      | _ => simp [readName, field, slot] at hname

/-! ## The configuration after a call -/

theorem fieldOr_insertEntry_of_ne {α : Type} (read : TomlValue → Option α) (default : α)
    {name : String} {key : Str} (index : Nat) (v : TomlValue) (doc : List (Str × TomlValue))
    (h : name.toList ≠ key) :
    (table (insertEntry key v doc)).fieldOr read default name index =
      (table doc).fieldOr read default name index := by
  rw [fieldOr, slot, lookup_insertEntry, if_neg h]
  rfl

/-- What a call writes is none of the other settings. -/
theorem readSettings_syncedDoc (items rules : List TomlValue) (doc : List (Str × TomlValue)) :
    readSettings (.table (syncedDoc hosts items rules doc)) = readSettings (.table doc) := by
  simp (disch := decide) only [readSettings, syncedDoc, fieldOr_insertEntry_of_ne]

/-- A list of tables is read element by element. -/
theorem fieldOr_readVec {α : Type} {read : TomlValue → Option α} {key : String} {index : Nat}
    {doc : List (Str × TomlValue)} {items : List TomlValue} (h : arrayAt key doc = some items) :
    (table doc).fieldOr (readVec read) [] key index = items.mapM read := by
  have hslot : (table doc).slot key.toList index = doc.lookup key.toList := rfl
  unfold arrayAt at h
  rw [fieldOr, hslot]
  cases hdoc : doc.lookup key.toList with
  | none =>
    rw [hdoc] at h
    rw [← Option.some.inj h]
    rfl
  | some w =>
    rw [hdoc] at h
    cases w with
    | array items' =>
      rw [← Option.some.inj h]
      rfl
    | _ => cases h

theorem readConfig_table {doc : List (Str × TomlValue)} {items rules : List TomlValue}
    (haliases : arrayAt aliasesKey doc = some items) (hrules : arrayAt rulesKey doc = some rules)
    {cfg : Config} :
    readConfig parseIpNet (.table doc) = some cfg ↔
      ∃ settings rs as, readSettings (.table doc) = some settings ∧
        rules.mapM (readRule parseIpNet) = some rs ∧
        items.mapM (readAlias parseIpNet) = some as ∧
        cfg = { settings with rules := rs, aliases := as } := by
  have hrs : (table doc).fieldOr (readVec (readRule parseIpNet)) [] "rules" 4 =
      rules.mapM (readRule parseIpNet) := fieldOr_readVec hrules
  have has : (table doc).fieldOr (readVec (readAlias parseIpNet)) [] "aliases" 5 =
      items.mapM (readAlias parseIpNet) := fieldOr_readVec haliases
  rw [readConfig_eq_some_iff, hrs, has]
  exact and_iff_right rfl

theorem arrayAt_insertEntry (key : String) (items : List TomlValue)
    (doc : List (Str × TomlValue)) :
    arrayAt key (insertEntry key.toList (.array items) doc) = some items := by
  rw [arrayAt, lookup_insertEntry, if_pos rfl]

/-- The configuration after a call: the managed rule in front of rules that were there, and the
managed alias among the aliases. -/
theorem readConfig_syncedDoc (hnet : ∀ ip ∈ hosts, ReadsHost parseIpNet ip)
    {doc : List (Str × TomlValue)} {items rules : List TomlValue} {cfg : Config}
    (haliases : arrayAt aliasesKey doc = some items) (hrules : arrayAt rulesKey doc = some rules)
    (h : readConfig parseIpNet (.table doc) = some cfg) :
    ∃ rules' aliases', readConfig parseIpNet (.table (syncedDoc hosts items rules doc)) =
        some { cfg with rules := managedRule :: rules', aliases := aliases' } ∧
      rules'.Sublist cfg.rules ∧ items.mapM (readAlias parseIpNet) = some cfg.aliases ∧
      Upserted (managedAlias parseIpNet hosts) items cfg.aliases aliases' := by
  obtain ⟨settings, rs, as, hsettings, hrs, has, rfl⟩ :=
    (readConfig_table haliases hrules).mp h
  obtain ⟨as', has', hcases⟩ := readAlias_upsertItem hnet has
  obtain ⟨rs', hrs', hsub⟩ := exists_mapM_filter
    (fun r => !isNamed confirmedMaliciousRule r) hrs
  refine ⟨rs', as', ?_, hsub, has, hcases⟩
  have haliases' : arrayAt aliasesKey (syncedDoc hosts items rules doc) =
      some (upsertItem (cidrsValue hosts) items) := by
    rw [syncedDoc, arrayAt_insertEntry_of_ne (by decide), arrayAt_insertEntry]
  refine (readConfig_table haliases' (arrayAt_insertEntry _ _ _)).mpr
    ⟨settings, managedRule :: rs', as', ?_, ?_, has', rfl⟩
  · rw [readSettings_syncedDoc, hsettings]
  · exact mapM_cons_eq_some.mpr ⟨_, rs', readRule_blockingRule, hrs', rfl⟩

end

end ActiveDefense.Bridges
