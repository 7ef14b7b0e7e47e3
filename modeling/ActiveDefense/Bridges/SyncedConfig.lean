import ActiveDefense.Bridges.ManagedDrops
import Mathlib.Data.List.Dedup

/-!
# The document after a call

`upsert_alias` and `upsert_blocking_rule` edit a document that `rustwall` loads as an untyped tree.
`Keeps` says what such an edit leaves: a document that still loads, with one rule and one alias of
the managed names, and nothing else touched. The two functions look for the managed names in tables
only, while `rustwall` reads a struct from an array as well, so an edit keeps its promise exactly
where no array has one of the names (`keeps_iff`).
-/

namespace ActiveDefense.Bridges

open Firewall TomlValue

/-- `upsert_alias` followed by `upsert_blocking_rule`. -/
def upserted (hosts : List IpAddr) (doc : List (Str × TomlValue)) :
    Option (List (Str × TomlValue)) := do
  let doc ← upsertAlias hosts doc
  upsertBlockingRule doc

/-- The elements of a name, as `rustwall` reads it. -/
def named (name : Str) (items : List TomlValue) : List TomlValue :=
  items.filter fun v => readName v = some name

/-- The other elements. -/
def unnamed (name : Str) (items : List TomlValue) : List TomlValue :=
  items.filter fun v => readName v ≠ some name

/-- The entries of a table beside some keys. -/
def besides (keys : List Str) (entries : List (Str × TomlValue)) : List (Str × TomlValue) :=
  entries.filter fun e => e.1 ∉ keys

/-- `rustwall` reads the document, and what it reads is valid. -/
def Accepted (parseIpNet : Str → Option IpNet) (doc : List (Str × TomlValue)) : Prop :=
  ∃ cfg, readConfig parseIpNet (.table doc) = some cfg ∧ cfg.validate = true

/-- What a call for some hosts makes of a document. -/
structure Keeps (parseIpNet : Str → Option IpNet) (hosts : List IpAddr)
    (doc doc' : List (Str × TomlValue)) : Prop where
  accepted : Accepted parseIpNet doc'
  /-- The first rule has the managed name, and no other has. -/
  oneRule : ∃ r rest, arrayAt rulesKey doc' = some (r :: rest) ∧
    named confirmedMaliciousRule (r :: rest) = [r]
  /-- One alias has the managed name, and lists every host once. -/
  oneAlias : ∃ items entries, ∃ cidrs : List Str, arrayAt aliasesKey doc' = some items ∧
    named confirmedMaliciousAlias items = [.table entries] ∧
    entries.lookup cidrsKey.toList = some (.array (cidrs.map .string)) ∧
    cidrs.Perm (hosts.dedup.map cidrText)
  otherRules : (arrayAt rulesKey doc').map (unnamed confirmedMaliciousRule) =
    (arrayAt rulesKey doc).map (unnamed confirmedMaliciousRule)
  otherAliases : (arrayAt aliasesKey doc').map (unnamed confirmedMaliciousAlias) =
    (arrayAt aliasesKey doc).map (unnamed confirmedMaliciousAlias)
  otherKeys : besides [aliasesKey.toList, rulesKey.toList] doc' =
    besides [aliasesKey.toList, rulesKey.toList] doc
  /-- The other keys of the managed alias, if there was one. -/
  aliasKeys : ∀ items items' old new, arrayAt aliasesKey doc = some items →
    arrayAt aliasesKey doc' = some items' →
    .table old ∈ named confirmedMaliciousAlias items →
    .table new ∈ named confirmedMaliciousAlias items' →
    besides [cidrsKey.toList] new = besides [cidrsKey.toList] old
  /-- A second call for the same hosts, in any order and any number. -/
  again : ∀ hosts', (∀ ip, ip ∈ hosts' ↔ ip ∈ hosts) → upserted hosts' doc' = some doc'

/-- What has a managed name is a table. -/
structure ManagedTables (doc : List (Str × TomlValue)) : Prop where
  aliases : ∀ items, arrayAt aliasesKey doc = some items →
    NoArrayNamed confirmedMaliciousAlias items
  rules : ∀ rules, arrayAt rulesKey doc = some rules → NoArrayNamed confirmedMaliciousRule rules

/-! ## The list of the hosts -/

/-- A list in order without runs of one element is strictly in order. -/
theorem pairwise_lt_of_isChain_ne {α : Type} [LinearOrder α] {xs : List α}
    (hle : xs.Pairwise (· ≤ ·)) (hne : xs.IsChain (· ≠ ·)) : xs.Pairwise (· < ·) := by
  rw [← List.isChain_iff_pairwise]
  induction hne with
  | nil => exact .nil
  | singleton x => exact .singleton x
  | cons_cons hxy _ ih =>
    obtain ⟨hx, hrest⟩ := List.pairwise_cons.mp hle
    exact .cons_cons (lt_of_le_of_ne (hx _ (.head _)) hxy) (ih hrest)

theorem pairwise_cidrsOf (hosts : List IpAddr) : (cidrsOf hosts).Pairwise (· < ·) := by
  have htrans : ∀ a b c : Str, decide (a ≤ b) = true → decide (b ≤ c) = true →
      decide (a ≤ c) = true := by
    intro a b c hab hbc
    simp only [decide_eq_true_eq] at hab hbc ⊢
    exact hab.trans hbc
  have htotal : ∀ a b : Str, (decide (a ≤ b) || decide (b ≤ a)) = true := by
    intro a b
    simpa using le_total a b
  have hle : ((hosts.map cidrText).mergeSort fun a b => decide (a ≤ b)).Pairwise (· ≤ ·) :=
    (List.pairwise_mergeSort htrans htotal _).imp of_decide_eq_true
  exact pairwise_lt_of_isChain_ne (hle.sublist (List.destutter_sublist _ _))
    (List.isChain_destutter _ _)

/-- The list depends on what the hosts are alone. -/
theorem cidrsOf_congr {hosts hosts' : List IpAddr} (h : ∀ ip, ip ∈ hosts' ↔ ip ∈ hosts) :
    cidrsOf hosts' = cidrsOf hosts := by
  refine (pairwise_cidrsOf hosts').eq_of_mem_iff (pairwise_cidrsOf hosts) fun s => ?_
  simp only [mem_cidrsOf, h]

section
variable {parseIpNet : Str → Option IpNet} {hosts : List IpAddr}

/-- Two hosts whose texts are read have two texts. -/
theorem cidrText_injOn (hnet : ∀ ip ∈ hosts, ReadsHost parseIpNet ip) :
    ∀ a ∈ hosts, ∀ b ∈ hosts, cidrText a = cidrText b → a = b := by
  intro a ha b hb htext
  have hnets : net32 a = net32 b := by
    have hread := hnet a ha
    rw [ReadsHost, htext, hnet b hb] at hread
    exact (Option.some.inj hread).symm
  cases a <;> cases b <;> cases hnets <;> rfl

/-- Every host is listed once. -/
theorem cidrsOf_perm (hnet : ∀ ip ∈ hosts, ReadsHost parseIpNet ip) :
    (cidrsOf hosts).Perm (hosts.dedup.map cidrText) := by
  have hnodup : (cidrsOf hosts).Nodup := (pairwise_cidrsOf hosts).imp ne_of_lt
  have htexts : (hosts.dedup.map cidrText).Nodup := by
    refine (List.nodup_dedup hosts).map_on fun a ha b hb => ?_
    exact cidrText_injOn hnet a (List.mem_dedup.mp ha) b (List.mem_dedup.mp hb)
  refine (List.perm_ext_iff_of_nodup hnodup htexts).mpr fun s => ?_
  simp only [mem_cidrsOf, List.mem_map, List.mem_dedup]

end

/-! ## The elements of a name -/

theorem mem_named {name : Str} {items : List TomlValue} {v : TomlValue} :
    v ∈ named name items ↔ v ∈ items ∧ readName v = some name := by
  simp [named]

theorem readName_of_isNamed {name : Str} {v : TomlValue} (h : isNamed name v = true) :
    readName v = some name := by
  obtain ⟨entries, rfl⟩ := exists_table_of_isNamed h
  exact isNamed_table.mp h

/-- The bridge misses a name in an array only. -/
theorem isNamed_or_isArray {name : Str} {v : TomlValue} (h : readName v = some name) :
    isNamed name v = true ∨ v.isArray = true := by
  cases v with
  | table entries => exact .inl (isNamed_table.mpr h)
  | array items => exact .inr rfl
  | _ => simp [readName, field, slot] at h

theorem isNamed_of_isArray (name : Str) {v : TomlValue} (h : v.isArray = true) :
    isNamed name v = false := by
  cases v with
  | array items => rfl
  | _ => cases h

theorem noArrayNamed_iff {name : Str} {items : List TomlValue} :
    NoArrayNamed name items ↔ ∀ v ∈ items, readName v = some name → isNamed name v = true := by
  constructor
  · intro harray v hv hname
    exact (isNamed_or_isArray hname).resolve_right fun h => harray v hv h hname
  · intro hnamed v hv harray hname
    have h := hnamed v hv hname
    rw [isNamed_of_isArray name harray] at h
    cases h

/-- Among elements of distinct names the one of a name is alone. -/
theorem named_eq_singleton {name : Str} {items : List TomlValue}
    (hdistinct : (items.map readName).Nodup) {v : TomlValue} (hv : v ∈ items)
    (hname : readName v = some name) : named name items = [v] := by
  induction items with
  | nil => cases hv
  | cons w items ih =>
    obtain ⟨hw, hitems⟩ := List.nodup_cons.mp hdistinct
    rcases List.mem_cons.mp hv with rfl | hv
    · have hnone : named name items = [] := by
        refine List.filter_eq_nil_iff.mpr fun u hu hread => hw ?_
        rw [hname, ← of_decide_eq_true hread]
        exact List.mem_map_of_mem hu
      rw [named, List.filter_cons_of_pos (by simp [hname]), ← named, hnone]
    · have hne : readName w ≠ some name := by
        intro hread
        exact hw (hread.trans hname.symm ▸ List.mem_map_of_mem hv)
      rw [named, List.filter_cons_of_neg (by simp [hne]), ← named, ih hitems hv]

/-! ## The aliases after a call -/

/-- The aliases of other names stay. -/
theorem unnamed_upsertItem (cidrs : TomlValue) (items : List TomlValue) :
    unnamed confirmedMaliciousAlias (upsertItem cidrs items) =
      unnamed confirmedMaliciousAlias items := by
  have hnew : readName (newAlias cidrs) = some confirmedMaliciousAlias := rfl
  obtain ⟨pre, entries, post, rfl, hentries, heq⟩ | ⟨-, heq⟩ := upsertItem_cases cidrs items
  · have hname := isNamed_table.mp hentries
    rw [heq]
    simp [unnamed, readName_insertEntry, hname]
  · rw [heq]
    simp [unnamed, hnew]

/-- A second call for the same list finds what the first has left. -/
theorem upsertItem_upsertItem (cidrs : TomlValue) (items : List TomlValue) :
    upsertItem cidrs (upsertItem cidrs items) = upsertItem cidrs items := by
  induction items with
  | nil => rfl
  | cons v items ih =>
    by_cases hnamed : isNamed confirmedMaliciousAlias v = true
    · obtain ⟨entries, rfl⟩ := exists_table_of_isNamed hnamed
      rw [upsertItem, if_pos hnamed, upsertItem, isNamed_insertEntry, if_pos hnamed,
        insertEntry_insertEntry]
    · cases v with
      | table entries => rw [upsertItem, if_neg hnamed, upsertItem, if_neg hnamed, ih]
      | _ => simp only [upsertItem, ih]

/-! ## The rules after a call -/

theorem readName_blockingRule : readName blockingRule = some confirmedMaliciousRule := rfl

theorem isNamed_blockingRule : isNamed confirmedMaliciousRule blockingRule = true := by
  decide

theorem unnamed_withBlockingRule (rules : List TomlValue) :
    unnamed confirmedMaliciousRule (withBlockingRule rules) =
      unnamed confirmedMaliciousRule rules := by
  rw [unnamed, withBlockingRule, List.filter_cons_of_neg (by simp [readName_blockingRule]),
    List.filter_filter, unnamed]
  refine List.filter_congr fun v _ => ?_
  rw [Bool.and_eq_left_iff_imp, decide_eq_true_eq]
  intro hother
  rw [Bool.not_eq_true', Bool.eq_false_iff]
  exact fun h => hother (readName_of_isNamed h)

theorem withBlockingRule_withBlockingRule (rules : List TomlValue) :
    withBlockingRule (withBlockingRule rules) = withBlockingRule rules := by
  simp [withBlockingRule, isNamed_blockingRule]

/-- The managed rule is alone exactly if no array has its name. -/
theorem named_withBlockingRule_iff {rules : List TomlValue} :
    named confirmedMaliciousRule (withBlockingRule rules) = [blockingRule] ↔
      NoArrayNamed confirmedMaliciousRule rules := by
  rw [named, withBlockingRule, List.filter_cons_of_pos (by simp [readName_blockingRule]),
    List.cons_eq_cons, and_iff_right rfl, List.filter_filter, List.filter_eq_nil_iff,
    noArrayNamed_iff]
  refine forall₂_congr fun v _ => ?_
  simp

/-! ## The whole document -/

theorem upserted_eq (hosts : List IpAddr) {doc : List (Str × TomlValue)}
    {items rules : List TomlValue} (haliases : arrayAt aliasesKey doc = some items)
    (hrules : arrayAt rulesKey doc = some rules) :
    upserted hosts doc = some (syncedDoc hosts items rules doc) := by
  rw [upserted, upsertAlias_eq hosts haliases, Option.bind_eq_bind, Option.bind_some,
    upsertBlockingRule_eq hosts items hrules]

theorem arrayAt_aliases_syncedDoc (hosts : List IpAddr) (items rules : List TomlValue)
    (doc : List (Str × TomlValue)) :
    arrayAt aliasesKey (syncedDoc hosts items rules doc) =
      some (upsertItem (cidrsValue hosts) items) := by
  rw [syncedDoc, arrayAt_insertEntry_of_ne (by decide), arrayAt_insertEntry]

theorem arrayAt_rules_syncedDoc (hosts : List IpAddr) (items rules : List TomlValue)
    (doc : List (Str × TomlValue)) :
    arrayAt rulesKey (syncedDoc hosts items rules doc) = some (withBlockingRule rules) :=
  arrayAt_insertEntry _ _ _

/-- What a call writes is none of the other keys. -/
theorem besides_syncedDoc (hosts : List IpAddr) (items rules : List TomlValue)
    (doc : List (Str × TomlValue)) :
    besides [aliasesKey.toList, rulesKey.toList] (syncedDoc hosts items rules doc) =
      besides [aliasesKey.toList, rulesKey.toList] doc := by
  have hrules : ∀ v : TomlValue,
      decide ((rulesKey.toList, v).1 ∉ [aliasesKey.toList, rulesKey.toList]) = false := by simp
  have haliases : ∀ v : TomlValue,
      decide ((aliasesKey.toList, v).1 ∉ [aliasesKey.toList, rulesKey.toList]) = false := by simp
  rw [besides, syncedDoc, filter_insertEntry hrules, filter_insertEntry haliases]
  rfl

/-- A second call for the same hosts changes nothing. -/
theorem upserted_syncedDoc {hosts hosts' : List IpAddr} (hsame : ∀ ip, ip ∈ hosts' ↔ ip ∈ hosts)
    (items rules : List TomlValue) (doc : List (Str × TomlValue)) :
    upserted hosts' (syncedDoc hosts items rules doc) =
      some (syncedDoc hosts items rules doc) := by
  have hcidrs : cidrsValue hosts' = cidrsValue hosts := by
    rw [cidrsValue, cidrsOf_congr hsame]
    rfl
  have hne : aliasesKey.toList ≠ rulesKey.toList := by decide
  rw [upserted_eq hosts' (arrayAt_aliases_syncedDoc ..) (arrayAt_rules_syncedDoc ..)]
  simp only [syncedDoc, hcidrs, upsertItem_upsertItem, withBlockingRule_withBlockingRule]
  rw [insertEntry_comm hne, insertEntry_insertEntry, insertEntry_insertEntry]

section
variable {parseIpNet : Str → Option IpNet} {hosts : List IpAddr} {doc : List (Str × TomlValue)}
  {items rules : List TomlValue}

theorem exists_arrayAt {α : Type} {read : TomlValue → Option α} {key : String} {index : Nat}
    {xs : List α} (h : (table doc).fieldOr (readVec read) [] key index = some xs) :
    ∃ items, arrayAt key doc = some items := by
  have hslot : (table doc).slot key.toList index = doc.lookup key.toList := rfl
  rw [fieldOr, hslot] at h
  rw [arrayAt]
  cases hdoc : doc.lookup key.toList with
  | none => exact ⟨[], rfl⟩
  | some w =>
    rw [hdoc] at h
    cases w with
    | array items => exact ⟨items, rfl⟩
    | _ => cases h

theorem accepted_of_load {T : TomlCrate} {text : Str} (hparse : T.fromStr text = some (.table doc))
    {cfg : Config} (hload : Config.load T parseIpNet text = some cfg) :
    Accepted parseIpNet doc := by
  obtain ⟨v, hv, hread, hvalid⟩ := Config.load_eq_some_iff.mp hload
  cases hparse.symm.trans hv
  exact ⟨cfg, hread, hvalid⟩

/-- A document that is read has arrays where the bridge expects them. -/
theorem exists_arrays (h : Accepted parseIpNet doc) :
    ∃ items rules, arrayAt aliasesKey doc = some items ∧ arrayAt rulesKey doc = some rules := by
  obtain ⟨cfg, hread, -⟩ := h
  obtain ⟨-, settings, rs, as, -, hrs, has, -⟩ := readConfig_eq_some_iff.mp hread
  obtain ⟨rules, hrules⟩ := exists_arrayAt hrs
  obtain ⟨items, hitems⟩ := exists_arrayAt has
  exact ⟨items, rules, hitems, hrules⟩

variable (haliases : arrayAt aliasesKey doc = some items)
  (hrules : arrayAt rulesKey doc = some rules)
include haliases hrules

/-- Aliases of a valid document have distinct names. -/
theorem nodup_readName (h : Accepted parseIpNet doc) : (items.map readName).Nodup := by
  obtain ⟨cfg, hread, hvalid⟩ := h
  obtain ⟨settings, rs, as, -, -, has, rfl⟩ := (readConfig_table haliases hrules).mp hread
  rw [map_readName has]
  exact (nodup_of_validate hvalid).map (Option.some_injective _)

/-- The document after a call is valid exactly if no alias of the managed name is an array. -/
theorem accepted_syncedDoc_iff (hnet : ∀ ip ∈ hosts, ReadsHost parseIpNet ip)
    (h : Accepted parseIpNet doc) :
    Accepted parseIpNet (syncedDoc hosts items rules doc) ↔
      NoArrayNamed confirmedMaliciousAlias items := by
  obtain ⟨cfg, hread, hvalid⟩ := h
  obtain ⟨rules', aliases', hread', hsub, hitems, hupserted⟩ :=
    readConfig_syncedDoc hnet haliases hrules hread
  have hiff := (validate_synced_iff hvalid hsub hupserted).trans
    (upserted_nodup_iff hitems (nodup_of_validate hvalid) hupserted)
  constructor
  · rintro ⟨cfg', hcfg', hvalid'⟩
    cases hread'.symm.trans hcfg'
    exact hiff.mp hvalid'
  · intro harray
    exact ⟨_, hread', hiff.mpr harray⟩

omit haliases hrules in
/-- The managed alias, and the entries of the one that it was made from. -/
theorem exists_managed (cidrs : TomlValue) (hdistinct : (items.map readName).Nodup) :
    ∃ entries, .table entries ∈ upsertItem cidrs items ∧
      readName (.table entries) = some confirmedMaliciousAlias ∧
      entries.lookup cidrsKey.toList = some cidrs ∧
      ∀ old, .table old ∈ named confirmedMaliciousAlias items →
        besides [cidrsKey.toList] entries = besides [cidrsKey.toList] old := by
  have hbeside : ∀ v : TomlValue,
      decide ((cidrsKey.toList, v).1 ∉ [cidrsKey.toList]) = false := by simp
  obtain ⟨pre, entries, post, hitems, hentries, heq⟩ | ⟨hnone, heq⟩ := upsertItem_cases cidrs items
  · have hname := isNamed_table.mp hentries
    refine ⟨insertEntry cidrsKey.toList cidrs entries, by rw [heq]; simp, ?_, ?_, ?_⟩
    · rw [readName_insertEntry, hname]
    · rw [lookup_insertEntry, if_pos rfl]
    · intro old hold
      have hmem : .table entries ∈ items := by rw [hitems]; simp
      rw [named_eq_singleton hdistinct hmem hname, List.mem_singleton] at hold
      cases hold
      exact filter_insertEntry hbeside cidrs entries
  · refine ⟨[(cidrsKey.toList, cidrs), (nameKey.toList, .string confirmedMaliciousAlias)],
      by rw [heq]; exact List.mem_append_right _ (.head _), rfl, rfl, ?_⟩
    intro old hold
    obtain ⟨hmem, hname⟩ := mem_named.mp hold
    have hnamed := hnone _ hmem
    rw [isNamed_table.mpr hname] at hnamed
    cases hnamed

/-- A call keeps what it should where the managed names are in tables. -/
theorem keeps_syncedDoc (hnet : ∀ ip ∈ hosts, ReadsHost parseIpNet ip)
    (h : Accepted parseIpNet doc) (hitems : NoArrayNamed confirmedMaliciousAlias items)
    (hnone : NoArrayNamed confirmedMaliciousRule rules) :
    Keeps parseIpNet hosts doc (syncedDoc hosts items rules doc) := by
  have haccepted := (accepted_syncedDoc_iff haliases hrules hnet h).mpr hitems
  have haliases' := arrayAt_aliases_syncedDoc hosts items rules doc
  have hrules' := arrayAt_rules_syncedDoc hosts items rules doc
  have hdistinct' := nodup_readName haliases' hrules' haccepted
  obtain ⟨entries, hmem, hname, hcidrs, hold⟩ :=
    exists_managed (cidrsValue hosts) (nodup_readName haliases hrules h)
  have halone := named_eq_singleton hdistinct' hmem hname
  refine ⟨haccepted, ?_, ?_, ?_, ?_, besides_syncedDoc hosts items rules doc, ?_, ?_⟩
  · exact ⟨blockingRule, _, hrules', named_withBlockingRule_iff.mpr hnone⟩
  · exact ⟨_, entries, cidrsOf hosts, haliases', halone, hcidrs, cidrsOf_perm hnet⟩
  · rw [hrules', hrules, Option.map_some, Option.map_some, unnamed_withBlockingRule]
  · rw [haliases', haliases, Option.map_some, Option.map_some, unnamed_upsertItem]
  · intro items₀ items' old new hitems₀ hitems' hmemOld hmemNew
    cases haliases.symm.trans hitems₀
    cases haliases'.symm.trans hitems'
    rw [halone, List.mem_singleton] at hmemNew
    cases hmemNew
    exact hold old hmemOld
  · exact fun hosts' hsame => upserted_syncedDoc hsame items rules doc

end

/-- For a configuration that `rustwall` loads, a call leaves a document that is still valid, with
the managed rule first and the only one of its name, one alias of the managed name that lists every
host once, and everything else as it was, and that a second call for the same hosts does not change:
exactly if no alias and no rule of the managed names is written as an array. -/
theorem keeps_iff (T : TomlCrate) {parseIpNet : Str → Option IpNet} {hosts : List IpAddr}
    (hnet : ∀ ip ∈ hosts, ReadsHost parseIpNet ip) {text : Str} {doc : List (Str × TomlValue)}
    (hparse : T.fromStr text = some (.table doc)) {cfg : Config}
    (hload : Config.load T parseIpNet text = some cfg) :
    (∃ doc', upserted hosts doc = some doc' ∧ Keeps parseIpNet hosts doc doc') ↔
      ManagedTables doc := by
  have haccepted := accepted_of_load hparse hload
  obtain ⟨items, rules, haliases, hrules⟩ := exists_arrays haccepted
  rw [upserted_eq hosts haliases hrules]
  constructor
  · rintro ⟨doc', hdoc', hkeeps⟩
    cases hdoc'
    refine ⟨fun items' hitems' => ?_, fun rules' hrules' => ?_⟩
    · cases haliases.symm.trans hitems'
      exact (accepted_syncedDoc_iff haliases hrules hnet haccepted).mp hkeeps.accepted
    · cases hrules.symm.trans hrules'
      obtain ⟨r, rest, hfirst, halone⟩ := hkeeps.oneRule
      rw [arrayAt_rules_syncedDoc] at hfirst
      cases hfirst
      exact named_withBlockingRule_iff.mp halone
  · intro htables
    exact ⟨_, rfl, keeps_syncedDoc haliases hrules hnet haccepted (htables.aliases items haliases)
      (htables.rules rules hrules)⟩

/-- A file with an alias and two rules beside the managed ones, of which the rule is in the
middle. -/
def officeText : Str :=
  ("queue_num = 0\n\n[[aliases]]\nname = \"office\"\ncidrs = [\"192.168.7.0/24\"]\n\n" ++
    "[[aliases]]\nname = \"asd_confirmed_malicious\"\ncidrs = [\"10.0.0.9/32\"]\n\n" ++
    "[[rules]]\nname = \"office-in\"\naction = \"accept\"\nsrc = \"alias:office\"\n\n" ++
    "[[rules]]\nname = \"asd-confirmed-malicious-block\"\naction = \"drop\"\n" ++
    "src = \"alias:asd_confirmed_malicious\"\n\n" ++
    "[[rules]]\nname = \"no-telnet\"\naction = \"reject\"\ndst_port = \"23\"\n").toList

def officeAliases : List TomlValue :=
  [.table [(cidrsKey.toList, .array [.string "192.168.7.0/24".toList]),
      (nameKey.toList, .string "office".toList)],
    .table [(cidrsKey.toList, .array [.string "10.0.0.9/32".toList]),
      (nameKey.toList, .string confirmedMaliciousAlias)]]

def officeRules : List TomlValue :=
  [.table [("action".toList, .string "accept".toList), (nameKey.toList, .string "office-in".toList),
      ("src".toList, .string "alias:office".toList)],
    .table [("action".toList, .string "drop".toList),
      (nameKey.toList, .string confirmedMaliciousRule),
      ("src".toList, .string "alias:asd_confirmed_malicious".toList)],
    .table [("action".toList, .string "reject".toList), ("dst_port".toList, .string "23".toList),
      (nameKey.toList, .string "no-telnet".toList)]]

def officeDoc : List (Str × TomlValue) :=
  [(aliasesKey.toList, .array officeAliases), ("queue_num".toList, .integer 0),
    (rulesKey.toList, .array officeRules)]

/-- The crate `toml` on that text. -/
def officeToml : TomlCrate where
  fromStr text := if text = officeText then some (.table officeDoc) else none
  toStringPretty _ := none

/-- The crate `ipnet` on the network of the office and on three hosts. -/
def officeIpNet (s : Str) : Option IpNet :=
  if s = "192.168.7.0/24".toList then some (.v4 ⟨Ipv4Addr.new 192 168 7 0, 24, by decide⟩)
  else
    ([1, 2, 9].map fun i => IpAddr.v4 (Ipv4Addr.new 10 0 0 i)).findSome? fun ip =>
      if s = cidrText ip then some (net32 ip) else none

/-- The confirmed hosts, one of them twice. -/
def officeHosts : List IpAddr := [2, 1, 2].map fun i => .v4 (Ipv4Addr.new 10 0 0 i)

/-- A call for these hosts. -/
theorem keeps_officeDoc :
    ∃ doc', upserted officeHosts officeDoc = some doc' ∧
      Keeps officeIpNet officeHosts officeDoc doc' := by
  have hnet : ∀ ip ∈ officeHosts, ReadsHost officeIpNet ip := by
    simp only [ReadsHost]
    decide
  have hparse : officeToml.fromStr officeText = some (.table officeDoc) := by
    simp [officeToml]
  have hloads : (Config.load officeToml officeIpNet officeText).isSome = true := by
    rw [Config.load, hparse]
    decide
  obtain ⟨cfg, hload⟩ := Option.isSome_iff_exists.mp hloads
  refine (keeps_iff officeToml hnet hparse hload).mpr ⟨fun items hitems => ?_, fun rules hrules => ?_⟩
  · have hitems : some officeAliases = some items := hitems
    cases hitems
    simp [NoArrayNamed, officeAliases, isArray]
  · have hrules : some officeRules = some rules := hrules
    cases hrules
    simp [NoArrayNamed, officeRules, isArray]

/-- A file whose only alias has the managed name, and is an array. -/
def arrayText : Str := "aliases = [[\"asd_confirmed_malicious\", []]]\n".toList

def arrayDoc : List (Str × TomlValue) :=
  [(aliasesKey.toList, .array [.array [.string confirmedMaliciousAlias, .array []]])]

/-- The crate `toml` on that text. -/
def arrayToml : TomlCrate where
  fromStr text := if text = arrayText then some (.table arrayDoc) else none
  toStringPretty _ := none

/-- The file loads; after a call for no host it has two aliases of one name. -/
theorem not_keeps :
    ¬ ∀ (T : TomlCrate) (parseIpNet : Str → Option IpNet) (hosts : List IpAddr) (text : Str)
      (doc : List (Str × TomlValue)) (cfg : Config),
      (∀ ip ∈ hosts, ReadsHost parseIpNet ip) → T.fromStr text = some (.table doc) →
      Config.load T parseIpNet text = some cfg →
      ∃ doc', upserted hosts doc = some doc' ∧ Keeps parseIpNet hosts doc doc' := by
  intro h
  have hnet : ∀ ip ∈ ([] : List IpAddr), ReadsHost (fun _ => none) ip := by simp
  have hparse : arrayToml.fromStr arrayText = some (.table arrayDoc) := by
    simp [arrayToml]
  have hload : Config.load arrayToml (fun _ => none) arrayText =
      some { aliases := [⟨confirmedMaliciousAlias, []⟩] } := by
    rw [Config.load, hparse]
    rfl
  obtain ⟨doc', hdoc', hkeeps⟩ := h arrayToml _ [] arrayText arrayDoc _ hnet hparse hload
  cases hdoc'
  have hnone := (accepted_syncedDoc_iff rfl rfl hnet (accepted_of_load hparse hload)).mp
    hkeeps.accepted
  exact hnone _ (.head _) rfl rfl

end ActiveDefense.Bridges
