import ActiveDefense.Rust.Net
import ActiveDefense.Rust.Toml
import Mathlib.Data.List.Destutter
import Mathlib.Data.Char
import Mathlib.Data.List.Lex

/-!
# Synchronising confirmed hosts to the perimeter firewall

`sync_confirmed_hosts` rewrites the configuration file of `rustwall` as a TOML document: one alias
lists the confirmed hosts, and the first rule drops what comes from it. What the system answers (the
two calls that write the file, and the exit of `kill`) is a parameter. Where an `expect` fails there
is no result.
-/

namespace ActiveDefense.Bridges

open TomlValue

/-- `CONFIRMED_MALICIOUS_ALIAS`. -/
def confirmedMaliciousAlias : Str := "asd_confirmed_malicious".toList

/-- `CONFIRMED_MALICIOUS_RULE`. -/
def confirmedMaliciousRule : Str := "asd-confirmed-malicious-block".toList

/-- The keys of the document that a call writes. -/
def aliasesKey : String := "aliases"

def rulesKey : String := "rules"

/-- The keys of an alias. -/
def nameKey : String := "name"

def cidrsKey : String := "cidrs"

/-- `FirewallSyncError`. -/
inductive FirewallSyncError where
  | read
  | parse
  | notATable
  | serialize
  | write
  | signal (pid : UInt32)
  | signalNonZero (pid : UInt32) (status : Int32)
deriving DecidableEq, Repr

/-- What the system answers during one call; `kill` is `none` when it cannot be started. -/
structure SyncEnv where
  written : Bool
  renamed : Bool
  kill : Option Int32
deriving DecidableEq, Repr

/-! ## The alias -/

/-- `format!("{ip}/32")`. -/
def cidrText (ip : IpAddr) : Str := ip.display ++ "/32".toList

/-- The list of the alias, sorted and without repetitions. -/
def cidrsOf (hosts : List IpAddr) : List Str :=
  ((hosts.map cidrText).mergeSort fun a b => decide (a ≤ b)).destutter (· ≠ ·)

/-- The element is a table whose `name` is the given text. -/
def isNamed (name : Str) (v : TomlValue) : Bool :=
  (v.get nameKey.toList).bind asStr = some name

/-- The alias that is added if there is none. -/
def newAlias (cidrs : TomlValue) : TomlValue :=
  .table [(cidrsKey.toList, cidrs), (nameKey.toList, .string confirmedMaliciousAlias)]

/-- The first alias of the managed name gets the list; if there is none, one is added. An element
that is not a table has no name. -/
def upsertItem (cidrs : TomlValue) : List TomlValue → List TomlValue
  | [] => [newAlias cidrs]
  | .table entries :: rest =>
    if isNamed confirmedMaliciousAlias (.table entries) then
      .table (insertEntry cidrsKey.toList cidrs entries) :: rest
    else .table entries :: upsertItem cidrs rest
  | v :: rest => v :: upsertItem cidrs rest

theorem exists_table_of_isNamed {name : Str} {v : TomlValue} (h : isNamed name v = true) :
    ∃ entries, v = .table entries := by
  cases v with
  | table entries => exact ⟨entries, rfl⟩
  | _ => simp [isNamed, TomlValue.get] at h

/-- The first table of the managed name gets the list, or there is none and one is added. -/
theorem upsertItem_cases (cidrs : TomlValue) (items : List TomlValue) :
    (∃ pre entries post, items = pre ++ .table entries :: post ∧
      isNamed confirmedMaliciousAlias (.table entries) = true ∧
      upsertItem cidrs items =
        pre ++ .table (insertEntry cidrsKey.toList cidrs entries) :: post) ∨
    (∀ v ∈ items, isNamed confirmedMaliciousAlias v = false) ∧
      upsertItem cidrs items = items ++ [newAlias cidrs] := by
  induction items with
  | nil => exact .inr ⟨by simp, rfl⟩
  | cons v items ih =>
    by_cases hnamed : isNamed confirmedMaliciousAlias v = true
    · obtain ⟨entries, rfl⟩ := exists_table_of_isNamed hnamed
      refine .inl ⟨[], entries, items, rfl, hnamed, ?_⟩
      rw [upsertItem, if_pos hnamed]
      rfl
    · have hskip : upsertItem cidrs (v :: items) = v :: upsertItem cidrs items := by
        cases v with
        | table entries => rw [upsertItem, if_neg hnamed]
        | _ => rfl
      rw [hskip]
      obtain ⟨pre, entries, post, rfl, hentries, heq⟩ | ⟨hnone, heq⟩ := ih
      · exact .inl ⟨v :: pre, entries, post, rfl, hentries, by rw [heq]; rfl⟩
      · refine .inr ⟨fun w hw => ?_, by rw [heq]; rfl⟩
        rcases List.mem_cons.mp hw with rfl | hw
        · exact Bool.eq_false_iff.mpr hnamed
        · exact hnone w hw

/-- The array under a key of the document, empty if there is none; `none` where the `expect` that
it is an array fails. -/
def arrayAt (key : String) (doc : List (Str × TomlValue)) : Option (List TomlValue) :=
  match doc.lookup key.toList with
  | none => some []
  | some (.array items) => some items
  | some _ => none

/-- The value of `cidrs`. -/
def cidrsValue (hosts : List IpAddr) : TomlValue := .array ((cidrsOf hosts).map .string)

/-- `upsert_alias`, on the entries of the document. -/
def upsertAlias (hosts : List IpAddr) (doc : List (Str × TomlValue)) :
    Option (List (Str × TomlValue)) := do
  let aliases ← arrayAt aliasesKey doc
  some (insertEntry aliasesKey.toList (.array (upsertItem (cidrsValue hosts) aliases)) doc)

/-! ## The rule -/

/-- The rule that is put in front. -/
def blockingRule : TomlValue :=
  .table
    [("action".toList, .string "drop".toList), ("log".toList, .boolean true),
      (nameKey.toList, .string confirmedMaliciousRule), ("protocol".toList, .string "any".toList),
      ("src".toList, .string ("alias:".toList ++ confirmedMaliciousAlias))]

/-- The rules with the managed one in front, and no other table of its name. -/
def withBlockingRule (rules : List TomlValue) : List TomlValue :=
  blockingRule :: rules.filter fun r => !isNamed confirmedMaliciousRule r

/-- `upsert_blocking_rule`, on the entries of the document. -/
def upsertBlockingRule (doc : List (Str × TomlValue)) : Option (List (Str × TomlValue)) := do
  let rules ← arrayAt rulesKey doc
  some (insertEntry rulesKey.toList (.array (withBlockingRule rules)) doc)

/-! ## The call -/

/-- `load`. -/
def load (T : TomlCrate) (file : Option Str) :
    Except FirewallSyncError (List (Str × TomlValue)) :=
  match file with
  | none => .error .read
  | some text =>
    match T.fromStr text with
    | none => .error .parse
    | some (.table entries) => .ok entries
    | some _ => .error .notATable

/-- `save`: the text that the file is replaced with. -/
def save (T : TomlCrate) (env : SyncEnv) (doc : List (Str × TomlValue)) :
    Except FirewallSyncError Str :=
  match T.toStringPretty (.table doc) with
  | none => .error .serialize
  | some text => if env.written && env.renamed then .ok text else .error .write

/-- `reload`. -/
def reload (env : SyncEnv) (pid : UInt32) : Except FirewallSyncError Unit :=
  match env.kill with
  | none => .error (.signal pid)
  | some status => if status = 0 then .ok () else .error (.signalNonZero pid status)

/-- `sync_confirmed_hosts`: its result, and the file afterwards. -/
def syncConfirmedHosts (T : TomlCrate) (env : SyncEnv) (pid : UInt32) (hosts : List IpAddr)
    (file : Option Str) : Option (Except FirewallSyncError Unit × Option Str) :=
  match load T file with
  | .error e => some (.error e, file)
  | .ok doc => do
    let doc ← upsertAlias hosts doc
    let doc ← upsertBlockingRule doc
    match save T env doc with
    | .error e => some (.error e, file)
    | .ok text => some (reload env pid, some text)

/-- The entries of a document after a call. -/
def syncedDoc (hosts : List IpAddr) (aliases rules : List TomlValue)
    (doc : List (Str × TomlValue)) : List (Str × TomlValue) :=
  insertEntry rulesKey.toList (.array (withBlockingRule rules))
    (insertEntry aliasesKey.toList (.array (upsertItem (cidrsValue hosts) aliases)) doc)

theorem upsertAlias_eq_some {hosts : List IpAddr} {doc doc' : List (Str × TomlValue)}
    (h : upsertAlias hosts doc = some doc') :
    ∃ aliases, arrayAt aliasesKey doc = some aliases ∧
      doc' = insertEntry aliasesKey.toList (.array (upsertItem (cidrsValue hosts) aliases)) doc := by
  obtain ⟨aliases, haliases, heq⟩ := Option.bind_eq_some_iff.mp h
  exact ⟨aliases, haliases, (Option.some.inj heq).symm⟩

theorem upsertBlockingRule_eq_some {doc doc' : List (Str × TomlValue)}
    (h : upsertBlockingRule doc = some doc') :
    ∃ rules, arrayAt rulesKey doc = some rules ∧
      doc' = insertEntry rulesKey.toList (.array (withBlockingRule rules)) doc := by
  obtain ⟨rules, hrules, heq⟩ := Option.bind_eq_some_iff.mp h
  exact ⟨rules, hrules, (Option.some.inj heq).symm⟩

theorem load_eq_ok {T : TomlCrate} {file : Option Str} {doc : List (Str × TomlValue)}
    (h : load T file = .ok doc) : ∃ text, file = some text ∧ T.fromStr text = some (.table doc) := by
  unfold load at h
  split at h
  · cases h
  · next text =>
    split at h
    · cases h
    · next entries hparse =>
      cases h
      exact ⟨text, rfl, hparse⟩
    · cases h

theorem save_eq_ok {T : TomlCrate} {env : SyncEnv} {doc : List (Str × TomlValue)} {text : Str}
    (h : save T env doc = .ok text) : T.toStringPretty (.table doc) = some text := by
  unfold save at h
  split at h
  · cases h
  · next text' htext =>
    split at h
    · cases h
      exact htext
    · cases h

theorem reload_eq_ok {env : SyncEnv} {pid : UInt32} (h : reload env pid = .ok ()) :
    env.kill = some 0 := by
  unfold reload at h
  split at h
  · cases h
  · next status hkill =>
    split at h
    · next hzero => rw [hkill, hzero]
    · cases h

theorem arrayAt_insertEntry_of_ne {key key' : String} (h : key ≠ key') (v : TomlValue)
    (doc : List (Str × TomlValue)) :
    arrayAt key (insertEntry key'.toList v doc) = arrayAt key doc := by
  have hne : key.toList ≠ key'.toList := fun heq => h (String.toList_inj.mp heq)
  rw [arrayAt, lookup_insertEntry, if_neg hne, arrayAt]

/-- A call that succeeds has read a document, written the file, and signalled the process. -/
theorem sync_ok {T : TomlCrate} {env : SyncEnv} {pid : UInt32} {hosts : List IpAddr}
    {file file' : Option Str}
    (h : syncConfirmedHosts T env pid hosts file = some (.ok (), file')) :
    ∃ text doc aliases rules text', file = some text ∧ T.fromStr text = some (.table doc) ∧
      arrayAt aliasesKey doc = some aliases ∧ arrayAt rulesKey doc = some rules ∧
      T.toStringPretty (.table (syncedDoc hosts aliases rules doc)) = some text' ∧
      file' = some text' ∧ env.kill = some 0 := by
  unfold syncConfirmedHosts at h
  cases hload : load T file with
  | error e => simp [hload] at h
  | ok doc =>
    obtain ⟨text, hfile, hparse⟩ := load_eq_ok hload
    rw [hload] at h
    obtain ⟨_, halias, h⟩ := Option.bind_eq_some_iff.mp h
    obtain ⟨aliases, haliases, rfl⟩ := upsertAlias_eq_some halias
    obtain ⟨_, hrule, h⟩ := Option.bind_eq_some_iff.mp h
    obtain ⟨rules, hrules, rfl⟩ := upsertBlockingRule_eq_some hrule
    rw [arrayAt_insertEntry_of_ne (by decide)] at hrules
    split at h
    · cases h
    · next text' hsave =>
      obtain ⟨hreload, hfile'⟩ := Prod.mk.inj (Option.some.inj h)
      exact ⟨text, doc, aliases, rules, text', hfile, hparse, haliases, hrules, save_eq_ok hsave,
        hfile'.symm, reload_eq_ok hreload⟩

theorem upsertAlias_eq (hosts : List IpAddr) {doc : List (Str × TomlValue)}
    {aliases : List TomlValue} (haliases : arrayAt aliasesKey doc = some aliases) :
    upsertAlias hosts doc = some (insertEntry aliasesKey.toList
      (.array (upsertItem (cidrsValue hosts) aliases)) doc) := by
  rw [upsertAlias, haliases]
  rfl

theorem upsertBlockingRule_eq (hosts : List IpAddr) (aliases : List TomlValue)
    {doc : List (Str × TomlValue)} {rules : List TomlValue}
    (hrules : arrayAt rulesKey doc = some rules) :
    upsertBlockingRule (insertEntry aliasesKey.toList
      (.array (upsertItem (cidrsValue hosts) aliases)) doc) =
      some (syncedDoc hosts aliases rules doc) := by
  rw [upsertBlockingRule, arrayAt_insertEntry_of_ne (by decide), hrules]
  rfl

/-- A call whose document can be changed and written replaces the file; the signal is the result. -/
theorem sync_eq {T : TomlCrate} {env : SyncEnv} {hosts : List IpAddr} {file : Option Str}
    {doc : List (Str × TomlValue)} {aliases rules : List TomlValue} {text' : Str}
    (hload : load T file = .ok doc) (haliases : arrayAt aliasesKey doc = some aliases)
    (hrules : arrayAt rulesKey doc = some rules)
    (hsave : save T env (syncedDoc hosts aliases rules doc) = .ok text') (pid : UInt32) :
    syncConfirmedHosts T env pid hosts file = some (reload env pid, some text') := by
  rw [syncConfirmedHosts, hload]
  simp only [upsertAlias_eq hosts haliases, upsertBlockingRule_eq hosts aliases hrules, hsave,
    Option.bind_eq_bind, Option.bind_some]

end ActiveDefense.Bridges
