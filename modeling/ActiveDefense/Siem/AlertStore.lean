import ActiveDefense.Lib.Lists
import ActiveDefense.Lib.Effect
import ActiveDefense.Rust.Serde
import ActiveDefense.Siem.Response
import Mathlib.Data.Finset.Union

/-!
# The alert store

`Store` keeps events and alerts in three tables of a PostgreSQL database. An id is a `BIGINT` there,
and an enumeration and a map are a JSON document each. An alert is written by a statement for its
row and one for each event it names, in a transaction. A statement may be refused, and the reply to
one that takes effect by itself, or to a commit, may be lost; so a write that fails may still be
there, but no alert is ever there without its events, or with those of another (`Refines.step`).

What the tables are for is `Records`: the last event and the last alert of each id.
-/

namespace ActiveDefense.Siem

namespace AlertStore

open JsonValue

/-! ## Events and alerts -/

/-- `EventKind`. -/
inductive EventKind where
  | log (source message : Str)
  | flow (srcIp dstIp : Str) (srcPort dstPort : UInt16) (proto : UInt8)
      (durationMs bytesSrcToDst bytesDstToSrc packets : UInt64) (flags : Str)
  | fileIntegrity (path change : Str) (hashBefore hashAfter : Option Str)
deriving DecidableEq

/-- `Event`. -/
structure Event where
  id : UInt64
  timestampMs : UInt64
  host : Str
  agentId : Str
  kind : EventKind
  fields : Table Str Str

/-- `Alert`. -/
structure Alert where
  id : UInt64
  timestampMs : UInt64
  ruleId : Str
  title : Str
  severity : Response.Severity
  mitreTechnique : Option Str
  sourceEvents : List UInt64
  context : Table Str Str

/-- The same event, with its fields in whatever order. -/
structure Event.Same (e e' : Event) : Prop where
  id : e'.id = e.id
  timestampMs : e'.timestampMs = e.timestampMs
  host : e'.host = e.host
  agentId : e'.agentId = e.agentId
  kind : e'.kind = e.kind
  fields : ∀ name, e'.fields.lookup name = e.fields.lookup name

/-- The same alert, with its context in whatever order. -/
structure Alert.Same (a a' : Alert) : Prop where
  id : a'.id = a.id
  timestampMs : a'.timestampMs = a.timestampMs
  ruleId : a'.ruleId = a.ruleId
  title : a'.title = a.title
  severity : a'.severity = a.severity
  mitreTechnique : a'.mitreTechnique = a.mitreTechnique
  sourceEvents : a'.sourceEvents = a.sourceEvents
  context : ∀ name, a'.context.lookup name = a.context.lookup name

/-! ## Columns -/

/-- `StoreError`. -/
inductive StoreError where
  | db
  | serde
  | invalidSeverity (v : Int16)
  | eventIdOutOfRange (id : UInt64)
deriving DecidableEq

/-- `severity_to_i16`. -/
def severityToI16 (s : Response.Severity) : Int16 := .ofNat s.rank

/-- `severity_from_i16`. -/
def severityFromI16 (v : Int16) : Except StoreError Response.Severity :=
  if v = 0 then .ok .info
  else if v = 1 then .ok .low
  else if v = 2 then .ok .medium
  else if v = 3 then .ok .high
  else if v = 4 then .ok .critical
  else .error (.invalidSeverity v)

/-- `event_id_to_i64`. -/
def eventIdToI64 (id : UInt64) : Except StoreError Int64 :=
  if id.toNat < 2 ^ 63 then .ok id.toInt64 else .error (.eventIdOutOfRange id)

/-- `event_id_from_i64`. -/
def eventIdFromI64 (id : Int64) : UInt64 := id.toUInt64

def ofU16 (n : UInt16) : JsonValue := int n.toNat

def ofU8 (n : UInt8) : JsonValue := int n.toNat

def readU16 : JsonValue → Option UInt16
  | int n => if 0 ≤ n ∧ n.toNat < 2 ^ 16 then some (.ofNat n.toNat) else none
  | _ => none

def readU8 : JsonValue → Option UInt8
  | int n => if 0 ≤ n ∧ n.toNat < 2 ^ 8 then some (.ofNat n.toNat) else none
  | _ => none

/-- The body of an `EventKind`, under the name of its variant. -/
def EventKind.body : EventKind → JsonValue
  | log source message => .object [("source", ofStr source), ("message", ofStr message)]
  | flow srcIp dstIp srcPort dstPort proto durationMs bytesSrcToDst bytesDstToSrc packets flags =>
    .object [("src_ip", ofStr srcIp), ("dst_ip", ofStr dstIp), ("src_port", ofU16 srcPort),
      ("dst_port", ofU16 dstPort), ("proto", ofU8 proto), ("duration_ms", ofU64 durationMs),
      ("bytes_src_to_dst", ofU64 bytesSrcToDst), ("bytes_dst_to_src", ofU64 bytesDstToSrc),
      ("packets", ofU64 packets), ("flags", ofStr flags)]
  | fileIntegrity path change hashBefore hashAfter =>
    .object [("path", ofStr path), ("change", ofStr change),
      ("hash_before", ofOption ofStr hashBefore), ("hash_after", ofOption ofStr hashAfter)]

def EventKind.variantName : EventKind → String
  | log .. => "Log"
  | flow .. => "Flow"
  | fileIntegrity .. => "FileIntegrity"

def EventKind.write (kind : EventKind) : JsonValue := .object [(kind.variantName, kind.body)]

def EventKind.readLog (body : JsonValue) : Option EventKind := do
  return log (← (← body.field "source").readString) (← (← body.field "message").readString)

def EventKind.readFlow (body : JsonValue) : Option EventKind := do
  return flow (← (← body.field "src_ip").readString) (← (← body.field "dst_ip").readString)
    (← readU16 (← body.field "src_port")) (← readU16 (← body.field "dst_port"))
    (← readU8 (← body.field "proto")) (← (← body.field "duration_ms").readU64)
    (← (← body.field "bytes_src_to_dst").readU64) (← (← body.field "bytes_dst_to_src").readU64)
    (← (← body.field "packets").readU64) (← (← body.field "flags").readString)

def EventKind.readFileIntegrity (body : JsonValue) : Option EventKind := do
  return fileIntegrity (← (← body.field "path").readString)
    (← (← body.field "change").readString) (← readOptional readString "hash_before" body)
    (← readOptional readString "hash_after" body)

def EventKind.read (v : JsonValue) : Option EventKind :=
  match v.variant with
  | some ("Log", body) => readLog body
  | some ("Flow", body) => readFlow body
  | some ("FileIntegrity", body) => readFileIntegrity body
  | _ => none

/-- `kind_type_str`. -/
def kindTypeStr : EventKind → Str
  | .log .. => "log".toList
  | .flow .. => "flow".toList
  | .fileIntegrity .. => "file_integrity".toList

/-! ## Tables -/

/-- A row of `events`, after its id. -/
structure EventRow where
  timestampMs : Int64
  host : Str
  agentId : Str
  kindType : Str
  kind : JsonValue
  fields : JsonValue

/-- A row of `alerts`, after its id; the array of source events as its values. -/
structure AlertRow where
  timestampMs : Int64
  ruleId : Str
  title : Str
  severity : Int16
  mitreTechnique : Option Str
  sourceEvents : List JsonValue
  context : JsonValue

/-- The tables of `SCHEMA`. The primary key of the join table makes it a set. -/
structure Database where
  events : Table Int64 EventRow
  alerts : Table Int64 AlertRow
  alertSourceEvents : Finset (Int64 × Int64)

/-- The tables as `migrate` makes them. -/
def Database.migrated : Database := ⟨∅, ∅, ∅⟩

/-- The row of an event. -/
def Event.row (e : Event) : EventRow where
  timestampMs := e.timestampMs.toInt64
  host := e.host
  agentId := e.agentId
  kindType := kindTypeStr e.kind
  kind := e.kind.write
  fields := ofMap ofStr e.fields

/-- The row of an alert. -/
def Alert.row (a : Alert) : AlertRow where
  timestampMs := a.timestampMs.toInt64
  ruleId := a.ruleId
  title := a.title
  severity := severityToI16 a.severity
  mitreTechnique := a.mitreTechnique
  sourceEvents := a.sourceEvents.map ofU64
  context := ofMap ofStr a.context

def orSerde {α : Type} : Option α → Except StoreError α
  | some a => .ok a
  | none => .error .serde

/-- `row_to_event`. -/
def rowToEvent (id : Int64) (row : EventRow) : Except StoreError Event := do
  return {
    id := eventIdFromI64 id
    timestampMs := row.timestampMs.toUInt64
    host := row.host
    agentId := row.agentId
    kind := ← orSerde (EventKind.read row.kind)
    fields := ← orSerde (readMap readString row.fields) }

/-- `row_to_alert`. -/
def rowToAlert (id : Int64) (row : AlertRow) : Except StoreError Alert := do
  return {
    id := eventIdFromI64 id
    timestampMs := row.timestampMs.toUInt64
    ruleId := row.ruleId
    title := row.title
    severity := ← severityFromI16 row.severity
    mitreTechnique := row.mitreTechnique
    sourceEvents := ← orSerde (row.sourceEvents.mapM readU64)
    context := ← orSerde (readMap readString row.context) }

/-! ## Writes -/

/-- How the server answers a statement that takes effect by itself, or a commit. -/
inductive Reply where
  | done
  | refused
  | lost
deriving DecidableEq

/-- A statement by itself. -/
def execute (reply : Reply) (f : Database → Database) : EStateM StoreError Database PUnit :=
  fun db =>
    match reply with
    | .done => .ok ⟨⟩ (f db)
    | .refused => .error .db db
    | .lost => .error .db (f db)

/-- A statement in a transaction. -/
def statement (done : Bool) (f : Database → Database) : EStateM StoreError Database PUnit :=
  fun db => if done then .ok ⟨⟩ (f db) else .error .db db

/-- A transaction, which a failure takes back. -/
def transaction (commit : Reply) (body : EStateM StoreError Database PUnit) :
    EStateM StoreError Database PUnit := fun db =>
  match body db with
  | .error e _ => .error e db
  | .ok _ db' => execute commit (fun _ => db') db

def ofExcept {α : Type} (x : Except StoreError α) : EStateM StoreError Database α := fun db =>
  match x with
  | .ok a => .ok a db
  | .error e => .error e db

/-- `insert_event`. -/
def insertEvent (reply : Reply) (event : Event) : EStateM StoreError Database PUnit := do
  let id ← ofExcept (eventIdToI64 event.id)
  execute reply fun db => { db with events := AList.insert id event.row db.events }

/-- What the server does with the statements of `insert_alert`, and with its commit. -/
structure Answers where
  upsert : Bool
  delete : Bool
  join : Nat → Bool
  commit : Reply

/-- The row of an event that an alert names. -/
def Database.insertJoin (id eventId : Int64) (db : Database) : Database :=
  { db with alertSourceEvents := insert (id, eventId) db.alertSourceEvents }

/-- The statements for the events that an alert names, from the `n`-th on. -/
def joinStatements (join : Nat → Bool) (id : Int64) (eventIds : List Int64) (n : Nat) :
    EStateM StoreError Database PUnit :=
  (eventIds.zipIdx n).forM fun (eventId, i) =>
    statement (join i) fun db => db.insertJoin id eventId

/-- The statements of `insert_alert`. -/
def alertStatements (answers : Answers) (id : Int64) (row : AlertRow)
    (sourceEventIds : List Int64) : EStateM StoreError Database PUnit := do
  statement answers.upsert fun db => { db with alerts := AList.insert id row db.alerts }
  statement answers.delete fun db =>
    { db with alertSourceEvents := db.alertSourceEvents.filter fun j => j.1 ≠ id }
  joinStatements answers.join id sourceEventIds 0

/-- `insert_alert`. -/
def insertAlert (answers : Answers) (alert : Alert) : EStateM StoreError Database PUnit := do
  let id ← ofExcept (eventIdToI64 alert.id)
  let sourceEventIds ← ofExcept (alert.sourceEvents.mapM eventIdToI64)
  transaction answers.commit (alertStatements answers id alert.row sourceEventIds)

/-! ## Queries -/

/-- How the server orders the rows that it answers with. -/
structure OrderBy (ρ : Type) (le : ρ → ρ → Prop) where
  sort : List ρ → List ρ
  perm : ∀ rows, (sort rows).Perm rows
  pairwise : ∀ rows, (sort rows).Pairwise le

/-- `get_event`. -/
def getEvent (db : Database) (id : UInt64) : Except StoreError (Option Event) := do
  let id ← eventIdToI64 id
  match db.events.lookup id with
  | none => return none
  | some row => return some (← rowToEvent id row)

/-- `get_alert`. -/
def getAlert (db : Database) (id : UInt64) : Except StoreError (Option Alert) := do
  let id ← eventIdToI64 id
  match db.alerts.lookup id with
  | none => return none
  | some row => return some (← rowToAlert id row)

/-- `ORDER BY e.timestamp_ms ASC`. -/
def olderEvent (r s : Σ _ : Int64, EventRow) : Prop := r.2.timestampMs ≤ s.2.timestampMs

/-- `ORDER BY timestamp_ms DESC`. -/
def newerAlert (r s : Σ _ : Int64, AlertRow) : Prop := s.2.timestampMs ≤ r.2.timestampMs

/-- `events_for_alert`. -/
def eventsForAlert (order : OrderBy _ olderEvent) (db : Database) (alertId : UInt64) :
    Except StoreError (List Event) := do
  let alertId ← eventIdToI64 alertId
  let rows := db.events.entries.filter fun r => decide ((alertId, r.1) ∈ db.alertSourceEvents)
  (order.sort rows).mapM fun r => rowToEvent r.1 r.2

/-- `LIMIT`. -/
def limited {ρ : Type} (limit : Int64) (rows : List ρ) : Except StoreError (List ρ) :=
  if limit < 0 then .error .db else .ok (rows.take limit.toNatClampNeg)

/-- `list_recent_alerts`. -/
def listRecentAlerts (order : OrderBy _ newerAlert) (db : Database) (limit : Int64) :
    Except StoreError (List Alert) := do
  let rows ← limited limit (order.sort db.alerts.entries)
  rows.mapM fun r => rowToAlert r.1 r.2

/-- `list_alerts_at_least`. -/
def listAlertsAtLeast (order : OrderBy _ newerAlert) (db : Database) (floor : Response.Severity)
    (limit : Int64) : Except StoreError (List Alert) := do
  let rows := db.alerts.entries.filter fun r => decide (severityToI16 floor ≤ r.2.severity)
  let rows ← limited limit (order.sort rows)
  rows.mapM fun r => rowToAlert r.1 r.2

/-- An order that the server may answer in. -/
def OrderBy.sorted {ρ : Type} {le : ρ → ρ → Prop} [DecidableRel le]
    (trans : ∀ {r s t}, le r s → le s t → le r t) (total : ∀ r s, le r s ∨ le s r) :
    OrderBy ρ le where
  sort rows := rows.mergeSort fun r s => decide (le r s)
  perm rows := List.mergeSort_perm rows _
  pairwise rows := by
    have htrans : ∀ r s t, decide (le r s) = true → decide (le s t) = true →
        decide (le r t) = true := by
      simpa using fun r s t hrs hst => trans hrs hst
    have htotal : ∀ r s, (decide (le r s) || decide (le s r)) = true := by
      simpa using total
    exact (List.pairwise_mergeSort htrans htotal rows).imp fun h => of_decide_eq_true h

instance : DecidableRel olderEvent := fun r s =>
  inferInstanceAs (Decidable (r.2.timestampMs ≤ s.2.timestampMs))

instance : DecidableRel newerAlert := fun r s =>
  inferInstanceAs (Decidable (s.2.timestampMs ≤ r.2.timestampMs))

/-- The oldest event first. -/
def oldestFirst : OrderBy _ olderEvent :=
  .sorted Int64.le_trans fun _ _ => Int64.le_total _ _

/-- The newest alert first. -/
def newestFirst : OrderBy _ newerAlert :=
  .sorted (fun hrs hst => Int64.le_trans hst hrs) fun _ _ => Int64.le_total _ _

/-! ## Rows that are read back -/

/-- The id fits a `BIGINT`. -/
def Fits (id : UInt64) : Prop := id.toNat < 2 ^ 63

instance {id : UInt64} : Decidable (Fits id) := inferInstanceAs (Decidable (_ < _))

theorem eventIdToI64_of_fits {id : UInt64} (h : Fits id) : eventIdToI64 id = .ok id.toInt64 :=
  if_pos h

theorem eventIdToI64_of_not_fits {id : UInt64} (h : ¬ Fits id) :
    eventIdToI64 id = .error (.eventIdOutOfRange id) := if_neg h

theorem toInt64_inj {a b : UInt64} : a.toInt64 = b.toInt64 ↔ a = b :=
  ⟨fun h => congrArg Int64.toUInt64 h, fun h => congrArg UInt64.toInt64 h⟩

theorem severityFromI16_to (s : Response.Severity) : severityFromI16 (severityToI16 s) = .ok s := by
  cases s <;> rfl

theorem severityToI16_le_iff (s t : Response.Severity) :
    severityToI16 s ≤ severityToI16 t ↔ s.rank ≤ t.rank := by
  cases s <;> cases t <;> decide

theorem readU16_ofU16 (n : UInt16) : readU16 (ofU16 n) = some n := by
  have hupper := n.toNat_lt
  rw [ofU16, readU16, if_pos (by omega), Int.toNat_natCast, UInt16.ofNat_toNat]

theorem readU8_ofU8 (n : UInt8) : readU8 (ofU8 n) = some n := by
  have hupper := n.toNat_lt
  rw [ofU8, readU8, if_pos (by omega), Int.toNat_natCast, UInt8.ofNat_toNat]

theorem readOptional_hash {v : JsonValue} {name : String} {o : Option Str}
    (h : v.named name = [ofOption ofStr o]) : readOptional readString name v = some o :=
  readOptional_ofOption h fun s _ => ⟨fun h => JsonValue.noConfusion h, readString_ofStr s⟩

theorem EventKind.readFileIntegrity_body (path change : Str) (hashBefore hashAfter : Option Str) :
    readFileIntegrity (body (.fileIntegrity path change hashBefore hashAfter)) =
      some (.fileIntegrity path change hashBefore hashAfter) := by
  have hbefore : (body (.fileIntegrity path change hashBefore hashAfter)).named "hash_before" =
      [ofOption ofStr hashBefore] := by
    simp [body, named]
  have hafter : (body (.fileIntegrity path change hashBefore hashAfter)).named "hash_after" =
      [ofOption ofStr hashAfter] := by
    simp [body, named]
  rw [readFileIntegrity, readOptional_hash hbefore, readOptional_hash hafter]
  simp [body, field, named, readString_ofStr]

theorem EventKind.read_write (kind : EventKind) : read kind.write = some kind := by
  cases kind with
  | log source message =>
    change readLog _ = _
    simp [readLog, body, field, named, readString_ofStr]
  | flow =>
    change readFlow _ = _
    simp [readFlow, body, field, named, readString_ofStr, readU16_ofU16, readU8_ofU8,
      readU64_ofU64]
  | fileIntegrity path change hashBefore hashAfter => exact readFileIntegrity_body ..

theorem readStrings (t : Table Str Str) : ∃ t', readMap readString (ofMap ofStr t) = some t' ∧
    ∀ name, t'.lookup name = t.lookup name :=
  readMap_ofMap readString ofStr fun _ s _ => readString_ofStr s

/-- The row of an event reads back. -/
theorem rowToEvent_row (e : Event) : ∃ e', rowToEvent e.id.toInt64 e.row = .ok e' ∧ e.Same e' := by
  obtain ⟨fields, hread, hsame⟩ := readStrings e.fields
  refine ⟨{ e with fields }, ?_, ⟨rfl, rfl, rfl, rfl, rfl, hsame⟩⟩
  simp only [rowToEvent, Event.row, EventKind.read_write, hread, orSerde]
  rfl

theorem mapM_readU64 (ids : List UInt64) : (ids.map ofU64).mapM readU64 = some ids := by
  induction ids with
  | nil => rfl
  | cons id ids ih =>
    rw [List.map_cons, List.mapM_cons, readU64_ofU64, Option.bind_eq_bind, Option.bind_some, ih]
    rfl

/-- So does that of an alert. -/
theorem rowToAlert_row (a : Alert) : ∃ a', rowToAlert a.id.toInt64 a.row = .ok a' ∧ a.Same a' := by
  obtain ⟨context, hread, hsame⟩ := readStrings a.context
  refine ⟨{ a with context }, ?_, ⟨rfl, rfl, rfl, rfl, rfl, rfl, rfl, hsame⟩⟩
  simp only [rowToAlert, Alert.row, severityFromI16_to, mapM_readU64, hread, orSerde]
  rfl

/-! ## What the tables are for -/

/-- The last event and the last alert of each id. -/
structure Records where
  event : UInt64 → Option Event
  alert : UInt64 → Option Alert

/-- Nothing is known. -/
def Records.empty : Records := ⟨fun _ => none, fun _ => none⟩

/-- A call of `insert_event` or `insert_alert`, with what the server does. -/
inductive Write where
  | event (reply : Reply) (event : Event)
  | alert (answers : Answers) (alert : Alert)

/-- The call. -/
def Write.exec : Write → EStateM StoreError Database PUnit
  | event reply e => insertEvent reply e
  | alert answers a => insertAlert answers a

/-- Whether it takes effect. -/
def Write.takes : Write → Bool
  | event reply e => decide (Fits e.id) && reply ≠ .refused
  | alert answers a =>
    decide (Fits a.id) && a.sourceEvents.all (fun id => decide (Fits id)) && answers.upsert &&
      answers.delete && (List.range a.sourceEvents.length).all answers.join &&
      answers.commit ≠ .refused

/-- What it does to the records where it takes effect. -/
def Records.put (r : Records) : Write → Records
  | .event _ e => { r with event := Function.update r.event e.id (some e) }
  | .alert _ a => { r with alert := Function.update r.alert a.id (some a) }

/-- What it does to the tables. -/
def Database.put (db : Database) : Write → Database
  | .event _ e => { db with events := AList.insert e.id.toInt64 e.row db.events }
  | .alert _ a =>
    { db with
      alerts := AList.insert a.id.toInt64 a.row db.alerts
      alertSourceEvents := db.alertSourceEvents.filter (fun j => j.1 ≠ a.id.toInt64) ∪
        (a.sourceEvents.map fun e => (a.id.toInt64, e.toInt64)).toFinset }

/-! ### What a write does -/

section
variable {db : Database} {id : Int64} {ids : List UInt64}

theorem mapM_of_fits (h : ∀ id ∈ ids, Fits id) :
    ids.mapM eventIdToI64 = .ok (ids.map UInt64.toInt64) := by
  induction ids with
  | nil => rfl
  | cons id ids ih =>
    have hrest := ih fun id' hid' => h id' (List.mem_cons_of_mem _ hid')
    rw [List.mapM_cons, eventIdToI64_of_fits (h id (.head _)), hrest]
    rfl

theorem mapM_of_not_fits (h : ¬ ∀ id ∈ ids, Fits id) : ∃ e, ids.mapM eventIdToI64 = .error e := by
  induction ids with
  | nil => exact absurd nofun h
  | cons id ids ih =>
    rw [List.mapM_cons]
    by_cases hid : Fits id
    · obtain ⟨e, he⟩ := ih fun hids => h (List.forall_mem_cons.mpr ⟨hid, hids⟩)
      refine ⟨e, ?_⟩
      rw [eventIdToI64_of_fits hid, he]
      rfl
    · refine ⟨.eventIdOutOfRange id, ?_⟩
      rw [eventIdToI64_of_not_fits hid]
      rfl

theorem statement_true {f : Database → Database} : statement true f db = .ok ⟨⟩ (f db) := rfl

theorem statement_false {f : Database → Database} : statement false f db = .error .db db := rfl

theorem joinStatements_cons {join : Nat → Bool} {eventId : Int64} {eventIds : List Int64}
    {n : Nat} : joinStatements join id (eventId :: eventIds) n =
      statement (join n) (fun db => db.insertJoin id eventId) >>= fun _ =>
        joinStatements join id eventIds (n + 1) := rfl

/-- The rows are there where no statement fails. -/
theorem joinStatements_of_all (join : Nat → Bool) {eventIds : List Int64} {n : Nat}
    (h : (List.range' n eventIds.length).all join = true) :
    joinStatements join id eventIds n db = .ok ⟨⟩ { db with
      alertSourceEvents := db.alertSourceEvents ∪ (eventIds.map fun e => (id, e)).toFinset } := by
  induction eventIds generalizing n db with
  | nil => simp [joinStatements, pure, EStateM.pure]
  | cons eventId eventIds ih =>
    rw [List.length_cons, List.range'_succ, List.all_cons, Bool.and_eq_true] at h
    rw [joinStatements_cons, h.1, bind_run_of_ok statement_true, ih h.2, Database.insertJoin,
      List.map_cons, List.toFinset_cons, Finset.union_insert, Finset.insert_union]

/-- Where one does, so do they all. -/
theorem joinStatements_of_not_all (join : Nat → Bool) {eventIds : List Int64} {n : Nat}
    (h : (List.range' n eventIds.length).all join = false) :
    ∃ e db', joinStatements join id eventIds n db = .error e db' := by
  induction eventIds generalizing n db with
  | nil => cases h
  | cons eventId eventIds ih =>
    rw [List.length_cons, List.range'_succ, List.all_cons] at h
    rw [joinStatements_cons]
    cases hjoin : join n with
    | false => exact ⟨_, _, bind_run_of_error statement_false⟩
    | true =>
      rw [hjoin, Bool.true_and] at h
      rw [bind_run_of_ok statement_true]
      exact ih h

/-- Whether no statement of `insert_alert` fails. -/
def Answers.allDone (answers : Answers) (n : Nat) : Bool :=
  answers.upsert && answers.delete && (List.range n).all answers.join

variable (db) in
theorem alertStatements_run (answers : Answers) (id : Int64) (row : AlertRow)
    (eventIds : List Int64) :
    (answers.allDone eventIds.length = true →
      alertStatements answers id row eventIds db = .ok ⟨⟩
        { db with
          alerts := AList.insert id row db.alerts
          alertSourceEvents := db.alertSourceEvents.filter (fun j => j.1 ≠ id) ∪
            (eventIds.map fun e => (id, e)).toFinset }) ∧
    (answers.allDone eventIds.length = false →
      ∃ e db', alertStatements answers id row eventIds db = .error e db') := by
  obtain ⟨upsert, delete, join, commit⟩ := answers
  unfold Answers.allDone alertStatements
  dsimp only
  cases upsert with
  | false => exact ⟨nofun, fun _ => ⟨_, _, bind_run_of_error statement_false⟩⟩
  | true =>
    rw [bind_run_of_ok statement_true]
    cases delete with
    | false => exact ⟨nofun, fun _ => ⟨_, _, bind_run_of_error statement_false⟩⟩
    | true =>
      rw [bind_run_of_ok statement_true, Bool.true_and, Bool.true_and, List.range_eq_range']
      exact ⟨joinStatements_of_all join, joinStatements_of_not_all join⟩

/-- What the answer to a statement by itself leaves. -/
theorem finalState_execute (reply : Reply) (f : Database → Database) :
    finalState (execute reply f db) = if reply = .refused then db else f db := by
  cases reply <;> rfl

/-- A transaction takes effect as a whole, or not at all. -/
theorem finalState_transaction (answers : Answers) (row : AlertRow) (eventIds : List Int64) :
    finalState (transaction answers.commit (alertStatements answers id row eventIds) db) =
      if answers.allDone eventIds.length = true ∧ answers.commit ≠ .refused then
        { db with
          alerts := AList.insert id row db.alerts
          alertSourceEvents := db.alertSourceEvents.filter (fun j => j.1 ≠ id) ∪
            (eventIds.map fun e => (id, e)).toFinset }
      else db := by
  obtain ⟨hok, herror⟩ := alertStatements_run db answers id row eventIds
  rw [transaction]
  cases hdone : answers.allDone eventIds.length with
  | false =>
    obtain ⟨e, db', hrun⟩ := herror hdone
    rw [hrun, if_neg fun h => absurd h.1 Bool.false_ne_true]
    rfl
  | true =>
    rw [hok hdone]
    dsimp only
    rw [finalState_execute]
    by_cases hrefused : answers.commit = .refused
    · rw [if_pos hrefused, if_neg fun h => h.2 hrefused]
    · rw [if_neg hrefused, if_pos ⟨rfl, hrefused⟩]

theorem ofExcept_ok_bind {α β : Type} {x : Except StoreError α} {a : α} (h : x = .ok a)
    {f : α → EStateM StoreError Database β} : (ofExcept x >>= f) db = f a db := by
  rw [h]
  rfl

theorem ofExcept_error_bind {α β : Type} {x : Except StoreError α} {e : StoreError}
    (h : x = .error e) {f : α → EStateM StoreError Database β} :
    (ofExcept x >>= f) db = .error e db := by
  rw [h]
  rfl

/-- So does a write. -/
theorem finalState_exec (w : Write) :
    finalState (w.exec db) = if w.takes = true then db.put w else db := by
  cases w with
  | event reply e =>
    rw [Write.exec, insertEvent, Write.takes]
    by_cases hid : Fits e.id
    · rw [ofExcept_ok_bind (eventIdToI64_of_fits hid), finalState_execute, decide_eq_true hid]
      by_cases hrefused : reply = .refused
      · rw [if_pos hrefused, if_neg (by simp [hrefused])]
      · rw [if_neg hrefused, if_pos (by simp [hrefused])]
        rfl
    · rw [ofExcept_error_bind (eventIdToI64_of_not_fits hid), decide_eq_false hid]
      rfl
  | alert answers a =>
    rw [Write.exec, insertAlert, Write.takes]
    by_cases hid : Fits a.id
    · rw [ofExcept_ok_bind (eventIdToI64_of_fits hid), decide_eq_true hid]
      by_cases hids : ∀ e ∈ a.sourceEvents, Fits e
      · rw [ofExcept_ok_bind (mapM_of_fits hids), finalState_transaction, List.length_map,
          List.map_map]
        have hall : (a.sourceEvents.all fun id => decide (Fits id)) = true := by simpa using hids
        rw [hall, Bool.true_and, Bool.true_and]
        simp only [Bool.and_eq_true, decide_eq_true_eq, Answers.allDone]
        rfl
      · obtain ⟨e, he⟩ := mapM_of_not_fits hids
        have hall : (a.sourceEvents.all fun id => decide (Fits id)) = false := by
          simpa using hids
        rw [ofExcept_error_bind he, hall]
        rfl
    · rw [ofExcept_error_bind (eventIdToI64_of_not_fits hid), decide_eq_false hid]
      rfl

/-- What is reported done took effect. -/
theorem takes_of_ok {w : Write} {db' : Database} (h : w.exec db = .ok ⟨⟩ db') :
    w.takes = true := by
  cases w with
  | event reply e =>
    rw [Write.exec, insertEvent] at h
    by_cases hid : Fits e.id
    · rw [ofExcept_ok_bind (eventIdToI64_of_fits hid)] at h
      cases reply with
      | done => simp [Write.takes, hid]
      | refused => cases h
      | lost => cases h
    · rw [ofExcept_error_bind (eventIdToI64_of_not_fits hid)] at h
      cases h
  | alert answers a =>
    rw [Write.exec, insertAlert] at h
    by_cases hid : Fits a.id
    · rw [ofExcept_ok_bind (eventIdToI64_of_fits hid)] at h
      by_cases hids : ∀ e ∈ a.sourceEvents, Fits e
      · rw [ofExcept_ok_bind (mapM_of_fits hids), transaction] at h
        obtain ⟨hok, herror⟩ := alertStatements_run db answers a.id.toInt64 a.row
          (a.sourceEvents.map UInt64.toInt64)
        cases hdone : answers.allDone (a.sourceEvents.map UInt64.toInt64).length with
        | false =>
          obtain ⟨e, db'', hrun⟩ := herror hdone
          rw [hrun] at h
          cases h
        | true =>
          rw [hok hdone] at h
          have hcommit : answers.commit ≠ .refused := by
            intro hrefused
            rw [hrefused] at h
            cases h
          simp only [Answers.allDone, List.length_map, Bool.and_eq_true] at hdone
          simp only [Write.takes, decide_eq_true hid, hdone, Bool.true_and, Bool.and_true,
            Bool.and_eq_true, List.all_eq_true, decide_eq_true_eq]
          exact ⟨hids, by simpa using hcommit⟩
      · obtain ⟨e, he⟩ := mapM_of_not_fits hids
        rw [ofExcept_error_bind he] at h
        cases h
    · rw [ofExcept_error_bind (eventIdToI64_of_not_fits hid)] at h
      cases h

end

/-! ### The tables hold the records -/

/-- The tables hold the records: a row for each event and each alert, and a row of the join table
for each event that an alert names. -/
structure Refines (r : Records) (db : Database) : Prop where
  event : ∀ id : UInt64, db.events.lookup id.toInt64 = (r.event id).map Event.row
  alert : ∀ id : UInt64, db.alerts.lookup id.toInt64 = (r.alert id).map Alert.row
  eventId : ∀ id e, r.event id = some e → e.id = id
  alertId : ∀ id a, r.alert id = some a → a.id = id
  join : ∀ id e : UInt64, (id.toInt64, e.toInt64) ∈ db.alertSourceEvents ↔
    ∃ a, r.alert id = some a ∧ e ∈ a.sourceEvents

theorem refines_migrated : Refines .empty .migrated where
  event _ := rfl
  alert _ := rfl
  eventId _ _ h := by cases h
  alertId _ _ h := by cases h
  join id e := by
    constructor
    · intro h
      exact absurd h (Finset.notMem_empty _)
    · rintro ⟨a, ha, -⟩
      cases ha

theorem update_eq_some {α : Type} {f : UInt64 → Option α} {key id : UInt64} {a b : α}
    (h : Function.update f key (some a) id = some b) : id = key ∧ a = b ∨ f id = some b := by
  by_cases hid : id = key
  · rw [hid, Function.update_self] at h
    exact .inl ⟨hid, Option.some.inj h⟩
  · rw [Function.update_of_ne hid] at h
    exact .inr h

/-- A table with a row more. -/
theorem lookup_insert_row {α ρ : Type} {f : UInt64 → Option α} {t : Table Int64 ρ} {row : α → ρ}
    {key : UInt64} {a : α} (h : ∀ id : UInt64, t.lookup id.toInt64 = (f id).map row) (id : UInt64) :
    (AList.insert key.toInt64 (row a) t).lookup id.toInt64 =
      (Function.update f key (some a) id).map row := by
  by_cases hid : id = key
  · rw [hid, AList.lookup_insert, Function.update_self]
    rfl
  · rw [AList.lookup_insert_ne fun heq => hid (toInt64_inj.mp heq),
      Function.update_of_ne hid]
    exact h id

namespace Refines

variable {r : Records} {db : Database}

theorem put (h : Refines r db) (w : Write) : Refines (r.put w) (db.put w) := by
  cases w with
  | event reply e =>
    refine ⟨lookup_insert_row h.event, h.alert, fun id e' he' => ?_, h.alertId, h.join⟩
    rcases update_eq_some he' with ⟨rfl, rfl⟩ | he'
    · rfl
    · exact h.eventId id e' he'
  | alert answers a =>
    refine ⟨h.event, lookup_insert_row h.alert, h.eventId, fun id a' ha' => ?_, fun id e => ?_⟩
    · rcases update_eq_some ha' with ⟨rfl, rfl⟩ | ha'
      · rfl
      · exact h.alertId id a' ha'
    · simp only [Database.put, Records.put, Finset.mem_union, Finset.mem_filter, List.mem_toFinset,
        List.mem_map, Prod.mk.injEq, toInt64_inj, h.join]
      by_cases hid : id = a.id
      · subst hid
        simp
      · have hkey : id.toInt64 ≠ a.id.toInt64 := mt toInt64_inj.mp hid
        simp [hid, hkey, Ne.symm hid]

/-- A write, whatever the server does. -/
theorem step (h : Refines r db) (w : Write) :
    Refines (if w.takes = true then r.put w else r) (finalState (w.exec db)) := by
  rw [finalState_exec]
  split
  · exact h.put w
  · exact h

end Refines

/-- The tables after some writes. -/
def Database.after (ws : List Write) : Database :=
  ws.foldl (fun db w => finalState (w.exec db)) .migrated

/-- The records after them. -/
def Records.after (ws : List Write) : Records :=
  ws.foldl (fun r w => if w.takes = true then r.put w else r) .empty

theorem refines_after (ws : List Write) : Refines (.after ws) (.after ws) := by
  induction ws using List.reverseRecOn with
  | nil => exact refines_migrated
  | append_singleton ws w ih =>
    rw [Records.after, Database.after, List.foldl_append, List.foldl_append]
    exact ih.step w

/-! ### Queries -/

namespace Refines

variable {r : Records} {db : Database}

theorem getEvent (h : Refines r db) {id : UInt64} (hid : Fits id) :
    ∃ res, AlertStore.getEvent db id = .ok res ∧ Option.Rel Event.Same (r.event id) res := by
  rw [AlertStore.getEvent, eventIdToI64_of_fits hid]
  simp only [bind, Except.bind, h.event]
  cases he : r.event id with
  | none => exact ⟨none, rfl, .none⟩
  | some e =>
    obtain rfl := h.eventId id e he
    obtain ⟨e', hread, hsame⟩ := rowToEvent_row e
    refine ⟨some e', ?_, .some hsame⟩
    simp only [Option.map_some, hread]
    rfl

theorem getAlert (h : Refines r db) {id : UInt64} (hid : Fits id) :
    ∃ res, AlertStore.getAlert db id = .ok res ∧ Option.Rel Alert.Same (r.alert id) res := by
  rw [AlertStore.getAlert, eventIdToI64_of_fits hid]
  simp only [bind, Except.bind, h.alert]
  cases ha : r.alert id with
  | none => exact ⟨none, rfl, .none⟩
  | some a =>
    obtain rfl := h.alertId id a ha
    obtain ⟨a', hread, hsame⟩ := rowToAlert_row a
    refine ⟨some a', ?_, .some hsame⟩
    simp only [Option.map_some, hread]
    rfl

/-- What a row of `events` reads back as. -/
theorem decodes_event (h : Refines r db) {row : Σ _ : Int64, EventRow}
    (hrow : row ∈ db.events.entries) :
    ∃ e e', r.event row.1.toUInt64 = some e ∧ row.2 = e.row ∧ rowToEvent row.1 row.2 = .ok e' ∧
      e.Same e' := by
  obtain ⟨key, value⟩ := row
  have hlookup := h.event key.toUInt64
  rw [show key.toUInt64.toInt64 = key from rfl, AList.mem_lookup_iff.mpr hrow] at hlookup
  obtain ⟨e, he, hvalue⟩ := Option.map_eq_some_iff.mp hlookup.symm
  have hkey := h.eventId _ e he
  obtain ⟨e', hread, hsame⟩ := rowToEvent_row e
  refine ⟨e, e', he, hvalue.symm, ?_, hsame⟩
  rw [hkey] at hread
  rw [← hvalue]
  exact hread

/-- What a row of `alerts` reads back as. -/
theorem decodes_alert (h : Refines r db) {row : Σ _ : Int64, AlertRow}
    (hrow : row ∈ db.alerts.entries) :
    ∃ a a', r.alert row.1.toUInt64 = some a ∧ row.2 = a.row ∧ rowToAlert row.1 row.2 = .ok a' ∧
      a.Same a' := by
  obtain ⟨key, value⟩ := row
  have hlookup := h.alert key.toUInt64
  rw [show key.toUInt64.toInt64 = key from rfl, AList.mem_lookup_iff.mpr hrow] at hlookup
  obtain ⟨a, ha, hvalue⟩ := Option.map_eq_some_iff.mp hlookup.symm
  have hkey := h.alertId _ a ha
  obtain ⟨a', hread, hsame⟩ := rowToAlert_row a
  refine ⟨a, a', ha, hvalue.symm, ?_, hsame⟩
  rw [hkey] at hread
  rw [← hvalue]
  exact hread

/-- The events of an alert are the last ones of the ids that the alert names, each once, in the
order of their times. -/
theorem eventsForAlert (h : Refines r db) (order : OrderBy _ olderEvent) {id : UInt64}
    (hid : Fits id) :
    ∃ out, AlertStore.eventsForAlert order db id = .ok out ∧
      out.Pairwise (fun e e' => e.timestampMs.toInt64 ≤ e'.timestampMs.toInt64) ∧
      (out.map Event.id).Nodup ∧
      (∀ e' ∈ out, ∃ e a, r.event e'.id = some e ∧ e.Same e' ∧ r.alert id = some a ∧
        e'.id ∈ a.sourceEvents) ∧
      ∀ a, r.alert id = some a → ∀ eid ∈ a.sourceEvents, ∀ e, r.event eid = some e →
        ∃ e' ∈ out, e.Same e' := by
  let rows := db.events.entries.filter fun row =>
    decide ((id.toInt64, row.1) ∈ db.alertSourceEvents)
  have hperm := order.perm rows
  have hdecode : ∀ row ∈ order.sort rows, ∃ e', rowToEvent row.1 row.2 = .ok e' ∧
      (row ∈ rows ∧ row.2.timestampMs = e'.timestampMs.toInt64 ∧ row.1.toUInt64 = e'.id ∧
        ∃ e, r.event row.1.toUInt64 = some e ∧ e.Same e') := by
    intro row hrow
    have hmem := hperm.mem_iff.mp hrow
    obtain ⟨e, e', he, hvalue, hread, hsame⟩ := h.decodes_event (List.mem_filter.mp hmem).1
    refine ⟨e', hread, hmem, ?_, ?_, e, he, hsame⟩
    · rw [hvalue, hsame.timestampMs]
      rfl
    · rw [hsame.id, h.eventId _ e he]
  obtain ⟨out, hout, hdecoded⟩ := exists_mapM hdecode
  refine ⟨out, ?_, ?_, ?_, fun e' he' => ?_, fun a ha eid heid e he => ?_⟩
  · rw [AlertStore.eventsForAlert, eventIdToI64_of_fits hid]
    exact hout
  · refine pairwise_of_forall₂ hdecoded (fun row row' e e' hrow hrow' hle => ?_)
      (order.pairwise rows)
    rw [← hrow.2.1, ← hrow'.2.1]
    exact hle
  · have hkeys : rows.Pairwise fun row row' => row.1 ≠ row'.1 := by
      have hnodup := List.pairwise_map.mp db.events.nodupKeys
      exact hnodup.sublist List.filter_sublist
    have hsorted : (order.sort rows).Pairwise fun row row' => row.1 ≠ row'.1 :=
      hperm.symm.pairwise hkeys fun hne => hne.symm
    refine List.pairwise_map.mpr (pairwise_of_forall₂ hdecoded
      (fun row row' e e' hrow hrow' hne heq => hne ?_) hsorted)
    have hsame := hrow.2.2.1.trans (heq.trans hrow'.2.2.1.symm)
    exact congrArg UInt64.toInt64 hsame
  · obtain ⟨row, hrow, hmem, -, hkey, e, he, hsame⟩ := exists_of_mem_right hdecoded he'
    have hjoin := of_decide_eq_true (List.mem_filter.mp hmem).2
    obtain ⟨a, ha, hsource⟩ := (h.join id row.1.toUInt64).mp hjoin
    rw [hkey] at he hsource
    exact ⟨e, a, he, hsame, ha, hsource⟩
  · have hlookup := (h.event eid).trans (congrArg _ he)
    have hmem : (⟨eid.toInt64, e.row⟩ : Σ _ : Int64, EventRow) ∈ rows :=
      List.mem_filter.mpr ⟨AList.mem_lookup_iff.mp hlookup,
        decide_eq_true ((h.join id eid).mpr ⟨a, ha, heid⟩)⟩
    obtain ⟨e', he', -, -, -, e₂, he₂, hsame⟩ :=
      exists_of_mem_left hdecoded (hperm.mem_iff.mpr hmem)
    obtain rfl : e = e₂ := Option.some.inj (he.symm.trans he₂)
    exact ⟨e', he', hsame⟩

/-- The alerts that are listed are the last ones of their ids, each once, at or above the floor, the
newest first; one that is not listed is as old as any of them, and they are as many as were asked
for. -/
theorem listAlertsAtLeast (h : Refines r db) (order : OrderBy _ newerAlert)
    (floor : Response.Severity) {limit : Int64} (hlimit : 0 ≤ limit) :
    ∃ out, AlertStore.listAlertsAtLeast order db floor limit = .ok out ∧
      out.length ≤ limit.toNatClampNeg ∧
      out.Pairwise (fun a a' => a'.timestampMs.toInt64 ≤ a.timestampMs.toInt64) ∧
      (out.map Alert.id).Nodup ∧
      (∀ a' ∈ out, ∃ a, r.alert a'.id = some a ∧ a.Same a' ∧ floor.rank ≤ a.severity.rank) ∧
      ∀ id a, r.alert id = some a → floor.rank ≤ a.severity.rank →
        (∃ a' ∈ out, a.Same a') ∨ out.length = limit.toNatClampNeg ∧
          ∀ a' ∈ out, a.timestampMs.toInt64 ≤ a'.timestampMs.toInt64 := by
  let rows := db.alerts.entries.filter fun row => decide (severityToI16 floor ≤ row.2.severity)
  have hperm := order.perm rows
  let page := (order.sort rows).take limit.toNatClampNeg
  have hpage : page.Sublist (order.sort rows) := List.take_sublist _ _
  have hdecode : ∀ row ∈ page, ∃ a', rowToAlert row.1 row.2 = .ok a' ∧
      (row.2.timestampMs = a'.timestampMs.toInt64 ∧ row.1.toUInt64 = a'.id ∧
        ∃ a, r.alert row.1.toUInt64 = some a ∧ a.Same a' ∧ floor.rank ≤ a.severity.rank) := by
    intro row hrow
    obtain ⟨hmem, hfloor⟩ := List.mem_filter.mp (hperm.mem_iff.mp (hpage.subset hrow))
    obtain ⟨a, a', ha, hvalue, hread, hsame⟩ := h.decodes_alert hmem
    refine ⟨a', hread, ?_, ?_, a, ha, hsame, ?_⟩
    · rw [hvalue, hsame.timestampMs]
      rfl
    · rw [hsame.id, h.alertId _ a ha]
    · rw [hvalue] at hfloor
      exact (severityToI16_le_iff _ _).mp (of_decide_eq_true hfloor)
  obtain ⟨out, hout, hdecoded⟩ := exists_mapM hdecode
  have hlength : out.length = page.length := hdecoded.length_eq.symm
  refine ⟨out, ?_, ?_, ?_, ?_, fun a' ha' => ?_, fun id a ha hfloor => ?_⟩
  · rw [AlertStore.listAlertsAtLeast, limited, if_neg (Int64.not_lt.mpr hlimit)]
    exact hout
  · exact hlength.trans_le (List.length_take_le _ _)
  · refine pairwise_of_forall₂ hdecoded (fun row row' a a' hrow hrow' hle => ?_)
      ((order.pairwise rows).sublist hpage)
    rw [← hrow.1, ← hrow'.1]
    exact hle
  · have hkeys : rows.Pairwise fun row row' => row.1 ≠ row'.1 :=
      (List.pairwise_map.mp db.alerts.nodupKeys).sublist List.filter_sublist
    have hsorted : page.Pairwise fun row row' => row.1 ≠ row'.1 :=
      (hperm.symm.pairwise hkeys fun hne => hne.symm).sublist hpage
    refine List.pairwise_map.mpr (pairwise_of_forall₂ hdecoded
      (fun row row' a a' hrow hrow' hne heq => hne ?_) hsorted)
    have hsame := hrow.2.1.trans (heq.trans hrow'.2.1.symm)
    exact congrArg UInt64.toInt64 hsame
  · obtain ⟨row, -, -, hkey, a, ha, hsame, hfloor⟩ := exists_of_mem_right hdecoded ha'
    rw [hkey] at ha
    exact ⟨a, ha, hsame, hfloor⟩
  · have hlookup := (h.alert id).trans (congrArg _ ha)
    have hrow : (⟨id.toInt64, a.row⟩ : Σ _ : Int64, AlertRow) ∈ order.sort rows :=
      hperm.mem_iff.mpr (List.mem_filter.mpr ⟨AList.mem_lookup_iff.mp hlookup,
        decide_eq_true ((severityToI16_le_iff _ _).mpr hfloor)⟩)
    by_cases hin : (⟨id.toInt64, a.row⟩ : Σ _ : Int64, AlertRow) ∈ page
    · obtain ⟨a', ha', -, -, a₂, ha₂, hsame, -⟩ := exists_of_mem_left hdecoded hin
      obtain rfl : a = a₂ := Option.some.inj (ha.symm.trans ha₂)
      exact .inl ⟨a', ha', hsame⟩
    · have hsplit := List.take_append_drop limit.toNatClampNeg (order.sort rows)
      have hrest : (⟨id.toInt64, a.row⟩ : Σ _ : Int64, AlertRow) ∈
          (order.sort rows).drop limit.toNatClampNeg := by
        rw [← hsplit] at hrow
        exact (List.mem_append.mp hrow).resolve_left hin
      refine .inr ⟨?_, fun a' ha' => ?_⟩
      · have hlong : limit.toNatClampNeg < (order.sort rows).length := by
          have := List.length_pos_of_mem hrest
          rw [List.length_drop] at this
          omega
        exact hlength.trans (List.length_take_of_le hlong.le)
      · obtain ⟨row, hfirst, htime, -⟩ := exists_of_mem_right hdecoded ha'
        have hpairs := order.pairwise rows
        rw [← hsplit] at hpairs
        rw [← htime]
        exact (List.pairwise_append.mp hpairs).2.2 row hfirst _ hrest

/-- The latest alerts are those of any severity. -/
theorem listRecentAlerts_eq (h : Refines r db) (order : OrderBy _ newerAlert) (limit : Int64) :
    listRecentAlerts order db limit = AlertStore.listAlertsAtLeast order db .info limit := by
  have hall : db.alerts.entries.filter
      (fun row => decide (severityToI16 .info ≤ row.2.severity)) = db.alerts.entries := by
    refine List.filter_eq_self.mpr fun row hrow => ?_
    obtain ⟨a, -, -, hvalue, -⟩ := h.decodes_alert hrow
    rw [hvalue]
    exact decide_eq_true ((severityToI16_le_iff _ _).mpr (Nat.zero_le _))
  rw [listRecentAlerts, AlertStore.listAlertsAtLeast, hall]

end Refines

/-! ### Whole runs -/

/-- Whatever the server did with the writes, an event and an alert that are asked for are the last
ones of their ids whose writes took effect, and the events of an alert are the last ones of the ids
that this alert names. -/
theorem store_holds_records (ws : List Write) (order : OrderBy _ olderEvent) {id : UInt64}
    (hid : Fits id) :
    (∃ res, getEvent (.after ws) id = .ok res ∧
      Option.Rel Event.Same ((Records.after ws).event id) res) ∧
    (∃ res, getAlert (.after ws) id = .ok res ∧
      Option.Rel Alert.Same ((Records.after ws).alert id) res) ∧
    ∃ out, eventsForAlert order (.after ws) id = .ok out ∧
      out.Pairwise (fun e e' => e.timestampMs.toInt64 ≤ e'.timestampMs.toInt64) ∧
      (out.map Event.id).Nodup ∧
      (∀ e' ∈ out, ∃ e a, (Records.after ws).event e'.id = some e ∧ e.Same e' ∧
        (Records.after ws).alert id = some a ∧ e'.id ∈ a.sourceEvents) ∧
      ∀ a, (Records.after ws).alert id = some a → ∀ eid ∈ a.sourceEvents, ∀ e,
        (Records.after ws).event eid = some e → ∃ e' ∈ out, e.Same e' :=
  have h := refines_after ws
  ⟨h.getEvent hid, h.getAlert hid, h.eventsForAlert order hid⟩

/-- An alert, and an event that it names. -/
private def loginEvent : Event :=
  ⟨5, 1000, "web1".toList, "agent".toList, .log "sshd".toList "Failed password".toList, ∅⟩

private def loginAlert : Alert :=
  ⟨9, 2000, "r1".toList, "Brute force".toList, .high, none, [5], ∅⟩

/-- The reply to the event is lost. -/
private def loginWrites : List Write :=
  [.event .lost loginEvent, .alert ⟨true, true, fun _ => true, .done⟩ loginAlert]

/-- Both are there. -/
theorem store_holds_login :
    (∃ res, getAlert (.after loginWrites) 9 = .ok res ∧
      Option.Rel Alert.Same (some loginAlert) res) ∧
    ∃ out, eventsForAlert oldestFirst (.after loginWrites) 9 = .ok out ∧
      ∃ e ∈ out, loginEvent.Same e := by
  obtain ⟨-, halert, out, hout, -, -, -, hevents⟩ :=
    store_holds_records loginWrites oldestFirst (show Fits 9 by decide)
  exact ⟨halert, out, hout, hevents loginAlert rfl 5 (.head _) loginEvent rfl⟩

/-- The alerts that are listed are the last ones of their ids, each once, at or above the floor, the
newest first; one that is left out is no newer than any of them, and they are as many as were asked
for. The latest alerts are those of any severity. -/
theorem store_lists_alerts (ws : List Write) (order : OrderBy _ newerAlert)
    (floor : Response.Severity) {limit : Int64} (hlimit : 0 ≤ limit) :
    listRecentAlerts order (.after ws) limit = listAlertsAtLeast order (.after ws) .info limit ∧
    ∃ out, listAlertsAtLeast order (.after ws) floor limit = .ok out ∧
      out.length ≤ limit.toNatClampNeg ∧
      out.Pairwise (fun a a' => a'.timestampMs.toInt64 ≤ a.timestampMs.toInt64) ∧
      (out.map Alert.id).Nodup ∧
      (∀ a' ∈ out, ∃ a, (Records.after ws).alert a'.id = some a ∧ a.Same a' ∧
        floor.rank ≤ a.severity.rank) ∧
      ∀ id a, (Records.after ws).alert id = some a → floor.rank ≤ a.severity.rank →
        (∃ a' ∈ out, a.Same a') ∨ out.length = limit.toNatClampNeg ∧
          ∀ a' ∈ out, a.timestampMs.toInt64 ≤ a'.timestampMs.toInt64 :=
  have h := refines_after ws
  ⟨h.listRecentAlerts_eq order limit, h.listAlertsAtLeast order floor hlimit⟩

/-- The alert of that login is the latest. -/
theorem store_lists_login :
    ∃ out, listAlertsAtLeast newestFirst (.after loginWrites) .high 1 = .ok out ∧
      ((∃ a ∈ out, loginAlert.Same a) ∨ out.length = 1 ∧
        ∀ a ∈ out, (2000 : Int64) ≤ a.timestampMs.toInt64) := by
  obtain ⟨-, out, hout, -, -, -, -, hall⟩ :=
    store_lists_alerts loginWrites newestFirst .high (show (0 : Int64) ≤ 1 by decide)
  exact ⟨out, hout, hall 9 loginAlert rfl (by decide)⟩

/-- The alert that a write is of. -/
def Write.alertId : Write → Option UInt64
  | event _ _ => none
  | alert _ a => some a.id

/-- An alert stays where no later write is of its id. -/
theorem alert_foldl {id : UInt64} (ws : List Write) (h : ∀ w ∈ ws, w.alertId ≠ some id)
    (r : Records) :
    (ws.foldl (fun r w => if w.takes = true then r.put w else r) r).alert id = r.alert id := by
  induction ws generalizing r with
  | nil => rfl
  | cons w ws ih =>
    rw [List.foldl_cons, ih fun w' hw' => h w' (List.mem_cons_of_mem _ hw')]
    split
    · cases w with
      | event reply e => rfl
      | alert answers a =>
        have hne : id ≠ a.id := fun heq => h _ (.head _) (congrArg some heq.symm)
        exact Function.update_of_ne hne _ _
    · rfl

/-- An alert whose write was reported done is answered, with the events that it names, as long as
no other alert of its id is written. -/
theorem acknowledged_alert_kept (ws ws' : List Write) (answers : Answers) (a : Alert)
    {db : Database} (hok : insertAlert answers a (.after ws) = .ok ⟨⟩ db)
    (hlast : ∀ w ∈ ws', w.alertId ≠ some a.id) (order : OrderBy _ olderEvent) :
    (∃ a', getAlert (.after (ws ++ .alert answers a :: ws')) a.id = .ok (some a') ∧
      a.Same a') ∧
    ∃ out, eventsForAlert order (.after (ws ++ .alert answers a :: ws')) a.id = .ok out ∧
      ∀ eid, (∃ e ∈ out, e.id = eid) ↔ eid ∈ a.sourceEvents ∧
        ((Records.after (ws ++ .alert answers a :: ws')).event eid).isSome = true := by
  have htakes : (Write.alert answers a).takes = true := takes_of_ok hok
  have hid : Fits a.id := by
    simp only [Write.takes, Bool.and_eq_true, decide_eq_true_eq] at htakes
    exact htakes.1.1.1.1.1
  have hlookup : (Records.after (ws ++ .alert answers a :: ws')).alert a.id = some a := by
    rw [Records.after, List.foldl_append, List.foldl_cons, alert_foldl ws' hlast, if_pos htakes]
    exact Function.update_self ..
  have h := refines_after (ws ++ .alert answers a :: ws')
  constructor
  · obtain ⟨res, hres, hrel⟩ := h.getAlert hid
    rw [hlookup] at hrel
    cases hrel with
    | some hsame => exact ⟨_, hres, hsame⟩
  · obtain ⟨out, hout, -, -, hsound, hcomplete⟩ := h.eventsForAlert order hid
    refine ⟨out, hout, fun eid => ⟨?_, ?_⟩⟩
    · rintro ⟨e', he', rfl⟩
      obtain ⟨e, a', he, -, ha', hsource⟩ := hsound e' he'
      obtain rfl := Option.some.inj (ha'.symm.trans hlookup)
      exact ⟨hsource, Option.isSome_iff_exists.mpr ⟨e, he⟩⟩
    · rintro ⟨hsource, hsome⟩
      obtain ⟨e, he⟩ := Option.isSome_iff_exists.mp hsome
      obtain ⟨e', he', hsame⟩ := hcomplete a hlookup eid hsource e he
      exact ⟨e', he', hsame.id.trans (h.eventId eid e he)⟩

/-- The alert of that login, after a write of another that the server refuses. -/
theorem acknowledged_login_kept : ∃ a',
    getAlert (.after ([.event .lost loginEvent] ++
      .alert ⟨true, true, fun _ => true, .done⟩ loginAlert ::
        [.alert ⟨true, false, fun _ => true, .done⟩ { loginAlert with id := 10 }])) 9 =
      .ok (some a') ∧ loginAlert.Same a' :=
  (acknowledged_alert_kept [.event .lost loginEvent]
    [.alert ⟨true, false, fun _ => true, .done⟩ { loginAlert with id := 10 }]
    ⟨true, true, fun _ => true, .done⟩ loginAlert rfl (by decide) oldestFirst).1

end AlertStore

end ActiveDefense.Siem
