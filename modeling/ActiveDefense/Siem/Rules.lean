import ActiveDefense.Lib.Machine
import ActiveDefense.Lib.SlidingWindow
import ActiveDefense.Siem.Response
import Mathlib.Data.List.ReduceOption

/-!
# The correlation rules

`RuleEngine::process` puts each event to the rules in turn. A `Threshold` rule counts the events
that match it by the value of a field, in a window of time, and raises an alert when there are
enough; the times of the hits stand in one table for all rules, by the rule's id and the value. A
rule changes the entry of its own id and the event's value only (`bucket_processRule`), so the turn
of a rule that shares its entry with no other one finds what its own turns left
(`outcomes_of_some`).
-/

namespace ActiveDefense.Siem.Rules

/-! ## Events and rules -/

/-- What the rules read of an `EventKind`. -/
inductive EventKind where
  | log (source message : Str)
  | flow (srcIp dstIp : Str) (dstPort : UInt16)
  | fileIntegrity (path change : Str)

/-- What the rules read of an `Event`. -/
structure Event where
  id : UInt64
  timestampMs : Nat
  kind : EventKind
  fields : Table Str Str

/-- `siem_core::Alert`. -/
structure Alert where
  id : UInt64
  timestampMs : Nat
  ruleId : Str
  title : Str
  severity : Response.Severity
  mitreTechnique : Option Str
  sourceEvents : List UInt64
  context : Table Str Str

/-- What the crate `regex` makes of a pattern: an error, or the values that match it. -/
abbrev RegexCrate := Str → Option (Str → Bool)

inductive FieldMatch where
  | equals (v : Str)
  | contains (v : Str)
  | regex (pat : Str)

/-- `FieldMatch::is_match`. -/
def FieldMatch.isMatch (regexNew : RegexCrate) (value : Str) : FieldMatch → Bool
  | equals v => decide (value = v)
  | contains v => decide (v <:+: value)
  | regex pat =>
    match regexNew pat with
    | some isMatch => isMatch value
    | none => false

/-- The fields of `RuleKind::Threshold`. -/
structure Threshold where
  field : Str
  pattern : FieldMatch
  groupBy : Str
  count : UInt32
  windowSecs : UInt64

/-- `RuleKind`; its first variant is `Match`. -/
inductive RuleKind where
  | matching (field : Str) (pattern : FieldMatch)
  | threshold (t : Threshold)

inductive SeverityDef where
  | info
  | low
  | medium
  | high
  | critical

/-- `Severity::from`. -/
def SeverityDef.toSeverity : SeverityDef → Response.Severity
  | info => .info
  | low => .low
  | medium => .medium
  | high => .high
  | critical => .critical

structure RuleDef where
  id : Str
  title : Str
  severity : SeverityDef
  mitreTechnique : Option Str
  kind : RuleKind

/-! ## The engine -/

/-- `RuleEngine`. A `WindowState` is its hits. -/
structure RuleEngine where
  rules : List RuleDef
  windows : Table (Str × Str) (List Nat)
  nextAlertId : UInt64

/-- `RuleEngine::resolve`. -/
def resolve (event : Event) (field : Str) : Option Str :=
  match event.fields.lookup field with
  | some v => some v
  | none =>
    match event.kind with
    | .log source message =>
      if field = "source".toList then some source
      else if field = "message".toList then some message
      else none
    | .flow srcIp dstIp dstPort =>
      if field = "src_ip".toList then some srcIp
      else if field = "dst_ip".toList then some dstIp
      else if field = "dst_port".toList then some (decimal dstPort.toNat)
      else none
    | .fileIntegrity path change =>
      if field = "path".toList then some path
      else if field = "change".toList then some change
      else none

/-- `Duration::from_secs(window_secs).as_millis() as u64`. -/
def Threshold.windowMs (t : Threshold) : Nat := t.windowSecs.toNat * 1000 % 2 ^ 64

namespace RuleEngine

/-- `RuleEngine::new`. -/
def new (rules : List RuleDef) : RuleEngine where
  rules := rules
  windows := ∅
  nextAlertId := 1

/-- `RuleEngine::build_alert`. -/
def buildAlert (rule : RuleDef) (event : Event) (context : Table Str Str) (e : RuleEngine) :
    Alert × RuleEngine :=
  ({  id := e.nextAlertId
      timestampMs := event.timestampMs
      ruleId := rule.id
      title := rule.title
      severity := rule.severity.toSeverity
      mitreTechnique := rule.mitreTechnique
      sourceEvents := [event.id]
      context := context },
    { e with nextAlertId := e.nextAlertId + 1 })

/-- A turn of the loop of `process`. -/
def processRule (regexNew : RegexCrate) (event : Event) :
    Machine RuleEngine RuleDef (Option Alert) :=
  fun e rule =>
    match rule.kind with
    | .matching field pattern =>
      match resolve event field with
      | none => (none, e)
      | some v =>
        if pattern.isMatch regexNew v then
          let (alert, e) := e.buildAlert rule event ∅
          (some alert, e)
        else (none, e)
    | .threshold t =>
      match resolve event t.field with
      | none => (none, e)
      | some v =>
        if !t.pattern.isMatch regexNew v then (none, e)
        else
          match resolve event t.groupBy with
          | none => (none, e)
          | some groupVal =>
            let key := (rule.id, groupVal)
            let cutoff := event.timestampMs - t.windowMs
            let hits := (e.windows.bucket key ++ [event.timestampMs]).dropWhile fun front =>
              decide (front < cutoff)
            let hitCount := UInt32.ofNat hits.length
            if t.count ≤ hitCount then
              let context := AList.insert t.groupBy groupVal (∅ : Table Str Str)
              let (alert, e) := { e with windows := e.windows.insert key [] }.buildAlert rule event
                (context.insert "hit_count".toList (decimal hitCount.toNat))
              (some alert, e)
            else (none, { e with windows := e.windows.insert key hits })

/-- What the rules make of an event, one by one. -/
def outcomes (regexNew : RegexCrate) (e : RuleEngine) (event : Event) :
    List (Option Alert) × RuleEngine :=
  Machine.run (processRule regexNew event) e e.rules

/-- `RuleEngine::process`. -/
def process (regexNew : RegexCrate) : Machine RuleEngine Event (List Alert) := fun e event =>
  let (alerts, e) := e.outcomes regexNew event
  (alerts.reduceOption, e)

end RuleEngine

/-! ## One rule -/

/-- The value that a `Threshold` rule counts an event by, if it counts it. -/
def Threshold.groupOf (regexNew : RegexCrate) (event : Event) (t : Threshold) : Option Str :=
  match resolve event t.field with
  | none => none
  | some v => if t.pattern.isMatch regexNew v then resolve event t.groupBy else none

/-- The value that a rule counts an event by. -/
def RuleDef.groupOf (regexNew : RegexCrate) (event : Event) (rule : RuleDef) : Option Str :=
  match rule.kind with
  | .matching _ _ => none
  | .threshold t => t.groupOf regexNew event

/-- The hits that are left of a window when there is one more. -/
def Threshold.left (t : Threshold) (hits : List Nat) (now : Nat) : List Nat :=
  (hits ++ [now]).dropWhile fun front => decide (front < now - t.windowMs)

theorem RuleDef.groupOf_threshold {regexNew : RegexCrate} {event : Event} {rule : RuleDef}
    {t : Threshold} (h : rule.kind = .threshold t) :
    rule.groupOf regexNew event = t.groupOf regexNew event := by
  rw [groupOf, h]

/-- The hits that are left are enough. -/
def Threshold.Enough (t : Threshold) (left : List Nat) : Prop := t.count ≤ UInt32.ofNat left.length

instance {t : Threshold} {left : List Nat} : Decidable (t.Enough left) :=
  inferInstanceAs (Decidable (_ ≤ _))

/-- The rules before and after one at a place. -/
theorem exists_before_after {rule : RuleDef} {i : Nat} {rules : List RuleDef}
    (h : rules[i]? = some rule) :
    ∃ before after, rules = before ++ rule :: after ∧ before.length = i := by
  obtain ⟨hi, rfl⟩ := List.getElem?_eq_some_iff.mp h
  refine ⟨rules.take i, rules.drop (i + 1), ?_, List.length_take_of_le (Nat.le_of_lt hi)⟩
  rw [← List.drop_eq_getElem_cons hi, List.take_append_drop]

namespace RuleEngine

variable {regexNew : RegexCrate} {event : Event} {e e' : RuleEngine} {rule : RuleDef}
  {t : Threshold} {g : Str}

/-- What a rule's turn comes to: it does not count the event, or it raises an alert and forgets its
hits, or it has not got enough. -/
inductive Turned (regexNew : RegexCrate) (event : Event) (e : RuleEngine) (rule : RuleDef) :
    Option Alert × RuleEngine → Prop
  | passed {alert : Option Alert} {e' : RuleEngine} (hgroup : rule.groupOf regexNew event = none)
      (hid : ∀ a, alert = some a → a.ruleId = rule.id)
      (hquiet : ∀ t, rule.kind = .threshold t → alert = none)
      (hwindows : e'.windows = e.windows) (hrules : e'.rules = e.rules) :
      Turned regexNew event e rule (alert, e')
  | raised {alert : Alert} {e' : RuleEngine} (t : Threshold) (g : Str)
      (hkind : rule.kind = .threshold t) (hgroup : t.groupOf regexNew event = some g)
      (henough : t.Enough (t.left (e.windows.bucket (rule.id, g)) event.timestampMs))
      (hid : alert.ruleId = rule.id) (hwindows : e'.windows = e.windows.insert (rule.id, g) [])
      (hrules : e'.rules = e.rules) : Turned regexNew event e rule (some alert, e')
  | counted {e' : RuleEngine} (t : Threshold) (g : Str) (hkind : rule.kind = .threshold t)
      (hgroup : t.groupOf regexNew event = some g)
      (hfew : ¬ t.Enough (t.left (e.windows.bucket (rule.id, g)) event.timestampMs))
      (hwindows : e'.windows = e.windows.insert (rule.id, g)
        (t.left (e.windows.bucket (rule.id, g)) event.timestampMs))
      (hrules : e'.rules = e.rules) : Turned regexNew event e rule (none, e')

theorem turned_processRule :
    Turned regexNew event e rule (processRule regexNew event e rule) := by
  unfold processRule
  cases hkind : rule.kind with
  | matching field pattern =>
    have hgroup : rule.groupOf regexNew event = none := by rw [RuleDef.groupOf, hkind]
    have hquiet : ∀ t, rule.kind ≠ .threshold t := by rw [hkind]; exact nofun
    dsimp only
    split
    · exact .passed hgroup nofun (fun _ _ => rfl) rfl rfl
    · split
      · refine .passed hgroup (fun a ha => ?_) (fun t ht => absurd ht (hquiet t)) rfl rfl
        cases ha
        rfl
      · exact .passed hgroup nofun (fun _ _ => rfl) rfl rfl
  | threshold t =>
    have hsame : rule.groupOf regexNew event = t.groupOf regexNew event :=
      RuleDef.groupOf_threshold hkind
    have hnone (h : t.groupOf regexNew event = none) : Turned regexNew event e rule (none, e) :=
      .passed (hsame.trans h) nofun (fun _ _ => rfl) rfl rfl
    dsimp only
    cases hv : resolve event t.field with
    | none => exact hnone (by rw [Threshold.groupOf, hv])
    | some v =>
      dsimp only
      cases hmatch : t.pattern.isMatch regexNew v with
      | false => exact hnone (by simp [Threshold.groupOf, hv, hmatch])
      | true =>
        have hgroup : t.groupOf regexNew event = resolve event t.groupBy := by
          simp [Threshold.groupOf, hv, hmatch]
        simp only [Bool.not_true, Bool.false_eq_true, if_false]
        cases hg : resolve event t.groupBy with
        | none => exact hnone (hgroup.trans hg)
        | some g =>
          dsimp only
          split
          · next henough => exact .raised t g hkind (hgroup.trans hg) henough rfl rfl rfl
          · next hfew => exact .counted t g hkind (hgroup.trans hg) hfew rfl rfl

/-- An alert has the id of the rule that raised it. -/
theorem ruleId_of_processRule {alert : Alert}
    (h : (processRule regexNew event e rule).1 = some alert) : alert.ruleId = rule.id := by
  have hturned : Turned regexNew event e rule (processRule regexNew event e rule) :=
    turned_processRule
  generalize processRule regexNew event e rule = result at h hturned
  cases hturned with
  | passed _ hid => exact hid alert h
  | raised _ _ _ _ _ hid =>
    cases h
    exact hid
  | counted => cases h

theorem rules_processRule : (processRule regexNew event e rule).2.rules = e.rules := by
  have hturned : Turned regexNew event e rule (processRule regexNew event e rule) :=
    turned_processRule
  generalize processRule regexNew event e rule = result at hturned
  cases hturned with
  | passed _ _ _ _ hrules => exact hrules
  | raised _ _ _ _ _ _ _ hrules => exact hrules
  | counted _ _ _ _ _ _ hrules => exact hrules

/-- A rule changes the window of its own id and the event's value only. -/
theorem bucket_processRule {key : Str × Str}
    (h : rule.id = key.1 → rule.groupOf regexNew event ≠ some key.2) :
    (processRule regexNew event e rule).2.windows.bucket key = e.windows.bucket key := by
  have hturned : Turned regexNew event e rule (processRule regexNew event e rule) :=
    turned_processRule
  have hne : ∀ {t g}, rule.kind = .threshold t → t.groupOf regexNew event = some g →
      key ≠ (rule.id, g) := by
    rintro t g hkind hgroup rfl
    exact h rfl ((RuleDef.groupOf_threshold hkind).trans hgroup)
  generalize processRule regexNew event e rule = result at hturned
  cases hturned with
  | passed _ _ _ hwindows => rw [hwindows]
  | raised _ _ hkind hgroup _ _ hwindows =>
    rw [hwindows]
    exact Table.bucket_insert_ne (hne hkind hgroup)
  | counted _ _ hkind hgroup _ hwindows =>
    rw [hwindows]
    exact Table.bucket_insert_ne (hne hkind hgroup)

/-- A `Threshold` rule that does not count an event. -/
theorem processRule_of_none (hkind : rule.kind = .threshold t)
    (hgroup : rule.groupOf regexNew event = none) :
    (processRule regexNew event e rule).1 = none := by
  have hturned : Turned regexNew event e rule (processRule regexNew event e rule) :=
    turned_processRule
  generalize processRule regexNew event e rule = result at hturned
  cases hturned with
  | passed _ _ hquiet => exact hquiet t hkind
  | raised t' g' hkind' hcounts =>
    rw [RuleDef.groupOf_threshold hkind', hcounts] at hgroup
    cases hgroup
  | counted => rfl

/-- A rule that counts an event. -/
theorem processRule_of_some (hkind : rule.kind = .threshold t)
    (hgroup : t.groupOf regexNew event = some g) {left : List Nat}
    (hleft : t.left (e.windows.bucket (rule.id, g)) event.timestampMs = left) :
    (processRule regexNew event e rule).1.isSome = decide (t.Enough left) ∧
      (processRule regexNew event e rule).2.windows.bucket (rule.id, g) =
        if t.Enough left then [] else left := by
  have hturned : Turned regexNew event e rule (processRule regexNew event e rule) :=
    turned_processRule
  generalize processRule regexNew event e rule = result at hturned
  cases hturned with
  | passed hnone =>
    rw [RuleDef.groupOf_threshold hkind, hgroup] at hnone
    cases hnone
  | raised t' g' hkind' hgroup' henough _ hwindows =>
    cases hkind.symm.trans hkind'
    cases hgroup.symm.trans hgroup'
    rw [hleft] at henough
    rw [hwindows, if_pos henough, decide_eq_true henough]
    exact ⟨rfl, Table.bucket_insert⟩
  | counted t' g' hkind' hgroup' hfew hwindows =>
    cases hkind.symm.trans hkind'
    cases hgroup.symm.trans hgroup'
    rw [hleft] at hfew hwindows
    rw [hwindows, if_neg hfew, decide_eq_false hfew]
    exact ⟨rfl, Table.bucket_insert⟩

/-! ## One event -/

theorem bucket_run (e : RuleEngine) (key : Str × Str) {rules : List RuleDef}
    (h : ∀ r ∈ rules, r.id = key.1 → r.groupOf regexNew event ≠ some key.2) :
    (Machine.run (processRule regexNew event) e rules).2.windows.bucket key =
      e.windows.bucket key :=
  Machine.run_invariant
    (I := fun e' : RuleEngine => e'.windows.bucket key = e.windows.bucket key) rfl
    fun r hr _ hsame => (bucket_processRule (h r hr)).trans hsame

theorem rules_process : (process regexNew e event).2.rules = e.rules :=
  Machine.run_invariant (I := fun e' : RuleEngine => e'.rules = e.rules) rfl
    fun _ _ _ hsame => rules_processRule.trans hsame

theorem mem_process {alert : Alert} :
    alert ∈ (process regexNew e event).1 ↔ some alert ∈ (e.outcomes regexNew event).1 :=
  List.reduceOption_mem_iff

/-- An event that no rule of an id counts by a value leaves their window. -/
theorem bucket_process {key : Str × Str}
    (h : ∀ r ∈ e.rules, r.id = key.1 → r.groupOf regexNew event ≠ some key.2) :
    (process regexNew e event).2.windows.bucket key = e.windows.bucket key := bucket_run e key h

/-- The outcome of a rule is that of its turn, after the rules before it. -/
theorem outcomes_getElem? (regexNew : RegexCrate) (event : Event) {before after : List RuleDef}
    (hrules : e.rules = before ++ rule :: after) :
    (e.outcomes regexNew event).1[before.length]? =
      some (processRule regexNew event (Machine.run (processRule regexNew event) e before).2 rule).1 ∧
    (e.outcomes regexNew event).2 = (Machine.run (processRule regexNew event)
      (processRule regexNew event (Machine.run (processRule regexNew event) e before).2 rule).2
      after).2 := by
  rw [outcomes, hrules, Machine.run_append]
  constructor
  · rw [← Machine.length_run (m := processRule regexNew event) (s := e), List.getElem?_append_right
      (Nat.le_refl _), Nat.sub_self]
    rfl
  · rfl

/-- An alert has the id of the rule at its place. -/
theorem ruleId_of_outcomes {i : Nat} {alert : Alert}
    (h : (e.outcomes regexNew event).1[i]? = some (some alert)) :
    ∃ r, e.rules[i]? = some r ∧ alert.ruleId = r.id := by
  have hi : i < e.rules.length := by
    rw [← Machine.length_run (m := processRule regexNew event) (s := e)]
    exact (List.getElem?_eq_some_iff.mp h).1
  obtain ⟨before, after, hrules, rfl⟩ := exists_before_after (List.getElem?_eq_getElem hi)
  rw [(outcomes_getElem? regexNew event hrules).1] at h
  exact ⟨_, List.getElem?_eq_getElem hi, ruleId_of_processRule (Option.some.inj h)⟩

/-- A rule that counts an event by a value that no other rule of its id counts it by. -/
theorem outcomes_of_some {before after : List RuleDef} (hrules : e.rules = before ++ rule :: after)
    (hothers : ∀ r ∈ before ++ after, r.id = rule.id → r.groupOf regexNew event ≠ some g)
    (hkind : rule.kind = .threshold t) (hgroup : t.groupOf regexNew event = some g)
    {left : List Nat} (hleft : t.left (e.windows.bucket (rule.id, g)) event.timestampMs = left) :
    (∃ outcome, (e.outcomes regexNew event).1[before.length]? = some outcome ∧
      outcome.isSome = decide (t.Enough left)) ∧
    (process regexNew e event).2.windows.bucket (rule.id, g) =
      if t.Enough left then [] else left := by
  obtain ⟨houtcome, hstate⟩ := outcomes_getElem? regexNew event hrules
  have hbefore := bucket_run e (rule.id, g) fun r hr => hothers r (List.mem_append_left _ hr)
  rw [← hbefore] at hleft
  obtain ⟨hsome, hbucket⟩ := processRule_of_some hkind hgroup hleft
  refine ⟨⟨_, houtcome, hsome⟩, ?_⟩
  change (e.outcomes regexNew event).2.windows.bucket (rule.id, g) = _
  rw [hstate, bucket_run _ _ fun r hr => hothers r (List.mem_append_right _ hr), hbucket]

end RuleEngine

end ActiveDefense.Siem.Rules
