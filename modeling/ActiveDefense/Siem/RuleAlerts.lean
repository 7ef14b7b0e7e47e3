import ActiveDefense.Siem.Rules

/-!
# What the alerts of a `Threshold` rule rest on

A rule that shares its windows with no other rule is a tally of the events that it counts by a value
(`bucket_engineAt`, `alertAt_isSome`). If they come in order, it raises an alert exactly when enough
of them are left in the window since the last one, whatever the other rules and values are
(`alertsExactly_of_sorted`). A late event is pushed behind later ones and keeps them in the window,
so that an alert can rest on events that are further apart; it does not where no hit leaves such
ones (`backed_of_near`).
-/

namespace ActiveDefense.Siem.Rules

variable (regexNew : RegexCrate) (rules : List RuleDef) (events : List Event)

/-- The engine when it comes to an event. -/
def engineAt (n : Nat) : RuleEngine :=
  Machine.stateAt (RuleEngine.process regexNew) (.new rules) events n

/-- The value that the rule counts an event by. -/
def groupAt (rule : RuleDef) (n : Nat) : Option Str :=
  events[n]?.bind fun event => rule.groupOf regexNew event

/-- When an event happened. -/
def timeAt (n : Nat) : Nat := (events[n]?.map Event.timestampMs).getD 0

/-- The alert that the rule at a place of the list raises at an event. -/
def alertAt (i n : Nat) : Option Alert :=
  events[n]?.bind fun event =>
    (((engineAt regexNew rules events n).outcomes regexNew event).1[i]?).join

/-- The rule counts an event by the value. -/
def hitAt (rule : RuleDef) (g : Str) (n : Nat) : Bool :=
  decide (groupAt regexNew events rule n = some g)

/-! ## A rule as a tally -/

section
variable {regexNew rules events} {rule : RuleDef} {t : Threshold} {g : Str} {n : Nat}

theorem exists_of_groupAt (h : groupAt regexNew events rule n = some g) :
    ∃ event, events[n]? = some event ∧ rule.groupOf regexNew event = some g :=
  Option.bind_eq_some_iff.mp h

theorem rules_engineAt : (engineAt regexNew rules events n).rules = rules :=
  Machine.run_invariant (I := fun e : RuleEngine => e.rules = rules) rfl
    fun _ _ _ hsame => RuleEngine.rules_process.trans hsame

theorem engineAt_succ {event : Event} (h : events[n]? = some event) :
    engineAt regexNew rules events (n + 1) =
      (RuleEngine.process regexNew (engineAt regexNew rules events n) event).2 :=
  Machine.stateAt_succ h

theorem left_map {hits : List Nat} :
    t.left (hits.map (timeAt events)) (timeAt events n) =
      (kept (timeAt events) t.windowMs hits n).map (timeAt events) := by
  rw [Threshold.left, kept, ← List.map_singleton, ← List.map_append, List.dropWhile_map]
  rfl

/-- A count of hits is no more than the count that the rule asks for, and fits a `u32`. -/
theorem enough_iff {left : List Nat} (h : left.length ≤ max 1 t.count.toNat) :
    t.Enough left ↔ t.count.toNat ≤ left.length := by
  have hlt := t.count.toNat_lt
  rw [Threshold.Enough, UInt32.le_iff_toNat_le, UInt32.toNat_ofNat', Nat.mod_eq_of_lt (by omega)]

theorem length_kept_le {hit : Nat → Bool} {time : Nat → Nat} {span count : Nat} :
    (kept time span (tallyAt hit time span count n) n).length ≤ max 1 count := by
  have hfew : (tallyAt hit time span count n).length < max 1 count := length_tallyAt_lt n
  have hdrop : (kept time span (tallyAt hit time span count n) n).length ≤
      (tallyAt hit time span count n ++ [n]).length := (List.dropWhile_sublist _).length_le
  rw [List.length_append, List.length_singleton] at hdrop
  omega

section
variable {before after : List RuleDef} (hrules : rules = before ++ rule :: after)
  (hothers : ∀ r ∈ before ++ after, r.id = rule.id →
    ∀ event ∈ events, r.groupOf regexNew event ≠ some g)
  (hkind : rule.kind = .threshold t)
include hrules hothers hkind

/-- One event, from a window that is the tally's. -/
theorem alertAt_and_bucket (hgroup : groupAt regexNew events rule n = some g)
    (hbucket : (engineAt regexNew rules events n).windows.bucket (rule.id, g) =
      (tallyAt (hitAt regexNew events rule g) (timeAt events) t.windowMs t.count.toNat n).map
        (timeAt events)) :
    (alertAt regexNew rules events before.length n).isSome =
      firesAt (hitAt regexNew events rule g) (timeAt events) t.windowMs t.count.toNat n ∧
    (engineAt regexNew rules events (n + 1)).windows.bucket (rule.id, g) =
      (tallyAt (hitAt regexNew events rule g) (timeAt events) t.windowMs t.count.toNat (n + 1)).map
        (timeAt events) := by
  obtain ⟨event, hevent, hcounts⟩ := exists_of_groupAt hgroup
  have htime : event.timestampMs = timeAt events n := by rw [timeAt, hevent]; rfl
  have hmem : event ∈ events := List.mem_of_getElem? hevent
  have hhit : hitAt regexNew events rule g n = true := decide_eq_true hgroup
  obtain ⟨⟨outcome, houtcome, hsome⟩, hnext⟩ := RuleEngine.outcomes_of_some
    (rules_engineAt.trans hrules) (fun r hr hid => hothers r hr hid event hmem) hkind
    ((RuleDef.groupOf_threshold hkind).symm.trans hcounts) (by rw [hbucket, htime, left_map])
  have henough := @enough_iff t ((kept (timeAt events) t.windowMs (tallyAt
    (hitAt regexNew events rule g) (timeAt events) t.windowMs t.count.toNat n) n).map
      (timeAt events)) (by rw [List.length_map]; exact length_kept_le)
  rw [List.length_map] at henough
  constructor
  · rw [alertAt, hevent, Option.bind_some, houtcome, firesAt, hhit, Bool.true_and]
    exact hsome.trans (decide_eq_decide.mpr henough)
  · rw [engineAt_succ hevent]
    refine hnext.trans ?_
    rw [tallyAt, if_pos hhit]
    by_cases hcount : t.count.toNat ≤ (kept (timeAt events) t.windowMs (tallyAt
        (hitAt regexNew events rule g) (timeAt events) t.windowMs t.count.toNat n) n).length
    · rw [if_pos (henough.mpr hcount), if_pos hcount, List.map_nil]
    · rw [if_neg (mt henough.mp hcount), if_neg hcount]

/-- The window of a rule and a value is that of the tally. -/
theorem bucket_engineAt (n : Nat) :
    (engineAt regexNew rules events n).windows.bucket (rule.id, g) =
      (tallyAt (hitAt regexNew events rule g) (timeAt events) t.windowMs t.count.toNat n).map
        (timeAt events) := by
  induction n with
  | zero =>
    rw [engineAt, Machine.stateAt_zero]
    rfl
  | succ n ih =>
    by_cases hgroup : groupAt regexNew events rule n = some g
    · exact (alertAt_and_bucket hrules hothers hkind hgroup ih).2
    · rw [tallyAt_succ_of_not_hit (decide_eq_false hgroup), ← ih]
      cases hevent : events[n]? with
      | none => rw [engineAt, Machine.stateAt_succ_of_none hevent, engineAt]
      | some event =>
        rw [engineAt_succ hevent]
        refine RuleEngine.bucket_process fun r hr hid hcounts => ?_
        rw [rules_engineAt, hrules] at hr
        rcases List.mem_append.mp hr with hr | hr
        · exact hothers r (List.mem_append_left _ hr) hid event (List.mem_of_getElem? hevent)
            hcounts
        · rcases List.mem_cons.mp hr with rfl | hr
          · exact hgroup (by rw [groupAt, hevent, Option.bind_some, hcounts])
          · exact hothers r (List.mem_append_right _ hr) hid event (List.mem_of_getElem? hevent)
              hcounts

/-- The rule raises an alert where the tally fires. -/
theorem alertAt_isSome (hgroup : groupAt regexNew events rule n = some g) :
    (alertAt regexNew rules events before.length n).isSome =
      firesAt (hitAt regexNew events rule g) (timeAt events) t.windowMs t.count.toNat n :=
  (alertAt_and_bucket hrules hothers hkind hgroup (bucket_engineAt hrules hothers hkind n)).1

omit hothers in
/-- It raises none for an event that it does not count. -/
theorem alertAt_of_none (hgroup : groupAt regexNew events rule n = none) :
    alertAt regexNew rules events before.length n = none := by
  cases hevent : events[n]? with
  | none => rw [alertAt, hevent, Option.bind_none]
  | some event =>
    rw [groupAt, hevent, Option.bind_some] at hgroup
    have hplace : (engineAt regexNew rules events n).rules = before ++ rule :: after :=
      rules_engineAt.trans hrules
    have houtcome := (RuleEngine.outcomes_getElem? regexNew event hplace).1
    rw [alertAt, hevent, Option.bind_some, houtcome, Option.join_some]
    exact RuleEngine.processRule_of_none hkind hgroup

omit hothers in
theorem exists_groupAt_of_alert (h : (alertAt regexNew rules events before.length n).isSome) :
    ∃ g, groupAt regexNew events rule n = some g := by
  cases hgroup : groupAt regexNew events rule n with
  | none =>
    rw [alertAt_of_none hrules hkind hgroup] at h
    cases h
  | some g => exact ⟨g, rfl⟩

end

end

/-! ## Alerts in any order -/

/-- No two rules of one id count events by the same value. -/
def Apart : Prop :=
  rules.Pairwise fun r r' => r.id = r'.id → ∀ event ∈ events, ∀ event' ∈ events, ∀ g,
    r.groupOf regexNew event = some g → r'.groupOf regexNew event' ≠ some g

/-- The hits that an event leaves in a window are at most the width of the window before or after
the event. -/
def Near : Prop :=
  ∀ rule ∈ rules, ∀ t g n, rule.kind = .threshold t → groupAt regexNew events rule n = some g →
    ∀ time ∈ t.left ((engineAt regexNew rules events n).windows.bucket (rule.id, g))
      (timeAt events n),
      time ≤ timeAt events n + t.windowSecs.toNat * 1000 ∧
        timeAt events n ≤ time + t.windowSecs.toNat * 1000

/-- Each alert of a rule rests on a set of events: as many as the rule asks for, counted by the same
value, near each other, and none of them for another alert on that value. -/
structure Backing (i : Nat) (rule : RuleDef) (t : Threshold) (backing : Nat → Finset Nat) :
    Prop where
  enough : ∀ n, (alertAt regexNew rules events i n).isSome → t.count.toNat ≤ (backing n).card
  counted : ∀ n, (alertAt regexNew rules events i n).isSome →
    ∃ g, groupAt regexNew events rule n = some g ∧
      ∀ j ∈ backing n, j ≤ n ∧ groupAt regexNew events rule j = some g
  near : ∀ n, (alertAt regexNew rules events i n).isSome → ∀ j ∈ backing n, ∀ k ∈ backing n,
    timeAt events j ≤ timeAt events k + t.windowSecs.toNat * 1000
  apart : ∀ n n', (alertAt regexNew rules events i n).isSome →
    (alertAt regexNew rules events i n').isSome → n ≠ n' →
    groupAt regexNew events rule n = groupAt regexNew events rule n' →
    Disjoint (backing n) (backing n')

/-- The alerts of every `Threshold` rule rest on events. -/
def Backed : Prop :=
  ∀ i rule t, rules[i]? = some rule → rule.kind = .threshold t →
    ∃ backing, Backing regexNew rules events i rule t backing

section
variable {regexNew rules events} {rule : RuleDef} {t : Threshold} {g : Str} {n : Nat}

/-- No other rule of the id counts events by a value that the rule counts one by. -/
theorem Apart.others {before after : List RuleDef}
    (h : Apart regexNew (before ++ rule :: after) events)
    (hgroup : groupAt regexNew events rule n = some g) :
    ∀ r ∈ before ++ after, r.id = rule.id →
      ∀ event ∈ events, r.groupOf regexNew event ≠ some g := by
  obtain ⟨counted, hcounted, hcounts⟩ := exists_of_groupAt hgroup
  have hmem : counted ∈ events := List.mem_of_getElem? hcounted
  obtain ⟨-, hafter, hbefore⟩ := List.pairwise_append.mp h
  intro r hr hid event hevent hother
  rcases List.mem_append.mp hr with hr | hr
  · exact hbefore r hr rule (.head _) hid event hevent counted hmem g hother hcounts
  · exact (List.pairwise_cons.mp hafter).1 r hr hid.symm counted hmem event hevent g hcounts hother

/-- The events that an alert rests on are what is left in its window. -/
theorem backed_of_near (hapart : Apart regexNew rules events) (hnear : Near regexNew rules events) :
    Backed regexNew rules events := by
  intro i rule t hrule hkind
  obtain ⟨before, after, hrules, rfl⟩ := exists_before_after hrule
  have hothers {g n} (hgroup : groupAt regexNew events rule n = some g) :=
    Apart.others (hrules ▸ hapart) hgroup
  have hfires {g n} (hgroup : groupAt regexNew events rule n = some g) :=
    alertAt_isSome hrules (hothers hgroup) hkind hgroup
  let left (g : Str) (n : Nat) : List Nat :=
    kept (timeAt events) t.windowMs
      (tallyAt (hitAt regexNew events rule g) (timeAt events) t.windowMs t.count.toNat n) n
  have hwidth {g n} (hgroup : groupAt regexNew events rule n = some g) (m : Nat)
      (hhit : hitAt regexNew events rule g m = true) (j : Nat) (hj : j ∈ left g m) :
      timeAt events j ≤ timeAt events m + t.windowSecs.toNat * 1000 ∧
        timeAt events m ≤ timeAt events j + t.windowSecs.toNat * 1000 := by
    refine hnear rule (List.mem_of_getElem? hrule) t g m hkind (of_decide_eq_true hhit) _ ?_
    rw [bucket_engineAt hrules (hothers hgroup) hkind, left_map]
    exact List.mem_map_of_mem hj
  have hcounted {n} (halert : (alertAt regexNew rules events before.length n).isSome) :=
    exists_groupAt_of_alert hrules hkind halert
  refine ⟨fun n => (groupAt regexNew events rule n).elim ∅ fun g => (left g n).toFinset, ?_⟩
  constructor
  · intro n halert
    obtain ⟨g, hgroup⟩ := hcounted halert
    rw [hfires hgroup] at halert
    rw [hgroup, Option.elim_some, List.toFinset_card_of_nodup (nodup_kept n)]
    exact of_decide_eq_true (Bool.and_eq_true_iff.mp halert).2
  · intro n halert
    obtain ⟨g, hgroup⟩ := hcounted halert
    refine ⟨g, hgroup, fun j hj => ?_⟩
    rw [hgroup, Option.elim_some, List.mem_toFinset] at hj
    exact ⟨le_of_mem_kept hj, of_decide_eq_true (hit_of_mem_kept (decide_eq_true hgroup) hj)⟩
  · intro n halert j hj k hk
    obtain ⟨g, hgroup⟩ := hcounted halert
    rw [hgroup, Option.elim_some, List.mem_toFinset] at hj hk
    exact near_of_mem_kept (hwidth hgroup) (decide_eq_true hgroup) hj hk
  · intro n n' halert halert' hne hsame
    obtain ⟨g, hgroup⟩ := hcounted halert
    have hgroup' : groupAt regexNew events rule n' = some g := hsame.symm.trans hgroup
    rw [hfires hgroup] at halert
    rw [hfires hgroup'] at halert'
    rw [hgroup, hgroup', Option.elim_some, Option.elim_some, List.disjoint_toFinset_iff_disjoint]
    intro j hj hj'
    rcases Nat.lt_or_gt_of_ne hne with hlt | hlt
    · exact absurd (lt_of_mem_kept halert hlt hj') (Nat.not_lt_of_le (le_of_mem_kept hj))
    · exact absurd (lt_of_mem_kept halert' hlt hj) (Nat.not_lt_of_le (le_of_mem_kept hj'))

theorem timeAt_mono (hsorted : events.Pairwise fun a b => a.timestampMs ≤ b.timestampMs) (j k : Nat)
    (hle : j ≤ k) (hj : hitAt regexNew events rule g j = true)
    (hk : hitAt regexNew events rule g k = true) : timeAt events j ≤ timeAt events k := by
  obtain ⟨event, hevent, -⟩ := exists_of_groupAt (of_decide_eq_true hj)
  obtain ⟨event', hevent', -⟩ := exists_of_groupAt (of_decide_eq_true hk)
  obtain ⟨hj', rfl⟩ := List.getElem?_eq_some_iff.mp hevent
  obtain ⟨hk', rfl⟩ := List.getElem?_eq_some_iff.mp hevent'
  rw [timeAt, timeAt, hevent, hevent']
  rcases Nat.lt_or_eq_of_le hle with hlt | rfl
  · exact List.pairwise_iff_getElem.mp hsorted j k hj' hk' hlt
  · exact Nat.le_refl _

/-- Events that come in order leave no hits that are far from them. -/
theorem near_of_sorted (hapart : Apart regexNew rules events)
    (hsorted : events.Pairwise fun a b => a.timestampMs ≤ b.timestampMs) :
    Near regexNew rules events := by
  intro rule hrule t g n hkind hgroup time htime
  obtain ⟨i, hi⟩ := List.getElem?_of_mem hrule
  obtain ⟨before, after, hrules, -⟩ := exists_before_after hi
  have hothers := Apart.others (hrules ▸ hapart) hgroup
  have hhit : hitAt regexNew events rule g n = true := decide_eq_true hgroup
  rw [bucket_engineAt hrules hothers hkind, left_map] at htime
  obtain ⟨j, hj, rfl⟩ := List.mem_map.mp htime
  have hordered := timeAt_mono hsorted j n (le_of_mem_kept hj) (hit_of_mem_kept hhit hj) hhit
  rw [kept_eq_filter (timeAt_mono hsorted) hhit] at hj
  have hcounts := (List.mem_filter.mp hj).2
  have hwindow : t.windowMs ≤ t.windowSecs.toNat * 1000 := Nat.mod_le _ _
  have hlast := of_decide_eq_true hcounts
  omega

end

/-- No pattern is a regular expression. -/
def noRegex : RegexCrate := fun _ => none

/-- Failures, by their host. -/
def twoInAMinute : Threshold where
  field := "message".toList
  pattern := .equals "failed".toList
  groupBy := "host".toList
  count := 2
  windowSecs := 60

/-- Two failures of a host within a minute. -/
def twoFailures : RuleDef where
  id := "failures".toList
  title := "failures".toList
  severity := .high
  mitreTechnique := none
  kind := .threshold twoInAMinute

/-- A failure of a host. -/
def failure (timestampMs : Nat) : Event where
  id := 0
  timestampMs := timestampMs
  kind := .log "sshd".toList "failed".toList
  fields := AList.insert "host".toList "a".toList ∅

/-- Two failures within a second. -/
theorem backed_of_near_second : Backed noRegex [twoFailures] [failure 0, failure 1000] := by
  have hapart : Apart noRegex [twoFailures] [failure 0, failure 1000] := List.pairwise_singleton _ _
  exact backed_of_near hapart (near_of_sorted hapart (by decide))

/-- A failure, and one that happened a minute and a half before it. -/
theorem not_backed : ¬ Backed noRegex [twoFailures] [failure 100000, failure 10000] := by
  intro hbacked
  obtain ⟨backing, h⟩ := hbacked 0 twoFailures _ rfl rfl
  have halert : (alertAt noRegex [twoFailures] [failure 100000, failure 10000] 0 1).isSome := by
    decide
  have henough := h.enough 1 halert
  obtain ⟨g, -, hcounted⟩ := h.counted 1 halert
  have hall : backing 1 = Finset.range 2 := by
    refine Finset.eq_of_subset_of_card_le (fun j hj => ?_) ?_
    · exact Finset.mem_range.mpr (Nat.lt_succ_of_le (hcounted j hj).1)
    · rw [Finset.card_range]
      exact henough
  have hnear := h.near 1 halert 0 (hall ▸ by decide) 1 (hall ▸ by decide)
  exact absurd hnear (by decide)

/-! ## Alerts in order -/

/-- Processing an event gives an alert with the id of the rule. -/
def raises (rule : RuleDef) (n : Nat) : Bool :=
  events[n]?.any fun event =>
    (RuleEngine.process regexNew (engineAt regexNew rules events n) event).1.any fun alert =>
      decide (alert.ruleId = rule.id)

/-- The events up to one that the rule counts by the value, that are in the window which ends with
it, and that came since the last alert of the rule for that value. -/
def counting (rule : RuleDef) (t : Threshold) (g : Str) (n : Nat) : List Nat :=
  (List.range (n + 1)).filter fun j =>
    decide (groupAt regexNew events rule j = some g) &&
    decide (timeAt events n - t.windowSecs.toNat * 1000 ≤ timeAt events j) &&
    decide (∀ k < n, j ≤ k → groupAt regexNew events rule k = some g →
      raises regexNew rules events rule k = false)

section
variable {regexNew rules events} {rule : RuleDef} {t : Threshold} {g : Str} {n : Nat}

/-- Rules of different ids are apart. -/
theorem apart_of_nodup (h : (rules.map RuleDef.id).Nodup) : Apart regexNew rules events :=
  (List.pairwise_map.mp h).imp fun hne hid => absurd hid hne

/-- Where the ids differ, the alerts with the id of a rule are those of the rule. -/
theorem raises_eq {before after : List RuleDef} (hrules : rules = before ++ rule :: after)
    (hids : (rules.map RuleDef.id).Nodup) :
    raises regexNew rules events rule n =
      (alertAt regexNew rules events before.length n).isSome := by
  have hplace : rules[before.length]? = some rule := by
    rw [hrules, List.getElem?_append_right (Nat.le_refl _), Nat.sub_self]
    rfl
  cases hevent : events[n]? with
  | none => rw [raises, alertAt, hevent, Option.any_none, Option.bind_none, Option.isSome_none]
  | some event =>
    rw [raises, alertAt, hevent, Option.any_some, Option.bind_some, Bool.eq_iff_iff,
      List.any_eq_true, Option.isSome_iff_exists]
    constructor
    · rintro ⟨alert, halert, hid⟩
      obtain ⟨i, hi⟩ := List.getElem?_of_mem (RuleEngine.mem_process.mp halert)
      obtain ⟨r, hr, hrid⟩ := RuleEngine.ruleId_of_outcomes hi
      rw [rules_engineAt] at hr
      have hlt : i < (rules.map RuleDef.id).length := by
        rw [List.length_map]
        exact (List.getElem?_eq_some_iff.mp hr).1
      have hsame : (rules.map RuleDef.id)[i]? = (rules.map RuleDef.id)[before.length]? := by
        rw [List.getElem?_map, List.getElem?_map, hr, hplace, Option.map_some, Option.map_some,
          ← hrid, of_decide_eq_true hid]
      rw [← (List.getElem?_inj hlt hids).mp hsame, hi]
      exact ⟨alert, rfl⟩
    · rintro ⟨alert, halert⟩
      have houtcome := Option.join_eq_some_iff.mp halert
      obtain ⟨r, hr, hrid⟩ := RuleEngine.ruleId_of_outcomes houtcome
      rw [rules_engineAt, hplace] at hr
      cases hr
      exact ⟨alert, RuleEngine.mem_process.mpr (List.mem_of_getElem? houtcome),
        decide_eq_true hrid⟩

/-- With distinct ids, a rule raises an alert at an event that it counts where the tally fires. -/
theorem raises_eq_firesAt (hids : (rules.map RuleDef.id).Nodup) (hrule : rule ∈ rules)
    (hkind : rule.kind = .threshold t) (hgroup : groupAt regexNew events rule n = some g) :
    raises regexNew rules events rule n =
      firesAt (hitAt regexNew events rule g) (timeAt events) t.windowMs t.count.toNat n := by
  obtain ⟨i, hi⟩ := List.getElem?_of_mem hrule
  obtain ⟨before, after, hrules, -⟩ := exists_before_after hi
  have hapart : Apart regexNew rules events := apart_of_nodup hids
  have hothers := Apart.others (hrules ▸ hapart) hgroup
  rw [raises_eq hrules hids, alertAt_isSome hrules hothers hkind hgroup]

/-- The events that the tally goes by. -/
theorem counting_eq (hids : (rules.map RuleDef.id).Nodup) (hrule : rule ∈ rules)
    (hkind : rule.kind = .threshold t) (hwindow : t.windowSecs.toNat * 1000 < 2 ^ 64) :
    counting regexNew rules events rule t g n =
      (List.range (n + 1)).filter fun j => hitAt regexNew events rule g j &&
        decide (timeAt events n ≤ timeAt events j + t.windowMs) &&
        decide (∀ k < n, j ≤ k → firesAt (hitAt regexNew events rule g) (timeAt events)
          t.windowMs t.count.toNat k = false) := by
  have hspan : t.windowMs = t.windowSecs.toNat * 1000 := Nat.mod_eq_of_lt hwindow
  refine List.filter_congr fun j _ => ?_
  congr 1
  · rw [hspan]
    congr 1
    exact decide_eq_decide.mpr (by omega)
  · refine decide_eq_decide.mpr ⟨fun hquiet k hk hle => ?_, fun hquiet k hk hle hgroup => ?_⟩
    · by_cases hgroup : groupAt regexNew events rule k = some g
      · rw [← raises_eq_firesAt hids hrule hkind hgroup]
        exact hquiet k hk hle hgroup
      · have hhit : hitAt regexNew events rule g k = false := decide_eq_false hgroup
        rw [firesAt, hhit, Bool.false_and]
    · rw [raises_eq_firesAt hids hrule hkind hgroup]
      exact hquiet k hk hle

theorem raises_iff (hids : (rules.map RuleDef.id).Nodup)
    (hsorted : events.Pairwise fun a b => a.timestampMs ≤ b.timestampMs) (hrule : rule ∈ rules)
    (hkind : rule.kind = .threshold t) (hwindow : t.windowSecs.toNat * 1000 < 2 ^ 64) :
    raises regexNew rules events rule n = true ↔
      ∃ g, groupAt regexNew events rule n = some g ∧
        t.count.toNat ≤ (counting regexNew rules events rule t g n).length := by
  cases hgroup : groupAt regexNew events rule n with
  | none =>
    obtain ⟨i, hi⟩ := List.getElem?_of_mem hrule
    obtain ⟨before, after, hrules, -⟩ := exists_before_after hi
    rw [raises_eq hrules hids, alertAt_of_none hrules hkind hgroup]
    simp
  | some g =>
    have hhit : hitAt regexNew events rule g n = true := decide_eq_true hgroup
    have hcount : firesAt (hitAt regexNew events rule g) (timeAt events) t.windowMs
        t.count.toNat n = true ↔ _ := firesAt_iff (timeAt_mono hsorted) hhit
    rw [raises_eq_firesAt hids hrule hkind hgroup, hcount,
      ← counting_eq hids hrule hkind hwindow]
    simp

/-- Other rules, and events that the rule does not count by the value, make no difference. -/
theorem raises_congr {rules' : List RuleDef} {events' : List Event}
    (hids : (rules.map RuleDef.id).Nodup) (hrule : rule ∈ rules)
    (hids' : (rules'.map RuleDef.id).Nodup) (hrule' : rule ∈ rules')
    (hkind : rule.kind = .threshold t) (hgroup : groupAt regexNew events rule n = some g)
    (hsame : ∀ j, hitAt regexNew events' rule g j = hitAt regexNew events rule g j ∧
      (hitAt regexNew events rule g j = true → timeAt events' j = timeAt events j)) :
    raises regexNew rules' events' rule n = raises regexNew rules events rule n := by
  have hhit : hitAt regexNew events' rule g = hitAt regexNew events rule g :=
    funext fun j => (hsame j).1
  have hgroup' : groupAt regexNew events' rule n = some g := by
    have hn := (hsame n).1
    rw [hitAt, hitAt, hgroup, decide_eq_true rfl] at hn
    exact of_decide_eq_true hn
  rw [raises_eq_firesAt hids hrule hkind hgroup, raises_eq_firesAt hids' hrule' hkind hgroup', hhit]
  exact ((tallyAt_congr (fun j hj => ((hsame j).2 hj).symm) n).2).symm

end

/-- A rule raises an alert at an event exactly if it counts the event, and enough events of that
value are in the window since its last alert for the value. Of another list of rules and other
events at the same places nothing matters but what the rule counts by the value. -/
structure AlertsExactly (rule : RuleDef) (t : Threshold) (n : Nat) : Prop where
  raises_iff : raises regexNew rules events rule n = true ↔
    ∃ g, groupAt regexNew events rule n = some g ∧
      t.count.toNat ≤ (counting regexNew rules events rule t g n).length
  alone : ∀ g rules' events', groupAt regexNew events rule n = some g →
    (rules'.map RuleDef.id).Nodup → rule ∈ rules' →
    (∀ j, hitAt regexNew events' rule g j = hitAt regexNew events rule g j ∧
      (hitAt regexNew events rule g j = true → timeAt events' j = timeAt events j)) →
    raises regexNew rules' events' rule n = raises regexNew rules events rule n

/-- Where the ids differ and the events come in order, every alert is exact. -/
theorem alertsExactly_of_sorted {rule : RuleDef} {t : Threshold}
    (hids : (rules.map RuleDef.id).Nodup)
    (hsorted : events.Pairwise fun a b => a.timestampMs ≤ b.timestampMs) (hrule : rule ∈ rules)
    (hkind : rule.kind = .threshold t) (hwindow : t.windowSecs.toNat * 1000 < 2 ^ 64) (n : Nat) :
    AlertsExactly regexNew rules events rule t n where
  raises_iff := raises_iff hids hsorted hrule hkind hwindow
  alone _ _ _ hgroup hids' hrule' hsame :=
    raises_congr hids hrule hids' hrule' hkind hgroup hsame

/-- The second failure within a second. -/
theorem alertsExactly_of_sorted_second :
    AlertsExactly noRegex [twoFailures] [failure 0, failure 1000] twoFailures twoInAMinute 1 :=
  alertsExactly_of_sorted _ _ _ (by decide) (by decide) (.head _) rfl (by decide) 1

example : raises noRegex [twoFailures] [failure 0, failure 1000] twoFailures 1 = true := by decide

end ActiveDefense.Siem.Rules
