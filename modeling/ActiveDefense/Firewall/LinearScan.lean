import ActiveDefense.Firewall.Engine
import ActiveDefense.Lib.Machine
import Mathlib.Data.List.Sort

/-!
# The index does not change what the rules decide

The reference walks the configured rules from first to last and lets the first one that matches
decide. `Engine.evaluate` looks at one bucket of its index and at the rules without a key, merged:
`filter_candidates` shows that among these it meets every rule that can match, once and in order,
so that the engine is the reference with its rules rearranged. As machines over packets and
maintenance the two give the same decisions and keep the same tables on every run.
-/

namespace ActiveDefense.Firewall

/-! ## What the index holds -/

namespace RuleIndex

variable {rules : List Rule}

/-- The indices that have the key `key`, of a list of indices. -/
def keyed (key : Option (UInt8 × UInt16)) (idxs : List (Fin rules.length)) :
    List (Fin rules.length) :=
  idxs.filter fun idx => (rules.get idx).exactKey = key

theorem keyed_cons (key : Option (UInt8 × UInt16)) (idx : Fin rules.length)
    (idxs : List (Fin rules.length)) :
    keyed key (idx :: idxs) = keyed key [idx] ++ keyed key idxs :=
  List.filter_append [idx] idxs

theorem add_of_some {ix : RuleIndex rules} {idx : Fin rules.length} {key : UInt8 × UInt16}
    (h : (rules.get idx).exactKey = some key) :
    ix.add idx =
      { ix with exactPortIndex := ix.exactPortIndex.insert key (ix.bucket key ++ [idx]) } := by
  have hkey : rules[idx].exactKey = some key := h
  rw [add, hkey]

theorem add_of_none {ix : RuleIndex rules} {idx : Fin rules.length}
    (h : (rules.get idx).exactKey = none) :
    ix.add idx = { ix with wildcardRules := ix.wildcardRules ++ [idx] } := by
  have hkey : rules[idx].exactKey = none := h
  rw [add, hkey]

theorem add_bucket (ix : RuleIndex rules) (idx : Fin rules.length) (key : UInt8 × UInt16) :
    (ix.add idx).bucket key = ix.bucket key ++ keyed (some key) [idx] := by
  cases hkey : (rules.get idx).exactKey with
  | none =>
    rw [add_of_none hkey]
    simp [bucket, keyed, hkey, -List.get_eq_getElem]
  | some key' =>
    rw [add_of_some hkey]
    by_cases heq : key = key'
    · subst heq
      simp [bucket, keyed, hkey, -List.get_eq_getElem]
    · simp [bucket, keyed, hkey, AList.lookup_insert_ne heq, Ne.symm heq, -List.get_eq_getElem]

theorem add_wildcardRules (ix : RuleIndex rules) (idx : Fin rules.length) :
    (ix.add idx).wildcardRules = ix.wildcardRules ++ keyed none [idx] := by
  cases hkey : (rules.get idx).exactKey with
  | none =>
    rw [add_of_none hkey]
    simp [keyed, hkey, -List.get_eq_getElem]
  | some key =>
    rw [add_of_some hkey]
    simp [keyed, hkey, -List.get_eq_getElem]

/-- The loop of `Engine::new` appends every rule to the bucket of its key. -/
theorem foldl_add_bucket (idxs : List (Fin rules.length)) (ix : RuleIndex rules)
    (key : UInt8 × UInt16) :
    (idxs.foldl add ix).bucket key = ix.bucket key ++ keyed (some key) idxs := by
  induction idxs generalizing ix with
  | nil => simp [keyed]
  | cons idx idxs ih =>
    rw [List.foldl_cons, ih, add_bucket, keyed_cons _ idx idxs, List.append_assoc]

/-- The loop of `Engine::new` appends every rule without a key to the wildcard list. -/
theorem foldl_add_wildcardRules (idxs : List (Fin rules.length)) (ix : RuleIndex rules) :
    (idxs.foldl add ix).wildcardRules = ix.wildcardRules ++ keyed none idxs := by
  induction idxs generalizing ix with
  | nil => simp [keyed]
  | cons idx idxs ih =>
    rw [List.foldl_cons, ih, add_wildcardRules, keyed_cons _ idx idxs, List.append_assoc]

theorem mem_keyed {key : Option (UInt8 × UInt16)} {idxs : List (Fin rules.length)}
    {idx : Fin rules.length} :
    idx ∈ keyed key idxs ↔ idx ∈ idxs ∧ (rules.get idx).exactKey = key := by
  simp only [keyed, List.mem_filter, decide_eq_true_eq]

/-- The candidates are the rules with the packet's key or with none, once each and in order. -/
theorem candidates_build (pkt : ParsedPacket) :
    (build rules).candidates pkt = (List.finRange rules.length).filter fun idx =>
      (rules.get idx).exactKey = some (pkt.proto.protoNum, pkt.dstPort) ∨
        (rules.get idx).exactKey = none := by
  have hbucket : (build rules).bucket (pkt.proto.protoNum, pkt.dstPort) =
      keyed (some (pkt.proto.protoNum, pkt.dstPort)) (List.finRange rules.length) := by
    rw [build, foldl_add_bucket]
    rfl
  have hwild : (build rules).wildcardRules = keyed none (List.finRange rules.length) := by
    rw [build, foldl_add_wildcardRules]
    rfl
  rw [candidates, hbucket, hwild]
  have hnodup := List.nodup_finRange rules.length
  have hperm : (keyed (some (pkt.proto.protoNum, pkt.dstPort)) (List.finRange rules.length) ++
      keyed none (List.finRange rules.length)).Perm
      ((List.finRange rules.length).filter fun idx =>
        (rules.get idx).exactKey = some (pkt.proto.protoNum, pkt.dstPort) ∨
          (rules.get idx).exactKey = none) := by
    refine (List.perm_ext_iff_of_nodup ?_ (hnodup.filter _)).mpr ?_
    · refine List.nodup_append.mpr ⟨hnodup.filter _, hnodup.filter _, ?_⟩
      rintro idx hidx _ hidx' rfl
      have hsome := (mem_keyed.mp hidx).2
      rw [(mem_keyed.mp hidx').2] at hsome
      cases hsome
    · intro idx
      rw [List.mem_append, mem_keyed, mem_keyed, List.mem_filter, decide_eq_true_eq, and_or_left]
  exact ((List.mergeSort_perm _ _).trans hperm).eq_of_pairwise'
    (List.pairwise_mergeSort' (· ≤ ·) _)
    ((List.pairwise_le_finRange rules.length).filter _)

end RuleIndex

/-- A rule that matches a packet has the packet's key, or none. -/
theorem exactKey_of_ruleMatches {aliases : Table Str (List IpNet)} {rule : Rule}
    {pkt : ParsedPacket} (h : ruleMatches aliases rule pkt = true) :
    rule.exactKey = some (pkt.proto.protoNum, pkt.dstPort) ∨ rule.exactKey = none := by
  simp only [ruleMatches, Bool.and_eq_true] at h
  obtain ⟨⟨⟨⟨⟨hproto, -⟩, -⟩, -⟩, hport⟩, -⟩ := h
  rw [Rule.exactKey]
  split
  · next proto hnum hexact =>
    left
    have hdst : rule.dstPort.lo = pkt.dstPort := by
      simp only [PortRange.contains, ← beq_iff_eq.mp hexact, Bool.and_eq_true,
        decide_eq_true_eq] at hport
      exact UInt16.le_antisymm hport.1 hport.2
    have hpkt : proto = pkt.proto.protoNum := by
      cases hp : rule.protocol <;> cases hq : pkt.proto <;>
        simp_all [protoMatches, Protocol.protoNum, L4Proto.protoNum]
    rw [hdst, hpkt]
  · exact .inr rfl

/-- Among its candidates an engine meets every rule that matches the packet, once and in order. -/
theorem filter_candidates (aliases : Table Str (List IpNet)) (rules : List Rule)
    (pkt : ParsedPacket) :
    ((RuleIndex.build rules).candidates pkt).filter
        (fun idx => ruleMatches aliases (rules.get idx) pkt) =
      (List.finRange rules.length).filter fun idx => ruleMatches aliases (rules.get idx) pkt := by
  rw [RuleIndex.candidates_build, List.filter_filter]
  refine List.filter_congr fun idx _ => ?_
  rw [Bool.and_eq_left_iff_imp]
  intro hm
  exact decide_eq_true (exactKey_of_ruleMatches hm)

/-! ## The reference -/

section
variable {τ : Type} [TokenArith τ]

/-- The plain reference for `evaluate`: the first rule of the configuration that matches decides,
and the default policy if there is none. -/
def linearEvaluate (cfg : Config) (t : Tables τ) (pkt : ParsedPacket) (r : Readings) :
    Decision × Tables τ :=
  if cfg.trusted.contains pkt.srcIp then (trustedBypass, t)
  else
    match cfg.rules.zipIdx.find? fun p => ruleMatches (aliasTable cfg.aliases) p.1 pkt with
    | some (rule, idx) => rule.apply idx pkt t r
    | none => (defaultDecision cfg.defaultPolicy, t)

/-- The engine of a configuration with given tables. -/
def Engine.ofTables (cfg : Config) (t : Tables τ) : Engine τ :=
  { (Engine.new cfg : Engine τ) with tables := t }

/-- The loop over the candidates ends at the first one that matches. -/
theorem walk_eq (rules : List Rule) (aliases : Table Str (List IpNet)) (defaultPolicy : Action)
    (pkt : ParsedPacket) (t : Tables τ) (r : Readings) (idxs : List (Fin rules.length)) :
    walk rules aliases defaultPolicy pkt t r idxs =
      match idxs.find? fun idx => ruleMatches aliases (rules.get idx) pkt with
      | some idx => (rules.get idx).apply idx pkt t r
      | none => (defaultDecision defaultPolicy, t) := by
  induction idxs with
  | nil => rfl
  | cons idx idxs ih =>
    rw [walk, List.find?_cons]
    cases hm : ruleMatches aliases (rules.get idx) pkt with
    | true => rfl
    | false => simpa using ih

/-- The rule that decides in `evaluate`, if one does. -/
def Engine.decidedBy (e : Engine τ) (pkt : ParsedPacket) : Option (Fin e.rules.length) :=
  if e.isTrusted pkt.srcIp then none
  else (e.index.candidates pkt).find? fun idx => ruleMatches e.aliases e.rules[idx] pkt

/-- What the rule that decides does is the decision. -/
theorem Engine.evaluate_of_decidedBy {e : Engine τ} {pkt : ParsedPacket}
    {idx : Fin e.rules.length} (h : e.decidedBy pkt = some idx) (r : Readings) :
    (e.evaluate pkt r).1 = (e.rules[idx].apply idx pkt e.tables r).1 := by
  unfold decidedBy at h
  unfold evaluate
  split at h
  · cases h
  · next htrusted =>
    have hfind : (e.index.candidates pkt).find?
        (fun idx => ruleMatches e.aliases (e.rules.get idx) pkt) = some idx := h
    rw [if_neg htrusted, walk_eq, hfind]
    rfl

omit [TokenArith τ] in
/-- The first rule of a configuration decides on a packet exactly when it matches it. -/
theorem Engine.decidedBy_new_zero {cfg : Config} {rule : Rule} {rest : List Rule}
    (hrules : cfg.rules = rule :: rest) {pkt : ParsedPacket}
    (htrusted : cfg.trusted.contains pkt.srcIp = false) :
    ((Engine.new cfg : Engine τ).decidedBy pkt).map Fin.val = some 0 ↔
      ruleMatches (aliasTable cfg.aliases) rule pkt = true := by
  obtain ⟨queueNum, queueWorkers, defaultPolicy, conntrack, _, aliases, trusted, maxEntries⟩ := cfg
  simp only at hrules htrusted
  subst hrules
  have hdecided : (Engine.new ⟨queueNum, queueWorkers, defaultPolicy, conntrack, rule :: rest,
      aliases, trusted, maxEntries⟩ : Engine τ).decidedBy pkt =
      (List.finRange (rest.length + 1)).find? fun idx =>
        ruleMatches (aliasTable aliases) (rule :: rest)[idx] pkt := by
    rw [decidedBy, if_neg (by simpa [isTrusted, Engine.new] using htrusted), ← List.head?_filter,
      ← List.head?_filter]
    exact congrArg List.head? (filter_candidates (aliasTable aliases) (rule :: rest) pkt)
  have hfirst : ((List.finRange (rest.length + 1)).find? fun idx =>
        ruleMatches (aliasTable aliases) (rule :: rest)[idx] pkt).map Fin.val = some 0 ↔
      ruleMatches (aliasTable aliases) rule pkt = true := by
    rw [List.finRange_succ, List.find?_cons]
    cases hm : ruleMatches (aliasTable aliases) rule pkt with
    | true => simp [hm]
    | false => simp [hm, List.find?_map]
  rw [← hfirst]
  exact iff_of_eq (congrArg (fun o => o.map Fin.val = some 0) hdecided)

/-- Numbering the elements of a list is pairing them with their indices. -/
theorem zipIdx_eq_map_finRange {α : Type} (xs : List α) :
    xs.zipIdx = (List.finRange xs.length).map fun i => (xs[i], i.val) := by
  apply List.ext_getElem
  · simp
  · intro i h₁ h₂
    simp

/-- The engine of a configuration decides as the reference does and leaves the same tables. -/
theorem evaluate_ofTables (cfg : Config) (t : Tables τ) (pkt : ParsedPacket) (r : Readings) :
    (Engine.ofTables cfg t).evaluate pkt r =
      ((linearEvaluate cfg t pkt r).1, Engine.ofTables cfg (linearEvaluate cfg t pkt r).2) := by
  have hwalk : walk cfg.rules (aliasTable cfg.aliases) cfg.defaultPolicy pkt t r
      ((RuleIndex.build cfg.rules).candidates pkt) =
      match cfg.rules.zipIdx.find? fun p => ruleMatches (aliasTable cfg.aliases) p.1 pkt with
      | some (rule, idx) => rule.apply idx pkt t r
      | none => (defaultDecision cfg.defaultPolicy, t) := by
    rw [walk_eq, ← List.head?_filter, filter_candidates, List.head?_filter, zipIdx_eq_map_finRange,
      List.find?_map]
    simp only [Function.comp_def]
    cases (List.finRange cfg.rules.length).find? fun idx =>
      ruleMatches (aliasTable cfg.aliases) cfg.rules[idx] pkt <;> rfl
  rw [linearEvaluate, ← hwalk]
  by_cases htrusted : cfg.trusted.contains pkt.srcIp = true
  · rw [if_pos htrusted]
    exact if_pos htrusted
  · rw [if_neg htrusted]
    exact if_neg htrusted

/-! ## Runs -/

/-- What an engine is given: a packet, or the tick of the maintenance thread. -/
inductive Input where
  | packet (pkt : ParsedPacket) (r : Readings)
  | maintenance (r : Readings)

/-- The engine as a machine; its outputs are the decisions. -/
def Engine.step : Machine (Engine τ) Input (Option Decision)
  | e, .packet pkt r => ((e.evaluate pkt r).1, (e.evaluate pkt r).2)
  | e, .maintenance r => (none, e.periodicMaintenance r)

/-- The reference as a machine. -/
def linearStep (cfg : Config) : Machine (Tables τ) Input (Option Decision)
  | t, .packet pkt r => ((linearEvaluate cfg t pkt r).1, (linearEvaluate cfg t pkt r).2)
  | t, .maintenance r => (none, t.periodicMaintenance r)

theorem embeds_linearStep (cfg : Config) :
    Machine.Embeds (Engine.ofTables cfg) (linearStep cfg) (Engine.step (τ := τ)) := by
  intro t i
  cases i with
  | packet pkt r => simp only [Engine.step, linearStep, evaluate_ofTables]
  | maintenance r => rfl

end

/-- On every run, of packets and maintenance in any order and at any times, an engine gives the
decisions of the plain reference and keeps its tables; for every packet, the rules it looks at
contain those that match, once each and in the order of the configuration. -/
theorem run_eq_linear {τ : Type} [TokenArith τ] (cfg : Config) (is : List Input) :
    (Engine.step.run (Engine.new cfg : Engine τ) is).1 =
        ((linearStep cfg).run (Tables.new : Tables τ) is).1 ∧
      (Engine.step.run (Engine.new cfg : Engine τ) is).2.tables =
        ((linearStep cfg).run (Tables.new : Tables τ) is).2 ∧
      ∀ pkt : ParsedPacket, ((RuleIndex.build cfg.rules).candidates pkt).filter
          (fun idx => ruleMatches (aliasTable cfg.aliases) cfg.rules[idx] pkt) =
        (List.finRange cfg.rules.length).filter fun idx =>
          ruleMatches (aliasTable cfg.aliases) cfg.rules[idx] pkt := by
  have hrun := (embeds_linearStep (τ := τ) cfg).run Tables.new is
  refine ⟨congrArg Prod.fst hrun, ?_, filter_candidates _ _⟩
  exact congrArg (fun p => p.2.tables) hrun

end ActiveDefense.Firewall
