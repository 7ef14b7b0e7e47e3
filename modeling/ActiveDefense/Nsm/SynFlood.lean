import ActiveDefense.Lib.Machine
import ActiveDefense.Lib.TumblingWindow
import ActiveDefense.Nsm.PortScan

/-!
# The SYN flood detector

`SynFloodDetector` counts for each address and port the SYN-only segments since a start, and starts
again with the first one that comes more than a window later. What it reports is so: the segments
came within a window, from so many sources (`flood_report_sound`). But a flood that goes on from one
window into the next counts in parts, and the detector need not report it before nearly twice the
threshold has come within a window. `flood_reported_iff` has the exact number.

The counts are `u32`s that wrap, as in a build without overflow checks.
-/

namespace ActiveDefense.Nsm

/-! ## The detector -/

/-- `Counter`: the SYN-only segments to an address and port since a start. -/
structure SynFloodDetector.Counter where
  started : Nat
  syns : UInt32
  sources : Finset IpAddr

/-- `SynFloodDetector`; the window is in nanoseconds. -/
structure SynFloodDetector where
  perDst : Table (IpAddr × UInt16) SynFloodDetector.Counter
  window : Nat
  synThreshold : UInt32

namespace SynFloodDetector

/-- `SynFloodDetector::new`. -/
def new (window : Nat) (synThreshold : UInt32) : SynFloodDetector :=
  { perDst := ∅, window, synThreshold }

/-- The counter of a segment, with it. -/
def count (window : Nat) (entry : Option Counter) (s : Sighting) : Counter :=
  let c := entry.getD ⟨s.instant, 0, ∅⟩
  let c := if window < s.instant - c.started then ⟨s.instant, 0, ∅⟩ else c
  { c with syns := c.syns + 1, sources := insert s.pkt.srcIp c.sources }

/-- What is reported of so many segments from so many sources. -/
def report (window : Nat) (synThreshold : UInt32) (s : Sighting) (syns : UInt32) (nSrc : Nat) :
    Option Alert :=
  if synThreshold ≤ syns then
    some
      { tsUnix := s.tsUnix
        severity := if 20 < nSrc then .critical else .high
        detector := "synflood".toList
        message := s.pkt.dstIp.display ++ ":".toList ++ decimal s.pkt.dstPort.toNat ++
          " received ".toList ++ decimal syns.toNat ++ " SYNs from ".toList ++ decimal nSrc ++
          " sources within ".toList ++ debugDuration window
        srcIp := none
        dstIp := some s.pkt.dstIp
        extra :=
          [("syn_count".toList, .number syns.toNat), ("distinct_sources".toList, .number nSrc)] }
  else none

/-- `SynFloodDetector::observe`. -/
def observe : Machine SynFloodDetector Sighting (Option Alert) := fun d s =>
  if isSynOnly s.pkt.tcpFlags then
    let key := (s.pkt.dstIp, s.pkt.dstPort)
    let c := count d.window (d.perDst.lookup key) s
    (report d.window d.synThreshold s c.syns c.sources.card,
      { d with perDst := AList.insert key c d.perDst })
  else (none, d)

/-! ## The counters -/

/-- The address and port that a packet counts for. -/
def key (s : Sighting) : Option (IpAddr × UInt16) :=
  if isSynOnly s.pkt.tcpFlags then some (s.pkt.dstIp, s.pkt.dstPort) else none

variable {window : Nat} {synThreshold : UInt32} {d : SynFloodDetector}
  {packets before span : List Sighting} {s : Sighting} {dst : IpAddr × UInt16}

theorem key_eq_some : key s = some dst ↔
    isSynOnly s.pkt.tcpFlags = true ∧ (s.pkt.dstIp, s.pkt.dstPort) = dst := by
  rw [key]
  split
  · next h => simp [h]
  · next h => simp [h]

variable (window synThreshold) in
theorem keyed_observe : observe.Keyed
    (fun d => d.window = window ∧ d.synThreshold = synThreshold) perDst key (count window) where
  keeps d s h := by
    unfold observe
    split
    · exact h
    · exact h
  other d s _ hkey := by
    have hnot : ¬ isSynOnly s.pkt.tcpFlags = true := fun h => by simp [key, h] at hkey
    rw [observe, if_neg hnot]
  own d s k h hkey := by
    obtain ⟨hsyn, rfl⟩ := key_eq_some.mp hkey
    rw [observe, if_pos hsyn, ← h.1]

/-- What a counter keeps of its batch. -/
def summary (b : Batch Sighting) : Counter where
  started := b.started
  syns := UInt32.ofNat b.items.length
  sources := (b.items.map (·.pkt.srcIp)).toFinset

theorem summary_snoc (started : Nat) (items : List Sighting) : summary ⟨started, items ++ [s]⟩ =
    ⟨started, UInt32.ofNat items.length + 1,
      insert s.pkt.srcIp (items.map (·.pkt.srcIp)).toFinset⟩ := by
  rw [summary, List.length_append, UInt32.ofNat_add, List.map_append, List.toFinset_append,
    Finset.union_comm]
  rfl

theorem count_map_summary (b : Option (Batch Sighting)) (s : Sighting) :
    count window (b.map summary) s = summary (Batch.add window b s.instant s) := by
  cases b with
  | none =>
    rw [Batch.add_of_late (by simp), count, Option.map_none, Option.getD_none, ite_self]
    exact (summary_snoc s.instant []).symm
  | some b =>
    rw [count, Option.map_some, Option.getD_some]
    by_cases hover : window < s.instant - (summary b).started
    · rw [if_pos hover, Batch.add_of_late (by rintro _ ⟨rfl⟩; exact hover)]
      exact (summary_snoc s.instant []).symm
    · rw [if_neg hover, Batch.add_of_open hover, summary_snoc]
      rfl

end SynFloodDetector

/-- The SYN-only segments to an address and port. -/
def synsTo (dst : IpAddr × UInt16) (packets : List Sighting) : List Sighting :=
  ofKey SynFloodDetector.key dst packets

/-- The batch of a port after any packets. -/
def floodBatch (window : Nat) (dst : IpAddr × UInt16) (packets : List Sighting) :
    Option (Batch Sighting) :=
  batchOf window (·.instant) SynFloodDetector.key dst packets

namespace SynFloodDetector

variable {window : Nat} {synThreshold : UInt32} {packets : List Sighting} {s : Sighting}
  {dst : IpAddr × UInt16} {b : Batch Sighting}

/-- The detector after any packets. -/
def after (window : Nat) (synThreshold : UInt32) (packets : List Sighting) : SynFloodDetector :=
  (observe.run (new window synThreshold) packets).2

theorem kept_after : (after window synThreshold packets).window = window ∧
    (after window synThreshold packets).synThreshold = synThreshold :=
  (keyed_observe window synThreshold).pointwise.run ⟨rfl, rfl⟩

/-- Its counters are those of the batches. -/
theorem lookup_after : (after window synThreshold packets).perDst.lookup dst =
    (floodBatch window dst packets).map summary := by
  rw [after, (keyed_observe window synThreshold).lookup_run ⟨rfl, rfl⟩]
  exact foldl_eq_map_batchAfter (b := none) count_map_summary

variable (synThreshold) in
/-- A segment is answered with the report of its batch. -/
theorem observe_after (hkey : key s = some dst)
    (hb : floodBatch window dst (packets ++ [s]) = some b) :
    (observe (after window synThreshold packets) s).1 = report window synThreshold s
      (UInt32.ofNat b.items.length) (b.items.map (·.pkt.srcIp)).toFinset.card := by
  obtain ⟨hsyn, rfl⟩ := key_eq_some.mp hkey
  have hcount : count window ((after window synThreshold packets).perDst.lookup
      (s.pkt.dstIp, s.pkt.dstPort)) s = summary b := by
    rw [lookup_after, count_map_summary]
    exact congrArg summary (Option.some.inj ((batchOf_snoc hkey).symm.trans hb))
  rw [observe, if_pos hsyn]
  dsimp only
  rw [kept_after.1, kept_after.2, hcount]
  rfl

end SynFloodDetector

/-! ## What is reported -/

/-- After any packets, what is reported of a packet is so. It is a SYN-only segment, and among those
to its address and port the last ones, as many as the threshold asks for and with it as the last
one, come no more than a window after the first of them; the alert has their number, modulo the
range of the counter, and the number of their sources, of which more than twenty make it critical. -/
theorem flood_report_sound (window : Nat) (synThreshold : UInt32) (packets : List Sighting)
    (s : Sighting) (alert : Alert)
    (h : (SynFloodDetector.observe (SynFloodDetector.after window synThreshold packets) s).1 =
      some alert) :
    isSynOnly s.pkt.tcpFlags = true ∧
    ∃ first rest, first :: rest <:+ synsTo (s.pkt.dstIp, s.pkt.dstPort) (packets ++ [s]) ∧
      (first :: rest).getLast? = some s ∧
      (∀ r ∈ rest, r.instant ≤ first.instant + window) ∧
      synThreshold.toNat ≤ (first :: rest).length ∧
      alert.dstIp = some s.pkt.dstIp ∧
      alert.extra =
        [("syn_count".toList, .number ((first :: rest).length % 2 ^ 32)),
          ("distinct_sources".toList,
            .number ((first :: rest).map (·.pkt.srcIp)).toFinset.card)] ∧
      alert.severity =
        if 20 < ((first :: rest).map (·.pkt.srcIp)).toFinset.card then .critical else .high := by
  have hsyn : isSynOnly s.pkt.tcpFlags = true := by
    by_contra hnot
    rw [SynFloodDetector.observe, if_neg hnot] at h
    cases h
  have hkey := SynFloodDetector.key_eq_some.mpr ⟨hsyn, rfl⟩
  obtain ⟨b, hb⟩ : ∃ b, floodBatch window (s.pkt.dstIp, s.pkt.dstPort) (packets ++ [s]) = some b :=
    ⟨_, batchOf_snoc hkey⟩
  rw [SynFloodDetector.observe_after _ hkey hb, SynFloodDetector.report] at h
  obtain ⟨hvalid, hsuffix⟩ := batchOf_spec hb
  obtain ⟨first, rest, hitems, hfirst⟩ := hvalid.first
  rw [hitems] at h hsuffix
  split at h
  · next hmany =>
    cases h
    refine ⟨hsyn, first, rest, hsuffix, ?_, fun r hr => ?_, ?_, rfl, ?_, rfl⟩
    · have hlast : (synsTo (s.pkt.dstIp, s.pkt.dstPort) (packets ++ [s])).getLast? = some s := by
        rw [synsTo, ofKey_append, ofKey_singleton hkey, List.getLast?_concat]
      obtain ⟨pre, hpre⟩ := hsuffix
      rw [synsTo, ← hpre, List.getLast?_append] at hlast
      simpa [List.getLast?_cons] using hlast
    · rw [hfirst]
      exact hvalid.recent r (hitems ▸ List.mem_cons_of_mem _ hr)
    · exact (UInt32.le_iff_toNat_le.mp hmany).trans (UInt32.toNat_ofNat' ▸ Nat.mod_le _ _)
    · rw [UInt32.toNat_ofNat']
  · cases h

/-- Two segments to a port in five seconds, with one to another port between them. -/
theorem flood_report_sound_two : ∃ first rest,
    first :: rest <:+ synsTo (.v4 (Ipv4Addr.new 10 0 0 1), 22)
        ([synAt 1 22, synAt 2 80] ++ [synAt 3 22]) ∧
      (first :: rest).getLast? = some (synAt 3 22) ∧ 2 ≤ (first :: rest).length := by
  have hsome : (SynFloodDetector.observe
      (SynFloodDetector.after (5 * 10 ^ 9) 2 [synAt 1 22, synAt 2 80]) (synAt 3 22)).1.isSome =
        true := by
    decide
  obtain ⟨-, first, rest, hsuffix, hlast, -, hlen, -⟩ := flood_report_sound (5 * 10 ^ 9) 2
    [synAt 1 22, synAt 2 80] (synAt 3 22) _ (Option.some_get hsome).symm
  exact ⟨first, rest, hsuffix, hlast, hlen⟩

/-- One of the packets is a SYN-only segment to the address and port that is answered with an
alert. -/
def FloodReported (d : SynFloodDetector) (dst : IpAddr × UInt16) (packets : List Sighting) : Prop :=
  ∃ ps s qs alert, packets = ps ++ s :: qs ∧ SynFloodDetector.key s = some dst ∧
    (SynFloodDetector.observe (SynFloodDetector.observe.run d ps).2 s).1 = some alert

/-- Whatever came before, `n` SYN-only segments to a port within a window are reported. -/
def ReportsFloods (window : Nat) (synThreshold : UInt32) (n : Nat) : Prop :=
  ∀ (before span : List Sighting) (dst : IpAddr × UInt16),
    ((before ++ span).map (·.instant)).Pairwise (· ≤ ·) → before.length + 1 < 2 ^ 32 →
    (∀ s ∈ span, ∀ s' ∈ span, s'.instant ≤ s.instant + window) → n ≤ (synsTo dst span).length →
    FloodReported (SynFloodDetector.after window synThreshold before) dst span

/-! ### How many segments are reported -/

variable {window : Nat} {synThreshold : UInt32} {before span : List Sighting}
  {dst : IpAddr × UInt16}

/-- As many segments as complete the threshold in one batch are reported. -/
theorem floodReported_of_many (hbefore : before.length + 1 < 2 ^ 32)
    (hspan : ∀ s ∈ span, ∀ s' ∈ span, s'.instant ≤ s.instant + window)
    (hmany : max 1 (2 * synThreshold.toNat - 2) ≤ (synsTo dst span).length) :
    FloodReported (SynFloodDetector.after window synThreshold before) dst span := by
  have hopen : ∀ b ∈ floodBatch window dst before, 2 * max 1 synThreshold.toNat ≤
      (synsTo dst span).countP (fun _ => true) + 1 + b.items.countP fun _ => true := by
    intro b hb
    have hne := List.length_pos_of_ne_nil (batchOf_spec hb).1.ne_nil
    simp only [List.countP_true]
    omega
  obtain ⟨ps, s, qs, b, rfl, hkey, -, hb, hfull, hcount⟩ :=
    exists_dense_of_key (p := fun _ => true) (max 1 synThreshold.toNat) (by omega) hspan
      (by rw [List.countP_true]; unfold synsTo at hmany; omega) hopen
  simp only [List.countP_true] at hfull hcount
  have hfew : b.items.length < 2 ^ 32 := by
    have := synThreshold.toNat_lt
    omega
  have hobserve := SynFloodDetector.observe_after synThreshold hkey hb
  have hrun : SynFloodDetector.after window synThreshold (before ++ ps) =
      (SynFloodDetector.observe.run (SynFloodDetector.after window synThreshold before) ps).2 := by
    rw [SynFloodDetector.after, Machine.run_append]
    rfl
  have hthreshold : synThreshold ≤ UInt32.ofNat b.items.length := by
    rw [UInt32.le_iff_toNat_le, UInt32.toNat_ofNat_of_lt' hfew]
    exact (Nat.le_max_right 1 _).trans hfull
  rw [SynFloodDetector.report, if_pos hthreshold, hrun] at hobserve
  exact ⟨ps, s, qs, _, rfl, hkey, hobserve⟩

/-- A SYN-only segment to port 80 of 10.0.0.1. -/
def floodSyn (instant : Nat) : Sighting where
  instant
  tsUnix := 0
  pkt :=
    { ts := 0, srcIp := .v4 (Ipv4Addr.new 10 0 0 5), dstIp := .v4 (Ipv4Addr.new 10 0 0 1)
      srcPort := 40000, dstPort := 80, proto := .tcp, tcpFlags := 2, length := 40
      payloadHead := [] }

/-- The address and port that it counts for. -/
def floodDst : IpAddr × UInt16 := (.v4 (Ipv4Addr.new 10 0 0 1), 80)

theorem isSynOnly_two : isSynOnly 2 = true := by decide

theorem key_floodSyn {instant : Nat} : SynFloodDetector.key (floodSyn instant) = some floodDst :=
  SynFloodDetector.key_eq_some.mpr ⟨isSynOnly_two, rfl⟩

theorem synsTo_eq_self {packets : List Sighting} (h : ∀ s ∈ packets, ∃ t, s = floodSyn t) :
    synsTo floodDst packets = packets := by
  refine List.filter_eq_self.mpr fun s hs => ?_
  obtain ⟨t, rfl⟩ := h s hs
  exact decide_eq_true key_floodSyn

/-- So many segments at the end of the window that the first one starts, and so many right after
it. -/
def straddlingFlood (window m k : Nat) : List Sighting :=
  List.replicate m (floodSyn window) ++ List.replicate k (floodSyn (window + 1))

theorem exists_floodSyn {window m k : Nat} :
    ∀ s ∈ straddlingFlood window m k, ∃ t, s = floodSyn t := fun s hs => by
  rcases List.mem_append.mp hs with hs | hs
  · exact ⟨_, List.eq_of_mem_replicate hs⟩
  · exact ⟨_, List.eq_of_mem_replicate hs⟩

/-- The counter has at most one more than the former, or the latter. -/
theorem floodBatch_straddlingFlood {window m k : Nat} {b : Batch Sighting}
    (h : floodBatch window floodDst (floodSyn 0 :: straddlingFlood window m k) = some b) :
    b.items.length ≤ max (m + 1) k := by
  have hall : ofKey SynFloodDetector.key floodDst (floodSyn 0 :: straddlingFlood window m k) =
      floodSyn 0 :: straddlingFlood window m k :=
    synsTo_eq_self (List.forall_mem_cons.mpr ⟨⟨0, rfl⟩, exists_floodSyn⟩)
  rw [floodBatch, batchOf, hall, batchAfter_cons, Batch.add_of_late (by simp), straddlingFlood,
    batchAfter_append, batchAfter_of_open] at h
  · cases k with
    | zero => cases h; simp
    | succ k =>
      rw [List.replicate_succ, batchAfter_of_late] at h
      · cases h
        simp
      · rintro _ ⟨rfl⟩
        simp [Batch.late, floodSyn]
      · intro s hs
        rw [List.eq_of_mem_replicate hs]
        exact Nat.le_add_right _ _
  · intro s hs
    rw [List.eq_of_mem_replicate hs]
    simp [Batch.late, floodSyn]

theorem exists_of_prefix {window m k : Nat} {ps : List Sighting}
    (h : ps <+: straddlingFlood window m k) :
    ∃ m' ≤ m, ∃ k' ≤ k, ps = straddlingFlood window m' k' := by
  refine ⟨min ps.length m, Nat.min_le_right _ _, min (ps.length - m) k, Nat.min_le_right _ _, ?_⟩
  conv_lhs => rw [List.prefix_iff_eq_take.mp h, straddlingFlood, List.take_append,
    List.take_replicate, List.take_replicate, List.length_replicate]
  rfl

/-- So it is not reported where both are too few. -/
theorem not_floodReported {m k : Nat} (hm : m + 1 < synThreshold.toNat)
    (hk : k < synThreshold.toNat) :
    ¬ FloodReported (SynFloodDetector.after window synThreshold [floodSyn 0]) floodDst
      (straddlingFlood window m k) := by
  rintro ⟨ps, s, qs, alert, hsplit, hkey, halert⟩
  have hpre : ps ++ [s] <+: straddlingFlood window m k :=
    ⟨qs, by rw [hsplit, List.append_assoc, List.singleton_append]⟩
  obtain ⟨m', hm', k', hk', hprefix⟩ := exists_of_prefix hpre
  obtain ⟨b, hb⟩ : ∃ b, floodBatch window floodDst ((floodSyn 0 :: ps) ++ [s]) = some b :=
    ⟨_, batchOf_snoc hkey⟩
  have hreport := SynFloodDetector.observe_after synThreshold hkey hb
  rw [List.cons_append, hprefix] at hb
  have hlen := floodBatch_straddlingFlood hb
  have hnot : ¬ synThreshold ≤ UInt32.ofNat b.items.length := fun hle => by
    have hmod := (UInt32.le_iff_toNat_le.mp hle).trans (UInt32.toNat_ofNat' ▸ Nat.mod_le _ _)
    omega
  rw [SynFloodDetector.report, if_neg hnot] at hreport
  have hnone := halert.symm.trans hreport
  cases hnone

theorem pairwise_straddlingFlood {window m k : Nat} :
    ((floodSyn 0 :: straddlingFlood window m k).map (·.instant)).Pairwise (· ≤ ·) := by
  simp [straddlingFlood, List.pairwise_append, List.pairwise_replicate, floodSyn]

theorem span_straddlingFlood {window m k : Nat} (hwindow : 0 < window) :
    ∀ s ∈ straddlingFlood window m k, ∀ s' ∈ straddlingFlood window m k,
      s'.instant ≤ s.instant + window := by
  have hinstant : ∀ s ∈ straddlingFlood window m k,
      window ≤ s.instant ∧ s.instant ≤ window + 1 := fun s hs => by
    rcases List.mem_append.mp hs with hs | hs
    · rw [List.eq_of_mem_replicate hs]
      exact ⟨Nat.le_refl _, Nat.le_succ _⟩
    · rw [List.eq_of_mem_replicate hs]
      exact ⟨Nat.le_succ _, Nat.le_refl _⟩
  intro s hs s' hs'
  have := hinstant s hs
  have := hinstant s' hs'
  omega

/-- The detector reports every flood of `n` segments exactly where `n` is at least one and at least
twice the threshold less two. -/
theorem flood_reported_iff (window : Nat) (synThreshold : UInt32) (n : Nat)
    (hwindow : 0 < window) :
    ReportsFloods window synThreshold n ↔ max 1 (2 * synThreshold.toNat - 2) ≤ n := by
  constructor
  · intro h
    by_contra hfew
    by_cases hzero : n = 0
    · obtain ⟨ps, s, qs, -, hsplit, -⟩ :=
        h [] [] floodDst .nil (by decide) (by simp) (by simp [hzero])
      exact absurd hsplit (by simp)
    · refine not_floodReported (m := min n (synThreshold.toNat - 2))
        (k := n - min n (synThreshold.toNat - 2)) (by omega) (by omega)
        (h _ _ _ pairwise_straddlingFlood (by decide) (span_straddlingFlood hwindow) ?_)
      rw [synsTo_eq_self exists_floodSyn, straddlingFlood, List.length_append,
        List.length_replicate, List.length_replicate]
      omega
  · intro hn before span dst _ hbefore hspan hmany
    exact floodReported_of_many hbefore hspan (hn.trans hmany)

/-- The detector that the engine builds, with five seconds and a hundred segments. -/
theorem flood_reported_default : ReportsFloods (5 * 10 ^ 9) 100 198 :=
  (flood_reported_iff (5 * 10 ^ 9) 100 198 (by decide)).mpr (by decide)

end ActiveDefense.Nsm
