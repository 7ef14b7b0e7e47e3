import ActiveDefense.Clam.PeEntropy
import ActiveDefense.Nsm.SynFlood

/-!
# The DNS tunnel detector

`DnsTunnelDetector` counts for each source the packets from or to port 53 since a start, and those
among them that look like tunneling: with a label of twenty bytes or more and at least four bits of
entropy to a byte. Both counts are over windows that follow one another. The first label walk
measures the name of a well-formed question exactly (`longestLabelLen_question`). What is reported is
so, over the real numbers for the entropy (`dns_report_sound`); and what is enough for one window is
reported, whatever the numbers (`dns_tunnel_reported`).
-/

namespace ActiveDefense.Nsm

open Clam (Log2Arith)
open scoped Clam

/-- An alert with floating-point values in its `extra`, beside the others. -/
structure MeasuredAlert (φ : Type) extends Alert where
  measures : List (Str × φ)

namespace DnsTunnelDetector

/-! ## The payload -/

/-- The loop of `longest_label_len`, on what is left of the payload. -/
def walkLabels (longest : Nat) : List UInt8 → Nat
  | [] => longest
  | b :: rest =>
    let len := b.toNat
    if len = 0 ∨ b &&& 0xC0 ≠ 0 then longest
    else if rest.length < len then longest
    else walkLabels (max longest len) (rest.drop len)
termination_by bytes => bytes.length
decreasing_by simp

/-- `longest_label_len`. -/
def longestLabelLen (payload : List UInt8) : Nat :=
  if payload.length < 13 then 0 else walkLabels 0 (payload.drop 12)

section
variable {φ : Type} [Log2Arith φ]

/-- `shannon_entropy`. A payload has at most 256 bytes, so the counts stay far below their range. -/
def shannonEntropy (bytes : List UInt8) : φ :=
  if bytes.isEmpty then 0.0
  else
    let counts := bytes.foldl (fun counts b => counts.set b.toNat (counts.getD b.toNat 0 + 1))
      (List.replicate 256 0)
    let len : φ := FloatArith.ofUsize bytes.length
    (counts.filter (0 < ·)).foldl
      (fun sum c =>
        let p := FloatArith.ofUsize c / len
        sum + -p * Log2Arith.log2 p) 0.0

/-- `MIN_LABEL_LEN_FOR_ENTROPY`. -/
def minLabelLenForEntropy : Nat := 20

/-- `HIGH_ENTROPY_BITS_PER_BYTE`. -/
def highEntropyBitsPerByte : φ := 4.0

variable (φ) in
/-- Whether the payload of a packet is long and has a high entropy. -/
def suspicious (s : Sighting) : Bool :=
  decide (minLabelLenForEntropy ≤ longestLabelLen s.pkt.payloadHead) &&
    decide ((highEntropyBitsPerByte : φ) ≤ shannonEntropy s.pkt.payloadHead)

end

/-! ## The detector -/

/-- `RateWindow`: the packets of a source since a start. -/
structure RateWindow where
  started : Nat
  queries : UInt32
  suspiciousLabels : UInt32

end DnsTunnelDetector

/-- `DnsTunnelDetector`; the window is in nanoseconds. -/
structure DnsTunnelDetector where
  perSrc : Table IpAddr DnsTunnelDetector.RateWindow
  window : Nat
  queryRateThreshold : UInt32

namespace DnsTunnelDetector

/-- `DnsTunnelDetector::new`. -/
def new (window : Nat) (queryRateThreshold : UInt32) : DnsTunnelDetector :=
  { perSrc := ∅, window, queryRateThreshold }

section
variable (φ : Type) [Log2Arith φ]

/-- The window of a packet, with it. -/
def count (window : Nat) (entry : Option RateWindow) (s : Sighting) : RateWindow :=
  let w := entry.getD ⟨s.instant, 0, 0⟩
  let w := if window < s.instant - w.started then ⟨s.instant, 0, 0⟩ else w
  { w with
    queries := w.queries + 1
    suspiciousLabels :=
      if suspicious φ s then w.suspiciousLabels + 1 else w.suspiciousLabels }

/-- What is reported of so many packets. -/
def report (window : Nat) (queryRateThreshold : UInt32) (s : Sighting)
    (queries suspicious : UInt32) : Option (MeasuredAlert φ) :=
  let within := " within ".toList ++ debugDuration window
  if 5 ≤ suspicious then
    some
      { tsUnix := s.tsUnix
        severity := .high
        detector := "dns_tunnel".toList
        message := s.pkt.srcIp.display ++ " sent ".toList ++ decimal suspicious.toNat ++
          " high-entropy/long DNS labels".toList ++ within ++ " (possible tunneling)".toList
        srcIp := some s.pkt.srcIp
        dstIp := some s.pkt.dstIp
        extra :=
          [("suspicious_labels".toList, .number suspicious.toNat),
            ("max_label_len".toList, .number (longestLabelLen s.pkt.payloadHead))]
        measures := [("entropy".toList, shannonEntropy s.pkt.payloadHead)] }
  else if queryRateThreshold ≤ queries then
    some
      { tsUnix := s.tsUnix
        severity := .medium
        detector := "dns_tunnel".toList
        message := s.pkt.srcIp.display ++ " issued ".toList ++ decimal queries.toNat ++
          " DNS queries".toList ++ within ++ " (abnormal query rate)".toList
        srcIp := some s.pkt.srcIp
        dstIp := some s.pkt.dstIp
        extra := [("query_count".toList, .number queries.toNat)]
        measures := [] }
  else none

/-- `DnsTunnelDetector::observe`. -/
def observe : Machine DnsTunnelDetector Sighting (Option (MeasuredAlert φ)) := fun d s =>
  if s.pkt.proto ≠ .udp ∨ (s.pkt.dstPort ≠ 53 ∧ s.pkt.srcPort ≠ 53) then (none, d)
  else
    let w := count φ d.window (d.perSrc.lookup s.pkt.srcIp) s
    (report φ d.window d.queryRateThreshold s w.queries w.suspiciousLabels,
      { d with perSrc := AList.insert s.pkt.srcIp w d.perSrc })

end

/-! ## The labels of a question -/

theorem and_ne_zero_iff : ∀ n < 256, UInt8.ofNat n &&& 0xC0 ≠ 0 ↔ 64 ≤ n := by
  decide +kernel

/-- A label has at most 63 bytes. -/
theorem walkLabels_le (longest : Nat) (bytes : List UInt8) :
    walkLabels longest bytes ≤ max longest 63 := by
  fun_induction walkLabels longest bytes with
  | case1 => exact Nat.le_max_left _ _
  | case2 => exact Nat.le_max_left _ _
  | case3 => exact Nat.le_max_left _ _
  | case4 longest b rest len hend _ ih =>
    have hlen : len < 64 := by
      have hbyte := and_ne_zero_iff b.toNat b.toNat_lt
      rw [UInt8.ofNat_toNat] at hbyte
      have hzero := (not_or.mp hend).2
      rw [hbyte] at hzero
      omega
    omega

theorem longestLabelLen_le (payload : List UInt8) : longestLabelLen payload ≤ 63 := by
  unfold longestLabelLen
  split
  · exact Nat.zero_le _
  · exact (walkLabels_le _ _).trans_eq (Nat.max_eq_right (Nat.zero_le _))

/-- The labels of a name, each with its length before it. -/
def encodeLabels (labels : List (List UInt8)) : List UInt8 :=
  labels.flatMap fun l => UInt8.ofNat l.length :: l

/-- The walk goes over the labels of a name to the zero after the last one. -/
theorem walkLabels_encodeLabels {labels : List (List UInt8)} {longest : Nat} {rest : List UInt8}
    (h : ∀ l ∈ labels, 0 < l.length ∧ l.length < 64) :
    walkLabels longest (encodeLabels labels ++ 0 :: rest) =
      (labels.map List.length).foldl max longest := by
  induction labels generalizing longest with
  | nil =>
    rw [encodeLabels, List.flatMap_nil, List.nil_append, walkLabels]
    exact if_pos (.inl rfl)
  | cons l labels ih =>
    obtain ⟨⟨hpos, hlt⟩, hlabels⟩ := List.forall_mem_cons.mp h
    have hlen : (UInt8.ofNat l.length).toNat = l.length :=
      UInt8.toNat_ofNat_of_lt' (Nat.lt_trans hlt (by decide))
    have hname : encodeLabels (l :: labels) ++ 0 :: rest =
        UInt8.ofNat l.length :: (l ++ (encodeLabels labels ++ 0 :: rest)) := by
      simp [encodeLabels]
    have hgoes : ¬ ((UInt8.ofNat l.length).toNat = 0 ∨ UInt8.ofNat l.length &&& 0xC0 ≠ 0) := by
      rw [hlen, and_ne_zero_iff _ (Nat.lt_trans hlt (by decide))]
      omega
    have hfits : ¬ (l ++ (encodeLabels labels ++ 0 :: rest)).length <
        (UInt8.ofNat l.length).toNat := by
      rw [hlen, List.length_append]
      omega
    rw [hname, walkLabels, if_neg hgoes, if_neg hfits, hlen, List.drop_left, ih hlabels,
      List.map_cons, List.foldl_cons]

/-- After a header, the longest label of a well-formed name is measured, whatever follows. -/
theorem longestLabelLen_question {header rest : List UInt8} {labels : List (List UInt8)}
    (hheader : header.length = 12) (h : ∀ l ∈ labels, 0 < l.length ∧ l.length < 64) :
    longestLabelLen (header ++ (encodeLabels labels ++ 0 :: rest)) =
      (labels.map List.length).foldl max 0 := by
  have hlong : ¬ (header ++ (encodeLabels labels ++ 0 :: rest)).length < 13 := by
    simp only [List.length_append, List.length_cons, hheader]
    omega
  rw [longestLabelLen, if_neg hlong, List.drop_append_of_le_length (by omega),
    List.drop_of_length_le (by omega), List.nil_append, walkLabels_encodeLabels h]

/-- A question for `www.a`. -/
theorem longestLabelLen_question_www : longestLabelLen (List.replicate 12 0 ++
    (encodeLabels [[119, 119, 119], [97]] ++ 0 :: [0, 1, 0, 1])) = 3 :=
  (longestLabelLen_question List.length_replicate (by decide)).trans rfl

/-! ## The entropy of a payload -/

/-- Over the real numbers it is that of its bytes. -/
theorem shannonEntropy_eq (bytes : List UInt8) : (shannonEntropy bytes : ℝ) = entropy bytes := by
  have hzero : (0.0 : ℝ) = 0 := by norm_num
  unfold shannonEntropy
  split
  · next hempty =>
    rw [List.isEmpty_iff.mp hempty, hzero]
    rfl
  · have htallies := tallies_nil.foldl bytes
    rw [List.nil_append] at htallies
    rw [← htallies.sum_surprise, List.sum_eq_foldl, List.foldl_map, hzero]
    rfl

/-- A suspicious payload has a label of 20 to 63 bytes, and at least 16 different bytes. -/
theorem spec_of_suspicious {s : Sighting} (h : suspicious ℝ s = true) :
    (20 ≤ longestLabelLen s.pkt.payloadHead ∧ longestLabelLen s.pkt.payloadHead ≤ 63) ∧
      16 ≤ s.pkt.payloadHead.dedup.length := by
  rw [suspicious, Bool.and_eq_true, decide_eq_true_eq, decide_eq_true_eq, shannonEntropy_eq] at h
  obtain ⟨hlong, hbits⟩ := h
  refine ⟨⟨hlong, longestLabelLen_le _⟩, ?_⟩
  have hne : s.pkt.payloadHead ≠ [] := by
    intro hnil
    rw [hnil] at hlong
    exact absurd hlong (by decide)
  have hmany := rpow_le_of_le_entropy hne hbits
  have hfour : (2 : ℝ) ^ (highEntropyBitsPerByte : ℝ) = 16 := by
    rw [show (highEntropyBitsPerByte : ℝ) = (4 : ℕ) by norm_num [highEntropyBitsPerByte],
      Real.rpow_natCast]
    norm_num
  rw [hfour] at hmany
  exact_mod_cast hmany

/-! ## The windows -/

/-- The source that a packet counts for. -/
def key (s : Sighting) : Option IpAddr :=
  if s.pkt.proto = .udp ∧ (s.pkt.dstPort = 53 ∨ s.pkt.srcPort = 53) then some s.pkt.srcIp else none

section
variable {φ : Type} [Log2Arith φ] {window : Nat} {queryRateThreshold : UInt32}
  {packets : List Sighting} {s : Sighting} {src : IpAddr} {b : Batch Sighting}

theorem skipped_iff : (s.pkt.proto ≠ .udp ∨ (s.pkt.dstPort ≠ 53 ∧ s.pkt.srcPort ≠ 53)) ↔
    key s = none := by
  rw [key]
  split
  · next h => simp [h]; tauto
  · next h => simp; tauto

theorem srcIp_of_key (h : key s = some src) : s.pkt.srcIp = src := by
  rw [key] at h
  split at h
  · exact Option.some.inj h
  · cases h

variable (φ window queryRateThreshold) in
theorem keyed_observe : (observe φ).Keyed
    (fun d => d.window = window ∧ d.queryRateThreshold = queryRateThreshold) perSrc key
    (count φ window) where
  keeps d s h := by
    unfold observe
    split
    · exact h
    · exact h
  other d s _ hkey := by rw [observe, if_pos (skipped_iff.mpr hkey)]
  own d s k h hkey := by
    have hcounts : ¬ (s.pkt.proto ≠ .udp ∨ (s.pkt.dstPort ≠ 53 ∧ s.pkt.srcPort ≠ 53)) := by
      rw [skipped_iff, hkey]
      exact nofun
    rw [observe, if_neg hcounts, ← h.1, srcIp_of_key hkey]

variable (φ) in
/-- What a window keeps of its batch. -/
def summary (b : Batch Sighting) : RateWindow where
  started := b.started
  queries := UInt32.ofNat b.items.length
  suspiciousLabels := UInt32.ofNat (b.items.countP (suspicious φ))

theorem summary_snoc (started : Nat) (items : List Sighting) :
    summary φ ⟨started, items ++ [s]⟩ = ⟨started, UInt32.ofNat items.length + 1,
      if suspicious φ s then UInt32.ofNat (items.countP (suspicious φ)) + 1
      else UInt32.ofNat (items.countP (suspicious φ))⟩ := by
  rw [summary, List.length_append, UInt32.ofNat_add, List.countP_append, List.countP_singleton]
  split
  · rw [UInt32.ofNat_add]
    rfl
  · rfl

theorem count_map_summary (b : Option (Batch Sighting)) (s : Sighting) :
    count φ window (b.map (summary φ)) s = summary φ (Batch.add window b s.instant s) := by
  cases b with
  | none =>
    rw [Batch.add_of_late (by simp), count, Option.map_none, Option.getD_none, ite_self]
    exact (summary_snoc s.instant []).symm
  | some b =>
    rw [count, Option.map_some, Option.getD_some]
    by_cases hover : window < s.instant - (summary φ b).started
    · rw [if_pos hover, Batch.add_of_late (by rintro _ ⟨rfl⟩; exact hover)]
      exact (summary_snoc s.instant []).symm
    · rw [if_neg hover, Batch.add_of_open hover, summary_snoc]
      rfl

variable (φ) in
/-- The detector after any packets. -/
def after (window : Nat) (queryRateThreshold : UInt32) (packets : List Sighting) :
    DnsTunnelDetector :=
  ((observe φ).run (new window queryRateThreshold) packets).2

theorem kept_after : (after φ window queryRateThreshold packets).window = window ∧
    (after φ window queryRateThreshold packets).queryRateThreshold = queryRateThreshold :=
  (keyed_observe φ window queryRateThreshold).pointwise.run ⟨rfl, rfl⟩

/-- Its windows are those of the batches. -/
theorem lookup_after : (after φ window queryRateThreshold packets).perSrc.lookup src =
    (batchOf window (·.instant) key src packets).map (summary φ) := by
  rw [after, (keyed_observe φ window queryRateThreshold).lookup_run ⟨rfl, rfl⟩]
  exact foldl_eq_map_batchAfter (b := none) count_map_summary

variable (queryRateThreshold) in
/-- A packet is answered with the report of its batch. -/
theorem observe_after (hkey : key s = some src)
    (hb : batchOf window (·.instant) key src (packets ++ [s]) = some b) :
    (observe φ (after φ window queryRateThreshold packets) s).1 =
      report φ window queryRateThreshold s (UInt32.ofNat b.items.length)
        (UInt32.ofNat (b.items.countP (suspicious φ))) := by
  obtain rfl := srcIp_of_key hkey
  have hcount : count φ window ((after φ window queryRateThreshold packets).perSrc.lookup
      s.pkt.srcIp) s = summary φ b := by
    rw [lookup_after, count_map_summary]
    exact congrArg (summary φ) (Option.some.inj ((batchOf_snoc hkey).symm.trans hb))
  have hcounts : ¬ (s.pkt.proto ≠ .udp ∨ (s.pkt.dstPort ≠ 53 ∧ s.pkt.srcPort ≠ 53)) := by
    rw [skipped_iff, hkey]
    exact nofun
  rw [observe, if_neg hcounts]
  dsimp only
  rw [kept_after.1, kept_after.2, hcount]
  rfl

end

end DnsTunnelDetector

/-! ## What is reported -/

/-- The packets from an address that come from or go to port 53. -/
def dnsOf (src : IpAddr) (packets : List Sighting) : List Sighting :=
  ofKey DnsTunnelDetector.key src packets

/-- The packets of 10.0.0.5 to port 53, a second apart, without a payload. -/
def dnsAt (seconds : Nat) : Sighting where
  instant := seconds * 10 ^ 9
  tsUnix := UInt64.ofNat seconds
  pkt :=
    { ts := 0, srcIp := .v4 (Ipv4Addr.new 10 0 0 5), dstIp := .v4 (Ipv4Addr.new 10 0 0 1)
      srcPort := 40000, dstPort := 53, proto := .udp, tcpFlags := 0, length := 40
      payloadHead := [] }

/-- After any packets, what is reported of a packet is so. Among the last packets of its source that
come from or go to port 53, no more than a window after the first of them, there are either five or
more that each have a label of 20 to 63 bytes and at least 16 different bytes, or as many as the
threshold asks for. -/
theorem dns_report_sound (window : Nat) (queryRateThreshold : UInt32) (packets : List Sighting)
    (s : Sighting) (alert : MeasuredAlert ℝ)
    (h : (DnsTunnelDetector.observe ℝ (.after ℝ window queryRateThreshold packets) s).1 =
      some alert) :
    alert.srcIp = some s.pkt.srcIp ∧ ∃ first rest,
      first :: rest <:+ dnsOf s.pkt.srcIp (packets ++ [s]) ∧
      (∀ r ∈ rest, r.instant ≤ first.instant + window) ∧
      (alert.severity = .high ∧ 5 ≤ (first :: rest).countP (fun r =>
          decide ((20 ≤ DnsTunnelDetector.longestLabelLen r.pkt.payloadHead ∧
            DnsTunnelDetector.longestLabelLen r.pkt.payloadHead ≤ 63) ∧
              16 ≤ r.pkt.payloadHead.dedup.length)) ∨
        alert.severity = .medium ∧ queryRateThreshold.toNat ≤ (first :: rest).length) := by
  obtain ⟨src, hkey⟩ : ∃ src, DnsTunnelDetector.key s = some src := by
    by_contra hnone
    have hskip := DnsTunnelDetector.skipped_iff.mpr (Option.eq_none_iff_forall_ne_some.mpr
      fun src hsrc => hnone ⟨src, hsrc⟩)
    rw [DnsTunnelDetector.observe, if_pos hskip] at h
    cases h
  obtain rfl := DnsTunnelDetector.srcIp_of_key hkey
  obtain ⟨b, hb⟩ : ∃ b, batchOf window (·.instant) DnsTunnelDetector.key s.pkt.srcIp
      (packets ++ [s]) = some b := ⟨_, batchOf_snoc hkey⟩
  rw [DnsTunnelDetector.observe_after _ hkey hb, DnsTunnelDetector.report] at h
  obtain ⟨hvalid, hsuffix⟩ := batchOf_spec hb
  obtain ⟨first, rest, hitems, hfirst⟩ := hvalid.first
  have hrecent : ∀ r ∈ rest, r.instant ≤ first.instant + window := fun r hr => by
    rw [hfirst]
    exact hvalid.recent r (hitems ▸ List.mem_cons_of_mem _ hr)
  rw [hitems] at h hsuffix
  have hle {n : Nat} {t : UInt32} (ht : t ≤ UInt32.ofNat n) : t.toNat ≤ n :=
    (UInt32.le_iff_toNat_le.mp ht).trans (UInt32.toNat_ofNat' ▸ Nat.mod_le _ _)
  split at h
  · next hmany =>
    cases h
    refine ⟨rfl, first, rest, hsuffix, hrecent, .inl ⟨rfl, (hle hmany).trans ?_⟩⟩
    exact List.countP_mono_left fun r _ hr => decide_eq_true (DnsTunnelDetector.spec_of_suspicious hr)
  · split at h
    · next hmany =>
      cases h
      exact ⟨rfl, first, rest, hsuffix, hrecent, .inr ⟨rfl, hle hmany⟩⟩
    · cases h

theorem key_dnsAt {seconds : Nat} :
    DnsTunnelDetector.key (dnsAt seconds) = some (.v4 (Ipv4Addr.new 10 0 0 5)) :=
  if_pos ⟨rfl, .inl rfl⟩

theorem suspicious_dnsAt {seconds : Nat} : DnsTunnelDetector.suspicious ℝ (dnsAt seconds) = false := by
  have hshort : ¬ DnsTunnelDetector.minLabelLenForEntropy ≤
      DnsTunnelDetector.longestLabelLen (dnsAt seconds).pkt.payloadHead := by
    show ¬ 20 ≤ DnsTunnelDetector.longestLabelLen []
    decide
  rw [DnsTunnelDetector.suspicious, decide_eq_false hshort, Bool.false_and]

/-- Two packets within a window, where two are asked for, after one of an earlier window and one that
is not DNS. -/
theorem dns_report_sound_two : ∃ alert : MeasuredAlert ℝ, ∃ first rest,
    (DnsTunnelDetector.observe ℝ
      (.after ℝ (30 * 10 ^ 9) 2 [dnsAt 0, synAt 1 22, dnsAt 40]) (dnsAt 41)).1 = some alert ∧
      alert.srcIp = some (.v4 (Ipv4Addr.new 10 0 0 5)) ∧
      first :: rest <:+ dnsOf (.v4 (Ipv4Addr.new 10 0 0 5))
        ([dnsAt 0, synAt 1 22, dnsAt 40] ++ [dnsAt 41]) ∧
      ∀ r ∈ rest, r.instant ≤ first.instant + 30 * 10 ^ 9 := by
  have hbatch : batchOf (30 * 10 ^ 9) (·.instant) DnsTunnelDetector.key
      (.v4 (Ipv4Addr.new 10 0 0 5)) ([dnsAt 0, synAt 1 22, dnsAt 40] ++ [dnsAt 41]) =
        some ⟨40 * 10 ^ 9, [dnsAt 40, dnsAt 41]⟩ := rfl
  have hanswer := DnsTunnelDetector.observe_after (φ := ℝ) 2 key_dnsAt hbatch
  have hnone : [dnsAt 40, dnsAt 41].countP (DnsTunnelDetector.suspicious ℝ) = 0 := by
    simp [suspicious_dnsAt]
  rw [hnone] at hanswer
  obtain ⟨hsrc, first, rest, hsuffix, hrecent, -⟩ :=
    dns_report_sound (30 * 10 ^ 9) 2 [dnsAt 0, synAt 1 22, dnsAt 40] (dnsAt 41) _ hanswer
  exact ⟨_, first, rest, hanswer, hsrc, hsuffix, hrecent⟩

/-- One of the packets is a DNS packet of the source that is answered with such an alert. -/
def DnsReported (φ : Type) [Log2Arith φ] (d : DnsTunnelDetector) (src : IpAddr)
    (packets : List Sighting) (P : MeasuredAlert φ → Prop) : Prop :=
  ∃ ps s qs alert, packets = ps ++ s :: qs ∧ DnsTunnelDetector.key s = some src ∧
    (DnsTunnelDetector.observe φ ((DnsTunnelDetector.observe φ).run d ps).2 s).1 = some alert ∧
    P alert

theorem dnsReported_of_batch {φ : Type} [Log2Arith φ] {window : Nat} {queryRateThreshold : UInt32}
    {before ps qs : List Sighting} {s : Sighting} {src : IpAddr} {b : Batch Sighting}
    {P : MeasuredAlert φ → Prop} (hkey : DnsTunnelDetector.key s = some src)
    (hb : batchOf window (·.instant) DnsTunnelDetector.key src ((before ++ ps) ++ [s]) = some b)
    (hreport : ∃ alert, DnsTunnelDetector.report φ window queryRateThreshold s
      (UInt32.ofNat b.items.length)
      (UInt32.ofNat (b.items.countP (DnsTunnelDetector.suspicious φ))) = some alert ∧ P alert) :
    DnsReported φ (.after φ window queryRateThreshold before) src (ps ++ s :: qs) P := by
  obtain ⟨alert, halert, hP⟩ := hreport
  have hrun : DnsTunnelDetector.after φ window queryRateThreshold (before ++ ps) =
      ((DnsTunnelDetector.observe φ).run (.after φ window queryRateThreshold before) ps).2 := by
    rw [DnsTunnelDetector.after, Machine.run_append]
    rfl
  refine ⟨ps, s, qs, alert, rfl, hkey, ?_, hP⟩
  rw [← hrun, DnsTunnelDetector.observe_after _ hkey hb, halert]

/-- Whatever came before, of the DNS packets of a source within a window nine suspicious ones are
reported as tunneling, and twice the threshold less two, but one at least, are reported. -/
theorem dns_tunnel_reported (φ : Type) [Log2Arith φ] (window : Nat) (queryRateThreshold : UInt32)
    (before span : List Sighting) (src : IpAddr) (hbefore : before.length + 1 < 2 ^ 32)
    (hspan : ∀ s ∈ span, ∀ s' ∈ span, s'.instant ≤ s.instant + window) :
    (9 ≤ (dnsOf src span).countP (DnsTunnelDetector.suspicious φ) →
      DnsReported φ (.after φ window queryRateThreshold before) src span fun alert =>
        alert.severity = .high) ∧
    (max 1 (2 * queryRateThreshold.toNat - 2) ≤ (dnsOf src span).length →
      DnsReported φ (.after φ window queryRateThreshold before) src span fun _ => True) := by
  have hge {t : UInt32} {n : Nat} (ht : t.toNat ≤ n) (hn : n < 2 ^ 32) : t ≤ UInt32.ofNat n := by
    rw [UInt32.le_iff_toNat_le, UInt32.toNat_ofNat_of_lt' hn]
    exact ht
  unfold dnsOf
  constructor
  · intro hmany
    have hopen : ∀ b ∈ batchOf window (·.instant) DnsTunnelDetector.key src before, 2 * 5 ≤
        (ofKey DnsTunnelDetector.key src span).countP (DnsTunnelDetector.suspicious φ) + 1 +
          b.items.countP (DnsTunnelDetector.suspicious φ) := fun b _ => by omega
    obtain ⟨ps, s, qs, b, rfl, hkey, -, hb, hfull, hcount⟩ :=
      exists_dense_of_key (p := DnsTunnelDetector.suspicious φ)
        5 (by decide) hspan (by omega) hopen
    refine dnsReported_of_batch hkey hb ?_
    rw [DnsTunnelDetector.report, if_pos (hge (t := 5) hfull (by omega))]
    exact ⟨_, rfl, rfl⟩
  · intro hmany
    have hopen : ∀ b ∈ batchOf window (·.instant) DnsTunnelDetector.key src before,
        2 * max 1 queryRateThreshold.toNat ≤
          (ofKey DnsTunnelDetector.key src span).countP (fun _ => true) + 1 +
            b.items.countP fun _ => true := by
      intro b hb
      have hne := List.length_pos_of_ne_nil (batchOf_spec hb).1.ne_nil
      simp only [List.countP_true]
      omega
    obtain ⟨ps, s, qs, b, rfl, hkey, -, hb, hfull, hcount⟩ :=
      exists_dense_of_key (p := fun _ => true) (max 1 queryRateThreshold.toNat)
        (by omega) hspan (by rw [List.countP_true]; omega) hopen
    simp only [List.countP_true] at hfull hcount
    have hmax := queryRateThreshold.toNat_lt
    have hthreshold := hge ((Nat.le_max_right 1 _).trans hfull) (by omega)
    refine dnsReported_of_batch hkey hb ?_
    rw [DnsTunnelDetector.report, if_pos hthreshold]
    split
    · exact ⟨_, rfl, trivial⟩
    · exact ⟨_, rfl, trivial⟩

/-- Two of them, where two are asked for. -/
theorem dns_tunnel_reported_two : DnsReported Float (.after Float (30 * 10 ^ 9) 2 [dnsAt 0])
    (.v4 (Ipv4Addr.new 10 0 0 5)) [dnsAt 1, dnsAt 2] fun _ => True :=
  (dns_tunnel_reported Float (30 * 10 ^ 9) 2 [dnsAt 0] [dnsAt 1, dnsAt 2]
    (.v4 (Ipv4Addr.new 10 0 0 5)) (by decide) (by decide)).2 (by decide)

end ActiveDefense.Nsm
