import ActiveDefense.Lib.Machine
import ActiveDefense.Lib.TumblingWindow
import ActiveDefense.Nsm.PortScan

/-!
# What a port scan alert counts

The window of a source has the ports and the hosts of a batch of its touches
(`lookup_after`). So a critical alert is about as many ports as it says, all of them touched by
the source within a window of time (`critical_observe_after`).
-/

namespace ActiveDefense.Nsm

namespace PortScanDetector

variable {w : UsizeWidth} {localIps : Finset IpAddr} {window : Nat} {inbound outbound : Thresholds}
  {packets : List Sighting} {s : Sighting} {src : IpAddr} {b : Batch Sighting}

/-- Whether the packet is a touch for a machine with these addresses. -/
def isTouch (localIps : Finset IpAddr) (pkt : PacketMeta) : Bool :=
  pkt.proto = .tcp && isSynOnly pkt.tcpFlags && pkt.dstPort ≠ 0 &&
    (decide (pkt.dstIp ∈ localIps) || decide (pkt.srcIp ∈ localIps))

/-- The source that a packet counts for. -/
def key (localIps : Finset IpAddr) (s : Sighting) : Option IpAddr :=
  if isTouch localIps s.pkt then some s.pkt.srcIp else none

/-- The window of a touch, from the one of its source. -/
def count (window : Nat) (entry : Option Window) (s : Sighting) : Window :=
  let entry := entry.getD ⟨s.instant, ∅, ∅⟩
  let entry := if window < s.instant - entry.started then ⟨s.instant, ∅, ∅⟩ else entry
  { entry with ports := insert s.pkt.dstPort entry.ports, hosts := insert s.pkt.dstIp entry.hosts }

theorem key_eq_some : key localIps s = some src ↔
    isTouch localIps s.pkt = true ∧ s.pkt.srcIp = src := by
  unfold key
  split <;> simp_all

variable (w localIps window inbound outbound) in
theorem keyed_observe : (observe w).Keyed (fun d => d.localIps = localIps ∧ d.window = window ∧
    d.inbound = inbound ∧ d.outbound = outbound) perSrc (key localIps) (count window) where
  keeps d s h := by
    unfold observe
    split
    · exact h
    · exact h
  other d s h hkey := by
    have hnot : ¬ d.counts s.pkt = true := fun hcounts => by
      rw [counts, h.1] at hcounts
      rw [key, isTouch, if_pos hcounts] at hkey
      cases hkey
    rw [observe, if_neg hnot]
  own d s k h hkey := by
    obtain ⟨htouch, rfl⟩ := key_eq_some.mp hkey
    have hcounts : d.counts s.pkt = true := by
      rw [counts, h.1]
      exact htouch
    rw [observe, if_pos hcounts, ← h.2.1]
    rfl

/-- What a window keeps of its batch. -/
def summary (b : Batch Sighting) : Window where
  started := b.started
  ports := (b.items.map (·.pkt.dstPort)).toFinset
  hosts := (b.items.map (·.pkt.dstIp)).toFinset

theorem summary_snoc (started : Nat) (items : List Sighting) : summary ⟨started, items ++ [s]⟩ =
    ⟨started, insert s.pkt.dstPort (items.map (·.pkt.dstPort)).toFinset,
      insert s.pkt.dstIp (items.map (·.pkt.dstIp)).toFinset⟩ := by
  rw [summary, List.map_append, List.map_append, List.toFinset_append, List.toFinset_append,
    Finset.union_comm, Finset.union_comm (items.map _).toFinset]
  rfl

theorem count_map_summary (b : Option (Batch Sighting)) (s : Sighting) :
    count window (b.map summary) s = summary (Batch.add window b s.instant s) := by
  cases b with
  | none =>
    rw [Batch.add_of_late (by simp), count, Option.map_none, Option.getD_none, ite_self]
    exact (summary_snoc s.instant []).symm
  | some b =>
    rw [count, Option.map_some, Option.getD_some]
    by_cases hover : window < s.instant - (summary b).started
    · rw [if_pos hover, Batch.add_of_late (by rintro _ ⟨rfl⟩; exact hover)]
      exact (summary_snoc s.instant []).symm
    · rw [if_neg hover, Batch.add_of_open hover, summary_snoc]
      rfl

/-- The detector after any packets. -/
def after (w : UsizeWidth) (localIps : Finset IpAddr) (window : Nat)
    (inbound outbound : Thresholds) (packets : List Sighting) : PortScanDetector :=
  ((observe w).run (new localIps window inbound outbound) packets).2

theorem kept_after :
    (after w localIps window inbound outbound packets).localIps = localIps ∧
      (after w localIps window inbound outbound packets).window = window ∧
      (after w localIps window inbound outbound packets).inbound = inbound ∧
      (after w localIps window inbound outbound packets).outbound = outbound :=
  (keyed_observe w localIps window inbound outbound).pointwise.run ⟨rfl, rfl, rfl, rfl⟩

/-- Its windows are those of the batches. -/
theorem lookup_after :
    (after w localIps window inbound outbound packets).perSrc.lookup src =
      (batchOf window (·.instant) (key localIps) src packets).map summary := by
  rw [after, (keyed_observe w localIps window inbound outbound).lookup_run ⟨rfl, rfl, rfl, rfl⟩]
  exact foldl_eq_map_batchAfter (b := none) count_map_summary

/-- A touch is answered with the report of its batch. -/
theorem observe_after (hkey : key localIps s = some src)
    (hb : batchOf window (·.instant) (key localIps) src (packets ++ [s]) = some b) :
    (observe w (after w localIps window inbound outbound packets) s).1 =
      (after w localIps window inbound outbound packets).report w s
        (b.items.map (·.pkt.dstPort)).toFinset.card (b.items.map (·.pkt.dstIp)).toFinset.card := by
  obtain ⟨htouch, rfl⟩ := key_eq_some.mp hkey
  have hcounts : (after w localIps window inbound outbound packets).counts s.pkt = true := by
    rw [counts, kept_after.1]
    exact htouch
  have htouched : (after w localIps window inbound outbound packets).touched s = summary b := by
    have hcount : count window ((after w localIps window inbound outbound packets).perSrc.lookup
        s.pkt.srcIp) s = summary b := by
      rw [lookup_after, count_map_summary]
      exact congrArg summary (Option.some.inj ((batchOf_snoc hkey).symm.trans hb))
    rw [← hcount, touched, opened, kept_after.2.1]
    rfl
  rw [observe, if_pos hcounts]
  dsimp only
  rw [htouched]
  rfl

/-- A critical alert comes from a touch whose batch has five times the ports that the threshold
asks for. -/
theorem critical_report {d : PortScanDetector} {nPorts nHosts : Nat} {alert : Alert}
    (h : d.report w s nPorts nHosts = some alert) (hcritical : alert.severity = .critical) :
    alert.srcIp = some s.pkt.srcIp ∧ w.saturatingMul (d.side s.pkt).1.portThreshold 5 ≤ nPorts := by
  unfold report at h
  dsimp only at h
  split at h
  · cases h
    refine ⟨rfl, ?_⟩
    by_contra hfew
    rw [if_neg hfew] at hcritical
    cases hcritical
  · split at h
    · cases h
      dsimp only at hcritical
      split at hcritical <;> cases hcritical
    · cases h

end PortScanDetector

/-- The touches of a source. -/
def touchesOf (localIps : Finset IpAddr) (src : IpAddr) (packets : List Sighting) :
    List Sighting :=
  ofKey (PortScanDetector.key localIps) src packets

/-- The ports that some packets go to. -/
def portsOf (packets : List Sighting) : Finset UInt16 := (packets.map (·.pkt.dstPort)).toFinset

/-- After any packets, a critical alert is about a touch and the last touches of its source, no more
than a window after the first of them, and these have five times as many ports as the threshold asks
for. -/
theorem critical_observe_after {w : UsizeWidth} {localIps : Finset IpAddr} {window : Nat}
    {inbound outbound : Thresholds} {packets : List Sighting} {s : Sighting} {alert : Alert}
    (h : (PortScanDetector.observe w (.after w localIps window inbound outbound packets) s).1 =
      some alert) (hcritical : alert.severity = .critical) :
    alert.srcIp = some s.pkt.srcIp ∧ PortScanDetector.isTouch localIps s.pkt = true ∧
      ∃ first rest, first :: rest <:+ touchesOf localIps s.pkt.srcIp (packets ++ [s]) ∧
      (∀ r ∈ rest, r.instant ≤ first.instant + window) ∧
      w.saturatingMul (if s.pkt.dstIp ∈ localIps then inbound else outbound).portThreshold 5 ≤
        (portsOf (first :: rest)).card := by
  have htouch : PortScanDetector.isTouch localIps s.pkt = true := by
    by_contra hnot
    have hcounts : ¬ (PortScanDetector.after w localIps window inbound outbound packets).counts
        s.pkt = true := by
      rw [PortScanDetector.counts, PortScanDetector.kept_after.1]
      exact hnot
    rw [PortScanDetector.observe, if_neg hcounts] at h
    cases h
  have hkey := PortScanDetector.key_eq_some.mpr ⟨htouch, rfl⟩
  obtain ⟨b, hb⟩ : ∃ b, batchOf window (·.instant) (PortScanDetector.key localIps) s.pkt.srcIp
      (packets ++ [s]) = some b := ⟨_, batchOf_snoc hkey⟩
  rw [PortScanDetector.observe_after hkey hb] at h
  obtain ⟨hsrc, hmany⟩ := PortScanDetector.critical_report h hcritical
  obtain ⟨hvalid, hsuffix⟩ := batchOf_spec hb
  obtain ⟨first, rest, hitems, hfirst⟩ := hvalid.first
  rw [hitems] at hsuffix hmany
  refine ⟨hsrc, htouch, first, rest, hsuffix, fun r hr => ?_, ?_⟩
  · rw [hfirst]
    exact hvalid.recent r (hitems ▸ List.mem_cons_of_mem _ hr)
  · have hside : ((PortScanDetector.after w localIps window inbound outbound packets).side
        s.pkt).1 = if s.pkt.dstIp ∈ localIps then inbound else outbound := by
      unfold PortScanDetector.side
      rw [PortScanDetector.kept_after.1, PortScanDetector.kept_after.2.2.1,
        PortScanDetector.kept_after.2.2.2]
      split <;> rfl
    rw [hside] at hmany
    exact hmany

end ActiveDefense.Nsm
