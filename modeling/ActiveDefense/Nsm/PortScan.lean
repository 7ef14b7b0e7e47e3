import ActiveDefense.Lib.Machine
import ActiveDefense.Lib.Table
import ActiveDefense.Nsm.Control
import ActiveDefense.Nsm.Packet
import ActiveDefense.Rust.Usize
import Mathlib.Data.Finset.Card

/-!
# The port scan detector

For each source `PortScanDetector` keeps the ports and the hosts it has touched since a start, and
forgets all of them with the first touch that comes more than a window after the start. So the
windows of a source follow one another, and a scan that goes on from one into the next counts in
parts. A scan is reported if it stays within one of them: its first touch starts a window, or its
last one comes while the window of its first is open (`scan_reported`). Otherwise it need not be
(`not_scan_reported`).
-/

namespace ActiveDefense.Nsm

/-! ## The detector -/

/-- `Severity` of an alert. -/
inductive Severity where
  | info
  | low
  | medium
  | high
  | critical
deriving DecidableEq, Repr

/-- A value in the `extra` of an alert. -/
inductive Extra where
  | number (n : Nat)
  | string (s : Str)
deriving DecidableEq, Repr

/-- `Alert`. -/
structure Alert where
  tsUnix : UInt64
  severity : Severity
  detector : Str
  message : Str
  srcIp : Option IpAddr
  dstIp : Option IpAddr
  extra : List (Str × Extra)
deriving DecidableEq, Repr

/-- `is_syn_only`. -/
def isSynOnly (flags : UInt8) : Bool := flags &&& 2 ≠ 0 && flags &&& 16 = 0

/-- `Window`: what a source has touched since a start. -/
structure Window where
  started : Nat
  ports : Finset UInt16
  hosts : Finset IpAddr

/-- `Thresholds`. -/
structure Thresholds where
  portThreshold : Nat
  hostThreshold : Nat
deriving DecidableEq, Repr

/-- `PortScanDetector`; the window is in nanoseconds. -/
structure PortScanDetector where
  localIps : Finset IpAddr
  perSrc : Table IpAddr Window
  window : Nat
  inbound : Thresholds
  outbound : Thresholds

/-- `PortScanDetector::new`. -/
def PortScanDetector.new (localIps : Finset IpAddr) (window : Nat)
    (inbound outbound : Thresholds) : PortScanDetector :=
  { localIps, perSrc := ∅, window, inbound, outbound }

/-- A packet, with what the two clocks say when it is observed. -/
structure Sighting where
  instant : Nat
  tsUnix : UInt64
  pkt : PacketMeta
deriving DecidableEq, Repr

/-- Whether the packet is a touch: a connection attempt, from or to this machine. -/
def PortScanDetector.counts (d : PortScanDetector) (pkt : PacketMeta) : Bool :=
  pkt.proto = .tcp && isSynOnly pkt.tcpFlags && pkt.dstPort ≠ 0 &&
    (decide (pkt.dstIp ∈ d.localIps) || decide (pkt.srcIp ∈ d.localIps))

/-- The thresholds and the direction of a touch. -/
def PortScanDetector.side (d : PortScanDetector) (pkt : PacketMeta) : Thresholds × Str :=
  if pkt.dstIp ∈ d.localIps then (d.inbound, "inbound".toList)
  else (d.outbound, "outbound".toList)

/-- The window of a touch, without it: the one of its source, or a new one. -/
def PortScanDetector.opened (d : PortScanDetector) (s : Sighting) : Window :=
  let entry := (d.perSrc.lookup s.pkt.srcIp).getD ⟨s.instant, ∅, ∅⟩
  if d.window < s.instant - entry.started then ⟨s.instant, ∅, ∅⟩ else entry

/-- The window of a touch, with it. -/
def PortScanDetector.touched (d : PortScanDetector) (s : Sighting) : Window :=
  let entry := d.opened s
  { entry with ports := insert s.pkt.dstPort entry.ports, hosts := insert s.pkt.dstIp entry.hosts }

/-- What is reported of a source with so many ports and hosts in its window. -/
def PortScanDetector.report (w : UsizeWidth) (d : PortScanDetector) (s : Sighting)
    (nPorts nHosts : Nat) : Option Alert :=
  let (thresholds, direction) := d.side s.pkt
  let within := " within ".toList ++ debugDuration d.window ++ " (".toList ++ direction
  if thresholds.portThreshold ≤ nPorts then
    some
      { tsUnix := s.tsUnix
        severity :=
          if w.saturatingMul thresholds.portThreshold 5 ≤ nPorts then .critical else .high
        detector := "portscan".toList
        message := s.pkt.srcIp.display ++ " touched ".toList ++ decimal nPorts ++
          " distinct ports".toList ++ within ++ " vertical scan)".toList
        srcIp := some s.pkt.srcIp
        dstIp := if s.pkt.dstIp ∈ d.localIps then some s.pkt.dstIp else none
        extra :=
          [("distinct_ports".toList, .number nPorts), ("direction".toList, .string direction)] }
  else if thresholds.hostThreshold ≤ nHosts then
    some
      { tsUnix := s.tsUnix
        severity := if direction = "inbound".toList then .medium else .low
        detector := "portscan".toList
        message := s.pkt.srcIp.display ++ " touched ".toList ++ decimal nHosts ++
          " distinct hosts".toList ++ within ++ " horizontal scan)".toList
        srcIp := some s.pkt.srcIp
        dstIp := none
        extra :=
          [("distinct_hosts".toList, .number nHosts), ("direction".toList, .string direction)] }
  else none

/-- `PortScanDetector::observe`. -/
def PortScanDetector.observe (w : UsizeWidth) : Machine PortScanDetector Sighting (Option Alert) :=
  fun d s =>
    if d.counts s.pkt then
      let entry := d.touched s
      (d.report w s entry.ports.card entry.hosts.card,
        { d with perSrc := AList.insert s.pkt.srcIp entry d.perSrc })
    else (none, d)

/-! ## Scans -/

/-- The packet is a SYN-only segment from the one address to the other. -/
def touches (src dst : IpAddr) (pkt : PacketMeta) : Bool :=
  pkt.proto = .tcp && isSynOnly pkt.tcpFlags && pkt.srcIp = src && pkt.dstIp = dst

/-- The ports that the one address sends SYN-only segments to of the other. -/
def scannedPorts (src dst : IpAddr) : List Sighting → Finset UInt16
  | [] => ∅
  | s :: rest =>
    if touches src dst s.pkt then insert s.pkt.dstPort (scannedPorts src dst rest)
    else scannedPorts src dst rest

/-- One of the packets has an alert raised for the source. -/
def Reported (w : UsizeWidth) (d : PortScanDetector) (src : IpAddr) (packets : List Sighting) :
    Prop :=
  ∃ alert, some alert ∈ ((PortScanDetector.observe w).run d packets).1 ∧
    alert.detector = "portscan".toList ∧ alert.srcIp = some src

namespace PortScanDetector

variable {w : UsizeWidth} {d : PortScanDetector} {s : Sighting} {src dst : IpAddr}

/-! ### One packet -/

@[simp] theorem observe_localIps : (observe w d s).2.localIps = d.localIps := by
  unfold observe
  split <;> rfl

@[simp] theorem observe_window : (observe w d s).2.window = d.window := by
  unfold observe
  split <;> rfl

@[simp] theorem observe_inbound : (observe w d s).2.inbound = d.inbound := by
  unfold observe
  split <;> rfl

/-- A touch leaves its source with the window that has it. -/
theorem lookup_observe_of_counts (h : d.counts s.pkt = true) :
    (observe w d s).2.perSrc.lookup s.pkt.srcIp = some (d.touched s) := by
  rw [observe, if_pos h]
  exact AList.lookup_insert _

/-- Other packets leave it with the window it has. -/
theorem lookup_observe_of_other (h : ¬ (d.counts s.pkt = true ∧ s.pkt.srcIp = src)) :
    (observe w d s).2.perSrc.lookup src = d.perSrc.lookup src := by
  unfold observe
  split
  · next hcounts => exact AList.lookup_insert_ne fun heq => h ⟨hcounts, heq.symm⟩
  · rfl

/-- A segment to a port of a local address is a touch, but for port 0. -/
theorem counts_of_touches (hdst : dst ∈ d.localIps) (h : touches src dst s.pkt = true)
    (hport : s.pkt.dstPort ≠ 0) : d.counts s.pkt = true := by
  simp only [touches, Bool.and_eq_true, decide_eq_true_eq] at h
  obtain ⟨⟨⟨htcp, hsyn⟩, -⟩, rfl⟩ := h
  simp [counts, htcp, hsyn, hport, hdst]

theorem srcIp_of_touches (h : touches src dst s.pkt = true) : s.pkt.srcIp = src := by
  simp only [touches, Bool.and_eq_true, decide_eq_true_eq] at h
  exact h.1.2

/-- A touch of a local address is reported where its window has the ports. -/
theorem reported_of_touches (hdst : dst ∈ d.localIps) (h : touches src dst s.pkt = true)
    (hport : s.pkt.dstPort ≠ 0) (hports : d.inbound.portThreshold ≤ (d.touched s).ports.card) :
    ∃ alert, (observe w d s).1 = some alert ∧ alert.detector = "portscan".toList ∧
      alert.srcIp = some src := by
  have hcounts := counts_of_touches hdst h hport
  obtain rfl := srcIp_of_touches h
  have hlocal : s.pkt.dstIp ∈ d.localIps := by
    simp only [touches, Bool.and_eq_true, decide_eq_true_eq] at h
    exact h.2 ▸ hdst
  have hside : d.side s.pkt = (d.inbound, "inbound".toList) := if_pos hlocal
  rw [observe, if_pos hcounts]
  dsimp only [report]
  rw [hside, if_pos hports]
  exact ⟨_, rfl, rfl, rfl⟩

/-- While its window is open, a touch is added to it. -/
theorem touched_of_open {entry : Window} (hentry : d.perSrc.lookup s.pkt.srcIp = some entry)
    (hopen : s.instant ≤ entry.started + d.window) :
    (d.touched s).started = entry.started ∧
      (d.touched s).ports = insert s.pkt.dstPort entry.ports := by
  have hkept : d.opened s = entry := by
    rw [opened, hentry]
    exact if_neg (by simp only [Option.getD_some]; omega)
  rw [touched, hkept]
  exact ⟨rfl, rfl⟩

/-- A touch that finds no open window starts one. -/
theorem touched_of_closed (h : ∀ entry, d.perSrc.lookup s.pkt.srcIp = some entry →
    d.window < s.instant - entry.started) : (d.touched s).started = s.instant := by
  have hnew : d.opened s = ⟨s.instant, ∅, ∅⟩ := by
    unfold opened
    cases hentry : d.perSrc.lookup s.pkt.srcIp with
    | none => exact ite_self _
    | some entry => exact if_pos (h entry hentry)
  rw [touched, hnew]

theorem mem_ports_touched : s.pkt.dstPort ∈ (d.touched s).ports := Finset.mem_insert_self ..

/-! ### A scan -/

/-- Ports other than 0, of a first packet and of the rest. -/
theorem erase_scannedPorts_cons {rest : List Sighting} :
    (scannedPorts src dst (s :: rest)).erase 0 =
      if touches src dst s.pkt = true ∧ s.pkt.dstPort ≠ 0 then
        insert s.pkt.dstPort ((scannedPorts src dst rest).erase 0)
      else (scannedPorts src dst rest).erase 0 := by
  rw [scannedPorts]
  by_cases htouch : touches src dst s.pkt = true
  · rw [if_pos htouch]
    split
    · next h => rw [Finset.erase_insert_of_ne h.2]
    · next h =>
      have hport : s.pkt.dstPort = 0 := by
        by_contra hport
        exact h ⟨htouch, hport⟩
      rw [hport, Finset.erase_insert_eq_erase]
  · rw [if_neg htouch, if_neg fun h => htouch h.1]

theorem reported_of_first {packets : List Sighting} (h : ∃ alert, (observe w d s).1 = some alert ∧
    alert.detector = "portscan".toList ∧ alert.srcIp = some src) :
    Reported w d src (s :: packets) := by
  obtain ⟨alert, halert, hdetector, hsrc⟩ := h
  refine ⟨alert, ?_, hdetector, hsrc⟩
  rw [Machine.run, ← halert]
  exact .head _

theorem reported_of_rest {packets : List Sighting} (h : Reported w (observe w d s).2 src packets) :
    Reported w d src (s :: packets) := by
  obtain ⟨alert, halert, hdetector, hsrc⟩ := h
  exact ⟨alert, List.mem_cons_of_mem _ halert, hdetector, hsrc⟩

/-- While the window of the source is open, ports that are in it count together with those that
come: by induction on the packets, of which the first that completes the threshold is reported. -/
theorem reported_of_open (hdst : dst ∈ d.localIps) {rest : List Sighting} {entry : Window}
    (hentry : d.perSrc.lookup src = some entry)
    (hopen : ∀ s ∈ rest, s.pkt.srcIp = src → s.instant ≤ entry.started + d.window)
    {ports : Finset UInt16} (hseen : ports ⊆ entry.ports)
    (hfew : ports.card < d.inbound.portThreshold)
    (hall : d.inbound.portThreshold ≤ (ports ∪ (scannedPorts src dst rest).erase 0).card) :
    Reported w d src rest := by
  induction rest generalizing d entry ports with
  | nil =>
    rw [scannedPorts, Finset.erase_empty, Finset.union_empty] at hall
    exact absurd hall (Nat.not_le.mpr hfew)
  | cons s rest ih =>
    have hrest := fun s' hs' => hopen s' (List.mem_cons_of_mem s hs')
    rw [erase_scannedPorts_cons] at hall
    by_cases hown : d.counts s.pkt = true ∧ s.pkt.srcIp = src
    · obtain ⟨hcounts, rfl⟩ := hown
      obtain ⟨hstarted, hports⟩ := touched_of_open hentry (hopen s (.head _) rfl)
      have hentry' := lookup_observe_of_counts (w := w) hcounts
      have hopen' : ∀ s' ∈ rest, s'.pkt.srcIp = s.pkt.srcIp →
          s'.instant ≤ (d.touched s).started + (observe w d s).2.window := by
        rw [hstarted, observe_window]
        exact hrest
      by_cases htouch : touches s.pkt.srcIp dst s.pkt = true ∧ s.pkt.dstPort ≠ 0
      · rw [if_pos htouch, ← Finset.insert_union_comm] at hall
        have hseen' : insert s.pkt.dstPort ports ⊆ (d.touched s).ports :=
          hports ▸ Finset.insert_subset_insert _ hseen
        by_cases hdone : d.inbound.portThreshold ≤ (insert s.pkt.dstPort ports).card
        · exact reported_of_first (reported_of_touches hdst htouch.1 htouch.2
            (Nat.le_trans hdone (Finset.card_le_card hseen')))
        · refine reported_of_rest (ih (by simpa using hdst) hentry' hopen' hseen' ?_ ?_)
          · simpa using hdone
          · simpa using hall
      · rw [if_neg htouch] at hall
        have hseen' : ports ⊆ (d.touched s).ports :=
          hports ▸ hseen.trans (Finset.subset_insert _ _)
        refine reported_of_rest (ih (by simpa using hdst) hentry' hopen' hseen' ?_ ?_)
        · simpa using hfew
        · simpa using hall
    · have hnot : ¬ (touches src dst s.pkt = true ∧ s.pkt.dstPort ≠ 0) := by
        rintro ⟨htouch, hport⟩
        exact hown ⟨counts_of_touches hdst htouch hport, srcIp_of_touches htouch⟩
      rw [if_neg hnot] at hall
      have hentry' := (lookup_observe_of_other (w := w) hown).trans hentry
      refine reported_of_rest (ih (by simpa using hdst) hentry' ?_ hseen ?_ ?_)
      · rw [observe_window]
        exact hrest
      · simpa using hfew
      · simpa using hall

/-- A scan within one window of the source, whichever it is, is reported. -/
theorem reported_of_phase (hdst : dst ∈ d.localIps) {first : Sighting} {rest : List Sighting}
    (hfirst : touches src dst first.pkt = true) (hport : first.pkt.dstPort ≠ 0)
    (hspan : ∀ s ∈ rest, s.instant ≤ first.instant + d.window)
    (hphase : ∀ entry, d.perSrc.lookup src = some entry →
      d.window < first.instant - entry.started ∨
        ∀ s ∈ rest, s.pkt.srcIp = src → s.instant ≤ entry.started + d.window)
    (hports : d.inbound.portThreshold ≤ ((scannedPorts src dst (first :: rest)).erase 0).card) :
    Reported w d src (first :: rest) := by
  have hcounts := counts_of_touches hdst hfirst hport
  obtain rfl := srcIp_of_touches hfirst
  have hopen : ∀ s ∈ rest, s.pkt.srcIp = first.pkt.srcIp →
      s.instant ≤ (d.touched first).started + d.window := by
    intro s hs hsrc
    by_cases hclosed : ∀ entry, d.perSrc.lookup first.pkt.srcIp = some entry →
        d.window < first.instant - entry.started
    · rw [touched_of_closed hclosed]
      exact hspan s hs
    · obtain ⟨entry, hentry⟩ := Classical.not_forall.mp hclosed
      obtain ⟨hlookup, hkept⟩ := Classical.not_imp.mp hentry
      rw [(touched_of_open hlookup (by omega)).1]
      exact (hphase entry hlookup).resolve_left hkept s hs hsrc
  rw [erase_scannedPorts_cons, if_pos ⟨hfirst, hport⟩] at hports
  by_cases hone : d.inbound.portThreshold ≤ 1
  · have hseen := Finset.card_pos.mpr ⟨_, mem_ports_touched (d := d) (s := first)⟩
    exact reported_of_first (reported_of_touches hdst hfirst hport (by omega))
  · refine reported_of_rest (reported_of_open (by simpa using hdst)
      (lookup_observe_of_counts hcounts) ?_ (Finset.singleton_subset_iff.mpr mem_ports_touched)
      ?_ ?_)
    · rw [observe_window]
      exact hopen
    · simpa using hone
    · simpa using hports

theorem run_kept (packets : List Sighting) :
    ((observe w).run d packets).2.localIps = d.localIps ∧
      ((observe w).run d packets).2.window = d.window ∧
      ((observe w).run d packets).2.inbound = d.inbound := by
  induction packets generalizing d with
  | nil => exact ⟨rfl, rfl, rfl⟩
  | cons s rest ih => simpa [Machine.run] using ih (d := (observe w d s).2)

end PortScanDetector

/-- After any packets: SYN-only segments from a source to enough ports of a local address, port 0
apart, that come within a window are reported for the source at the latest with the last of them, if
the first of them starts a window of the source, or if they all come while the window that it falls
in is open. -/
theorem scan_reported (w : UsizeWidth) (localIps : Finset IpAddr) (window : Nat)
    (inbound outbound : Thresholds) (before rest : List Sighting) (first : Sighting)
    {src dst : IpAddr} (hdst : dst ∈ localIps) (hfirst : touches src dst first.pkt = true)
    (hport : first.pkt.dstPort ≠ 0) (hspan : ∀ s ∈ rest, s.instant ≤ first.instant + window)
    (hphase : ∀ entry, ((PortScanDetector.observe w).run
        (.new localIps window inbound outbound) before).2.perSrc.lookup src = some entry →
      window < first.instant - entry.started ∨
        ∀ s ∈ rest, s.pkt.srcIp = src → s.instant ≤ entry.started + window)
    (hports : inbound.portThreshold ≤ ((scannedPorts src dst (first :: rest)).erase 0).card) :
    Reported w ((PortScanDetector.observe w).run (.new localIps window inbound outbound) before).2
      src (first :: rest) := by
  obtain ⟨hlocal, hwindow, hinbound⟩ := PortScanDetector.run_kept (w := w)
    (d := .new localIps window inbound outbound) before
  refine PortScanDetector.reported_of_phase (hlocal ▸ hdst) hfirst hport ?_ ?_ ?_
  · rw [hwindow]
    exact hspan
  · rw [hwindow]
    exact hphase
  · rw [hinbound]
    exact hports

/-! ### A scan across two windows -/

/-- A connection attempt from 10.0.0.5 to a port of 10.0.0.1, a second count after the start. -/
def synAt (seconds : Nat) (port : UInt16) : Sighting where
  instant := seconds * 10 ^ 9
  tsUnix := UInt64.ofNat seconds
  pkt :=
    { ts := 0, srcIp := .v4 (Ipv4Addr.new 10 0 0 5), dstIp := .v4 (Ipv4Addr.new 10 0 0 1)
      srcPort := 40000, dstPort := port, proto := .tcp, tcpFlags := 2, length := 40
      payloadHead := [] }

/-- The ports from one to another. -/
def portRange (first count : Nat) : List UInt16 :=
  (List.range count).map fun i => UInt16.ofNat (first + i)

/-- Ten ports after six seconds and ten others after eleven. -/
def straddlingScan : List Sighting :=
  (portRange 2 10).map (synAt 6) ++ (portRange 12 10).map (synAt 11)

/-- The addresses of the machine. -/
def oneLocalIp : Finset IpAddr := {.v4 (Ipv4Addr.new 10 0 0 1)}

/-- The detector as the engine builds it. -/
def defaultDetector : PortScanDetector :=
  .new oneLocalIp (10 * 10 ^ 9) ⟨20, 15⟩ ⟨60, 40⟩

/-- The scan alone starts a window, and is reported. -/
theorem scan_reported_alone : Reported .w64 defaultDetector (.v4 (Ipv4Addr.new 10 0 0 5))
    (synAt 6 2 :: ((portRange 3 9).map (synAt 6) ++ (portRange 12 10).map (synAt 11))) := by
  have hdst : IpAddr.v4 (Ipv4Addr.new 10 0 0 1) ∈ oneLocalIp := by decide
  exact scan_reported .w64 oneLocalIp (10 * 10 ^ 9) ⟨20, 15⟩ ⟨60, 40⟩ [] _ _ hdst (by decide)
    (by decide) (by decide) (fun _ hentry => nomatch hentry) (by decide)

/-- After one segment at the start, nothing is reported of the scan: with the eleventh second its
window is over, and the first ten ports are forgotten. -/
theorem not_scan_reported :
    ¬ ∀ (w : UsizeWidth) (localIps : Finset IpAddr) (window : Nat) (inbound outbound : Thresholds)
      (before scan : List Sighting) (src dst : IpAddr),
      ((before ++ scan).map (·.instant)).Pairwise (· ≤ ·) → dst ∈ localIps → scan ≠ [] →
      (∀ s ∈ scan, ∀ s' ∈ scan, s'.instant ≤ s.instant + window) →
      inbound.portThreshold ≤ (scannedPorts src dst scan).card →
      Reported w (.new localIps window inbound outbound) src (before ++ scan) := by
  intro h
  have hsilent : ((PortScanDetector.observe .w64).run defaultDetector
      (synAt 0 1 :: straddlingScan)).1.all Option.isNone = true := by
    decide
  obtain ⟨alert, halert, -⟩ := h .w64 oneLocalIp (10 * 10 ^ 9) ⟨20, 15⟩ ⟨60, 40⟩ [synAt 0 1]
    straddlingScan (.v4 (Ipv4Addr.new 10 0 0 5)) (.v4 (Ipv4Addr.new 10 0 0 1)) (by decide)
    (by decide) (by decide) (by decide) (by decide)
  have hnone := List.all_eq_true.mp hsilent _ halert
  cases hnone

end ActiveDefense.Nsm
