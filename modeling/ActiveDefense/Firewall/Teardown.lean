import ActiveDefense.Firewall.Conntrack
import ActiveDefense.Lib.Machine

/-!
# Flows that are torn down

A packet with FIN or RST puts the entry of its flow into `FinWait`, where the short timeout of
handshakes applies to it. `Watched` is the connection table with the flows whose entry has seen such
a packet. The state is computed again at each packet, from the flags alone: after a SYN with ACK the
entry of a closing flow counts as a handshake, and the packet after that establishes it. A flow
admitted by its last packet is established from the start. Where none of this happens, closing
flows keep the short timeout (`each_settled_iff`).
-/

namespace ActiveDefense.Firewall

/-- The packet has FIN or RST. -/
def ParsedPacket.closes (pkt : ParsedPacket) : Bool := pkt.tcpFlags.any fun f => f.rst || f.fin

/-- The packet has TCP flags, but neither FIN nor RST, nor SYN with ACK. -/
def ParsedPacket.continues (pkt : ParsedPacket) : Bool :=
  pkt.tcpFlags.any fun f => !(f.rst || f.fin) && !(f.syn && f.ack)

/-- The packet has SYN without ACK. -/
def ParsedPacket.opens (pkt : ParsedPacket) : Bool := pkt.tcpFlags.any fun f => f.syn && !f.ack

/-! ## The state of an entry -/

section
variable {entry : FlowEntry} {pkt : ParsedPacket} {now : Instant}

theorem FlowEntry.see_of_closes (h : pkt.closes = true) : (entry.see pkt now).state = .finWait := by
  obtain ⟨f, hf, hcloses⟩ := Option.any_eq_true _ _ |>.mp h
  simp [see, hf, TcpState.next, hcloses]

/-- An entry is established by a packet that goes on after SYN with ACK, and by nothing else. -/
theorem FlowEntry.see_eq_established_iff (h : entry.state ≠ .established) :
    (entry.see pkt now).state = .established ↔
      entry.state = .synAckSeen ∧ pkt.continues = true := by
  cases hflags : pkt.tcpFlags with
  | none => simp [see, hflags, h, ParsedPacket.continues]
  | some f =>
    simp only [see, hflags, ParsedPacket.continues, TcpState.next, Option.map_some,
      Option.getD_some, Option.any_some, Bool.and_eq_true, Bool.not_eq_true']
    split
    · next hcloses => simp [hcloses]
    · next hcloses =>
      split
      · next hsynAck => simp [hsynAck]
      · next hsynAck =>
        rw [Bool.not_eq_true] at hcloses
        rw [← Bool.and_eq_true, Bool.not_eq_true] at hsynAck
        split
        · next hstate => exact iff_of_true rfl ⟨hstate, hcloses, hsynAck⟩
        · next hstate => exact iff_of_false h fun hgoes => hstate hgoes.1

end

namespace ConnTrack

theorem firstState_eq_established_iff {pkt : ParsedPacket} :
    firstState pkt.tcpFlags = .established ↔ pkt.opens = false := by
  cases hflags : pkt.tcpFlags with
  | none => simp [firstState, ParsedPacket.opens, hflags]
  | some f =>
    simp only [firstState, ParsedPacket.opens, hflags, Option.any_some]
    split
    · next h => simp [h]
    · next h => exact iff_of_true rfl (Bool.not_eq_true _ ▸ h)

/-- The timeout of the entry is the one of handshakes, whatever the two are set to. -/
def Transitory (key : FlowKey) (entry : FlowEntry) : Prop :=
  ∀ cfg, timeout cfg key entry = .fromSecs cfg.tcpTransitoryTimeoutSecs

theorem transitory_iff {key : FlowKey} {entry : FlowEntry} (h : key.proto = 6) :
    Transitory key entry ↔ entry.state ≠ .established := by
  constructor
  · intro hall hstate
    have htimeout := hall
      { maxEntries := 0, tcpEstablishedTimeoutSecs := 1, tcpTransitoryTimeoutSecs := 0
        udpTimeoutSecs := 0 }
    rw [timeout, if_pos h, if_pos hstate] at htimeout
    exact absurd htimeout (by decide)
  · intro hstate cfg
    rw [timeout, if_pos h, if_neg hstate]

/-! ## The table with what is closing -/

/-- A call on the connection table, by a worker or by the maintenance thread. -/
inductive Call where
  | lookupOrAdmit (pkt : ParsedPacket) (now : Instant)
  | recordNew (pkt : ParsedPacket) (now : Instant)
  | sweepExpired (now : Instant)
deriving DecidableEq, Repr

/-- The connection table, with the flows whose entry has seen FIN or RST since it is in the
table. -/
structure Watched where
  conntrack : ConnTrack
  closing : List FlowKey

namespace Watched

/-- The table at the start of the program. -/
def start (cfg : ConntrackConfig) : Watched := ⟨.new cfg, []⟩

/-- The calls. A packet that is looked up is seen by the entry of its flow, one that is recorded by
its own; an entry that is swept has seen nothing. -/
def call : Machine Watched Call (Option LookupResult) := fun w c =>
  match c with
  | .lookupOrAdmit pkt now =>
    let (result, conntrack) := w.conntrack.lookupOrAdmit pkt now
    let seen := pkt.closes && decide (pkt.flowKey ∈ w.conntrack.table)
    (some result, ⟨conntrack, if seen then pkt.flowKey :: w.closing else w.closing⟩)
  | .recordNew pkt now =>
    (none, ⟨w.conntrack.recordNew pkt now,
      if pkt.closes then pkt.flowKey :: w.closing else w.closing⟩)
  | .sweepExpired now =>
    let conntrack := w.conntrack.sweepExpired now
    (none, ⟨conntrack, w.closing.filter fun key => decide (key ∈ conntrack.table)⟩)

/-- The entries of the TCP flows that are closing have the timeout of handshakes. -/
def Settled (w : Watched) : Prop :=
  ∀ key ∈ w.closing, key.proto = 6 → ∀ entry, w.conntrack.table.lookup key = some entry →
    Transitory key entry

/-- The call leaves the timeout of closing flows: no packet goes on in one of them while its entry
is in `SynAckSeen`, and a packet without SYN, or with SYN and ACK, is not recorded for one of them
or with FIN or RST itself. -/
def Keeps (w : Watched) : Call → Prop
  | .lookupOrAdmit pkt _ => pkt.flowKey ∈ w.closing → pkt.flowKey.proto = 6 →
      ∀ entry, w.conntrack.table.lookup pkt.flowKey = some entry → entry.state = .synAckSeen →
        pkt.continues = false
  | .recordNew pkt _ => pkt.flowKey.proto = 6 → pkt.closes = true ∨ pkt.flowKey ∈ w.closing →
      pkt.opens = true
  | .sweepExpired _ => True

section
variable {w : Watched} {key : FlowKey} {entry : FlowEntry} {pkt : ParsedPacket} {now : Instant}

theorem Settled.state_ne (h : w.Settled) (hkey : key ∈ w.closing) (hproto : key.proto = 6)
    (hentry : w.conntrack.table.lookup key = some entry) : entry.state ≠ .established :=
  (transitory_iff hproto).mp (h key hkey hproto entry hentry)

/-- A new entry of one flow is all there is to look at. -/
theorem settled_insert_iff (h : w.Settled) {closing : List FlowKey}
    (hclosing : ∀ k, k ≠ key → k ∈ closing → k ∈ w.closing) :
    Settled ⟨{ w.conntrack with table := w.conntrack.table.insert key entry }, closing⟩ ↔
      (key ∈ closing → key.proto = 6 → entry.state ≠ .established) := by
  constructor
  · intro hsettled hkey hproto
    exact hsettled.state_ne hkey hproto (AList.lookup_insert _)
  · intro hnew k hk hproto e he
    rcases eq_or_ne k key with rfl | hne
    · cases (AList.lookup_insert _).symm.trans he
      exact (transitory_iff hproto).mpr (hnew hk hproto)
    · rw [AList.lookup_insert_ne hne] at he
      exact h k (hclosing k hne hk) hproto e he

theorem settled_lookup_iff (h : w.Settled) :
    (call w (.lookupOrAdmit pkt now)).2.Settled ↔ w.Keeps (.lookupOrAdmit pkt now) := by
  simp only [call, Keeps]
  cases hentry : w.conntrack.table.lookup pkt.flowKey with
  | none =>
    have hmem : pkt.flowKey ∉ w.conntrack.table := AList.lookup_eq_none.mp hentry
    have hsame : (w.conntrack.lookupOrAdmit pkt now).2 = w.conntrack := by
      rw [lookupOrAdmit_of_not_mem hmem]
      split <;> rfl
    rw [hsame]
    simp only [hmem, decide_false, Bool.and_false]
    exact iff_of_true h fun _ _ entry he => by cases he
  | some entry =>
    have hmem : pkt.flowKey ∈ w.conntrack.table := Table.mem_iff_lookup.mpr ⟨entry, hentry⟩
    have hafter : (w.conntrack.lookupOrAdmit pkt now).2 =
        { w.conntrack with
          table := w.conntrack.table.insert pkt.flowKey (entry.see pkt now) } := by
      simp only [lookupOrAdmit, hentry]
    rw [hafter, settled_insert_iff h]
    · simp only [hmem, decide_true, Bool.and_true, Option.some.injEq, forall_eq']
      cases hcloses : pkt.closes with
      | true =>
        have hfin : (entry.see pkt now).state ≠ .established := by
          rw [FlowEntry.see_of_closes hcloses]
          decide
        refine iff_of_true (fun _ _ => hfin) fun hkey hproto hstate => ?_
        by_contra hgoes
        rw [Bool.not_eq_false] at hgoes
        exact hfin ((FlowEntry.see_eq_established_iff (h.state_ne hkey hproto hentry)).mpr
          ⟨hstate, hgoes⟩)
      | false =>
        refine forall_congr' fun hkey => forall_congr' fun hproto => ?_
        rw [Ne, FlowEntry.see_eq_established_iff (h.state_ne hkey hproto hentry), not_and,
          Bool.not_eq_true]
    · intro k hne hk
      split at hk
      · exact (List.mem_cons.mp hk).resolve_left hne
      · exact hk

theorem settled_record_iff (h : w.Settled) :
    (call w (.recordNew pkt now)).2.Settled ↔ w.Keeps (.recordNew pkt now) := by
  simp only [call, Keeps, recordNew]
  rw [settled_insert_iff h]
  · rw [Ne, firstState_eq_established_iff, Bool.not_eq_false]
    cases pkt.closes with
    | true => simp
    | false =>
      simp only [Bool.false_eq_true, false_or, if_false]
      exact forall_comm
  · intro k hne hk
    split at hk
    · exact (List.mem_cons.mp hk).resolve_left hne
    · exact hk

end

/-- A sweep changes no entry that stays. -/
theorem settled_sweep {w : Watched} (h : w.Settled) (now : Instant) :
    (call w (.sweepExpired now)).2.Settled := by
  intro key hkey hproto entry hentry
  exact h key (List.mem_of_mem_filter hkey) hproto entry (Table.lookup_retain.mp hentry).1

/-- Exactly the calls that leave it keep the timeout of the closing flows. -/
theorem settled_call_iff {w : Watched} (h : w.Settled) (c : Call) :
    (call w c).2.Settled ↔ w.Keeps c := by
  cases c with
  | lookupOrAdmit pkt now => exact settled_lookup_iff h
  | recordNew pkt now => exact settled_record_iff h
  | sweepExpired now => exact iff_of_true (settled_sweep h now) trivial

/-- Over every run of the table: the closing flows have the timeout of handshakes in each state
exactly where every call leaves it. -/
theorem each_settled_iff (cfg : ConntrackConfig) (calls : List Call) :
    call.Each (fun w c => (call w c).2.Settled) (start cfg) calls ↔
      call.Each Keeps (start cfg) calls :=
  Machine.each_after_iff (I := Settled) (fun _ c h => settled_call_iff h c)
    fun _ h => absurd h List.not_mem_nil

/-- A TCP packet of one flow. -/
def samplePacket (flags : TcpFlags) : ParsedPacket where
  srcIp := .v4 0
  dstIp := .v4 1
  proto := .tcp
  srcPort := 1024
  dstPort := 443
  tcpFlags := some flags
  payloadLen := 0

/-- A flow is admitted by its SYN, and its RST is followed by a SYN with ACK and an ACK. -/
theorem not_each_settled :
    ¬ ∀ (cfg : ConntrackConfig) (calls : List Call),
      call.Each (fun w c => (call w c).2.Settled) (start cfg) calls := by
  intro h
  have hrun := h {} [
    .recordNew (samplePacket { syn := true, ack := false, fin := false, rst := false }) 0,
    .lookupOrAdmit (samplePacket { syn := false, ack := false, fin := false, rst := true }) 1,
    .lookupOrAdmit (samplePacket { syn := true, ack := true, fin := false, rst := false }) 2,
    .lookupOrAdmit (samplePacket { syn := false, ack := true, fin := false, rst := false }) 3]
  obtain ⟨-, -, -, hlast, -⟩ := hrun
  have hkey := hlast (samplePacket ⟨false, true, false, false⟩).flowKey (by decide) (by decide)
    ⟨.established, 3, 4, 0⟩ (by decide)
  exact (transitory_iff (by decide)).mp hkey rfl

end Watched

end ConnTrack

end ActiveDefense.Firewall
