import ActiveDefense.Lib.Machine
import ActiveDefense.Nsm.PortScan

/-!
# The flow table

`FlowTable` has a record for each flow, under a key that both directions share: two packets have one
key exactly if they go between the same endpoints with the same protocol (`flowKey_eq_iff`). A packet
makes or updates the record of its flow, and the reaper removes the records of idle flows. So a
record always is the account of the packets of its flow, in both directions, since the reaper last
found the flow idle (`lookup_after`, `flow_snapshot`).

The counts wrap, as in a build without overflow checks.
-/

namespace ActiveDefense.Nsm

/-! ## Keys -/

/-- `FlowKey`. -/
structure FlowKey where
  loIp : IpAddr
  hiIp : IpAddr
  loPort : UInt16
  hiPort : UInt16
  proto : UInt8
deriving DecidableEq, Repr

/-- The order of Rust's tuples `(ip, port)`. -/
def endpointLe (a b : IpAddr × UInt16) : Bool := if a.1 = b.1 then a.2 ≤ b.2 else a.1.le b.1

/-- `FlowKey::new`. -/
def FlowKey.new (aIp : IpAddr) (aPort : UInt16) (bIp : IpAddr) (bPort : UInt16) (protoId : UInt8) :
    FlowKey :=
  if endpointLe (aIp, aPort) (bIp, bPort) then
    { loIp := aIp, hiIp := bIp, loPort := aPort, hiPort := bPort, proto := protoId }
  else { loIp := bIp, hiIp := aIp, loPort := bPort, hiPort := aPort, proto := protoId }

/-- `proto_id`. -/
def protoId : L4Proto → UInt8
  | .tcp => 6
  | .udp => 17
  | .icmp => 1
  | .other n => n

/-- `proto_name`. -/
def protoName : L4Proto → Str
  | .tcp => "tcp".toList
  | .udp => "udp".toList
  | .icmp => "icmp".toList
  | .other _ => "other".toList

/-- The key of the flow of a packet. -/
def PacketMeta.flowKey (pkt : PacketMeta) : FlowKey :=
  .new pkt.srcIp pkt.srcPort pkt.dstIp pkt.dstPort (protoId pkt.proto)

/-! ## The table -/

/-- `FlowRecord`. -/
structure FlowRecord where
  origIp : IpAddr
  respIp : IpAddr
  origPort : UInt16
  respPort : UInt16
  proto : Str
  packets : UInt64
  bytes : UInt64
  firstSeen : Nat
  lastSeen : Nat
  synCount : UInt32
  finOrRst : Bool
deriving DecidableEq, Repr

/-- `FlowTable`. -/
structure FlowTable where
  inner : Table FlowKey FlowRecord

/-- The record that the first packet of a flow makes, without it. -/
def FlowRecord.opened (pkt : PacketMeta) : FlowRecord where
  origIp := pkt.srcIp
  respIp := pkt.dstIp
  origPort := pkt.srcPort
  respPort := pkt.dstPort
  proto := protoName pkt.proto
  packets := 0
  bytes := 0
  firstSeen := pkt.ts
  lastSeen := pkt.ts
  synCount := 0
  finOrRst := false

/-- A packet has FIN or RST. -/
def hasFinOrRst (pkt : PacketMeta) : Bool := pkt.tcpFlags &&& 0x05 ≠ 0

/-- A record with one packet more. -/
def FlowRecord.see (entry : FlowRecord) (pkt : PacketMeta) : FlowRecord :=
  { entry with
    packets := entry.packets + 1
    bytes := entry.bytes + UInt64.ofNat pkt.length
    lastSeen := pkt.ts
    synCount := if isSynOnly pkt.tcpFlags then entry.synCount + 1 else entry.synCount
    finOrRst := if hasFinOrRst pkt then true else entry.finOrRst }

/-- Whether a flow with its last packet then is not idle; a clock that went back finds none idle. -/
def active (idleTimeout now lastSeen : Nat) : Bool :=
  decide (now < lastSeen) || decide (now - lastSeen < idleTimeout)

namespace FlowTable

/-- `FlowTable::new`. -/
def new : FlowTable := ⟨∅⟩

/-- `FlowTable::update`. -/
def update (t : FlowTable) (pkt : PacketMeta) : FlowRecord × FlowTable :=
  let entry := ((t.inner.lookup pkt.flowKey).getD (.opened pkt)).see pkt
  (entry, ⟨AList.insert pkt.flowKey entry t.inner⟩)

/-- `FlowTable::reap_idle`, with the clock at `now`. -/
def reapIdle (t : FlowTable) (idleTimeout now : Nat) : Nat × FlowTable :=
  let inner := t.inner.retain fun _ rec => active idleTimeout now rec.lastSeen
  (t.inner.len - inner.len, ⟨inner⟩)

/-- What the event loop and the reaper do with the table. -/
inductive Op where
  | update (pkt : PacketMeta)
  | reapIdle (idleTimeout now : Nat)

/-- A step, with what it returns. -/
def step : Machine FlowTable Op (FlowRecord ⊕ Nat) := fun t op =>
  match op with
  | .update pkt => let (rec, t) := t.update pkt; (.inl rec, t)
  | .reapIdle idleTimeout now => let (n, t) := t.reapIdle idleTimeout now; (.inr n, t)

/-- The table after some operations. -/
def after (ops : List Op) : FlowTable := (step.run new ops).2

end FlowTable

/-! ## The account of a flow -/

/-- What an operation does to the account of a flow: its packets since it was last found idle. -/
def accountStep (ofFlow : PacketMeta → Bool) (pkts : List PacketMeta) :
    FlowTable.Op → List PacketMeta
  | .update pkt => if ofFlow pkt then pkts ++ [pkt] else pkts
  | .reapIdle idleTimeout now =>
    if pkts.getLast?.all fun pkt => active idleTimeout now pkt.ts then pkts else []

/-- The account of a flow after some operations. -/
def account (ofFlow : PacketMeta → Bool) (ops : List FlowTable.Op) : List PacketMeta :=
  ops.foldl (accountStep ofFlow) []

/-- The packets with a key. -/
def hasKey (key : FlowKey) (pkt : PacketMeta) : Bool := decide (pkt.flowKey = key)

/-- The record of an account. -/
def FlowRecord.of : List PacketMeta → Option FlowRecord
  | [] => none
  | first :: rest =>
    some
      { origIp := first.srcIp
        respIp := first.dstIp
        origPort := first.srcPort
        respPort := first.dstPort
        proto := protoName first.proto
        packets := UInt64.ofNat (first :: rest).length
        bytes := UInt64.ofNat ((first :: rest).map (·.length)).sum
        firstSeen := first.ts
        lastSeen := (rest.getLast?.getD first).ts
        synCount := UInt32.ofNat ((first :: rest).countP (isSynOnly ·.tcpFlags))
        finOrRst := (first :: rest).any hasFinOrRst }

theorem ofNat_sum_snoc (pkts : List PacketMeta) (pkt : PacketMeta) :
    UInt64.ofNat ((pkts ++ [pkt]).map (·.length)).sum =
      UInt64.ofNat (pkts.map (·.length)).sum + UInt64.ofNat pkt.length := by
  rw [List.map_append, List.sum_append, UInt64.ofNat_add, List.map_singleton, List.sum_singleton]

theorem ofNat_countP_snoc (p : PacketMeta → Bool) (pkts : List PacketMeta) (pkt : PacketMeta) :
    UInt32.ofNat ((pkts ++ [pkt]).countP p) =
      if p pkt then UInt32.ofNat (pkts.countP p) + 1 else UInt32.ofNat (pkts.countP p) := by
  rw [List.countP_append, List.countP_singleton]
  split
  · rw [UInt32.ofNat_add]
    rfl
  · rfl

/-- One packet more. -/
theorem FlowRecord.of_snoc (pkts : List PacketMeta) (pkt : PacketMeta) :
    some (((FlowRecord.of pkts).getD (.opened pkt)).see pkt) = FlowRecord.of (pkts ++ [pkt]) := by
  cases pkts with
  | nil =>
    cases hsyn : isSynOnly pkt.tcpFlags <;> cases hfin : hasFinOrRst pkt <;>
      simp [FlowRecord.of, opened, see, hsyn, hfin]
  | cons first rest =>
    have hpackets : UInt64.ofNat (first :: (rest ++ [pkt])).length =
        UInt64.ofNat (first :: rest).length + 1 := by
      rw [← List.cons_append, List.length_append, UInt64.ofNat_add]
      rfl
    have hbytes := ofNat_sum_snoc (first :: rest) pkt
    have hsyn := ofNat_countP_snoc (isSynOnly ·.tcpFlags) (first :: rest) pkt
    have hany : (first :: (rest ++ [pkt])).any hasFinOrRst =
        if hasFinOrRst pkt then true else (first :: rest).any hasFinOrRst := by
      rw [← List.cons_append, List.any_append, List.any_cons (l := []), List.any_nil, Bool.or_false]
      cases hasFinOrRst pkt
      · exact Bool.or_false _
      · exact Bool.or_true _
    have hlast : (rest ++ [pkt]).getLast?.getD first = pkt := by
      rw [List.getLast?_concat, Option.getD_some]
    rw [List.cons_append] at hbytes hsyn
    rw [FlowRecord.of, Option.getD_some, see, List.cons_append, FlowRecord.of, hpackets, hbytes, hsyn,
      hany, hlast]

namespace FlowTable

variable {t : FlowTable} {key : FlowKey} {ops : List Op}

/-- What an operation does to the entry of a key. -/
def entryStep (key : FlowKey) (entry : Option FlowRecord) : Op → Option FlowRecord
  | .update pkt =>
    if pkt.flowKey = key then some ((entry.getD (.opened pkt)).see pkt) else entry
  | .reapIdle idleTimeout now => entry.filter fun rec => active idleTimeout now rec.lastSeen

theorem pointwise_step : step.Pointwise (fun _ => True) inner entryStep where
  keeps _ _ _ := trivial
  lookup t op key _ := by
    cases op with
    | update pkt =>
      show AList.lookup key (AList.insert pkt.flowKey _ t.inner) = _
      by_cases hkey : pkt.flowKey = key
      · rw [entryStep, if_pos hkey, hkey, AList.lookup_insert]
      · rw [entryStep, if_neg hkey, AList.lookup_insert_ne fun h => hkey h.symm]
    | reapIdle idleTimeout now =>
      show (t.inner.retain _).lookup key = _
      refine Option.ext fun rec => ?_
      rw [Table.lookup_retain, entryStep, Option.filter_eq_some_iff]

/-- The record of an account goes on with the account. -/
theorem entryStep_of (key : FlowKey) (pkts : List PacketMeta) (op : Op) :
    entryStep key (FlowRecord.of pkts) op = FlowRecord.of (accountStep (hasKey key) pkts op) := by
  cases op with
  | update pkt =>
    simp only [entryStep, accountStep, hasKey, decide_eq_true_eq]
    split
    · exact FlowRecord.of_snoc pkts pkt
    · rfl
  | reapIdle idleTimeout now =>
    cases pkts with
    | nil => rfl
    | cons first rest =>
      rw [entryStep, accountStep, FlowRecord.of, List.getLast?_cons, Option.filter_some,
        Option.all_some]
      split
      · rfl
      · rfl

/-- The record of a flow is that of its account. -/
theorem lookup_after :
    (after ops).inner.lookup key = FlowRecord.of (account (hasKey key) ops) := by
  rw [after, pointwise_step.lookup_run trivial, account]
  have hrun : ∀ pkts : List PacketMeta, ops.foldl (entryStep key) (FlowRecord.of pkts) =
      FlowRecord.of (ops.foldl (accountStep (hasKey key)) pkts) := by
    intro pkts
    induction ops generalizing pkts with
    | nil => rfl
    | cons op ops ih => rw [List.foldl_cons, List.foldl_cons, entryStep_of, ih]
  exact hrun []

/-- A packet is answered with the record of the account of its flow, with it. -/
theorem update_after (ops : List Op) (pkt : PacketMeta) :
    some ((after ops).update pkt).1 =
      FlowRecord.of (account (hasKey pkt.flowKey) ops ++ [pkt]) := by
  rw [update, lookup_after]
  exact FlowRecord.of_snoc _ pkt

/-- The packets of an account are of the flow. -/
theorem ofFlow_of_mem_account {ofFlow : PacketMeta → Bool} :
    ∀ pkt ∈ account ofFlow ops, ofFlow pkt = true := by
  induction ops using List.reverseRecOn with
  | nil => exact nofun
  | append_singleton ops op ih =>
    intro pkt hpkt
    rw [account, List.foldl_append] at hpkt
    change pkt ∈ accountStep ofFlow (account ofFlow ops) op at hpkt
    cases op with
    | update pkt' =>
      rw [accountStep] at hpkt
      split at hpkt
      · next hof =>
        rcases List.mem_append.mp hpkt with hpkt | hpkt
        · exact ih pkt hpkt
        · exact (List.mem_singleton.mp hpkt) ▸ hof
      · exact ih pkt hpkt
    | reapIdle idleTimeout now =>
      rw [accountStep] at hpkt
      split at hpkt
      · exact ih pkt hpkt
      · cases hpkt

end FlowTable

/-! ## The packets of a flow -/

theorem ipAddr_le_total (a b : IpAddr) : a.le b = true ∨ b.le a = true := by
  cases a <;> cases b <;> simp [IpAddr.le, BitVec.le_total]

theorem ipAddr_le_antisymm {a b : IpAddr} (hab : a.le b = true) (hba : b.le a = true) : a = b := by
  cases a <;> cases b <;> simp_all [IpAddr.le]
  all_goals exact BitVec.le_antisymm hab hba

theorem endpointLe_total (a b : IpAddr × UInt16) : endpointLe a b = true ∨ endpointLe b a = true := by
  unfold endpointLe
  by_cases h : a.1 = b.1
  · rw [if_pos h, if_pos h.symm, decide_eq_true_eq, decide_eq_true_eq]
    exact UInt16.le_total a.2 b.2
  · rw [if_neg h, if_neg fun h' => h h'.symm]
    exact ipAddr_le_total a.1 b.1

theorem endpointLe_antisymm {a b : IpAddr × UInt16} (hab : endpointLe a b = true)
    (hba : endpointLe b a = true) : a = b := by
  unfold endpointLe at hab hba
  by_cases h : a.1 = b.1
  · rw [if_pos h, decide_eq_true_eq] at hab
    rw [if_pos h.symm, decide_eq_true_eq] at hba
    exact Prod.ext h (UInt16.le_antisymm hab hba)
  · rw [if_neg h] at hab
    rw [if_neg fun h' => h h'.symm] at hba
    exact absurd (ipAddr_le_antisymm hab hba) h

/-- A key has its endpoints in order, whichever comes first. -/
theorem FlowKey.new_comm (a b : IpAddr × UInt16) (p : UInt8) :
    FlowKey.new a.1 a.2 b.1 b.2 p = FlowKey.new b.1 b.2 a.1 a.2 p := by
  unfold FlowKey.new
  by_cases hab : endpointLe a b = true
  · by_cases hba : endpointLe b a = true
    · rw [endpointLe_antisymm hab hba]
    · rw [if_pos hab, if_neg hba]
  · rw [if_neg hab, if_pos ((endpointLe_total a b).resolve_left hab)]

/-- Two keys are the same exactly if their endpoints are, in one order or the other. -/
theorem FlowKey.new_eq_iff (a b c d : IpAddr × UInt16) (p q : UInt8) :
    FlowKey.new a.1 a.2 b.1 b.2 p = FlowKey.new c.1 c.2 d.1 d.2 q ↔
      p = q ∧ (a = c ∧ b = d ∨ a = d ∧ b = c) := by
  constructor
  · intro h
    unfold FlowKey.new at h
    split at h <;> split at h <;> simp only [FlowKey.mk.injEq] at h <;>
      obtain ⟨hlo, hhi, hloPort, hhiPort, hp⟩ := h
    · exact ⟨hp, .inl ⟨Prod.ext hlo hloPort, Prod.ext hhi hhiPort⟩⟩
    · exact ⟨hp, .inr ⟨Prod.ext hlo hloPort, Prod.ext hhi hhiPort⟩⟩
    · exact ⟨hp, .inr ⟨Prod.ext hhi hhiPort, Prod.ext hlo hloPort⟩⟩
    · exact ⟨hp, .inl ⟨Prod.ext hhi hhiPort, Prod.ext hlo hloPort⟩⟩
  · rintro ⟨rfl, ⟨rfl, rfl⟩ | ⟨rfl, rfl⟩⟩
    · rfl
    · exact new_comm a b p

/-- Where a packet comes from. -/
def PacketMeta.src (pkt : PacketMeta) : IpAddr × UInt16 := (pkt.srcIp, pkt.srcPort)

/-- Where a packet goes. -/
def PacketMeta.dst (pkt : PacketMeta) : IpAddr × UInt16 := (pkt.dstIp, pkt.dstPort)

/-- Two packets are of one flow: they have one protocol, and go between the same endpoints. -/
def SameFlow (p q : PacketMeta) : Prop :=
  protoId p.proto = protoId q.proto ∧ (p.src = q.src ∧ p.dst = q.dst ∨ p.src = q.dst ∧ p.dst = q.src)

instance (p q : PacketMeta) : Decidable (SameFlow p q) := inferInstanceAs (Decidable (_ ∧ _))

/-- They are exactly if they have one key. -/
theorem flowKey_eq_iff (p q : PacketMeta) : p.flowKey = q.flowKey ↔ SameFlow p q :=
  FlowKey.new_eq_iff p.src p.dst q.src q.dst _ _

/-- So the packets with the key of a packet are those of its flow. -/
theorem hasKey_flowKey (pkt : PacketMeta) :
    hasKey pkt.flowKey = fun q => decide (SameFlow q pkt) :=
  funext fun q => decide_eq_decide.mpr (flowKey_eq_iff q pkt)

/-- After any operations, what a packet is answered with is the account of its flow: each packet that
goes between the same endpoints with the same protocol, in either direction, since the reaper last
found the flow idle, with this one as the last. The first of them is the originator's. -/
theorem flow_snapshot (ops : List FlowTable.Op) (pkt : PacketMeta) :
    ∃ first rest, account (fun q => decide (SameFlow q pkt)) ops ++ [pkt] = first :: rest ∧
      (∀ q ∈ first :: rest, SameFlow q pkt) ∧
      ((FlowTable.after ops).update pkt).1 =
        { origIp := first.srcIp
          respIp := first.dstIp
          origPort := first.srcPort
          respPort := first.dstPort
          proto := protoName first.proto
          packets := UInt64.ofNat (first :: rest).length
          bytes := UInt64.ofNat ((first :: rest).map (·.length)).sum
          firstSeen := first.ts
          lastSeen := pkt.ts
          synCount := UInt32.ofNat ((first :: rest).countP (isSynOnly ·.tcpFlags))
          finOrRst := (first :: rest).any hasFinOrRst } := by
  have hupdate := FlowTable.update_after ops pkt
  rw [hasKey_flowKey] at hupdate
  have hsame : ∀ q ∈ account (fun q => decide (SameFlow q pkt)) ops ++ [pkt], SameFlow q pkt := by
    intro q hq
    rcases List.mem_append.mp hq with hq | hq
    · exact of_decide_eq_true (FlowTable.ofFlow_of_mem_account q hq)
    · exact (flowKey_eq_iff q pkt).mp (congrArg _ (List.mem_singleton.mp hq))
  obtain ⟨first, rest, hsplit⟩ := List.exists_cons_of_ne_nil
    (List.append_ne_nil_of_right_ne_nil (account _ ops) (List.cons_ne_nil pkt []))
  have hlast : rest.getLast?.getD first = pkt := by
    have hgetLast := congrArg List.getLast? hsplit
    rw [List.getLast?_concat, List.getLast?_cons] at hgetLast
    exact (Option.some.inj hgetLast).symm
  rw [hsplit] at hupdate hsame
  refine ⟨first, rest, hsplit, hsame, ?_⟩
  rw [FlowRecord.of, hlast] at hupdate
  exact Option.some.inj hupdate

end ActiveDefense.Nsm
