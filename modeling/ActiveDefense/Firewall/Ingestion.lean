import ActiveDefense.Firewall.Nfqueue
import ActiveDefense.Lib.Run

/-!
# The numbers of the ingestion pipeline

`submit` takes a number from a counter and then sends the packet to the lanes; the workers of the
packet loop do both at the same time. A lane reads what is sent in the order it is sent, and loses
packets when it lags. `lanes_in_order` shows that a lane receives increasing numbers, and loses the
packets whose numbers it does not see, in every run in which a packet is sent only when no thread
holds a smaller number. Two threads that swap break this (`not_lanes_in_order`).
-/

namespace ActiveDefense.Firewall.Ingestion

/-- A packet with the number that `submit` gives it. -/
structure NumberedPacket where
  seq : UInt64
  packet : IngestedPacket
deriving DecidableEq, Repr

/-- Where a thread is in `submit`. -/
inductive Submission where
  | idle
  | numbered (p : NumberedPacket)
deriving DecidableEq, Repr

/-- The receiver of a lane: where it subscribed, what it reads next, what it received, and what it
was told that it lost. -/
structure Lane where
  first : Nat
  cursor : Nat
  received : List NumberedPacket
  lagged : List NumberedPacket
deriving DecidableEq, Repr

/-- The pipeline, its lanes, and the threads that submit packets. `submitted` counts the calls. -/
structure Pipeline (ι κ : Type) where
  seq : UInt64
  submitted : Nat
  sent : List NumberedPacket
  phase : ι → Submission
  lanes : κ → Option Lane

inductive Action (ι κ : Type) where
  | fetchAdd (i : ι) (packet : IngestedPacket)
  | send (i : ι)
  | subscribe (l : κ)
  | recv (l : κ)
  | lag (l : κ) (n : Nat)

namespace Pipeline

variable {ι κ : Type}

/-- `IngestionPipeline::new`. -/
def new : Pipeline ι κ := ⟨0, 0, [], fun _ => .idle, fun _ => none⟩

variable [DecidableEq ι] [DecidableEq κ]

/-- A thread goes on to another place. -/
def goto (s : Pipeline ι κ) (i : ι) (p : Submission) : Pipeline ι κ :=
  { s with phase := Function.update s.phase i p }

/-- A lane after a step of its own. -/
def setLane (s : Pipeline ι κ) (l : κ) (lane : Lane) : Pipeline ι κ :=
  { s with lanes := Function.update s.lanes l (some lane) }

/-- The steps: the two halves of `submit`, and what a lane does. A lane that lags skips some
packets, and is told how many. -/
inductive Step : Pipeline ι κ → Action ι κ → Pipeline ι κ → Prop
  | fetchAdd {s : Pipeline ι κ} {i : ι} {packet : IngestedPacket} :
      s.phase i = .idle →
      Step s (.fetchAdd i packet)
        ({ s with seq := s.seq + 1, submitted := s.submitted + 1 }.goto i
          (.numbered ⟨s.seq, packet⟩))
  | send {s : Pipeline ι κ} {i : ι} {p : NumberedPacket} :
      s.phase i = .numbered p →
      Step s (.send i) ({ s with sent := s.sent ++ [p] }.goto i .idle)
  | subscribe {s : Pipeline ι κ} {l : κ} :
      s.lanes l = none →
      Step s (.subscribe l) (s.setLane l ⟨s.sent.length, s.sent.length, [], []⟩)
  | recv {s : Pipeline ι κ} {l : κ} {lane : Lane} {p : NumberedPacket} :
      s.lanes l = some lane → s.sent[lane.cursor]? = some p →
      Step s (.recv l)
        (s.setLane l
          { lane with cursor := lane.cursor + 1, received := lane.received ++ [p] })
  | lag {s : Pipeline ι κ} {l : κ} {n : Nat} {lane : Lane} :
      s.lanes l = some lane → lane.cursor + n ≤ s.sent.length →
      Step s (.lag l n)
        (s.setLane l
          { lane with
            cursor := lane.cursor + n
            lagged := lane.lagged ++ (s.sent.drop lane.cursor).take n })

end Pipeline

/-- The lane received increasing numbers, and every number between two of them is that of a packet
that it received or lost. -/
def Lane.InOrder (lane : Lane) : Prop :=
  lane.received.Pairwise (fun p q => p.seq < q.seq) ∧
    ∀ p ∈ lane.received, ∀ q ∈ lane.received, ∀ k : UInt64, p.seq < k → k < q.seq →
      ∃ r, (r ∈ lane.received ∨ r ∈ lane.lagged) ∧ r.seq = k

/-! ## What a lane has read -/

/-- The packets sent from one position on and before another. -/
def slice (sent : List NumberedPacket) (first cursor : Nat) : List NumberedPacket :=
  (sent.take cursor).drop first

/-- What a lane received and lost is what was sent since it subscribed, received in that order. -/
structure Lane.Reads (sent : List NumberedPacket) (lane : Lane) : Prop where
  first_le : lane.first ≤ lane.cursor
  cursor_le : lane.cursor ≤ sent.length
  received : lane.received.Sublist (slice sent lane.first lane.cursor)
  covered : ∀ p ∈ slice sent lane.first lane.cursor, p ∈ lane.received ∨ p ∈ lane.lagged

section
variable {sent : List NumberedPacket} {lane : Lane}

/-- The next packets extend the slice. -/
theorem slice_add {first cursor n : Nat} (hfirst : first ≤ cursor) (hcursor : cursor ≤ sent.length) :
    slice sent first (cursor + n) =
      slice sent first cursor ++ (sent.drop cursor).take n := by
  rw [slice, slice, List.take_add, List.drop_append_of_le_length]
  rwa [List.length_take, Nat.min_eq_left hcursor]

/-- A lane that subscribes has read nothing. -/
theorem Lane.reads_subscribe : Lane.Reads sent ⟨sent.length, sent.length, [], []⟩ where
  first_le := Nat.le_refl _
  cursor_le := Nat.le_refl _
  received := List.nil_sublist _
  covered p hp := by simp [slice] at hp

/-- Sending a packet does not change what was read. -/
theorem Lane.Reads.send (h : lane.Reads sent) (p : NumberedPacket) : lane.Reads (sent ++ [p]) := by
  have hslice : slice (sent ++ [p]) lane.first lane.cursor = slice sent lane.first lane.cursor := by
    rw [slice, slice, List.take_append_of_le_length h.cursor_le]
  refine ⟨h.first_le, ?_, ?_, ?_⟩
  · exact h.cursor_le.trans (by simp)
  · rw [hslice]
    exact h.received
  · rw [hslice]
    exact h.covered

/-- Receiving a packet. -/
theorem Lane.Reads.recv (h : lane.Reads sent) {p : NumberedPacket}
    (hp : sent[lane.cursor]? = some p) :
    Lane.Reads sent
      { lane with cursor := lane.cursor + 1, received := lane.received ++ [p] } := by
  have hlt : lane.cursor < sent.length := (List.getElem?_eq_some_iff.mp hp).1
  have hnext : (sent.drop lane.cursor).take 1 = [p] := by
    rw [List.take_one, List.head?_drop, hp]
    rfl
  refine ⟨h.first_le.trans (Nat.le_succ _), hlt, ?_, ?_⟩ <;> dsimp only <;>
    rw [slice_add h.first_le h.cursor_le, hnext]
  · exact h.received.append (List.Sublist.refl _)
  · intro q hq
    rw [List.mem_append, List.mem_singleton] at hq
    obtain hold | rfl := hq
    · exact (h.covered q hold).imp_left (List.mem_append_left _)
    · exact .inl (List.mem_append_right _ (.head _))

/-- Losing packets. -/
theorem Lane.Reads.lag (h : lane.Reads sent) {n : Nat} (hn : lane.cursor + n ≤ sent.length) :
    Lane.Reads sent
      { lane with
        cursor := lane.cursor + n
        lagged := lane.lagged ++ (sent.drop lane.cursor).take n } := by
  refine ⟨h.first_le.trans (Nat.le_add_right _ _), hn, ?_, ?_⟩ <;> dsimp only <;>
    rw [slice_add h.first_le h.cursor_le]
  · exact h.received.trans (List.sublist_append_left _ _)
  · intro q hq
    obtain hold | hnew := List.mem_append.mp hq
    · exact (h.covered q hold).imp_right (List.mem_append_left _)
    · exact .inr (List.mem_append_right _ hnew)

/-- The number of every packet is its position among those sent. -/
def Numbered (sent : List NumberedPacket) : Prop :=
  ∀ (k : Nat) (p : NumberedPacket), sent[k]? = some p → p.seq.toNat = k

/-- A packet of a slice, by its number. -/
theorem mem_slice {first cursor : Nat} (h : Numbered sent) {p : NumberedPacket}
    (hp : p ∈ slice sent first cursor) :
    first ≤ p.seq.toNat ∧ p.seq.toNat < cursor ∧ sent[p.seq.toNat]? = some p := by
  obtain ⟨k, hk⟩ := List.mem_iff_getElem?.mp hp
  rw [slice, List.getElem?_drop, List.getElem?_take] at hk
  split at hk
  · next hlt =>
    rw [h _ _ hk]
    exact ⟨Nat.le_add_right _ _, hlt, hk⟩
  · cases hk

/-- Where the numbers are the positions, a lane is in order. -/
theorem Lane.Reads.inOrder (h : lane.Reads sent) (hnumbered : Numbered sent) : lane.InOrder := by
  constructor
  · have hsent : (slice sent lane.first lane.cursor).Pairwise fun p q => p.seq < q.seq := by
      refine List.Pairwise.sublist ((List.drop_sublist _ _).trans (List.take_sublist _ _)) ?_
      rw [List.pairwise_iff_getElem]
      intro i j hi hj hij
      rw [UInt64.lt_iff_toNat_lt, hnumbered i _ (List.getElem?_eq_getElem hi),
        hnumbered j _ (List.getElem?_eq_getElem hj)]
      exact hij
    exact hsent.sublist h.received
  · intro p hp q hq k hpk hkq
    obtain ⟨hfirst, -, -⟩ := mem_slice hnumbered (h.received.subset hp)
    obtain ⟨-, hcursor, -⟩ := mem_slice hnumbered (h.received.subset hq)
    rw [UInt64.lt_iff_toNat_lt] at hpk hkq
    have hlt : k.toNat < lane.cursor := hkq.trans hcursor
    have hget := List.getElem?_eq_getElem (hlt.trans_le h.cursor_le)
    refine ⟨_, h.covered _ ?_, UInt64.toNat_inj.mp (hnumbered _ _ hget)⟩
    refine List.mem_iff_getElem?.mpr ⟨k.toNat - lane.first, ?_⟩
    rw [slice, List.getElem?_drop, Nat.add_sub_cancel' (hfirst.trans hpk.le),
      List.getElem?_take_of_lt hlt, hget]

end

namespace Pipeline

section
variable {ι κ : Type} [DecidableEq ι] [DecidableEq κ]

/-- A packet is sent only when no other thread holds a smaller number, and the counter has not gone
around when a number is taken. -/
def SendsInOrder (s : Pipeline ι κ) : Action ι κ → Prop
  | .fetchAdd _ _ => s.submitted < 2 ^ 64
  | .send i => ∀ p, s.phase i = .numbered p → ∀ j q, s.phase j = .numbered q → ¬ q.seq < p.seq
  | _ => True

/-- What holds along a run that meets the condition: the numbers taken so far are those sent, in
order, and after them those that threads hold. -/
structure Ordered (s : Pipeline ι κ) : Prop where
  seq : s.seq.toNat = s.submitted % 2 ^ 64
  submitted_le : s.submitted ≤ 2 ^ 64
  sent_le : s.sent.length ≤ s.submitted
  numbered : Numbered s.sent
  held : ∀ i p, s.phase i = .numbered p →
    s.sent.length ≤ p.seq.toNat ∧ p.seq.toNat < s.submitted
  distinct : ∀ i j p q, s.phase i = .numbered p → s.phase j = .numbered q → p.seq = q.seq → i = j
  complete : ∀ k, s.sent.length ≤ k → k < s.submitted →
    ∃ i p, s.phase i = .numbered p ∧ p.seq.toNat = k
  reads : ∀ l lane, s.lanes l = some lane → lane.Reads s.sent

variable {s t : Pipeline ι κ} {a : Action ι κ}

omit [DecidableEq κ] in
/-- What the threads hold after one of them went on. -/
theorem phase_goto_iff {i j : ι} {p : Submission} {q : NumberedPacket} :
    (s.goto i p).phase j = .numbered q ↔
      (j = i ∧ p = .numbered q) ∨ (j ≠ i ∧ s.phase j = .numbered q) := by
  by_cases hj : j = i
  · subst hj
    simp [goto]
  · simp [goto, hj]

omit [DecidableEq κ] in
/-- A thread takes a number. -/
theorem Ordered.fetchAdd (hs : s.Ordered) {i : ι} {packet : IngestedPacket}
    (hphase : s.phase i = .idle) (hlt : s.submitted < 2 ^ 64) :
    (({ s with seq := s.seq + 1, submitted := s.submitted + 1 } : Pipeline ι κ).goto i
      (.numbered ⟨s.seq, packet⟩)).Ordered := by
  have hseq : s.seq.toNat = s.submitted := by rw [hs.seq, Nat.mod_eq_of_lt hlt]
  constructor
  case seq =>
    show (s.seq + 1).toNat = (s.submitted + 1) % 2 ^ 64
    rw [UInt64.toNat_add, hseq]
    rfl
  case submitted_le => exact hlt
  case sent_le => exact hs.sent_le.trans (Nat.le_succ _)
  case numbered => exact hs.numbered
  case held =>
    intro j p hj
    show s.sent.length ≤ p.seq.toNat ∧ p.seq.toNat < s.submitted + 1
    obtain ⟨rfl, hp⟩ | ⟨-, hj⟩ := phase_goto_iff.mp hj
    · cases hp
      exact ⟨hs.sent_le.trans_eq hseq.symm, hseq.trans_lt (Nat.lt_succ_self _)⟩
    · exact (hs.held j p hj).imp_right fun h => h.trans (Nat.lt_succ_self _)
  case distinct =>
    -- the number taken is larger than those that the other threads hold
    have hnew {j : ι} {p : NumberedPacket} (hj : s.phase j = .numbered p) : p.seq ≠ s.seq := by
      intro heq
      have hheld := (hs.held j p hj).2
      rw [heq, hseq] at hheld
      exact Nat.lt_irrefl _ hheld
    intro j j' p q hj hj' heq
    obtain ⟨hi, hp⟩ | ⟨-, hp⟩ := phase_goto_iff.mp hj <;>
      obtain ⟨hi', hq⟩ | ⟨-, hq⟩ := phase_goto_iff.mp hj'
    · exact hi.trans hi'.symm
    · cases hp
      exact absurd heq.symm (hnew hq)
    · cases hq
      exact absurd heq (hnew hp)
    · exact hs.distinct j j' p q hp hq heq
  case complete =>
    intro k hk hlt'
    obtain hlt' | rfl := Nat.lt_succ_iff_lt_or_eq.mp hlt'
    · obtain ⟨j, p, hj, hp⟩ := hs.complete k hk hlt'
      refine ⟨j, p, phase_goto_iff.mpr (.inr ⟨?_, hj⟩), hp⟩
      rintro rfl
      cases hphase.symm.trans hj
    · exact ⟨i, ⟨s.seq, packet⟩, phase_goto_iff.mpr (.inl ⟨rfl, rfl⟩), hseq⟩
  case reads => exact hs.reads

omit [DecidableEq ι] [DecidableEq κ] in
/-- A packet that is sent under the condition has the number of its position. -/
theorem Ordered.seq_eq (hs : s.Ordered) {i : ι} {p : NumberedPacket}
    (hphase : s.phase i = .numbered p)
    (hleast : ∀ j q, s.phase j = .numbered q → ¬ q.seq < p.seq) :
    p.seq.toNat = s.sent.length := by
  obtain ⟨hle, hlt⟩ := hs.held i p hphase
  by_contra hne
  obtain ⟨j, q, hj, hq⟩ := hs.complete s.sent.length (Nat.le_refl _) (hle.trans_lt hlt)
  refine hleast j q hj (UInt64.lt_iff_toNat_lt.mpr ?_)
  rw [hq]
  exact Nat.lt_of_le_of_ne hle (Ne.symm hne)

omit [DecidableEq κ] in
/-- A thread sends its packet. -/
theorem Ordered.send (hs : s.Ordered) {i : ι} {p : NumberedPacket}
    (hphase : s.phase i = .numbered p)
    (hleast : ∀ j q, s.phase j = .numbered q → ¬ q.seq < p.seq) :
    (({ s with sent := s.sent ++ [p] } : Pipeline ι κ).goto i .idle).Ordered := by
  have hseq := hs.seq_eq hphase hleast
  have hlength : (s.sent ++ [p]).length = s.sent.length + 1 := by simp
  constructor
  case seq => exact hs.seq
  case submitted_le => exact hs.submitted_le
  case sent_le =>
    show (s.sent ++ [p]).length ≤ s.submitted
    have hlt := (hs.held i p hphase).2
    omega
  case numbered =>
    intro k q hk
    change (s.sent ++ [p])[k]? = some q at hk
    rw [List.getElem?_append] at hk
    split at hk
    · exact hs.numbered k q hk
    · next hge =>
      rw [List.getElem?_singleton] at hk
      split at hk
      · cases hk
        omega
      · cases hk
  case held =>
    intro j q hj
    show (s.sent ++ [p]).length ≤ q.seq.toNat ∧ q.seq.toNat < s.submitted
    obtain ⟨-, hq⟩ | ⟨hne, hj⟩ := phase_goto_iff.mp hj
    · cases hq
    · obtain ⟨hle, hlt⟩ := hs.held j q hj
      have hdiffer : q.seq.toNat ≠ p.seq.toNat := fun heq =>
        hne (hs.distinct j i q p hj hphase (UInt64.toNat_inj.mp heq))
      omega
  case distinct =>
    intro j j' q q' hj hj' heq
    obtain ⟨-, hq⟩ | ⟨-, hj⟩ := phase_goto_iff.mp hj
    · cases hq
    · obtain ⟨-, hq'⟩ | ⟨-, hj'⟩ := phase_goto_iff.mp hj'
      · cases hq'
      · exact hs.distinct j j' q q' hj hj' heq
  case complete =>
    intro k hk hlt
    change (s.sent ++ [p]).length ≤ k at hk
    obtain ⟨j, q, hj, hq⟩ := hs.complete k (by omega) hlt
    refine ⟨j, q, phase_goto_iff.mpr (.inr ⟨?_, hj⟩), hq⟩
    rintro rfl
    cases hphase.symm.trans hj
    omega
  case reads => exact fun l lane hlane => (hs.reads l lane hlane).send p

omit [DecidableEq ι] in
/-- A step of a lane. -/
theorem Ordered.setLane (hs : s.Ordered) {l : κ} {lane : Lane} (hlane : lane.Reads s.sent) :
    (s.setLane l lane).Ordered := by
  refine ⟨hs.seq, hs.submitted_le, hs.sent_le, hs.numbered, hs.held, hs.distinct, hs.complete,
    fun l' lane' hl' => ?_⟩
  change Function.update s.lanes l (some lane) l' = some lane' at hl'
  by_cases hl : l' = l
  · rw [hl, Function.update_self, Option.some.injEq] at hl'
    exact hl' ▸ hlane
  · rw [Function.update_of_ne hl] at hl'
    exact hs.reads l' lane' hl'

/-- The step lemma. -/
theorem Ordered.step (hs : s.Ordered) (hok : s.SendsInOrder a) (hst : Step s a t) : t.Ordered := by
  cases hst with
  | fetchAdd hphase => exact hs.fetchAdd hphase hok
  | send hphase => exact hs.send hphase (hok _ hphase)
  | subscribe => exact hs.setLane Lane.reads_subscribe
  | recv hlane hp => exact hs.setLane ((hs.reads _ _ hlane).recv hp)
  | lag hlane hn => exact hs.setLane ((hs.reads _ _ hlane).lag hn)

omit [DecidableEq ι] [DecidableEq κ] in
theorem ordered_new : (new : Pipeline ι κ).Ordered where
  seq := rfl
  submitted_le := Nat.zero_le _
  sent_le := Nat.le_refl _
  numbered k p hk := by cases hk
  held i p hi := by cases hi
  distinct i j p q hi := by cases hi
  complete k _ hk := absurd hk (Nat.not_lt_zero k)
  reads l lane hl := by cases hl

end

end Pipeline

/-! ## Two threads -/

/-- A packet of 10.0.0.1 with no payload. -/
def emptyPacket : IngestedPacket where
  flow :=
    { srcIp := .v4 (Ipv4Addr.new 10 0 0 1), dstIp := .v4 (Ipv4Addr.new 10 0 0 2), srcPort := 4444
      dstPort := 443, protocol := .tcp }
  ifindex := 2
  direction := .ingress
  payload := []

/-- Two threads, and a lane that has subscribed. -/
def subscribed : Pipeline Bool Unit := Pipeline.new.setLane () ⟨0, 0, [], []⟩

/-- One of them has the number 0. -/
def oneTaken : Pipeline Bool Unit :=
  ({ subscribed with seq := 1, submitted := 1 } : Pipeline Bool Unit).goto true
    (.numbered ⟨0, emptyPacket⟩)

open Pipeline in
/-- In every run in which a packet is sent only when no thread holds a smaller number, and fewer
than `2 ^ 64` packets are submitted, every lane receives increasing numbers and loses the packets
whose numbers it does not see. -/
theorem lanes_in_order {ι κ : Type} [DecidableEq ι] [DecidableEq κ] {as : List (Action ι κ)}
    {s : Pipeline ι κ} (h : Run Step SendsInOrder new as s) (l : κ) (lane : Lane)
    (hlane : s.lanes l = some lane) : lane.InOrder := by
  have hs := h.invariant (I := Ordered) ordered_new fun _ _ _ hs hok hst => hs.step hok hst
  exact (hs.reads l lane hlane).inOrder hs.numbered

/-- Of two threads the one sends first that has the smaller number. -/
theorem Pipeline.sendsInOrder_of_not_lt {s : Pipeline Bool Unit} {i : Bool}
    {p : NumberedPacket} (hi : s.phase i = .numbered p)
    (hother : ∀ q, s.phase (!i) = .numbered q → ¬ q.seq < p.seq) : s.SendsInOrder (.send i) := by
  intro p' hp' j q hj
  cases hi.symm.trans hp'
  by_cases hji : j = i
  · subst hji
    cases hi.symm.trans hj
    exact Nat.lt_irrefl _
  · exact hother q (Bool.eq_not_of_ne hji ▸ hj)

open Pipeline in
/-- Two threads submit three packets, and the lane loses the second one. -/
theorem lanes_in_order_two :
    (⟨0, 3, [⟨0, emptyPacket⟩, ⟨2, emptyPacket⟩], [⟨1, emptyPacket⟩]⟩ : Lane).InOrder := by
  have hsubscribe : Step (new : Pipeline Bool Unit) (.subscribe ()) subscribed := .subscribe rfl
  have hstart : Run Step SendsInOrder (new : Pipeline Bool Unit) _ subscribed :=
    Run.nil.snoc (by trivial) hsubscribe
  -- both have a number when the first one sends its packet
  have htaken := (hstart.snoc (a := .fetchAdd true emptyPacket)
    (by exact (by decide : 0 < 2 ^ 64)) (.fetchAdd rfl)).snoc (a := .fetchAdd false emptyPacket)
    (by exact (by decide : 1 < 2 ^ 64)) (.fetchAdd rfl)
  have hfirst := htaken.snoc (a := .send true)
    (sendsInOrder_of_not_lt rfl fun q hq => by cases hq; decide) (.send rfl)
  have hsecond := hfirst.snoc (a := .send false)
    (sendsInOrder_of_not_lt rfl fun q hq => by cases hq) (.send rfl)
  have hthird := (hsecond.snoc (a := .fetchAdd true emptyPacket)
    (by exact (by decide : 2 < 2 ^ 64)) (.fetchAdd rfl)).snoc (a := .send true)
    (sendsInOrder_of_not_lt rfl fun q hq => by cases hq) (.send rfl)
  have hrun := ((hthird.snoc (by trivial) (.recv (l := ()) rfl rfl)).snoc (by trivial)
    (.lag (l := ()) (n := 1) rfl (by decide))).snoc (by trivial) (.recv (l := ()) rfl rfl)
  exact lanes_in_order hrun () _ rfl

open Pipeline in
/-- Two threads take the numbers 0 and 1 and send their packets in the other order. -/
theorem not_lanes_in_order :
    ¬ ∀ (ι κ : Type) [DecidableEq ι] [DecidableEq κ] (as : List (Action ι κ)) (s : Pipeline ι κ),
      Run Step (fun _ _ => True) new as s →
        ∀ l lane, s.lanes l = some lane → lane.InOrder := by
  intro h
  have hsubscribe : Step (new : Pipeline Bool Unit) (.subscribe ()) subscribed := .subscribe rfl
  have hfirst : Step subscribed (.fetchAdd true emptyPacket) oneTaken := .fetchAdd rfl
  have hsecond : Step oneTaken (.fetchAdd false emptyPacket) _ := .fetchAdd rfl
  have htaken : Run Step (fun _ _ => True) (new : Pipeline Bool Unit) _ _ :=
    ((Run.nil.snoc trivial hsubscribe).snoc trivial hfirst).snoc trivial hsecond
  have hsent := (htaken.snoc (by trivial) (.send (i := false) rfl)).snoc (by trivial)
    (.send (i := true) rfl)
  have hrun := (hsent.snoc (by trivial) (.recv (l := ()) rfl rfl)).snoc (by trivial)
    (.recv (l := ()) rfl rfl)
  have horder := h Bool Unit _ _ hrun () _ rfl
  exact absurd horder.1 (by decide)

end ActiveDefense.Firewall.Ingestion
