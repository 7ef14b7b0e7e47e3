import ActiveDefense.Firewall.Chan
import Mathlib.Data.ENat.Basic

/-!
# No wakeup of the channel is lost

While senders wait for room, there are at least as many threads that will use the room there is, or
pass it on, as there is room: senders that have yet to compare the queue with the capacity, and the
receiver before its notification. `Helped.step` keeps this count through every step. With it, and
with what is pending for a receiver that waits, `no_lost_wakeup` says what holds whenever no thread
is on its way: who waits has a reason to.
-/

namespace ActiveDefense.Firewall

section
variable {η α : Type}

/-- The thread has yet to compare the queue with the capacity. -/
def SenderPhase.checks : SenderPhase η α → Bool
  | .wantLock _ _ _ | .locked _ _ _ | .checked _ _ _ => true
  | _ => false

/-- The thread waits on `not_full`. -/
def SenderPhase.waits : SenderPhase η α → Bool
  | .parked _ _ _ => true
  | _ => false

/-- The thread saw the receiver alive, and pushes or waits on account of that. -/
def SenderPhase.trusts : SenderPhase η α → Bool
  | .checked _ _ _ | .parked _ _ _ => true
  | _ => false

/-- The thread is about to notify the receiver of an item. -/
def SenderPhase.notifies : SenderPhase η α → Bool
  | .notifying _ => true
  | _ => false

/-- The thread is about to notify the receiver that the last handle is gone. -/
def SenderPhase.drops : SenderPhase η α → Bool
  | .dropping | .dropLocked => true
  | _ => false

/-- The receiver is about to notify a sender. -/
def ReceiverPhase.passesOn : ReceiverPhase α → Bool
  | .notifying _ => true
  | _ => false

/-- The receiver waits on `not_empty`, or is about to. -/
def ReceiverPhase.waits : ReceiverPhase α → Bool
  | .parking | .parked => true
  | _ => false

/-- The receiver was dropped, or is being dropped. -/
def ReceiverPhase.gone : ReceiverPhase α → Bool
  | .dropping | .dropLocked | .dropped => true
  | _ => false

end

namespace Chan

variable {ι η α : Type} [DecidableEq ι] [DecidableEq η]
  {s t : Chan ι η α} {a : ChanAction ι η α}

omit [DecidableEq η] in
/-- What a test says of the threads after one of them went on. -/
theorem test_goto (f : SenderPhase η α → Bool) {i j : ι} {p : SenderPhase η α} :
    f ((s.goto i p).senders j) = if j = i then f p else f (s.senders j) := by
  by_cases hj : j = i
  · subst hj
    simp [goto]
  · simp [goto, hj]

/-! ## A receiver that is gone -/

/-- A receiver that is gone is marked so, and once the last senders were woken no thread acts on
having seen it alive. -/
structure Departed (alive : Bool) (senders : ι → SenderPhase η α) (receiver : ReceiverPhase α) :
    Prop where
  alive : alive = !receiver.gone
  trusts : receiver = .dropped → ∀ i, (senders i).trusts = false

omit [DecidableEq ι] [DecidableEq η] in
theorem gone_wake {r : ReceiverPhase α} : r.wake.gone = r.gone := by
  cases r <;> rfl

omit [DecidableEq ι] [DecidableEq η] in
theorem wake_eq_dropped {r : ReceiverPhase α} : r.wake = .dropped ↔ r = .dropped := by
  cases r <;> simp [ReceiverPhase.wake]

omit [DecidableEq ι] [DecidableEq η] in
theorem trusts_wake {p : SenderPhase η α} (h : p.locks = false) : p.wake.trusts = false := by
  cases p <;> first | rfl | cases h

/-- The step lemma for a receiver that is gone. -/
theorem Departed.step (hs : Departed s.receiverAlive s.senders s.receiver)
    (hlocked : Locked s.lock s.senders s.receiver) (hst : Step s a t) :
    Departed t.receiverAlive t.senders t.receiver := by
  have hgoto {i : ι} {p : SenderPhase η α}
      (hp : s.receiver = .dropped → p.trusts = false) (hdropped : s.receiver = .dropped) (j : ι) :
      ((s.goto i p).senders j).trusts = false := by
    rw [test_goto SenderPhase.trusts]
    split
    · exact hp hdropped
    · exact hs.trusts hdropped j
  cases hst with
  | call | lock | refuse_disconnected | push | refuse_full | refuse_timeout | wake | drop_last
  | lockDrop => exact ⟨hs.alive, hgoto fun _ => rfl⟩
  | loadAlive hi halive =>
    refine ⟨hs.alive, hgoto fun hdropped => ?_⟩
    have hgone := hs.alive
    rw [halive, hdropped] at hgone
    cases hgone
  | @park i h op item hi =>
    refine ⟨hs.alive, hgoto fun hdropped => ?_⟩
    have htrusts := hs.trusts hdropped i
    rw [hi] at htrusts
    cases htrusts
  | notifyNotEmpty | notifyDrop =>
    refine ⟨hs.alive.trans (by rw [← gone_wake]; rfl), fun hdropped => ?_⟩
    exact hgoto (fun _ => rfl) (wake_eq_dropped.mp hdropped)
  | clone | drop_other => exact hs
  | callRecv hr | lockRecv hr | pop hr | popNone hr | loadSenders hr | tryEmpty hr
  | disconnected hr | parkRecv hr | wakeRecv hr | received_wakes hr | received_nobody hr
  | lockDropRecv hr =>
    exact ⟨hs.alive.trans (by rw [hr]; rfl), fun h => by cases h⟩
  | dropRecv => exact ⟨rfl, fun h => by cases h⟩
  | notifyAll hr =>
    refine ⟨hs.alive.trans (by rw [hr]; rfl), fun _ i => ?_⟩
    -- a sender that saw the receiver alive and has yet to wait would have the mutex
    refine trusts_wake ?_
    rw [← Bool.not_eq_true, hlocked.sender i, hlocked.receiver.mp (by rw [hr]; rfl)]
    simp

/-! ## A receiver that waits -/

/-- Where the receiver waits, an item in the queue has a sender that is about to notify of it, and
the end of the last handle has one that is about to notify of that. -/
structure Awaited (s : Chan ι η α) : Prop where
  item : s.receiver = .parked → s.queue ≠ [] → ∃ i, (s.senders i).notifies = true
  gone : s.receiver.waits = true → s.senderCount = 0 → ∃ i, (s.senders i).drops = true

omit [DecidableEq η] in
/-- A test that holds of some thread still does when another one goes on. -/
theorem exists_goto {f : SenderPhase η α → Bool} {i : ι} {p : SenderPhase η α}
    (h : ∃ j, f (s.senders j) = true) (hi : f (s.senders i) = true → f p = true) :
    ∃ j, f ((s.goto i p).senders j) = true := by
  obtain ⟨j, hj⟩ := h
  refine ⟨j, ?_⟩
  rw [test_goto f]
  split
  · next hij => exact hi (hij ▸ hj)
  · exact hj

omit [DecidableEq ι] [DecidableEq η] in
theorem wake_ne_parked {r : ReceiverPhase α} : r.wake ≠ .parked := by
  cases r <;> simp [ReceiverPhase.wake]

omit [DecidableEq ι] [DecidableEq η] in
theorem waits_of_wake {r : ReceiverPhase α} (h : r.wake.waits = true) : r = .parking := by
  cases r <;> first | rfl | cases h

/-- The step lemma for a receiver that waits. -/
theorem Awaited.step (hs : s.Awaited) (hsound : s.Sound) (hst : Step s a t) : t.Awaited := by
  cases hst with
  | call hi | lock hi | loadAlive hi | refuse_disconnected hi | refuse_full hi | refuse_timeout hi
  | park hi | wake hi =>
    refine ⟨fun hr hqueue => exists_goto (f := SenderPhase.notifies) (hs.item hr hqueue) ?_,
      fun hr hcount => exists_goto (f := SenderPhase.drops) (hs.gone hr hcount) ?_⟩ <;>
      (rw [hi]; exact fun h => by cases h)
  | push hi =>
    refine ⟨fun _ _ => ⟨_, (test_goto SenderPhase.notifies).trans (if_pos rfl)⟩,
      fun hr hcount => exists_goto (f := SenderPhase.drops) (hs.gone hr hcount) ?_⟩
    rw [hi]
    exact fun h => by cases h
  | notifyNotEmpty hi =>
    refine ⟨fun hr => absurd hr wake_ne_parked, fun hr hcount => ?_⟩
    have hparking := waits_of_wake hr
    refine exists_goto (f := SenderPhase.drops) (hs.gone (by rw [hparking]; rfl) hcount) ?_
    rw [hi]
    exact fun h => by cases h
  | clone => exact ⟨hs.item, fun _ hcount => absurd hcount (Nat.succ_ne_zero _)⟩
  | drop_last hi =>
    refine ⟨fun hr hqueue => exists_goto (f := SenderPhase.notifies) (hs.item hr hqueue) ?_,
      fun _ _ => ⟨_, (test_goto SenderPhase.drops).trans (if_pos rfl)⟩⟩
    rw [hi]
    exact fun h => by cases h
  | drop_other hi hmem _ hne =>
    refine ⟨hs.item, fun _ hcount => ?_⟩
    have hpos : 0 < s.senderCount := by
      rw [hsound.counted.card]
      exact Finset.card_pos.mpr ⟨_, hmem⟩
    change s.senderCount - 1 = 0 at hcount
    omega
  | lockDrop hi =>
    refine ⟨fun hr hqueue => exists_goto (f := SenderPhase.notifies) (hs.item hr hqueue) ?_,
      fun hr hcount => exists_goto (f := SenderPhase.drops) (hs.gone hr hcount) fun _ => rfl⟩
    rw [hi]
    exact fun h => by cases h
  | @notifyDrop i hi =>
    refine ⟨fun hr => absurd hr wake_ne_parked, fun hr _ => ?_⟩
    -- a receiver that is about to wait has the mutex, and so has the sender
    have hparking := waits_of_wake hr
    have hsender := (hsound.locked.sender i).mp (by rw [hi]; rfl)
    have hreceiver := hsound.locked.receiver.mp (by rw [hparking]; rfl)
    cases hsender.symm.trans hreceiver
  | loadSenders _ hcount => exact ⟨fun h => (by cases h), fun _ h => absurd h hcount⟩
  | parkRecv hr =>
    have hempty := hsound.queued.empty (by rw [hr]; rfl)
    exact ⟨fun _ h => absurd hempty h, fun _ hcount => hs.gone (by rw [hr]; rfl) hcount⟩
  | callRecv | lockRecv | pop | popNone | tryEmpty | disconnected | wakeRecv | received_wakes
  | received_nobody | dropRecv | lockDropRecv | notifyAll =>
    exact ⟨fun h => (by cases h), fun h => by cases h⟩

/-! ## Senders that wait -/

/-- The threads that will use the room there is in the queue, or pass it on. -/
def helpers (senders : ι → SenderPhase η α) (receiver : ReceiverPhase α) : Set (Party ι) :=
  {p | match p with
    | .sender i => (senders i).checks = true
    | .receiver => receiver.passesOn = true}

/-- The room in the queue. -/
def room (s : Chan ι η α) : Nat := s.maxCapacity - s.queue.length

/-- While the receiver is alive and senders wait for room, the room there is has helpers. -/
def Helped (s : Chan ι η α) : Prop :=
  s.receiverAlive = true → (∃ i, (s.senders i).waits = true) →
    (s.room : ℕ∞) ≤ (helpers s.senders s.receiver).encard

omit [DecidableEq ι] [DecidableEq η] in
/-- A full queue needs no helpers. -/
theorem helped_of_full (h : s.maxCapacity ≤ s.queue.length) : s.Helped := by
  intro _ _
  rw [room, Nat.sub_eq_zero_of_le h]
  exact bot_le

omit [DecidableEq η] in
/-- A sender that goes on, and does not wait. -/
theorem waits_goto {i : ι} {p : SenderPhase η α} (hp : p.waits = false)
    (h : ∃ j, ((s.goto i p).senders j).waits = true) : ∃ j, (s.senders j).waits = true := by
  obtain ⟨j, hj⟩ := h
  rw [test_goto SenderPhase.waits] at hj
  split at hj
  · cases hp.symm.trans hj
  · exact ⟨j, hj⟩

omit [DecidableEq ι] [DecidableEq η] in
theorem passesOn_wake {r : ReceiverPhase α} : r.wake.passesOn = r.passesOn := by
  cases r <;> rfl

omit [DecidableEq ι] [DecidableEq η] in
/-- A step that leaves the senders, the room and the receiver's help. -/
theorem Helped.mono (hs : s.Helped) (halive : t.receiverAlive = s.receiverAlive)
    (hsenders : t.senders = s.senders) (hroom : t.room = s.room)
    (hr : s.receiver.passesOn = true → t.receiver.passesOn = true) : t.Helped := by
  intro ht hw
  rw [hsenders] at hw ⊢
  rw [hroom]
  refine (hs (halive ▸ ht) hw).trans (Set.encard_le_encard ?_)
  rintro (j | _) hj
  · exact hj
  · exact hr hj

omit [DecidableEq η] in
/-- A sender goes on, does not wait, and stays a helper if it was one. -/
theorem Helped.goto (hs : s.Helped) {i : ι} {p : SenderPhase η α} (hwaits : p.waits = false)
    (hchecks : (s.senders i).checks = true → p.checks = true) : (s.goto i p).Helped := by
  intro halive hw
  refine (hs halive (waits_goto hwaits hw)).trans (Set.encard_le_encard ?_)
  rintro (j | _) hj
  · change (s.senders j).checks = true at hj
    show ((s.goto i p).senders j).checks = true
    rw [test_goto SenderPhase.checks]
    split
    · next hij => exact hchecks (hij ▸ hj)
    · exact hj
  · exact hj

omit [DecidableEq η] in
/-- A sender pushes: it uses room, and was a helper. -/
theorem Helped.push (hs : s.Helped) {i : ι} {h : η} {op : SendOp} {item : α}
    (hi : s.senders i = .checked h op item) :
    (({ s with lock := none, queue := s.queue ++ [item] } : Chan ι η α).goto i
      (.notifying h)).Helped := by
  intro halive hw
  have hold := hs halive (waits_goto rfl hw)
  have hmem : Party.sender i ∈ helpers s.senders s.receiver := by
    show (s.senders i).checks = true
    rw [hi]
    rfl
  have hsub : helpers s.senders s.receiver \ {Party.sender i} ⊆
      helpers (s.goto i (.notifying h)).senders s.receiver := by
    rintro (j | _) ⟨hj, hne⟩
    · change (s.senders j).checks = true at hj
      show ((s.goto i (.notifying h)).senders j).checks = true
      rw [test_goto SenderPhase.checks, if_neg]
      · exact hj
      · rintro rfl
        exact hne rfl
    · exact hj
  have hroom : room (({ s with lock := none, queue := s.queue ++ [item] } : Chan ι η α).goto i
      (.notifying h)) = s.room - 1 := by
    show s.maxCapacity - (s.queue ++ [item]).length = s.maxCapacity - s.queue.length - 1
    rw [List.length_append, List.length_singleton, Nat.sub_sub]
  rw [hroom]
  calc ((s.room - 1 : ℕ) : ℕ∞) ≤ (helpers s.senders s.receiver).encard - 1 := by
        rw [ENat.natCast_sub, Nat.cast_one]
        exact tsub_le_tsub_right hold 1
    _ = (helpers s.senders s.receiver \ {Party.sender i}).encard :=
        (Set.encard_sdiff_singleton_of_mem hmem).symm
    _ ≤ _ := Set.encard_le_encard hsub

omit [DecidableEq ι] [DecidableEq η] in
/-- The receiver pops: it makes room, and becomes a helper. -/
theorem Helped.pop (hs : s.Helped) {op : RecvOp} {item : α} {queue : List α}
    (hr : s.receiver = .locked op) (hqueue : s.queue = item :: queue) :
    Helped { s with lock := none, queue := queue, receiver := .notifying item } := by
  intro halive hw
  have hnot : Party.receiver ∉ helpers s.senders s.receiver := by
    rw [hr]
    exact fun h => by cases h
  have hsub : insert Party.receiver (helpers s.senders s.receiver) ⊆
      helpers s.senders (.notifying item) := by
    rintro (j | _) (hj | hj)
    · cases hj
    · exact hj
    · rfl
    · rfl
  have hroom : room { s with lock := none, queue := queue, receiver := .notifying item } ≤
      s.room + 1 := by
    simp only [room, hqueue, List.length_cons]
    omega
  calc ((room { s with lock := none, queue := queue, receiver := .notifying item } : ℕ) : ℕ∞) ≤
        s.room + 1 := by exact_mod_cast hroom
    _ ≤ (helpers s.senders s.receiver).encard + 1 := by
        gcongr
        exact hs halive hw
    _ = (insert Party.receiver (helpers s.senders s.receiver)).encard :=
        (Set.encard_insert_of_notMem hnot).symm
    _ ≤ _ := Set.encard_le_encard hsub

omit [DecidableEq η] in
/-- The receiver notifies a sender, which becomes a helper in its place. -/
theorem Helped.received (hs : s.Helped) {item item' : α} {j : ι} {h : η} {op : SendOp}
    (hr : s.receiver = .notifying item) (hj : s.senders j = .parked h op item') :
    (({ s with receiver := .idle } : Chan ι η α).goto j (.wantLock h op item')).Helped := by
  intro halive hw
  have hold := hs halive (waits_goto rfl hw)
  have hmem : Party.receiver ∈ helpers s.senders s.receiver := by
    rw [hr]
    rfl
  have hnot : Party.sender j ∉ helpers s.senders s.receiver \ {Party.receiver} := by
    rintro ⟨h, -⟩
    change (s.senders j).checks = true at h
    rw [hj] at h
    cases h
  have hsub : insert (Party.sender j) (helpers s.senders s.receiver \ {Party.receiver}) ⊆
      helpers (s.goto j (.wantLock h op item')).senders .idle := by
    rintro (k | _) (hk | ⟨hk, hne⟩)
    · cases hk
      show ((s.goto j (.wantLock h op item')).senders j).checks = true
      rw [test_goto SenderPhase.checks, if_pos rfl]
      rfl
    · change (s.senders k).checks = true at hk
      show ((s.goto j (.wantLock h op item')).senders k).checks = true
      rw [test_goto SenderPhase.checks]
      split
      · rfl
      · exact hk
    · cases hk
    · exact absurd rfl hne
  calc ((s.room : ℕ) : ℕ∞) ≤ (helpers s.senders s.receiver).encard := hold
    _ = (helpers s.senders s.receiver \ {Party.receiver}).encard + 1 :=
        (Set.encard_sdiff_singleton_add_one hmem).symm
    _ = (insert (Party.sender j) (helpers s.senders s.receiver \ {Party.receiver})).encard :=
        (Set.encard_insert_of_notMem hnot).symm
    _ ≤ _ := Set.encard_le_encard hsub

omit [DecidableEq ι] [DecidableEq η] in
theorem exists_of_waits {p : SenderPhase η α} (h : p.waits = true) :
    ∃ h op item, p = .parked h op item := by
  cases p <;> first | exact ⟨_, _, _, rfl⟩ | cases h

omit [DecidableEq ι] [DecidableEq η] in
theorem waits_wake {p : SenderPhase η α} : p.wake.waits = false := by
  cases p <;> rfl

/-- The step lemma for senders that wait. -/
theorem Helped.step (hs : s.Helped) (hst : Step s a t) : t.Helped := by
  cases hst with
  | call | loadAlive | wake => exact hs.goto rfl fun _ => rfl
  | lock => exact Helped.goto (hs.mono rfl rfl rfl id) rfl fun _ => rfl
  | refuse_disconnected _ hdead => exact fun halive => by cases halive.symm.trans hdead
  | push hi => exact hs.push hi
  | refuse_full _ hfull | refuse_timeout _ hfull | park _ _ hfull => exact helped_of_full hfull
  | notifyNotEmpty hi =>
    have hwoken : Helped { s with receiver := s.receiver.wake } :=
      hs.mono rfl rfl rfl fun h => passesOn_wake.trans h
    refine hwoken.goto rfl fun hchecks => ?_
    simp [hi, SenderPhase.checks] at hchecks
  | notifyDrop hi =>
    have hwoken : Helped { s with lock := none, receiver := s.receiver.wake } :=
      hs.mono rfl rfl rfl fun h => passesOn_wake.trans h
    refine hwoken.goto rfl fun hchecks => ?_
    simp [hi, SenderPhase.checks] at hchecks
  | drop_last hi | lockDrop hi =>
    refine Helped.goto (hs.mono rfl rfl rfl id) rfl fun hchecks => ?_
    simp [hi, SenderPhase.checks] at hchecks
  | clone | drop_other => exact hs.mono rfl rfl rfl id
  | pop hr hqueue => exact hs.pop hr hqueue
  | received_wakes hr hj => exact hs.received hr hj
  | received_nobody _ hnobody =>
    rintro - ⟨j, hj⟩
    obtain ⟨h, op, item, hparked⟩ := exists_of_waits hj
    exact absurd hparked (hnobody j h op item)
  | callRecv hr | lockRecv hr | popNone hr | loadSenders hr | tryEmpty hr | disconnected hr
  | parkRecv hr | wakeRecv hr | lockDropRecv hr =>
    exact hs.mono rfl rfl rfl (by rw [hr]; exact fun h => by cases h)
  | dropRecv => exact fun halive => by cases halive
  | notifyAll =>
    rintro - ⟨j, hj⟩
    cases waits_wake.symm.trans hj

/-! ## Along a run -/

/-- What holds in every reachable state. -/
structure Wakeful (s : Chan ι η α) : Prop where
  sound : s.Sound
  departed : Departed s.receiverAlive s.senders s.receiver
  awaited : s.Awaited
  helped : s.Helped

omit [DecidableEq ι] [DecidableEq η] in
theorem wakeful_bounded {n : Nat} {hn : 0 < n} {h : η} : (bounded n hn h : Chan ι η α).Wakeful where
  sound := sound_bounded
  departed := ⟨rfl, fun h => by cases h⟩
  awaited := ⟨fun h => (by cases h), fun h => by cases h⟩
  helped := by
    rintro - ⟨i, hi⟩
    cases hi

/-- The step lemma. -/
theorem Wakeful.step (hs : s.Wakeful) (hst : Step s a t) : t.Wakeful where
  sound := hs.sound.step hst
  departed := hs.departed.step hs.sound.locked hst
  awaited := hs.awaited.step hs.sound hst
  helped := hs.helped.step hst

/-- No thread is on its way in an operation: each is outside, or waits. -/
def Quiescent (s : Chan ι η α) : Prop :=
  (∀ i, s.senders i = .idle ∨ (s.senders i).waits = true) ∧
    (s.receiver = .idle ∨ s.receiver = .parked ∨ s.receiver = .dropped)

omit [DecidableEq ι] [DecidableEq η] in
/-- Where no thread is on its way there are no helpers. -/
theorem Quiescent.helpers_eq (h : s.Quiescent) : helpers s.senders s.receiver = ∅ := by
  refine Set.eq_empty_of_forall_notMem ?_
  rintro (i | _) hhelps
  · change (s.senders i).checks = true at hhelps
    obtain hidle | hwaits := h.1 i
    · rw [hidle] at hhelps
      cases hhelps
    · obtain ⟨h, op, item, hparked⟩ := exists_of_waits hwaits
      rw [hparked] at hhelps
      cases hhelps
  · change s.receiver.passesOn = true at hhelps
    obtain hr | hr | hr := h.2 <;> (rw [hr] at hhelps; cases hhelps)

/-- A run keeps what holds in every reachable state. -/
theorem wakeful_of_run {n : Nat} {hn : 0 < n} {h : η} {as : List (ChanAction ι η α)}
    (hrun : Runs n hn h as s) : s.Wakeful :=
  hrun.invariant wakeful_bounded fun _ _ _ hs _ hst => hs.step hst

omit [DecidableEq ι] [DecidableEq η] in
/-- A receiver that waits in a quiescent state has nothing to receive, and a handle to wait for. -/
theorem Wakeful.of_parked (hs : s.Wakeful) (hq : s.Quiescent) (hr : s.receiver = .parked) :
    s.queue = [] ∧ s.live.Nonempty := by
  have hnone (f : SenderPhase η α → Bool) (hidle : f .idle = false)
      (hparked : ∀ h op item, f (.parked h op item) = false) (i : ι) : f (s.senders i) ≠ true := by
    obtain hi | hwaits := hq.1 i
    · rw [hi, hidle]
      exact Bool.false_ne_true
    · obtain ⟨h, op, item, hi⟩ := exists_of_waits hwaits
      rw [hi, hparked]
      exact Bool.false_ne_true
  constructor
  · by_contra hqueue
    obtain ⟨i, hi⟩ := hs.awaited.item hr hqueue
    exact hnone SenderPhase.notifies rfl (fun _ _ _ => rfl) i hi
  · rw [← Finset.card_pos, ← hs.sound.counted.card]
    refine Nat.pos_of_ne_zero fun hcount => ?_
    obtain ⟨i, hi⟩ := hs.awaited.gone (by rw [hr]; rfl) hcount
    exact hnone SenderPhase.drops rfl (fun _ _ _ => rfl) i hi

omit [DecidableEq ι] [DecidableEq η] in
/-- A sender that waits in a quiescent state has no room to push, and a receiver to wait for. -/
theorem Wakeful.of_waits (hs : s.Wakeful) (hq : s.Quiescent) {i : ι}
    (hi : (s.senders i).waits = true) :
    s.queue.length = s.maxCapacity ∧ s.receiverAlive = true := by
  have halive : s.receiverAlive = true := by
    rw [hs.departed.alive]
    obtain hr | hr | hr := hq.2
    · rw [hr]
      rfl
    · rw [hr]
      rfl
    · -- a thread that waits saw the receiver alive, which no thread did once it is dropped
      obtain ⟨h, op, item, hparked⟩ := exists_of_waits hi
      have htrusts := hs.departed.trusts hr i
      rw [hparked] at htrusts
      cases htrusts
  refine ⟨?_, halive⟩
  have hroom := hs.helped halive ⟨i, hi⟩
  rw [hq.helpers_eq, Set.encard_empty, nonpos_iff_eq_zero, Nat.cast_eq_zero] at hroom
  exact le_antisymm hs.sound.queued.le (Nat.sub_eq_zero_iff_le.mp hroom)

end Chan

open Chan in
/-- Whenever no thread is on its way in an operation, a receiver that waits has an empty queue and a
handle that is not dropped, and a sender that waits has a full queue and a receiver that is
alive. -/
theorem no_lost_wakeup {ι η α : Type} [DecidableEq ι] [DecidableEq η] {n : Nat} {hn : 0 < n}
    {h₀ : η} {as : List (ChanAction ι η α)} {s : Chan ι η α} (hrun : Runs n hn h₀ as s)
    (hq : s.Quiescent) :
    (s.receiver = .parked → s.queue = [] ∧ s.live.Nonempty) ∧
      ∀ i, (s.senders i).waits = true → s.queue.length = n ∧ s.receiverAlive = true := by
  have hs := wakeful_of_run hrun
  refine ⟨hs.of_parked hq, fun i hi => ?_⟩
  obtain ⟨hfull, halive⟩ := hs.of_waits hq hi
  exact ⟨hfull.trans (sound_of_run hrun).2, halive⟩

open Chan in
/-- A channel of one item, in which a second item waits for the first to be received. -/
theorem no_lost_wakeup_full :
    ∃ s : Chan Bool Unit Nat,
      (s.senders true).waits = true ∧ s.queue.length = 1 ∧ s.receiverAlive = true := by
  have hcall : Step (bounded 1 Nat.one_pos ()) (.call false () .send 7) _ := .call rfl (by decide)
  have hpushed : Runs (ι := Bool) 1 Nat.one_pos () _ _ :=
    ((((Run.nil.snoc trivial hcall).snoc trivial (.lock (i := false) rfl rfl)).snoc trivial
      (.loadAlive (i := false) rfl rfl)).snoc trivial (.push (i := false) rfl (by decide))).snoc
      trivial (.notifyNotEmpty (i := false) rfl)
  have hblocked {s : Chan Bool Unit Nat} (h : s.senders true = .idle) (hlive : () ∈ s.live) :
      Step s (.call true () .send 8) _ := .call h hlive
  have hwaits := (((hpushed.snoc trivial (hblocked rfl (Finset.mem_singleton_self _))).snoc trivial
      (.lock (i := true) rfl rfl)).snoc trivial (.loadAlive (i := true) rfl rfl)).snoc trivial
      (.park (i := true) rfl SendOp.noConfusion Nat.le.refl)
  refine ⟨_, rfl, (no_lost_wakeup hwaits ⟨?_, .inl rfl⟩).2 true rfl⟩
  intro i
  cases i with
  | false => exact .inl rfl
  | true => exact .inr rfl

end ActiveDefense.Firewall
