import ActiveDefense.Lib.Run
import Mathlib.Data.Finset.Card
import Mathlib.Data.Set.Card

/-!
# The bounded channel

A queue under a mutex, two condition variables, and two atomic counters that are changed outside
the mutex. Any number of threads send, each operation on a handle that some thread may drop once no
operation uses it; one thread receives. A step is one access to what the threads share: taking the
mutex, a load or a store of a counter, the section that pushes or pops an item and releases the
mutex, a wait, which releases it too, or a notification. A thread that waits may wake for no reason
at any time, and a `send_timeout` that finds the queue full may find its time over.
-/

namespace ActiveDefense.Firewall

/-- The operations of a `Sender`. -/
inductive SendOp where
  | send
  | trySend
  | sendTimeout
deriving DecidableEq, Repr

/-- The operations of the `Receiver`. -/
inductive RecvOp where
  | recv
  | tryRecv
deriving DecidableEq, Repr

/-- Why an item is handed back: the variants of the three error types. -/
inductive Refusal where
  | disconnected
  | full
  | timeout
deriving DecidableEq, Repr

/-- Who holds the mutex. -/
inductive Party (ι : Type) where
  | sender (i : ι)
  | receiver
deriving DecidableEq, Repr

/-- Where a sending thread is. The first five places are in an operation on a handle. -/
inductive SenderPhase (η α : Type) where
  /-- before `lock`, at the start or after a wait -/
  | wantLock (h : η) (op : SendOp) (item : α)
  /-- with the mutex, before `receiver_is_alive` -/
  | locked (h : η) (op : SendOp) (item : α)
  /-- with the mutex, before the comparison with the capacity -/
  | checked (h : η) (op : SendOp) (item : α)
  /-- in the wait on `not_full` -/
  | parked (h : η) (op : SendOp) (item : α)
  /-- after the push, before `not_empty.notify_one` -/
  | notifying (h : η)
  /-- in the `drop` of the last handle, before `lock` -/
  | dropping
  /-- in that `drop`, with the mutex -/
  | dropLocked
  | idle
deriving DecidableEq, Repr

/-- Where the receiving thread is. -/
inductive ReceiverPhase (α : Type) where
  /-- before `lock`, at the start or after a wait -/
  | wantLock (op : RecvOp)
  /-- with the mutex, before `pop_front` -/
  | locked (op : RecvOp)
  /-- with the mutex, after a `pop_front` that found nothing, before `senders_remaining` -/
  | empty (op : RecvOp)
  /-- with the mutex, before the wait -/
  | parking
  /-- in the wait on `not_empty` -/
  | parked
  /-- after the pop, before `not_full.notify_one` -/
  | notifying (item : α)
  /-- in `drop` after the store, before `lock` -/
  | dropping
  /-- in `drop` with the mutex -/
  | dropLocked
  | dropped
  | idle
deriving DecidableEq, Repr

/-- What a thread does in one step. -/
inductive ChanAction (ι η α : Type) where
  | call (i : ι) (h : η) (op : SendOp) (item : α)
  | lock (i : ι)
  | loadAlive (i : ι)
  | push (i : ι) (item : α)
  | refuse (i : ι) (item : α) (why : Refusal)
  | park (i : ι)
  | wake (i : ι)
  | notifyNotEmpty (i : ι)
  | clone (h h' : η)
  | drop (i : ι) (h : η)
  | lockDrop (i : ι)
  | notifyDrop (i : ι)
  | callRecv (op : RecvOp)
  | lockRecv
  | pop (item : α)
  | popNone
  | loadSenders
  | tryEmpty
  | disconnected (op : RecvOp)
  | parkRecv
  | wakeRecv
  | received (item : α)
  | dropRecv
  | lockDropRecv
  | notifyAll
deriving DecidableEq, Repr

/-- The handle that a thread's operation is on. -/
def SenderPhase.handle {η α : Type} : SenderPhase η α → Option η
  | .wantLock h _ _ | .locked h _ _ | .checked h _ _ | .parked h _ _ | .notifying h => some h
  | .dropping | .dropLocked | .idle => none

/-- The item that a thread has still to push or to hand back. -/
def SenderPhase.item {η α : Type} : SenderPhase η α → Option α
  | .wantLock _ _ item | .locked _ _ item | .checked _ _ item | .parked _ _ item => some item
  | .notifying _ | .dropping | .dropLocked | .idle => none

/-- The thread holds the mutex. -/
def SenderPhase.locks {η α : Type} : SenderPhase η α → Bool
  | .locked _ _ _ | .checked _ _ _ | .dropLocked => true
  | _ => false

/-- A thread in the wait is woken. -/
def SenderPhase.wake {η α : Type} : SenderPhase η α → SenderPhase η α
  | .parked h op item => .wantLock h op item
  | p => p

/-- The thread holds the mutex. -/
def ReceiverPhase.locks {α : Type} : ReceiverPhase α → Bool
  | .locked _ | .empty _ | .parking | .dropLocked => true
  | _ => false

/-- The thread holds the mutex and found the queue empty. -/
def ReceiverPhase.sawEmpty {α : Type} : ReceiverPhase α → Bool
  | .empty _ | .parking => true
  | _ => false

/-- A thread in the wait is woken. -/
def ReceiverPhase.wake {α : Type} : ReceiverPhase α → ReceiverPhase α
  | .parked => .wantLock .recv
  | p => p

/-- The item that was popped and is yet to be returned. -/
def ReceiverPhase.inHand {α : Type} : ReceiverPhase α → List α
  | .notifying item => [item]
  | _ => []

/-- `Shared`, with the threads and the handles that are not dropped. -/
structure Chan (ι η α : Type) where
  lock : Option (Party ι)
  queue : List α
  maxCapacity : Nat
  senderCount : Nat
  receiverAlive : Bool
  senders : ι → SenderPhase η α
  receiver : ReceiverPhase α
  live : Finset η

namespace Chan

variable {ι η α : Type}

/-- `bounded`, with its assertion; `h` is the handle it returns. -/
def bounded (maxElements : Nat) (_ : 0 < maxElements) (h : η) : Chan ι η α where
  lock := none
  queue := []
  maxCapacity := maxElements
  senderCount := 1
  receiverAlive := true
  senders := fun _ => .idle
  receiver := .idle
  live := {h}

variable [DecidableEq ι] [DecidableEq η]

/-- A sending thread goes on to another place. -/
def goto (s : Chan ι η α) (i : ι) (p : SenderPhase η α) : Chan ι η α :=
  { s with senders := Function.update s.senders i p }

/-- The steps. -/
inductive Step : Chan ι η α → ChanAction ι η α → Chan ι η α → Prop
  | call {s : Chan ι η α} {i : ι} {h : η} {op : SendOp} {item : α} :
      s.senders i = .idle → h ∈ s.live →
      Step s (.call i h op item) (s.goto i (.wantLock h op item))
  | lock {s : Chan ι η α} {i : ι} {h : η} {op : SendOp} {item : α} :
      s.senders i = .wantLock h op item → s.lock = none →
      Step s (.lock i) ({ s with lock := some (.sender i) }.goto i (.locked h op item))
  | loadAlive {s : Chan ι η α} {i : ι} {h : η} {op : SendOp} {item : α} :
      s.senders i = .locked h op item → s.receiverAlive = true →
      Step s (.loadAlive i) (s.goto i (.checked h op item))
  | refuse_disconnected {s : Chan ι η α} {i : ι} {h : η} {op : SendOp} {item : α} :
      s.senders i = .locked h op item → s.receiverAlive = false →
      Step s (.refuse i item .disconnected) ({ s with lock := none }.goto i .idle)
  | push {s : Chan ι η α} {i : ι} {h : η} {op : SendOp} {item : α} :
      s.senders i = .checked h op item → s.queue.length < s.maxCapacity →
      Step s (.push i item)
        ({ s with lock := none, queue := s.queue ++ [item] }.goto i (.notifying h))
  | refuse_full {s : Chan ι η α} {i : ι} {h : η} {item : α} :
      s.senders i = .checked h .trySend item → s.maxCapacity ≤ s.queue.length →
      Step s (.refuse i item .full) ({ s with lock := none }.goto i .idle)
  | refuse_timeout {s : Chan ι η α} {i : ι} {h : η} {item : α} :
      s.senders i = .checked h .sendTimeout item → s.maxCapacity ≤ s.queue.length →
      Step s (.refuse i item .timeout) ({ s with lock := none }.goto i .idle)
  | park {s : Chan ι η α} {i : ι} {h : η} {op : SendOp} {item : α} :
      s.senders i = .checked h op item → op ≠ .trySend → s.maxCapacity ≤ s.queue.length →
      Step s (.park i) ({ s with lock := none }.goto i (.parked h op item))
  | wake {s : Chan ι η α} {i : ι} {h : η} {op : SendOp} {item : α} :
      s.senders i = .parked h op item → Step s (.wake i) (s.goto i (.wantLock h op item))
  | notifyNotEmpty {s : Chan ι η α} {i : ι} {h : η} :
      s.senders i = .notifying h →
      Step s (.notifyNotEmpty i) ({ s with receiver := s.receiver.wake }.goto i .idle)
  | clone {s : Chan ι η α} {h h' : η} :
      h ∈ s.live → h' ∉ s.live →
      Step s (.clone h h') { s with live := insert h' s.live, senderCount := s.senderCount + 1 }
  | drop_last {s : Chan ι η α} {i : ι} {h : η} :
      s.senders i = .idle → h ∈ s.live → (∀ j, (s.senders j).handle ≠ some h) →
      s.senderCount = 1 →
      Step s (.drop i h) ({ s with live := s.live.erase h, senderCount := 0 }.goto i .dropping)
  | drop_other {s : Chan ι η α} {i : ι} {h : η} :
      s.senders i = .idle → h ∈ s.live → (∀ j, (s.senders j).handle ≠ some h) →
      s.senderCount ≠ 1 →
      Step s (.drop i h) { s with live := s.live.erase h, senderCount := s.senderCount - 1 }
  | lockDrop {s : Chan ι η α} {i : ι} :
      s.senders i = .dropping → s.lock = none →
      Step s (.lockDrop i) ({ s with lock := some (.sender i) }.goto i .dropLocked)
  | notifyDrop {s : Chan ι η α} {i : ι} :
      s.senders i = .dropLocked →
      Step s (.notifyDrop i) ({ s with lock := none, receiver := s.receiver.wake }.goto i .idle)
  | callRecv {s : Chan ι η α} {op : RecvOp} :
      s.receiver = .idle → Step s (.callRecv op) { s with receiver := .wantLock op }
  | lockRecv {s : Chan ι η α} {op : RecvOp} :
      s.receiver = .wantLock op → s.lock = none →
      Step s .lockRecv { s with lock := some .receiver, receiver := .locked op }
  | pop {s : Chan ι η α} {op : RecvOp} {item : α} {queue : List α} :
      s.receiver = .locked op → s.queue = item :: queue →
      Step s (.pop item) { s with lock := none, queue := queue, receiver := .notifying item }
  | popNone {s : Chan ι η α} {op : RecvOp} :
      s.receiver = .locked op → s.queue = [] → Step s .popNone { s with receiver := .empty op }
  | loadSenders {s : Chan ι η α} :
      s.receiver = .empty .recv → s.senderCount ≠ 0 →
      Step s .loadSenders { s with receiver := .parking }
  | tryEmpty {s : Chan ι η α} :
      s.receiver = .empty .tryRecv → s.senderCount ≠ 0 →
      Step s .tryEmpty { s with lock := none, receiver := .idle }
  | disconnected {s : Chan ι η α} {op : RecvOp} :
      s.receiver = .empty op → s.senderCount = 0 →
      Step s (.disconnected op) { s with lock := none, receiver := .idle }
  | parkRecv {s : Chan ι η α} :
      s.receiver = .parking → Step s .parkRecv { s with lock := none, receiver := .parked }
  | wakeRecv {s : Chan ι η α} :
      s.receiver = .parked → Step s .wakeRecv { s with receiver := .wantLock .recv }
  | received_wakes {s : Chan ι η α} {item : α} {j : ι} {h : η} {op : SendOp} {item' : α} :
      s.receiver = .notifying item → s.senders j = .parked h op item' →
      Step s (.received item) ({ s with receiver := .idle }.goto j (.wantLock h op item'))
  | received_nobody {s : Chan ι η α} {item : α} :
      s.receiver = .notifying item → (∀ j h op item', s.senders j ≠ .parked h op item') →
      Step s (.received item) { s with receiver := .idle }
  | dropRecv {s : Chan ι η α} :
      s.receiver = .idle → Step s .dropRecv { s with receiverAlive := false, receiver := .dropping }
  | lockDropRecv {s : Chan ι η α} :
      s.receiver = .dropping → s.lock = none →
      Step s .lockDropRecv { s with lock := some .receiver, receiver := .dropLocked }
  | notifyAll {s : Chan ι η α} :
      s.receiver = .dropLocked →
      Step s .notifyAll
        { s with lock := none, receiver := .dropped, senders := fun i => (s.senders i).wake }

/-! ## The mutex -/

/-- The places with the mutex are those of the thread that holds it. -/
structure Locked (lock : Option (Party ι)) (senders : ι → SenderPhase η α)
    (receiver : ReceiverPhase α) : Prop where
  sender : ∀ i, (senders i).locks = true ↔ lock = some (.sender i)
  receiver : receiver.locks = true ↔ lock = some .receiver

namespace Locked

variable {lock : Option (Party ι)} {senders : ι → SenderPhase η α} {receiver : ReceiverPhase α}
  {i : ι} {p : SenderPhase η α} {r : ReceiverPhase α}

omit [DecidableEq ι] [DecidableEq η] in
/-- The receiver goes on, with the mutex as before. -/
theorem setReceiver (h : Locked lock senders receiver) (hr : r.locks = receiver.locks) :
    Locked lock senders r :=
  ⟨h.sender, by rw [hr]; exact h.receiver⟩

omit [DecidableEq η] in
/-- A sender goes on, with the mutex as before. -/
theorem setSender (h : Locked lock senders receiver) (hp : p.locks = (senders i).locks) :
    Locked lock (Function.update senders i p) receiver := by
  refine ⟨fun j => ?_, h.receiver⟩
  by_cases hj : j = i
  · rw [hj, Function.update_self, hp]
    exact h.sender i
  · rw [Function.update_of_ne hj]
    exact h.sender j

omit [DecidableEq η] in
/-- A sender takes the free mutex. -/
theorem senderTakes (h : Locked none senders receiver) (hp : p.locks = true) :
    Locked (some (.sender i)) (Function.update senders i p) receiver := by
  constructor
  · intro j
    by_cases hj : j = i
    · rw [hj, Function.update_self, hp]
      simp
    · have hother := h.sender j
      rw [Function.update_of_ne hj]
      simp only [reduceCtorEq, iff_false] at hother
      simpa [hother] using Ne.symm hj
  · have hother := h.receiver
    simp only [reduceCtorEq, iff_false] at hother
    simp [hother]

omit [DecidableEq η] in
/-- A sender releases the mutex. -/
theorem senderReleases (h : Locked lock senders receiver) (hi : (senders i).locks = true)
    (hp : p.locks = false) : Locked none (Function.update senders i p) receiver := by
  have hlock := (h.sender i).mp hi
  constructor
  · intro j
    by_cases hj : j = i
    · rw [hj, Function.update_self, hp]
      simp
    · have hother := h.sender j
      rw [hlock] at hother
      rw [Function.update_of_ne hj]
      simpa [Ne.symm hj] using hother
  · have hother := h.receiver
    rw [hlock] at hother
    simpa using hother

omit [DecidableEq ι] [DecidableEq η] in
/-- The receiver takes the free mutex. -/
theorem receiverTakes (h : Locked none senders receiver) (hr : r.locks = true) :
    Locked (some .receiver) senders r := by
  refine ⟨fun j => ?_, by simp [hr]⟩
  have hother := h.sender j
  simp only [reduceCtorEq, iff_false] at hother
  simp [hother]

omit [DecidableEq ι] [DecidableEq η] in
/-- The receiver releases the mutex. -/
theorem receiverReleases (h : Locked lock senders receiver) (hreceiver : receiver.locks = true)
    (hr : r.locks = false) : Locked none senders r := by
  have hlock := h.receiver.mp hreceiver
  refine ⟨fun j => ?_, by simp [hr]⟩
  have hother := h.sender j
  rw [hlock] at hother
  simpa using hother

omit [DecidableEq ι] [DecidableEq η] in
/-- Threads that are woken have the mutex as before. -/
theorem wakeSenders (h : Locked lock senders receiver) :
    Locked lock (fun i => (senders i).wake) receiver := by
  refine ⟨fun i => ?_, h.receiver⟩
  rw [← h.sender i]
  cases senders i <;> rfl

end Locked

omit [DecidableEq ι] [DecidableEq η] in
theorem locks_wake {r : ReceiverPhase α} : r.wake.locks = r.locks := by
  cases r <;> rfl

variable {s t : Chan ι η α} {a : ChanAction ι η α}

/-- The mutex has one holder at any time. -/
theorem Locked.step (hs : Locked s.lock s.senders s.receiver) (hst : Step s a t) :
    Locked t.lock t.senders t.receiver := by
  cases hst with
  | call hi | loadAlive hi | wake hi | drop_last hi => exact hs.setSender (by rw [hi]; rfl)
  | lock hi hfree | lockDrop hi hfree => exact (hfree ▸ hs).senderTakes rfl
  | refuse_disconnected hi | push hi | refuse_full hi | refuse_timeout hi | park hi =>
    exact hs.senderReleases (by rw [hi]; rfl) rfl
  | notifyNotEmpty hi => exact (hs.setReceiver locks_wake).setSender (by rw [hi]; rfl)
  | notifyDrop hi => exact (hs.setReceiver locks_wake).senderReleases (by rw [hi]; rfl) rfl
  | clone | drop_other => exact hs
  | callRecv hr | popNone hr | loadSenders hr | wakeRecv hr | received_nobody hr | dropRecv hr =>
    exact hs.setReceiver (by rw [hr]; rfl)
  | lockRecv hr hfree | lockDropRecv hr hfree => exact (hfree ▸ hs).receiverTakes rfl
  | pop hr | tryEmpty hr | disconnected hr | parkRecv hr =>
    exact hs.receiverReleases (by rw [hr]; rfl) rfl
  | received_wakes hr hj => exact (hs.setReceiver (by rw [hr]; rfl)).setSender (by rw [hj]; rfl)
  | notifyAll hr => exact (hs.receiverReleases (by rw [hr]; rfl) rfl).wakeSenders

/-! ## The handles -/

/-- The counter is the number of handles, and operations are on handles that are not dropped. -/
structure Counted (count : Nat) (live : Finset η) (senders : ι → SenderPhase η α) : Prop where
  card : count = live.card
  handles : ∀ i h, (senders i).handle = some h → h ∈ live

namespace Counted

variable {count : Nat} {live : Finset η} {senders : ι → SenderPhase η α} {i : ι}
  {p : SenderPhase η α} {h : η}

omit [DecidableEq η] in
/-- A thread goes on with a handle that is not dropped, or with none. -/
theorem setSender (hs : Counted count live senders) (hp : ∀ h, p.handle = some h → h ∈ live) :
    Counted count live (Function.update senders i p) := by
  refine ⟨hs.card, fun j h hj => ?_⟩
  by_cases hij : j = i
  · rw [hij, Function.update_self] at hj
    exact hp h hj
  · rw [Function.update_of_ne hij] at hj
    exact hs.handles j h hj

omit [DecidableEq η] in
/-- A thread goes on in its operation. -/
theorem goesOn (hs : Counted count live senders) (hp : p.handle = (senders i).handle) :
    Counted count live (Function.update senders i p) :=
  hs.setSender fun h hh => hs.handles i h (hp ▸ hh)

omit [DecidableEq η] in
/-- A thread is in no operation. -/
theorem leaves (hs : Counted count live senders) (hp : p.handle = none) :
    Counted count live (Function.update senders i p) :=
  hs.setSender fun h hh => by cases hp.symm.trans hh

omit [DecidableEq ι] in
/-- A new handle. -/
theorem clone (hs : Counted count live senders) (hnew : h ∉ live) :
    Counted (count + 1) (insert h live) senders :=
  ⟨by rw [Finset.card_insert_of_notMem hnew, hs.card],
    fun i h' hi => Finset.mem_insert_of_mem (hs.handles i h' hi)⟩

omit [DecidableEq ι] in
/-- A handle that no operation is on goes. -/
theorem drop (hs : Counted count live senders) (hmem : h ∈ live)
    (hunused : ∀ j, (senders j).handle ≠ some h) : Counted (count - 1) (live.erase h) senders := by
  refine ⟨by rw [Finset.card_erase_of_mem hmem, hs.card], fun i h' hi => ?_⟩
  refine Finset.mem_erase.mpr ⟨?_, hs.handles i h' hi⟩
  rintro rfl
  exact hunused i hi

end Counted

omit [DecidableEq ι] [DecidableEq η] in
theorem handle_wake {p : SenderPhase η α} : p.wake.handle = p.handle := by
  cases p <;> rfl

/-- The counter stays the number of handles. -/
theorem Counted.step (hs : Counted s.senderCount s.live s.senders) (hst : Step s a t) :
    Counted t.senderCount t.live t.senders := by
  cases hst with
  | call hi hlive =>
    refine hs.setSender fun h' hh => ?_
    cases hh
    exact hlive
  | lock hi | loadAlive hi | push hi | park hi | wake hi | received_wakes _ hi =>
    exact hs.goesOn (by rw [hi]; rfl)
  | refuse_disconnected | refuse_full | refuse_timeout | notifyNotEmpty | lockDrop | notifyDrop =>
    exact hs.leaves rfl
  | clone hmem hnew => exact hs.clone hnew
  | drop_last hi hmem hunused hone =>
    have hdropped := hs.drop hmem hunused
    rw [hone] at hdropped
    exact hdropped.leaves rfl
  | drop_other hi hmem hunused => exact hs.drop hmem hunused
  | notifyAll => exact ⟨hs.card, fun i h hi => hs.handles i h (handle_wake ▸ hi)⟩
  | _ => exact hs

/-! ## The queue -/

/-- The queue is within its capacity, and empty while the receiver has the mutex and saw it so. -/
structure Queued (queue : List α) (maxCapacity : Nat) (receiver : ReceiverPhase α) : Prop where
  le : queue.length ≤ maxCapacity
  empty : receiver.sawEmpty = true → queue = []

omit [DecidableEq ι] [DecidableEq η] in
theorem locks_of_sawEmpty {r : ReceiverPhase α} (h : r.sawEmpty = true) : r.locks = true := by
  cases r <;> first | rfl | cases h

omit [DecidableEq ι] [DecidableEq η] in
theorem sawEmpty_wake {r : ReceiverPhase α} : r.wake.sawEmpty = r.sawEmpty := by
  cases r <;> rfl

omit [DecidableEq ι] [DecidableEq η] in
/-- While a sender has the mutex, the receiver has not. -/
theorem Locked.not_sawEmpty (hs : Locked s.lock s.senders s.receiver) {i : ι}
    (hi : (s.senders i).locks = true) : s.receiver.sawEmpty ≠ true := by
  intro hempty
  have hsender := (hs.sender i).mp hi
  have hreceiver := hs.receiver.mp (locks_of_sawEmpty hempty)
  cases hsender.symm.trans hreceiver

/-- The queue stays within its capacity. -/
theorem Queued.step (hs : Queued s.queue s.maxCapacity s.receiver)
    (hlocked : Locked s.lock s.senders s.receiver) (hst : Step s a t) :
    Queued t.queue t.maxCapacity t.receiver := by
  cases hst with
  | push hi hroom =>
    have hsaw := hlocked.not_sawEmpty (by rw [hi]; rfl)
    exact ⟨by simpa [goto] using hroom, fun h => absurd h hsaw⟩
  | notifyNotEmpty | notifyDrop => exact ⟨hs.le, fun h => hs.empty (sawEmpty_wake ▸ h)⟩
  | pop hr hqueue =>
    have hle := hs.le
    rw [hqueue, List.length_cons] at hle
    exact ⟨Nat.le_of_succ_le hle, fun h => by cases h⟩
  | popNone hr hempty => exact ⟨hs.le, fun _ => hempty⟩
  | loadSenders hr => exact ⟨hs.le, fun _ => hs.empty (by rw [hr]; rfl)⟩
  | callRecv | lockRecv | tryEmpty | disconnected | parkRecv | wakeRecv | received_wakes
  | received_nobody | dropRecv | lockDropRecv | notifyAll => exact ⟨hs.le, fun h => by cases h⟩
  | _ => exact hs

/-- What holds in every reachable state. -/
structure Sound (s : Chan ι η α) : Prop where
  locked : Locked s.lock s.senders s.receiver
  counted : Counted s.senderCount s.live s.senders
  queued : Queued s.queue s.maxCapacity s.receiver

omit [DecidableEq ι] [DecidableEq η] in
theorem sound_bounded {n : Nat} {hn : 0 < n} {h : η} : (bounded n hn h : Chan ι η α).Sound where
  locked := ⟨fun i => by simp [bounded, SenderPhase.locks], by simp [bounded, ReceiverPhase.locks]⟩
  counted := ⟨by simp [bounded], fun i h hi => by cases hi⟩
  queued := ⟨Nat.zero_le _, fun _ => rfl⟩

/-- The step lemma. -/
theorem Sound.step (hs : s.Sound) (hst : Step s a t) : t.Sound :=
  ⟨hs.locked.step hst, hs.counted.step hst, hs.queued.step hs.locked hst⟩

/-! ## What is sent and received -/

/-- The items pushed in a run, in order. -/
def accepted (as : List (ChanAction ι η α)) : List α :=
  as.filterMap fun
    | .push _ item => some item
    | _ => none

/-- The items that `recv` and `try_recv` returned in a run, in order. -/
def received (as : List (ChanAction ι η α)) : List α :=
  as.filterMap fun
    | .received item => some item
    | _ => none

/-- The item of a thread's last call, after an action. -/
def afterAction (i : ι) (last : Option α) : ChanAction ι η α → Option α
  | .call j _ _ item => if j = i then some item else last
  | _ => last

/-- The item of a thread's last call in a run. -/
def lastCall (i : ι) (as : List (ChanAction ι η α)) : Option α := as.foldl (afterAction i) none

/-- A run of the channel from the start. -/
abbrev Runs (n : Nat) (hn : 0 < n) (h : η) (as : List (ChanAction ι η α)) (s : Chan ι η α) : Prop :=
  Run Step (fun _ _ => True) (bounded n hn h) as s

omit [DecidableEq ι] [DecidableEq η] in
theorem accepted_append {as bs : List (ChanAction ι η α)} :
    accepted (as ++ bs) = accepted as ++ accepted bs := List.filterMap_append ..

omit [DecidableEq ι] [DecidableEq η] in
theorem received_append {as bs : List (ChanAction ι η α)} :
    received (as ++ bs) = received as ++ received bs := List.filterMap_append ..

omit [DecidableEq ι] [DecidableEq η] in
theorem inHand_wake {r : ReceiverPhase α} : r.wake.inHand = r.inHand := by
  cases r <;> rfl

/-- What a step accepts enters the queue at its end, and what it returns left it at its front. -/
theorem Step.accepted (hst : Step s a t) :
    s.receiver.inHand ++ s.queue ++ accepted [a] =
      received [a] ++ t.receiver.inHand ++ t.queue := by
  cases hst with
  | push => simp [Chan.accepted, Chan.received, goto]
  | pop hr hqueue => simp [Chan.accepted, Chan.received, hr, hqueue, ReceiverPhase.inHand]
  | received_wakes hr | received_nobody hr =>
    simp [Chan.accepted, Chan.received, goto, hr, ReceiverPhase.inHand]
  | notifyNotEmpty | notifyDrop => simp [Chan.accepted, Chan.received, goto, inHand_wake]
  | callRecv hr | lockRecv hr | popNone hr | loadSenders hr | tryEmpty hr | disconnected hr
  | parkRecv hr | wakeRecv hr | dropRecv hr | lockDropRecv hr | notifyAll hr =>
    simp [Chan.accepted, Chan.received, hr, ReceiverPhase.inHand]
  | _ => simp [Chan.accepted, Chan.received, goto]

/-- What was accepted is what was received, and after it the item in the receiver's hand and the
queue. -/
theorem accepted_eq {n : Nat} {hn : 0 < n} {h : η} {as : List (ChanAction ι η α)}
    (hrun : Runs n hn h as s) : accepted as = received as ++ s.receiver.inHand ++ s.queue := by
  induction hrun with
  | nil => rfl
  | snoc _ _ hst ih =>
    have hstep := hst.accepted
    rw [accepted_append, received_append, ih]
    simp only [List.append_assoc] at hstep ⊢
    rw [hstep]

omit [DecidableEq η] in
/-- A thread that goes on with its item, or without one. -/
theorem item_goto {i j : ι} {p : SenderPhase η α} {item : α}
    (hp : ∀ x, p.item = some x → (s.senders j).item = some x)
    (h : ((s.goto j p).senders i).item = some item) : (s.senders i).item = some item := by
  change (Function.update s.senders j p i).item = some item at h
  by_cases hij : i = j
  · subst hij
    rw [Function.update_self] at h
    exact hp item h
  · rwa [Function.update_of_ne hij] at h

omit [DecidableEq ι] [DecidableEq η] in
theorem item_wake {p : SenderPhase η α} : p.wake.item = p.item := by
  cases p <;> rfl

/-- No step but a call gives a thread an item. -/
theorem Step.item {i : ι} {last : Option α} (hst : Step s a t)
    (hlast : ∀ x, (s.senders i).item = some x → last = some x) (x : α)
    (hx : (t.senders i).item = some x) : afterAction i last a = some x := by
  cases hst with
  | @call j h op item hj =>
    by_cases hij : j = i
    · subst hij
      change (Function.update s.senders j _ j).item = some x at hx
      rw [Function.update_self] at hx
      exact (if_pos rfl).trans hx
    · refine (if_neg hij).trans (hlast x ?_)
      change (Function.update s.senders j _ i).item = some x at hx
      rwa [Function.update_of_ne (Ne.symm hij)] at hx
  | lock hj | loadAlive hj | park hj | wake hj | received_wakes _ hj =>
    exact hlast x (item_goto (fun y hy => by rw [hj]; exact hy) hx)
  | refuse_disconnected | push | refuse_full | refuse_timeout | notifyNotEmpty | drop_last
  | lockDrop | notifyDrop =>
    exact hlast x (item_goto (fun y hy => by cases hy) hx)
  | notifyAll => exact hlast x (item_wake ▸ hx)
  | _ => exact hlast x hx

/-- The item that a thread has still to push or to hand back is that of its last call. -/
theorem item_eq {n : Nat} {hn : 0 < n} {h : η} {as : List (ChanAction ι η α)}
    (hrun : Runs n hn h as s) (i : ι) (item : α) (hi : (s.senders i).item = some item) :
    lastCall i as = some item := by
  induction hrun generalizing item with
  | nil => cases hi
  | snoc _ _ hst ih =>
    rw [lastCall, List.foldl_append]
    exact hst.item ih item hi

/-- An item that is handed back is the one the thread has, and the queue is as before. -/
theorem Step.refused {i : ι} {item : α} {why : Refusal} (hst : Step s (.refuse i item why) t) :
    (s.senders i).item = some item ∧ t.queue = s.queue := by
  cases hst with
  | refuse_disconnected hi | refuse_full hi | refuse_timeout hi => exact ⟨by rw [hi]; rfl, rfl⟩

/-- The item that is pushed is the one the thread has. -/
theorem Step.pushed {i : ι} {item : α} (hst : Step s (.push i item) t) :
    (s.senders i).item = some item := by
  cases hst with
  | push hi => rw [hi]; rfl

/-- The capacity never changes. -/
theorem Step.maxCapacity (hst : Step s a t) : t.maxCapacity = s.maxCapacity := by
  cases hst <;> rfl

theorem sound_of_run {n : Nat} {hn : 0 < n} {h : η} {as : List (ChanAction ι η α)}
    (hrun : Runs n hn h as s) : s.Sound ∧ s.maxCapacity = n := by
  refine hrun.invariant (I := fun s => s.Sound ∧ s.maxCapacity = n) ⟨sound_bounded, rfl⟩ ?_
  exact fun _ _ _ hs _ hst => ⟨hs.1.step hst, hst.maxCapacity.trans hs.2⟩

/-- `Disconnected` is reported when the queue is empty and no handle is left. -/
theorem Sound.of_disconnected (hs : s.Sound) {op : RecvOp} (hst : Step s (.disconnected op) t) :
    s.queue = [] ∧ s.live = ∅ ∧ s.receiver.inHand = [] := by
  cases hst with
  | disconnected hr hcount =>
    refine ⟨hs.queued.empty (by rw [hr]; rfl), ?_, by rw [hr]; rfl⟩
    exact Finset.card_eq_zero.mp (hs.counted.card.symm.trans hcount)

end Chan

open Chan in
/-- In every run of any number of senders and a receiver: what was accepted is what was received,
in that order, and after it the item in the receiver's hand and the queue; the queue is within its
capacity; what is pushed or handed back is the item of the call, and a refusal leaves the queue;
and `Disconnected` is reported only when every handle was dropped, the queue is empty and all that
was accepted was received. -/
theorem chan_fifo {ι η α : Type} [DecidableEq ι] [DecidableEq η] {n : Nat} {hn : 0 < n} {h₀ : η}
    {as : List (ChanAction ι η α)} {s : Chan ι η α} (hrun : Runs n hn h₀ as s) :
    accepted as = received as ++ s.receiver.inHand ++ s.queue ∧
      s.queue.length ≤ n ∧
      (∀ i item t, Step s (.push i item) t → lastCall i as = some item) ∧
      (∀ i item why t, Step s (.refuse i item why) t →
        lastCall i as = some item ∧ t.queue = s.queue) ∧
      ∀ op t, Step s (.disconnected op) t →
        s.live = ∅ ∧ s.queue = [] ∧ accepted as = received as := by
  obtain ⟨hs, hcapacity⟩ := sound_of_run hrun
  refine ⟨accepted_eq hrun, hcapacity ▸ hs.queued.le, ?_, ?_, ?_⟩
  · exact fun i item t hst => item_eq hrun i item hst.pushed
  · exact fun i item why t hst => ⟨item_eq hrun i item hst.refused.1, hst.refused.2⟩
  · intro op t hst
    obtain ⟨hqueue, hlive, hhand⟩ := hs.of_disconnected hst
    refine ⟨hlive, hqueue, ?_⟩
    rw [accepted_eq hrun, hqueue, hhand, List.append_nil, List.append_nil]

open Chan in
/-- Two threads and a queue for one item: 7 is sent and received, 8 is sent and waits in the queue,
and 9 is refused. -/
theorem chan_fifo_two : ∃ (as : List (ChanAction Bool Unit Nat)) (s : Chan Bool Unit Nat),
    accepted as = [7, 8] ∧ received as = [7] ∧ s.queue = [8] ∧ s.receiver.inHand = [] ∧
      ∃ t, Step s (.refuse true 9 .full) t ∧ lastCall true as = some 9 ∧ t.queue = [8] := by
  have hcall : Step (bounded 1 Nat.one_pos () : Chan Bool Unit Nat) (.call true () .send 7) _ :=
    .call rfl (by decide)
  have hcalled : Runs (ι := Bool) 1 Nat.one_pos () _ _ := Run.nil.snoc trivial hcall
  have hpushed := ((hcalled.snoc trivial (.lock (i := true) rfl rfl)).snoc trivial
    (.loadAlive (i := true) rfl rfl)).snoc trivial (.push (i := true) rfl (by decide))
  have hnotified := hpushed.snoc trivial (.notifyNotEmpty (i := true) rfl)
  have hpopped := ((hnotified.snoc (a := .callRecv .recv) trivial (.callRecv rfl)).snoc trivial
    (.lockRecv rfl rfl)).snoc trivial (.pop rfl rfl)
  have hreceived := hpopped.snoc trivial (.received_nobody rfl (by
    rintro (_ | _) h op item hparked <;> cases hparked))
  have hcalled' := hreceived.snoc (a := .call false () .send 8) trivial (.call rfl (by decide))
  have hpushed' := ((hcalled'.snoc trivial (.lock (i := false) rfl rfl)).snoc trivial
    (.loadAlive (i := false) rfl rfl)).snoc trivial (.push (i := false) rfl (by decide))
  have hcalled'' := hpushed'.snoc (a := .call true () .trySend 9) trivial (.call rfl (by decide))
  have hchecked := (hcalled''.snoc trivial (.lock (i := true) rfl rfl)).snoc trivial
    (.loadAlive (i := true) rfl rfl)
  obtain ⟨haccepted, -, -, hrefused, -⟩ := chan_fifo hchecked
  have hback := hrefused true 9 .full _ (.refuse_full rfl (by decide))
  exact ⟨_, _, haccepted, rfl, rfl, rfl, _, .refuse_full rfl (by decide), hback⟩

end ActiveDefense.Firewall
