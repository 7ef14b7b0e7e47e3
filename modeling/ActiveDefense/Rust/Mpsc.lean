import Mathlib.Data.List.Basic

/-!
# The bounded channel of `tokio::sync::mpsc`

As far as it is used: senders only try to send, and one receiver takes what was sent in order. A
sender fails where as many items wait as the channel holds, and once the receiver is dropped.
-/

namespace ActiveDefense

/-- A channel, with the items that wait in it. -/
structure Mpsc (α : Type) where
  capacity : Nat
  queue : List α
  closed : Bool
  length_le : queue.length ≤ capacity

namespace Mpsc

variable {α : Type}

/-- `mpsc::channel`. -/
def channel (capacity : Nat) : Mpsc α where
  capacity := capacity
  queue := []
  closed := false
  length_le := Nat.zero_le _

/-- There is a receiver, and a place for one more item. -/
def HasRoom (c : Mpsc α) : Prop := c.closed = false ∧ c.queue.length < c.capacity

instance (c : Mpsc α) : Decidable c.HasRoom := inferInstanceAs (Decidable (_ ∧ _))

/-- `Sender::try_send`. -/
def trySend (c : Mpsc α) (a : α) : Option (Mpsc α) :=
  if h : c.HasRoom then
    some { c with
      queue := c.queue ++ [a]
      length_le := by
        rw [List.length_append]
        exact h.2 }
  else none

/-- `Receiver::recv`, where an item waits. -/
def recv (c : Mpsc α) : Option (α × Mpsc α) :=
  match h : c.queue with
  | [] => none
  | a :: rest =>
    some (a, { c with
      queue := rest
      length_le := by
        have hlen := c.length_le
        rw [h, List.length_cons] at hlen
        exact Nat.le_of_succ_le hlen })

/-- The receiver is dropped. -/
def close (c : Mpsc α) : Mpsc α := { c with closed := true }

/-- What a send that succeeds does. -/
theorem queue_of_trySend {c c' : Mpsc α} {a : α} (h : c.trySend a = some c') :
    c.HasRoom ∧ c'.queue = c.queue ++ [a] := by
  rw [trySend] at h
  split at h
  · rename_i hroom
    cases h
    exact ⟨hroom, rfl⟩
  · cases h

/-- A send succeeds where there is room. -/
theorem trySend_eq_none {c : Mpsc α} {a : α} : c.trySend a = none ↔ ¬ c.HasRoom := by
  rw [trySend]
  split <;> simp_all

/-- What is received was the first to wait. -/
theorem queue_of_recv {c c' : Mpsc α} {a : α} (h : c.recv = some (a, c')) :
    c.queue = a :: c'.queue := by
  rw [recv] at h
  split at h
  · cases h
  · rename_i hqueue
    cases h
    exact hqueue

end Mpsc

end ActiveDefense
