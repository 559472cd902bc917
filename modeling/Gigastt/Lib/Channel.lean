import Mathlib.Data.List.Infix

/-!
# A bounded channel with one sender and one receiver

A send waits while the channel is full, and is refused once the receiver is gone. A
receive waits while the channel is empty, and ends once the sender is gone too. The
bound is a field, so a channel past its capacity cannot be built.
-/

namespace Gigastt

structure Channel (α : Type*) where
  capacity : Nat
  queue : List α
  bounded : queue.length ≤ capacity
  sender : Bool
  receiver : Bool

namespace Channel

variable {α : Type*} {c c' : Channel α} {sent received : List α} {x : α}

def new (α : Type*) (capacity : Nat) : Channel α :=
  { capacity, queue := [], bounded := Nat.zero_le _, sender := true, receiver := true }

inductive Sending (α : Type*) where
  | full
  | refused
  | sent (c : Channel α)

def send (c : Channel α) (x : α) : Sending α :=
  if c.receiver then
    if h : c.queue.length < c.capacity then
      .sent { c with queue := c.queue ++ [x], bounded := by rw [List.length_append]; exact h }
    else .full
  else .refused

inductive Receiving (α : Type*) where
  | empty
  | ended
  | received (x : α) (c : Channel α)

def recv : Channel α → Receiving α
  | { capacity, queue := x :: queue, bounded, sender, receiver } =>
    .received x { capacity, queue, bounded := Nat.le_of_lt bounded, sender, receiver }
  | { queue := [], sender, .. } => if sender then .empty else .ended

def drop_sender (c : Channel α) : Channel α := { c with sender := false }

/-- What is still queued goes with the receiver. -/
def drop_receiver (c : Channel α) : Channel α :=
  { c with queue := [], bounded := Nat.zero_le _, receiver := false }

@[simp] theorem drop_sender_queue (c : Channel α) : c.drop_sender.queue = c.queue := rfl
@[simp] theorem drop_sender_sender (c : Channel α) : c.drop_sender.sender = false := rfl
@[simp] theorem drop_sender_receiver (c : Channel α) : c.drop_sender.receiver = c.receiver := rfl
@[simp] theorem drop_receiver_queue (c : Channel α) : c.drop_receiver.queue = [] := rfl
@[simp] theorem drop_receiver_sender (c : Channel α) : c.drop_receiver.sender = c.sender := rfl
@[simp] theorem drop_receiver_receiver (c : Channel α) : c.drop_receiver.receiver = false := rfl

/-! ## What an operation can do -/

theorem send_sent (h : c.send x = .sent c') :
    c.receiver = true ∧ c.queue.length < c.capacity ∧ c'.queue = c.queue ++ [x] ∧
      c'.capacity = c.capacity ∧ c'.sender = c.sender ∧ c'.receiver = true := by
  unfold send at h
  split_ifs at h with hreceiver hroom
  cases h
  exact ⟨hreceiver, hroom, rfl, rfl, rfl, hreceiver⟩

theorem send_refused_iff : c.send x = .refused ↔ c.receiver = false := by
  unfold send
  split_ifs with hreceiver hroom
  · simp [hreceiver]
  · simp [hreceiver]
  · simpa using hreceiver

theorem send_full_iff : c.send x = .full ↔ c.receiver = true ∧ c.queue.length = c.capacity := by
  have hbounded := c.bounded
  unfold send
  split_ifs with hreceiver hroom
  · simp only [false_iff, not_and]
    omega
  · simp only [hreceiver, true_and, true_iff]
    omega
  · simp [hreceiver]

theorem recv_received (h : c.recv = .received x c') :
    c.queue = x :: c'.queue ∧ c'.capacity = c.capacity ∧ c'.sender = c.sender ∧
      c'.receiver = c.receiver := by
  unfold recv at h
  split at h
  · cases h
    exact ⟨rfl, rfl, rfl, rfl⟩
  · split_ifs at h

theorem recv_ended_iff : c.recv = .ended ↔ c.queue = [] ∧ c.sender = false := by
  unfold recv
  split
  · simp
  · split_ifs with hsender
    · simp [hsender]
    · simpa using hsender

theorem recv_empty_iff : c.recv = .empty ↔ c.queue = [] ∧ c.sender = true := by
  unfold recv
  split
  · simp
  · split_ifs with hsender
    · simpa using hsender
    · simp [hsender]

/-- A receiver can be served from a channel that is not waiting for its sender. -/
theorem recv_cases (c : Channel α) :
    (∃ x c', c.recv = .received x c') ∨ c.recv = .ended ∨ c.recv = .empty := by
  cases h : c.recv with
  | empty => exact .inr (.inr rfl)
  | ended => exact .inr (.inl rfl)
  | received x c' => exact .inl ⟨x, c', rfl⟩

/-! ## What went in and what came out -/

/-- Of the values sent, a prefix was received, and all the rest is queued as long as there is
a receiver. -/
structure Carries (c : Channel α) (sent received : List α) : Prop where
  in_order : received <+: sent
  whole : c.receiver = true → received ++ c.queue = sent

theorem Carries.new (capacity : Nat) : Carries (Channel.new α capacity) [] [] :=
  ⟨List.prefix_rfl, fun _ => rfl⟩

theorem Carries.send (h : Carries c sent received) (hsend : c.send x = .sent c') :
    Carries c' (sent ++ [x]) received := by
  obtain ⟨hreceiver, -, hqueue, -, -, -⟩ := send_sent hsend
  refine ⟨h.in_order.trans (List.prefix_append sent [x]), fun _ => ?_⟩
  rw [hqueue, ← List.append_assoc, h.whole hreceiver]

theorem Carries.recv (h : Carries c sent received) (halive : c.receiver = true)
    (hrecv : c.recv = .received x c') : Carries c' sent (received ++ [x]) := by
  obtain ⟨hqueue, -, -, -⟩ := recv_received hrecv
  have hsent : (received ++ [x]) ++ c'.queue = sent := by
    rw [← h.whole halive, hqueue, List.append_assoc, List.singleton_append]
  exact ⟨⟨c'.queue, hsent⟩, fun _ => hsent⟩

theorem Carries.drop_sender (h : Carries c sent received) : Carries c.drop_sender sent received :=
  ⟨h.in_order, h.whole⟩

theorem Carries.drop_receiver (h : Carries c sent received) :
    Carries c.drop_receiver sent received :=
  ⟨h.in_order, by simp⟩

/-- A receiver that is told the end has got all that was sent. -/
theorem Carries.ended (h : Carries c sent received) (halive : c.receiver = true)
    (hended : c.recv = .ended) : received = sent := by
  have hqueue := (recv_ended_iff.mp hended).1
  rw [← h.whole halive, hqueue, List.append_nil]

end Channel

end Gigastt
