import Gigastt.Pool.Code
import Mathlib.Algebra.Order.Group.Multiset

/-!
# What one step of the pool can do

`Trans` lists the steps with their guards, and every proof about the pool goes by its
cases. `Wf` ties the two ends of the channels together.
-/

namespace Gigastt.Pool

variable {T : Type} {s s' : Sys T}

inductive Trans (s : Sys T) : Action → Sys T → Prop where
  | checkout (kind) : Trans s (.checkout kind) { s with calls := s.calls ++ [.fast_path kind] }
  | close : Trans s .close { s with calls := s.calls ++ [.closing] }
  | refuse_fast {i kind} (hi : s.calls[i]? = some (.fast_path kind)) (hc : s.pool.closed = true) :
      Trans s (.next i) (s.put i .failed)
  | take {i kind item items} (hi : s.calls[i]? = some (.fast_path kind))
      (hc : s.pool.closed = false) (hx : s.pool.items = item :: items) :
      Trans s (.next i) ({ s with pool := { s.pool with items } }.put i (.guard item))
  | miss {i kind} (hi : s.calls[i]? = some (.fast_path kind)) (hc : s.pool.closed = false)
      (hx : s.pool.items = []) : Trans s (.next i) (s.put i (.slow_path kind))
  | refuse_slow {i kind} (hi : s.calls[i]? = some (.slow_path kind)) (hc : s.pool.closed = true) :
      Trans s (.next i) (s.put i .failed)
  | register {i kind} (hi : s.calls[i]? = some (.slow_path kind)) (hc : s.pool.closed = false) :
      Trans s (.next i)
        ({ s with pool := { s.pool with waiters := s.pool.waiters ++ [kind.waiter i] } }.put i
          (.parked kind .empty))
  | receive {i kind item} (hi : s.calls[i]? = some (.parked kind (.item item))) :
      Trans s (.next i) (s.put i (.guard item))
  | hear_close {i kind} (hi : s.calls[i]? = some (.parked kind .hung_up)) :
      Trans s (.next i) (s.put i .failed)
  | discard {i item} (hi : s.calls[i]? = some (.checkin item)) (hc : s.pool.closed = true) :
      Trans s (.next i) (s.put i .returned)
  | find_open {i item} (hi : s.calls[i]? = some (.checkin item)) (hc : s.pool.closed = false) :
      Trans s (.next i) (s.put i (.giving item))
  | pop {i item waiter waiters} (hi : s.calls[i]? = some (.giving item))
      (hw : s.pool.waiters = waiter :: waiters) :
      Trans s (.next i) ({ s with pool := { s.pool with waiters } }.put i (.sending waiter item))
  | no_waiter {i item} (hi : s.calls[i]? = some (.giving item)) (hw : s.pool.waiters = []) :
      Trans s (.next i) (s.put i (.pushing item))
  | send {i waiter item} (hi : s.calls[i]? = some (.sending waiter item)) :
      Trans s (.next i) ({ s with calls := send s.calls waiter.tx item }.put i .returned)
  | push {i item} (hi : s.calls[i]? = some (.pushing item)) :
      Trans s (.next i) ({ s with pool := s.pool.push_item item }.put i .returned)
  | store {i} (hi : s.calls[i]? = some .closing) :
      Trans s (.next i) ({ s with pool := s.pool.store_closed }.put i .clearing)
  | clear {i} (hi : s.calls[i]? = some .clearing) :
      Trans s (.next i)
        (Sys.put ⟨s.pool.clear_waiters, hang_up_all s.calls s.pool.waiters⟩ i .returned)
  | cancel {i rx} (hi : s.calls[i]? = some (.parked .Async rx)) :
      Trans s (.cancel i) (s.put i .cancelled)
  | into_owned {i item} (hi : s.calls[i]? = some (.guard item)) :
      Trans s (.into_owned i) (s.put i (.owned item))
  | drop {i item} (hi : s.calls[i]? = some (.guard item)) :
      Trans s (.drop i) (s.put i (.checkin item))
  | give_back {i item} (hi : s.calls[i]? = some (.owned item)) :
      Trans s (.give_back i) (s.put i (.checkin item))

theorem trans_of_next {i : Nat} (h : s.next i = some s') : Trans s (.next i) s' := by
  unfold Sys.next at h
  split at h
  case h_1 kind hi =>
    cases hc : s.pool.closed with
    | true =>
      rw [PoolInner.fast_path, if_pos hc] at h
      cases h; exact .refuse_fast hi hc
    | false =>
      rw [PoolInner.fast_path, if_neg (by simp [hc])] at h
      cases hx : s.pool.items with
      | nil => simp only [hx] at h; cases h; exact .miss hi hc hx
      | cons item items => simp only [hx] at h; cases h; exact .take hi hc hx
  case h_2 kind hi =>
    cases hc : s.pool.closed with
    | true =>
      rw [PoolInner.slow_path, if_pos hc] at h
      cases h; exact .refuse_slow hi hc
    | false =>
      rw [PoolInner.slow_path, if_neg (by simp [hc])] at h
      cases h; exact .register hi hc
  case h_3 hi => cases h; exact .receive hi
  case h_4 hi => cases h; exact .hear_close hi
  case h_5 item hi =>
    cases hc : s.pool.closed with
    | true => rw [if_pos hc] at h; cases h; exact .discard hi hc
    | false => rw [if_neg (by simp [hc])] at h; cases h; exact .find_open hi hc
  case h_6 item hi =>
    cases hw : s.pool.waiters with
    | nil => simp only [PoolInner.pop_waiter, hw] at h; cases h; exact .no_waiter hi hw
    | cons waiter waiters => simp only [PoolInner.pop_waiter, hw] at h; cases h; exact .pop hi hw
  case h_7 hi => cases h; exact .send hi
  case h_8 hi => cases h; exact .push hi
  case h_9 hi => cases h; exact .store hi
  case h_10 hi => cases h; exact .clear hi
  case h_11 => simp at h

theorem trans_of_step {a : Action} (h : s.step a = some s') : Trans s a s' := by
  cases a with
  | checkout kind => cases h; exact .checkout kind
  | close => cases h; exact .close
  | next i => exact trans_of_next h
  | cancel i =>
    simp only [Sys.step] at h
    split at h
    case h_1 hi => cases h; exact .cancel hi
    case h_2 => simp at h
  | into_owned i =>
    simp only [Sys.step] at h
    split at h
    case h_1 hi => cases h; exact .into_owned hi
    case h_2 => simp at h
  | drop i =>
    simp only [Sys.step] at h
    split at h
    case h_1 hi => cases h; exact .drop hi
    case h_2 => simp at h
  | give_back i =>
    simp only [Sys.step] at h
    split at h
    case h_1 hi => cases h; exact .give_back hi
    case h_2 => simp at h

/-! ## Reading a call after an update -/

@[simp] theorem put_pool (i : Nat) (c : Call T) : (s.put i c).pool = s.pool := rfl
@[simp] theorem put_calls (i : Nat) (c : Call T) : (s.put i c).calls = s.calls.set i c := rfl

theorem get_put {i j : Nat} {c d : Call T} (h : (s.put i c).calls[j]? = some d) :
    (i = j ∧ d = c) ∨ (i ≠ j ∧ s.calls[j]? = some d) := by
  rw [put_calls, List.getElem?_set] at h
  split at h
  · split at h
    · left; exact ⟨‹_›, (Option.some.inj h).symm⟩
    · cases h
  · right; exact ⟨‹_›, h⟩

theorem get_put_ne {i j : Nat} (c : Call T) (h : i ≠ j) :
    (s.put i c).calls[j]? = s.calls[j]? := by
  rw [put_calls, List.getElem?_set_ne h]

theorem get_put_self {i : Nat} {c d : Call T} (h : s.calls[i]? = some d) :
    (s.put i c).calls[i]? = some c := by
  rw [put_calls, List.getElem?_set_self (List.getElem?_eq_some_iff.mp h).1]

/-- A receiver that can still take an item. -/
def Waits (calls : List (Call T)) (tx : Nat) : Prop := ∃ kind, calls[tx]? = some (.parked kind .empty)

theorem send_of_waits {calls : List (Call T)} {tx : Nat} {kind : Kind} (item : T)
    (h : calls[tx]? = some (.parked kind .empty)) :
    send calls tx item = calls.set tx (.parked kind (.item item)) := by
  simp [send, h]

theorem send_of_not_waits {calls : List (Call T)} {tx : Nat} (item : T) (h : ¬ Waits calls tx) :
    send calls tx item = calls := by
  unfold send
  split
  case h_1 kind hk => exact absurd ⟨kind, hk⟩ h
  case h_2 => rfl

theorem get_send {calls : List (Call T)} {tx j : Nat} {item : T} {c : Call T}
    (hc : ∀ kind, c ≠ .parked kind .empty) (h : calls[j]? = some c) :
    (send calls tx item)[j]? = some c := by
  by_cases hw : Waits calls tx
  · obtain ⟨kind, hk⟩ := hw
    have hne : tx ≠ j := by
      rintro rfl
      rw [hk] at h
      exact hc kind (Option.some.inj h).symm
    rw [send_of_waits item hk, List.getElem?_set_ne hne, h]
  · rw [send_of_not_waits item hw, h]

theorem mem_send {calls : List (Call T)} {tx : Nat} {item : T} {c : Call T}
    (h : c ∈ send calls tx item) : c ∈ calls ∨ ∃ kind, c = .parked kind (.item item) := by
  by_cases hw : Waits calls tx
  · obtain ⟨kind, hk⟩ := hw
    rw [send_of_waits item hk] at h
    rcases List.mem_or_eq_of_mem_set h with h | h
    · exact .inl h
    · exact .inr ⟨kind, h⟩
  · rw [send_of_not_waits item hw] at h
    exact .inl h

theorem get_hang_up_all (calls : List (Call T)) (waiters : List Waiter) (i : Nat) :
    (hang_up_all calls waiters)[i]? =
      calls[i]?.map fun c => if i ∈ waiters.map Waiter.tx then c.hang_up else c := by
  simp [hang_up_all, List.getElem?_mapIdx]

end Gigastt.Pool
