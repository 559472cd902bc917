import Gigastt.Pool.Wf

/-!
# What a run of the pool does to its callers

Each step leaves the events that a caller could be told about. A caller that registered
is owed its item until the item is sent or its sender is dropped.
-/

namespace Gigastt.Pool

variable {T : Type} {s s' : Sys T}

inductive Event where
  -- Call `i` starts, as a checkout.
  | began (i : Nat)
  -- Its fast path took an item.
  | took (i : Nat)
  | registered (i : Nat)
  -- A `checkin` with an item popped its sender.
  | served (i : Nat)
  | sent (i : Nat)
  -- `close` dropped its sender.
  | hung_up (i : Nat)
  | cancelled (i : Nat)
  -- `close` set the flag.
  | stored
  -- `close` returned.
  | closed
deriving DecidableEq, Repr

def Sys.next_events (s : Sys T) (i : Nat) : List Event :=
  match s.calls[i]? with
  | some (.fast_path _) =>
    match s.pool.fast_path with
    | (.ok (some _), _) => [.took i]
    | _ => []
  | some (.slow_path kind) =>
    match s.pool.slow_path (kind.waiter i) with
    | (.ok _, _) => [.registered i]
    | _ => []
  | some (.giving _) =>
    match s.pool.pop_waiter with
    | (some waiter, _) => [.served waiter.tx]
    | _ => []
  | some (.sending waiter _) => [.sent waiter.tx]
  | some .closing => [.stored]
  | some .clearing => s.pool.waiters.map (fun waiter => .hung_up waiter.tx) ++ [.closed]
  | _ => []

def Sys.events (s : Sys T) : Action → List Event
  | .checkout _ => [.began s.calls.length]
  | .next i => s.next_events i
  | .cancel i => [.cancelled i]
  | _ => []

abbrev Sys.trace (items : List T) (as : List Action) : List Event :=
  Steps.trace Sys.step Sys.events (Sys.new items) as

/-! ## The events of each step -/

/-- Calls whose next section is not seen by any other caller. -/
def Call.quiet : Call T → Bool
  | .fast_path _ | .slow_path _ | .giving _ | .sending _ _ | .closing | .clearing => false
  | _ => true

theorem events_quiet {i : Nat} {c : Call T} (hi : s.calls[i]? = some c) (hc : c.quiet = true) :
    s.events (.next i) = [] := by
  simp only [Sys.events, Sys.next_events, hi]
  cases c <;> simp_all [Call.quiet]

theorem events_refuse_fast {i : Nat} {kind : Kind} (hi : s.calls[i]? = some (.fast_path kind))
    (hc : s.pool.closed = true) : s.events (.next i) = [] := by
  simp [Sys.events, Sys.next_events, hi, PoolInner.fast_path, hc]

theorem events_take {i : Nat} {kind : Kind} {item : T} {items : List T}
    (hi : s.calls[i]? = some (.fast_path kind)) (hc : s.pool.closed = false)
    (hx : s.pool.items = item :: items) : s.events (.next i) = [.took i] := by
  simp [Sys.events, Sys.next_events, hi, PoolInner.fast_path, hc, hx]

theorem events_miss {i : Nat} {kind : Kind} (hi : s.calls[i]? = some (.fast_path kind))
    (hc : s.pool.closed = false) (hx : s.pool.items = []) : s.events (.next i) = [] := by
  simp [Sys.events, Sys.next_events, hi, PoolInner.fast_path, hc, hx]

theorem events_refuse_slow {i : Nat} {kind : Kind} (hi : s.calls[i]? = some (.slow_path kind))
    (hc : s.pool.closed = true) : s.events (.next i) = [] := by
  simp [Sys.events, Sys.next_events, hi, PoolInner.slow_path, hc]

theorem events_register {i : Nat} {kind : Kind} (hi : s.calls[i]? = some (.slow_path kind))
    (hc : s.pool.closed = false) : s.events (.next i) = [.registered i] := by
  simp [Sys.events, Sys.next_events, hi, PoolInner.slow_path, hc]

theorem events_pop {i : Nat} {item : T} {waiter : Waiter} {waiters : List Waiter}
    (hi : s.calls[i]? = some (.giving item)) (hw : s.pool.waiters = waiter :: waiters) :
    s.events (.next i) = [.served waiter.tx] := by
  simp [Sys.events, Sys.next_events, hi, PoolInner.pop_waiter, hw]

theorem events_no_waiter {i : Nat} {item : T} (hi : s.calls[i]? = some (.giving item))
    (hw : s.pool.waiters = []) : s.events (.next i) = [] := by
  simp [Sys.events, Sys.next_events, hi, PoolInner.pop_waiter, hw]

theorem events_send {i : Nat} {item : T} {waiter : Waiter}
    (hi : s.calls[i]? = some (.sending waiter item)) : s.events (.next i) = [.sent waiter.tx] := by
  simp [Sys.events, Sys.next_events, hi]

theorem events_store {i : Nat} (hi : s.calls[i]? = some .closing) :
    s.events (.next i) = [.stored] := by
  simp [Sys.events, Sys.next_events, hi]

theorem events_clear {i : Nat} (hi : s.calls[i]? = some .clearing) :
    s.events (.next i) = s.pool.waiters.map (fun waiter => .hung_up waiter.tx) ++ [.closed] := by
  simp [Sys.events, Sys.next_events, hi]

/-- What the event says about the states before and after its step. -/
def Event.Holds (s s' : Sys T) : Event → Prop
  | .began i => i = s.calls.length
  | .took i => i < s.calls.length ∧ s.pool.items ≠ []
  | .registered i => i < s.calls.length ∧
      ∃ waiter, s'.pool.waiters = s.pool.waiters ++ [waiter] ∧ waiter.tx = i
  | .served i => ∃ waiter, s.pool.waiters = waiter :: s'.pool.waiters ∧ waiter.tx = i
  | .sent i => ∃ (k : Nat) (waiter : Waiter) (item : T),
      s.calls[k]? = some (.sending waiter item) ∧ waiter.tx = i
  | .hung_up i => i ∈ s.pool.waiters.map Waiter.tx ∧
      ∃ k : Nat, s'.calls = (hang_up_all s.calls s.pool.waiters).set k .returned ∧
        s.calls[k]? = some .clearing
  | .cancelled i => s'.calls[i]? = some .cancelled
  | .stored => s'.pool.closed = true
  | .closed => .clearing ∈ s.calls ∧ s'.pool = s.pool.clear_waiters

@[simp]
theorem Kind.tx_waiter (kind : Kind) (i : Nat) : (kind.waiter i).tx = i := by
  cases kind <;> rfl

theorem holds_of_mem_events {a : Action} {e : Event} (h : s.step a = some s')
    (he : e ∈ s.events a) : e.Holds s s' := by
  cases trans_of_step h with
  | checkout =>
    obtain rfl : e = .began s.calls.length := by simpa [Sys.events] using he
    exact Eq.refl s.calls.length
  | cancel hi =>
    obtain rfl : e = .cancelled _ := by simpa [Sys.events] using he
    exact get_put_self hi
  | close | into_owned | drop | give_back => simp [Sys.events] at he
  | refuse_fast hi hc => simp [events_refuse_fast hi hc] at he
  | take hi hc hx =>
    obtain rfl : e = .took _ := by simpa [events_take hi hc hx] using he
    exact ⟨(List.getElem?_eq_some_iff.mp hi).1, List.ne_nil_of_mem (hx ▸ List.mem_cons_self)⟩
  | miss hi hc hx => simp [events_miss hi hc hx] at he
  | refuse_slow hi hc => simp [events_refuse_slow hi hc] at he
  | register hi hc =>
    obtain rfl : e = .registered _ := by simpa [events_register hi hc] using he
    exact ⟨(List.getElem?_eq_some_iff.mp hi).1, _, rfl, Kind.tx_waiter _ _⟩
  | pop hi hw =>
    obtain rfl : e = .served _ := by simpa [events_pop hi hw] using he
    exact ⟨_, hw, rfl⟩
  | no_waiter hi hw => simp [events_no_waiter hi hw] at he
  | send hi =>
    obtain rfl : e = .sent _ := by simpa [events_send hi] using he
    exact ⟨_, _, _, hi, rfl⟩
  | store hi =>
    obtain rfl : e = .stored := by simpa [events_store hi] using he
    exact Eq.refl true
  | clear hi =>
    rw [events_clear hi, List.mem_append, List.mem_map, List.mem_singleton] at he
    rcases he with ⟨waiter, hw, rfl⟩ | rfl
    · exact ⟨List.mem_map_of_mem hw, _, rfl, hi⟩
    · exact ⟨List.mem_of_getElem? hi, rfl⟩
  | receive hi | hear_close hi | discard hi | find_open hi | push hi =>
    simp [events_quiet hi rfl] at he

/-! ## What becomes of one call -/

/-- The call that the action moves on. -/
def Action.call : Action → Option Nat
  | .checkout _ | .close => none
  | .next i | .cancel i | .into_owned i | .drop i | .give_back i => some i

/-- A call that waits for nothing is moved on by its own steps only. -/
theorem get_step_other {a : Action} {i : Nat} {c : Call T} (h : s.step a = some s')
    (hi : s.calls[i]? = some c) (hc : ∀ kind, c ≠ .parked kind .empty) (ha : a.call ≠ some i) :
    s'.calls[i]? = some c := by
  have hup : c.hang_up = c := by
    unfold Call.hang_up
    split
    · exact absurd rfl (hc _)
    · rfl
  cases trans_of_step h with
  | checkout | close =>
    rw [List.getElem?_append_left (List.getElem?_eq_some_iff.mp hi).1, hi]
  | send hj =>
    rw [get_put_ne _ (by simpa [Action.call] using ha)]
    exact get_send hc hi
  | clear hj =>
    rw [get_put_ne _ (by simpa [Action.call] using ha)]
    simp only [get_hang_up_all, hi, Option.map_some, hup, ite_self]
  | refuse_fast hj | take hj | miss hj | refuse_slow hj | register hj | receive hj | hear_close hj
  | discard hj | find_open hj | pop hj | no_waiter hj | push hj | store hj | cancel hj
  | into_owned hj | drop hj | give_back hj =>
    rw [get_put_ne _ (by simpa [Action.call] using ha)]
    exact hi

theorem next_of_sending {a : Action} {i : Nat} {waiter : Waiter} {item : T}
    (hi : s.calls[i]? = some (.sending waiter item)) (ha : a.call = some i)
    (h : s.step a = some s') : a = .next i := by
  cases a <;> simp_all [Action.call, Sys.step]

/-- `Err(PoolError::Closed)` is the end of a call. -/
theorem get_step_failed {a : Action} {i : Nat} (h : s.step a = some s')
    (hi : s.calls[i]? = some .failed) : s'.calls[i]? = some .failed := by
  apply get_step_other h hi (by simp)
  intro ha
  cases a <;> simp_all [Action.call, Sys.step, Sys.next]

/-- The call returned `PoolError::Closed`, or will if it is not cancelled first. -/
def Call.refused : Call T → Bool
  | .parked _ .hung_up | .failed | .cancelled => true
  | _ => false

theorem refused_step {a : Action} {i : Nat} (h : s.step a = some s')
    (hi : ∃ c, s.calls[i]? = some c ∧ c.refused = true) :
    ∃ c, s'.calls[i]? = some c ∧ c.refused = true := by
  obtain ⟨c, hi, hc⟩ := hi
  have hne : ∀ kind, c ≠ .parked kind .empty := by
    rintro kind rfl
    simp [Call.refused] at hc
  by_cases ha : a.call = some i
  · -- Its own next step hears of the close, and a cancel drops its future.
    unfold Call.refused at hc
    split at hc
    case h_1 kind =>
      cases a with
      | next j =>
        obtain rfl : j = i := by simpa [Action.call] using ha
        obtain rfl : s.put j .failed = s' := by simpa [Sys.step, Sys.next, hi] using h
        exact ⟨.failed, get_put_self hi, rfl⟩
      | cancel j =>
        obtain rfl : j = i := by simpa [Action.call] using ha
        cases trans_of_step h with
        | cancel hj => exact ⟨.cancelled, get_put_self hi, rfl⟩
      | checkout | close => simp [Action.call] at ha
      | into_owned | drop | give_back => simp_all [Action.call, Sys.step]
    case h_2 => exact ⟨.failed, get_step_failed h hi, rfl⟩
    case h_3 => cases a <;> simp_all [Action.call, Sys.step, Sys.next]
    case h_4 => simp at hc
  · exact ⟨c, get_step_other h hi hne ha, hc⟩

end Gigastt.Pool
