import Gigastt.Pool.Events

/-!
# `close` strands nobody

`close` stores the flag first and clears the queue after, and a caller registers under
the lock that `close` clears the queue under, only while the flag is down. So nobody
registers behind the clear.
-/

namespace Gigastt.Pool

variable {T : Type} {s s' : Sys T}

/-- The sender of channel `i` is in the queue or in the hands of a `checkin`. -/
def Owed (s : Sys T) (i : Nat) : Prop :=
  (∃ waiter ∈ s.pool.waiters, waiter.tx = i) ∨
    ∃ (k : Nat) (waiter : Waiter) (item : T),
      s.calls[k]? = some (.sending waiter item) ∧ waiter.tx = i

/-- A sender leaves only by being used or by being dropped. -/
theorem owed_step {a : Action} {i : Nat} (h : s.step a = some s') (ho : Owed s i) :
    Owed s' i ∨ .sent i ∈ s.events a ∨ .hung_up i ∈ s.events a := by
  rcases ho with ⟨waiter, hmem, htx⟩ | ⟨k, waiter, item, hk, htx⟩
  · cases trans_of_step h with
    | pop hj hw =>
      rw [hw, List.mem_cons] at hmem
      rcases hmem with rfl | hmem
      · exact .inl (.inr ⟨_, _, _, get_put_self hj, htx⟩)
      · exact .inl (.inl ⟨waiter, hmem, htx⟩)
    | clear hj =>
      right; right
      rw [events_clear hj, List.mem_append, List.mem_map]
      exact .inl ⟨waiter, hmem, by rw [htx]⟩
    | register => exact .inl (.inl ⟨waiter, List.mem_append_left _ hmem, htx⟩)
    | checkout | close | refuse_fast | take | miss | refuse_slow | receive | hear_close | discard
    | find_open | no_waiter | send | push | store | cancel | into_owned | drop | give_back =>
      exact .inl (.inl ⟨waiter, hmem, htx⟩)
  · by_cases ha : a.call = some k
    · obtain rfl := next_of_sending hk ha h
      right; left
      rw [events_send hk, htx]
      exact List.mem_singleton_self _
    · exact .inl (.inr ⟨k, waiter, item, get_step_other h hk (by simp) ha, htx⟩)

structure Shutdown (past : List Event) (s : Sys T) : Prop where
  debt : ∀ i, Event.registered i ∈ past → Owed s i ∨ .sent i ∈ past ∨ .hung_up i ∈ past
  told : ∀ i, Event.hung_up i ∈ past → ∃ c, s.calls[i]? = some c ∧ c.refused = true
  flag : .stored ∈ past → s.pool.closed = true
  order : .clearing ∈ s.calls → s.pool.closed = true
  empty : .closed ∈ past → s.pool.closed = true ∧ s.pool.waiters = []

theorem shutdown_new (items : List T) : Shutdown [] (Sys.new items) := by
  constructor <;> simp [Sys.new]

theorem closed_step {a : Action} (h : s.step a = some s') (hc : s.pool.closed = true) :
    s'.pool.closed = true := by
  cases trans_of_step h <;> first | exact hc | rfl

theorem clearing_step {a : Action} (h : s.step a = some s') (hc : .clearing ∈ s'.calls) :
    .clearing ∈ s.calls ∨ s'.pool.closed = true := by
  obtain ⟨i, hi⟩ := List.mem_iff_getElem?.mp hc
  cases trans_of_step h with
  | store => exact .inr rfl
  | checkout | close =>
    left
    simpa using hc
  | send hj =>
    left
    rcases get_put hi with ⟨-, hd⟩ | ⟨-, hd⟩
    · simp at hd
    · rcases mem_send (List.mem_of_getElem? hd) with h | ⟨kind, h⟩
      · exact h
      · simp at h
  | clear hj => exact .inl (List.mem_of_getElem? hj)
  | refuse_fast | take | miss | refuse_slow | register | receive | hear_close
  | discard | find_open | pop | no_waiter | push | cancel | into_owned | drop | give_back =>
    left
    rcases get_put hi with ⟨-, hd⟩ | ⟨-, hd⟩
    · simp at hd
    · exact List.mem_of_getElem? hd

/-- The flag is up by then, so nobody registers behind the clear. -/
theorem empty_step {a : Action} (h : s.step a = some s') (hc : s.pool.closed = true)
    (hw : s.pool.waiters = []) : s'.pool.waiters = [] := by
  cases trans_of_step h with
  | register _ hopen => simp [hc] at hopen
  | pop _ hne => simp [hw] at hne
  | clear => rfl
  | checkout | close | refuse_fast | take | miss | refuse_slow | receive | hear_close | discard
  | find_open | no_waiter | send | push | store | cancel | into_owned | drop | give_back => exact hw

theorem refused_of_hung_up {i : Nat} (hwf : Wf s) (h : Event.Holds s s' (.hung_up i)) :
    ∃ c, s'.calls[i]? = some c ∧ c.refused = true := by
  obtain ⟨hmem, k, hcalls, hk⟩ := h
  have howed : i ∈ s.senders := Multiset.mem_add.mpr (.inl (Multiset.mem_coe.mpr hmem))
  have hki : k ≠ i := by
    rintro rfl
    exact hwf.not_mem hk (by simp [Call.Plain]) howed
  rw [hcalls, List.getElem?_set_ne hki, get_hang_up_all]
  rcases hwf.receiver i howed with ⟨kind, hi⟩ | hi
  · exact ⟨.parked kind .hung_up, by simp only [hi, Option.map_some, if_pos hmem, Call.hang_up], rfl⟩
  · exact ⟨.cancelled, by simp [hi, Call.hang_up], rfl⟩

theorem shutdown_step {past : List Event} {a : Action} (hwf : Wf s) (h : s.step a = some s')
    (hs : Shutdown past s) : Shutdown (past ++ s.events a) s' := by
  constructor
  · intro i hi
    rcases List.mem_append.mp hi with hi | hi
    · rcases hs.debt i hi with ho | hi | hi
      · rcases owed_step h ho with ho | hev | hev
        · exact .inl ho
        · exact .inr (.inl (List.mem_append_right _ hev))
        · exact .inr (.inr (List.mem_append_right _ hev))
      · exact .inr (.inl (List.mem_append_left _ hi))
      · exact .inr (.inr (List.mem_append_left _ hi))
    · obtain ⟨-, waiter, hq, htx⟩ := holds_of_mem_events h hi
      exact .inl (.inl ⟨waiter, by simp [hq], htx⟩)
  · intro i hi
    rcases List.mem_append.mp hi with hi | hi
    · exact refused_step h (hs.told i hi)
    · exact refused_of_hung_up hwf (holds_of_mem_events h hi)
  · intro hi
    rcases List.mem_append.mp hi with hi | hi
    · exact closed_step h (hs.flag hi)
    · exact holds_of_mem_events h hi
  · intro hc
    rcases clearing_step h hc with hc | hc
    · exact closed_step h (hs.order hc)
    · exact hc
  · intro hi
    rcases List.mem_append.mp hi with hi | hi
    · obtain ⟨hc, hw⟩ := hs.empty hi
      exact ⟨closed_step h hc, empty_step h hc hw⟩
    · obtain ⟨hc, hp⟩ := holds_of_mem_events h hi
      exact ⟨closed_step h (hs.order hc), by rw [hp]; rfl⟩

theorem shutdown_run {items : List T} {as : List Action} (h : Sys.run items as = some s) :
    Shutdown (Sys.trace items as) s := by
  have hboth : Wf s ∧ Shutdown ([] ++ Sys.trace items as) s :=
    Steps.inv_of_trace (fun past s => Wf s ∧ Shutdown past s)
      (fun _ _ _ _ _ hstep hi => ⟨wf_step hi.1 hstep, shutdown_step hi.1 hstep hi.2⟩) h
      (Steps.eachStep_of_forall (P := fun _ _ => True) (fun _ _ => trivial) _ as)
      ⟨wf_new items, shutdown_new items⟩
  exact hboth.2

theorem refuse_when_closed {i : Nat} {kind : Kind} (hc : s.pool.closed = true)
    (hi : s.calls[i]? = some (.fast_path kind)) : s.step (.next i) = some (s.put i .failed) := by
  simp [Sys.step, Sys.next, hi, PoolInner.fast_path, hc]

/-- Once a `close` has returned, the queue stays empty, and every caller that ever
registered was sent an item, was hung up on, or is about to be sent one by a `checkin`.
Once the flag is up, a checkout that starts its fast path fails and takes nothing. -/
theorem close_strands_nobody (items : List T) (as : List Action) (s : Sys T)
    (hrun : Sys.run items as = some s) :
    (.closed ∈ Sys.trace items as →
      (∀ bs t, Steps.run Sys.step s bs = some t → t.pool.waiters = []) ∧
      ∀ i, .registered i ∈ Sys.trace items as →
        .sent i ∈ Sys.trace items as ∨
        (.hung_up i ∈ Sys.trace items as ∧ ∃ c, s.calls[i]? = some c ∧ c.refused = true) ∨
        ∃ (k : Nat) (waiter : Waiter) (item : T),
          s.calls[k]? = some (.sending waiter item) ∧ waiter.tx = i) ∧
    (.stored ∈ Sys.trace items as →
      ∀ (i : Nat) (kind : Kind), s.calls[i]? = some (.fast_path kind) →
        s.step (.next i) = some (s.put i .failed) ∧
        ∀ bs t, Steps.run Sys.step (s.put i .failed) bs = some t → t.calls[i]? = some .failed) := by
  have hs := shutdown_run hrun
  constructor
  · intro hclosed
    obtain ⟨hflag, hempty⟩ := hs.empty hclosed
    constructor
    · intro bs t ht
      have hkeep : t.pool.closed = true ∧ t.pool.waiters = [] :=
        Steps.inv_of_run (fun s => s.pool.closed = true ∧ s.pool.waiters = [])
          (fun _ _ _ h hi => ⟨closed_step h hi.1, empty_step h hi.1 hi.2⟩) ht ⟨hflag, hempty⟩
      exact hkeep.2
    · intro i hi
      rcases hs.debt i hi with (⟨waiter, hmem, -⟩ | hsending) | hsent | hup
      · simp [hempty] at hmem
      · exact .inr (.inr hsending)
      · exact .inl hsent
      · exact .inr (.inl ⟨hup, hs.told i hup⟩)
  · intro hstored i kind hi
    refine ⟨refuse_when_closed (hs.flag hstored) hi, fun bs t ht => ?_⟩
    exact Steps.inv_of_run (fun s => s.calls[i]? = some .failed)
      (fun _ _ _ h hf => get_step_failed h hf) ht (get_put_self hi)

/-- A parked caller and a late one when the pool of no items closes. -/
def closedOn : List Action :=
  [.checkout .Blocking, .next 0, .next 0, .close, .next 1, .checkout .Async, .next 1]

theorem close_strands_nobody_of_two :
    ∃ s : Sys Nat, Sys.run [] closedOn = some s ∧
      (∀ bs t, Steps.run Sys.step s bs = some t → t.pool.waiters = []) ∧
      s.calls[0]? = some (.parked .Blocking .hung_up) ∧
      s.step (.next 2) = some (s.put 2 .failed) := by
  obtain ⟨s, hrun, h0, h2⟩ : ∃ s : Sys Nat, Sys.run [] closedOn = some s ∧
      s.calls[0]? = some (.parked .Blocking .hung_up) ∧ s.calls[2]? = some (.fast_path .Async) :=
    ⟨⟨⟨[], [], true, 0⟩, [.parked .Blocking .hung_up, .returned, .fast_path .Async]⟩,
      by decide, by decide, by decide⟩
  obtain ⟨hshut, hlate⟩ := close_strands_nobody [] closedOn s hrun
  exact ⟨s, hrun, (hshut (by decide)).1, h0, (hlate (by decide) 2 .Async h2).1⟩

end Gigastt.Pool
