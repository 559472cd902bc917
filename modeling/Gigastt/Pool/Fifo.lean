import Gigastt.Pool.Events
import Gigastt.Pool.Wakeup

/-!
# First come, first served, unless somebody registers late

An item is assigned when the fast path takes it or when a `checkin` pops the sender it
will use. Waiters are popped in the order of their registration. A later caller gets past
them only on the fast path, so only while items and waiters are queued side by side.
-/

namespace Gigastt.Pool

open Steps (Before before_append_singleton)

variable {T : Type} {s s' : Sys T}

def Event.registration : Event → List Nat
  | .registered i => [i]
  | _ => []

def Event.service : Event → List Nat
  | .served i => [i]
  | _ => []

def registrations (events : List Event) : List Nat := events.flatMap Event.registration
def services (events : List Event) : List Nat := events.flatMap Event.service

/-- The event gives call `i` its item. -/
def Event.Assigns (e : Event) (i : Nat) : Prop := e = .took i ∨ e = .served i

structure Fifo (events : List Event) : Prop where
  order : services events <+: registrations events
  fair : ∀ e c w, e ∈ events → e.Assigns c → Before (.registered w) (.began c) events →
    Before (.served w) e events ∨ Before (.cancelled w) e events

@[simp]
theorem mem_registrations {events : List Event} {i : Nat} :
    i ∈ registrations events ↔ .registered i ∈ events := by
  simp only [registrations, List.mem_flatMap]
  constructor
  · rintro ⟨e, he, hi⟩
    cases e <;> simp_all [Event.registration]
  · intro h
    exact ⟨_, h, List.mem_singleton_self i⟩

@[simp]
theorem mem_services {events : List Event} {i : Nat} : i ∈ services events ↔ .served i ∈ events := by
  simp only [services, List.mem_flatMap]
  constructor
  · rintro ⟨e, he, hi⟩
    cases e <;> simp_all [Event.service]
  · intro h
    exact ⟨_, h, List.mem_singleton_self i⟩

/-- The queue holds who has registered and has not been served. -/
theorem queue_step (hs : s.Open) {a : Action} (h : s.step a = some s') :
    s.pool.waiters.map Waiter.tx ++ registrations (s.events a) =
      services (s.events a) ++ s'.pool.waiters.map Waiter.tx := by
  have hnil : s'.pool.waiters = s.pool.waiters → s.events a = [] →
      s.pool.waiters.map Waiter.tx ++ registrations (s.events a) =
        services (s.events a) ++ s'.pool.waiters.map Waiter.tx := by
    intro hw hev
    simp [hev, hw, registrations, services]
  cases trans_of_step h with
  | checkout | cancel => simp [Sys.events, registrations, services, Event.registration, Event.service]
  | close | into_owned | drop | give_back => exact hnil rfl rfl
  | refuse_fast hi hc => exact hnil rfl (events_refuse_fast hi hc)
  | take hi hc hx =>
    simp [events_take hi hc hx, registrations, services, Event.registration, Event.service]
  | miss hi hc hx => exact hnil rfl (events_miss hi hc hx)
  | refuse_slow hi hc => exact hnil rfl (events_refuse_slow hi hc)
  | register hi hc =>
    simp [events_register hi hc, registrations, services, Event.registration, Event.service]
  | pop hi hw =>
    simp [events_pop hi hw, hw, registrations, services, Event.registration, Event.service]
  | no_waiter hi hw => exact hnil rfl (events_no_waiter hi hw)
  | send hi =>
    simp [events_send hi, registrations, services, Event.registration, Event.service]
  | store hi => exact absurd rfl (hs.2 _ (List.mem_of_getElem? hi)).1
  | clear hi => exact absurd rfl (hs.2 _ (List.mem_of_getElem? hi)).2
  | receive hi | hear_close hi | discard hi | find_open hi | push hi =>
    exact hnil rfl (events_quiet hi rfl)

theorem events_le_one (hs : s.Open) {a : Action} (h : s.step a = some s') :
    s.events a = [] ∨ ∃ e, s.events a = [e] := by
  cases trans_of_step h with
  | checkout | cancel => exact .inr ⟨_, rfl⟩
  | close | into_owned | drop | give_back => exact .inl rfl
  | refuse_fast hi hc => exact .inl (events_refuse_fast hi hc)
  | take hi hc hx => exact .inr ⟨_, events_take hi hc hx⟩
  | miss hi hc hx => exact .inl (events_miss hi hc hx)
  | refuse_slow hi hc => exact .inl (events_refuse_slow hi hc)
  | register hi hc => exact .inr ⟨_, events_register hi hc⟩
  | pop hi hw => exact .inr ⟨_, events_pop hi hw⟩
  | no_waiter hi hw => exact .inl (events_no_waiter hi hw)
  | send hi => exact .inr ⟨_, events_send hi⟩
  | store hi => exact absurd rfl (hs.2 _ (List.mem_of_getElem? hi)).1
  | clear hi => exact absurd rfl (hs.2 _ (List.mem_of_getElem? hi)).2
  | receive hi | hear_close hi | discard hi | find_open hi | push hi =>
    exact .inl (events_quiet hi rfl)

/-- A call is named by an event only after it began. -/
def Event.Names (e : Event) (i : Nat) : Prop := e.Assigns i ∨ e = .registered i

structure Queued (past : List Event) (s : Sys T) : Prop where
  queue : registrations past = services past ++ s.pool.waiters.map Waiter.tx
  known : ∀ e i, e ∈ past → e.Names i → i < s.calls.length
  fresh : ∀ i, ¬ Before (.registered i) (.began i) past

theorem queued_new (items : List T) : Queued [] (Sys.new items) := by
  constructor
  · rfl
  · simp
  · rintro i ⟨before, after, h, -⟩
    simp at h

theorem length_step {a : Action} (h : s.step a = some s') : s.calls.length ≤ s'.calls.length := by
  cases trans_of_step h with
  | checkout | close => simp
  | send =>
    simp only [put_calls, List.length_set]
    unfold send
    split <;> simp
  | clear => simp [hang_up_all]
  | refuse_fast | take | miss | refuse_slow | register | receive | hear_close | discard | find_open
  | pop | no_waiter | push | store | cancel | into_owned | drop | give_back => simp

theorem lt_of_names {a : Action} {e : Event} {i : Nat} (hwf : Wf s) (h : s.step a = some s')
    (he : e ∈ s.events a) (hi : e.Names i) : i < s.calls.length := by
  rcases hi with (rfl | rfl) | rfl
  · exact (holds_of_mem_events h he).1
  · obtain ⟨waiter, hw, rfl⟩ := holds_of_mem_events h he
    have hmem : waiter.tx ∈ s.senders := by simp [Sys.senders, hw]
    rcases hwf.receiver _ hmem with ⟨kind, hj⟩ | hj
    · exact (List.getElem?_eq_some_iff.mp hj).1
    · exact (List.getElem?_eq_some_iff.mp hj).1
  · exact (holds_of_mem_events h he).1

theorem queued_step {past : List Event} {a : Action} (hs : Sound s) (h : s.step a = some s')
    (hq : Queued past s) : Queued (past ++ s.events a) s' := by
  constructor
  · have hstep := queue_step hs.2 h
    simp only [registrations, services, List.flatMap_append] at hstep ⊢
    rw [List.append_assoc, ← hstep, ← List.append_assoc]
    exact congrArg (· ++ _) hq.queue
  · intro e i he hi
    rcases List.mem_append.mp he with he | he
    · exact (hq.known e i he hi).trans_le (length_step h)
    · exact (lt_of_names hs.1 h he hi).trans_le (length_step h)
  · intro i hi
    rcases events_le_one hs.2 h with hev | ⟨e, hev⟩
    · rw [hev, List.append_nil] at hi
      exact hq.fresh i hi
    · rw [hev, before_append_singleton] at hi
      rcases hi with hi | ⟨rfl, hi⟩
      · exact hq.fresh i hi
      · have hlt := hq.known _ i hi (.inr rfl)
        have hnew : Event.Holds s s' (.began i) :=
          holds_of_mem_events h (hev ▸ List.mem_singleton_self _)
        unfold Event.Holds at hnew
        omega

/-- Who registered before a waiter is served before it. -/
theorem served_of_registered_before {past : List Event} (hq : Queued past s) {c w : Nat}
    (hw : Before (.registered w) (.began c) past)
    (hc : s.pool.waiters = [] ∨ (s.pool.waiters.map Waiter.tx).head? = some c) :
    .served w ∈ past := by
  obtain ⟨before, after, rfl, hmem⟩ := hw
  have hqueue := hq.queue
  rcases hc with hc | hc
  · rw [hc, List.map_nil, List.append_nil] at hqueue
    rw [← mem_services, ← hqueue, mem_registrations]
    exact List.mem_append_left _ hmem
  · obtain ⟨rest, hrest⟩ := List.head?_eq_some_iff.mp hc
    have hfresh : c ∉ registrations before := fun h =>
      hq.fresh c ⟨before, after, rfl, mem_registrations.mp h⟩
    rw [hrest, registrations, List.flatMap_append] at hqueue
    rcases List.append_eq_append_iff.mp hqueue with ⟨x, hx, -⟩ | ⟨x, hx, hx'⟩
    · -- The registrations before `c` began are all served.
      rw [← mem_services, hx]
      exact List.mem_append_left _ (mem_registrations.mpr hmem)
    · cases x with
      | nil =>
        rw [List.append_nil] at hx
        rw [← mem_services, ← hx]
        exact mem_registrations.mpr hmem
      | cons y ys =>
        obtain rfl : c = y := (List.cons.inj hx').1
        refine absurd ?_ hfresh
        rw [registrations, hx]
        exact List.mem_append_right _ List.mem_cons_self

theorem fair_step {past : List Event} {a : Action} (hs : Sound s) (hd : Disciplined s)
    (h : s.step a = some s') (hq : Queued past s) (hf : Fifo past) :
    Fifo (past ++ s.events a) := by
  refine ⟨⟨s'.pool.waiters.map Waiter.tx, (queued_step hs h hq).queue.symm⟩, ?_⟩
  rcases events_le_one hs.2 h with hev | ⟨last, hev⟩
  · rw [hev, List.append_nil]
    exact hf.fair
  have hholds : last.Holds s s' := holds_of_mem_events h (hev ▸ List.mem_singleton_self _)
  rw [hev]
  intro e c w he hc hw
  simp only [before_append_singleton] at hw ⊢
  rw [List.mem_append, List.mem_singleton] at he
  rcases he with he | rfl
  · rcases hw with hw | ⟨rfl, -⟩
    · rcases hf.fair e c w he hc hw with h | h
      · exact .inl (.inl h)
      · exact .inr (.inl h)
    · -- A call that has its item began before.
      have hlt := hq.known e c he (.inl hc)
      unfold Event.Holds at hholds
      omega
  · have hpast : Before (.registered w) (.began c) past := by
      rcases hw with hw | ⟨rfl, -⟩
      · exact hw
      · rcases hc with hc | hc <;> cases hc
    refine .inl (.inr ⟨rfl, served_of_registered_before hq hpast ?_⟩)
    rcases hc with rfl | rfl
    · left
      by_contra hne
      exact hholds.2 (hd hne).1
    · obtain ⟨waiter, hwaiters, rfl⟩ := hholds
      right
      rw [hwaiters, List.map_cons, List.head?_cons]

/-- Without `close`, and as long as no caller registers late, waiters are served in the
order of their registration and no later checkout gets its item before them. -/
theorem checkout_fifo (items : List T) (as : List Action) (s : Sys T)
    (hrun : Sys.run items as = some s) (hopen : Action.close ∉ as)
    (htime : Steps.EachStep Sys.step (fun s a => ¬ RegistersLate s a) (Sys.new items) as) :
    Fifo (Sys.trace items as) := by
  let I : List Event → Sys T → Prop := fun past s =>
    Sound s ∧ Disciplined s ∧ Queued past s ∧ Fifo past
  have keep : ∀ past s a s', (a ≠ .close ∧ ¬ RegistersLate s a) → s.step a = some s' →
      I past s → I (past ++ s.events a) s' := by
    rintro past s a s' ⟨hclose, hlate⟩ h ⟨hs, hd, hq, hf⟩
    exact ⟨sound_step s a s' hclose h hs, (disciplined_step hs hd h).mpr hlate,
      queued_step hs h hq, fair_step hs hd h hq hf⟩
  have hboth := (eachStep_ne_close hopen (Sys.new items)).and htime
  have hend : I ([] ++ Sys.trace items as) s := Steps.inv_of_trace I keep hrun hboth
    ⟨sound_new items, disciplined_new items, queued_new items, ⟨List.nil_prefix, by simp⟩⟩
  exact hend.2.2.2

theorem checkout_fifo_hand_over : Fifo (Sys.trace [7] handOver) :=
  checkout_fifo [7] handOver ⟨⟨[], [], false, 1⟩, [.returned, .guard 7]⟩ (by decide) (by decide)
    handOver_on_time

/-- After `overtaken` a third caller takes the item that the parked second one waits for. -/
theorem late_registration_overtaken :
    Action.close ∉ overtaken ++ [.checkout .Async, .next 2] ∧
      (∃ s, Sys.run [7] (overtaken ++ [.checkout .Async, .next 2]) = some s ∧
        s.calls[1]? = some (.parked .Blocking .empty)) ∧
      ¬ Fifo (Sys.trace [7] (overtaken ++ [.checkout .Async, .next 2])) := by
  refine ⟨by decide, ⟨⟨⟨[], [.Blocking 1], false, 1⟩,
    [.returned, .parked .Blocking .empty, .guard 7]⟩, by decide, rfl⟩, fun h => ?_⟩
  have htrace : Sys.trace [7] (overtaken ++ [.checkout .Async, .next 2]) =
      [.began 0, .took 0, .began 1, .registered 1, .began 2, .took 2] := by decide
  rw [htrace] at h
  rcases h.fair (.took 2) 2 1 (by simp) (.inl rfl)
    ⟨[.began 0, .took 0, .began 1, .registered 1], [.took 2], rfl, by simp⟩ with h | h
  · obtain ⟨before, after, hsplit, hmem⟩ := h
    have hall : Event.served 1 ∈ before ++ Event.took 2 :: after := List.mem_append_left _ hmem
    simp [← hsplit] at hall
  · obtain ⟨before, after, hsplit, hmem⟩ := h
    have hall : Event.cancelled 1 ∈ before ++ Event.took 2 :: after := List.mem_append_left _ hmem
    simp [← hsplit] at hall

end Gigastt.Pool
