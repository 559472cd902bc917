import Gigastt.Pool.Custody
import Gigastt.Pool.Events

/-!
# What a step of the pool leaves of a call

A step changes the call it is about, and beyond it only callers that wait for an item.
-/

namespace Gigastt.Pool

variable {T : Type} {s s' : Sys T}

/-- The same call, or one that no longer waits for its item. -/
inductive Call.Woken : Call T → Call T → Prop where
  | same (c : Call T) : Woken c c
  | sent (kind : Kind) (item : T) : Woken (.parked kind .empty) (.parked kind (.item item))
  | hung_up (kind : Kind) : Woken (.parked kind .empty) (.parked kind .hung_up)

theorem woken_send {calls : List (Call T)} {i : Nat} {c : Call T} (tx : Nat) (item : T)
    (hi : calls[i]? = some c) : ∃ c', (send calls tx item)[i]? = some c' ∧ c.Woken c' := by
  by_cases hw : Waits calls tx
  · obtain ⟨kind, hk⟩ := hw
    rw [send_of_waits item hk]
    by_cases htx : tx = i
    · subst htx
      obtain rfl : .parked kind .empty = c := Option.some.inj (hk.symm.trans hi)
      exact ⟨_, List.getElem?_set_self (List.getElem?_eq_some_iff.mp hi).1, .sent kind item⟩
    · exact ⟨c, by rw [List.getElem?_set_ne htx, hi], .same c⟩
  · exact ⟨c, by rw [send_of_not_waits item hw, hi], .same c⟩

theorem woken_hang_up_all {calls : List (Call T)} {i : Nat} {c : Call T} (waiters : List Waiter)
    (hi : calls[i]? = some c) : ∃ c', (hang_up_all calls waiters)[i]? = some c' ∧ c.Woken c' := by
  refine ⟨_, by rw [get_hang_up_all, hi]; rfl, ?_⟩
  dsimp only
  split_ifs
  · unfold Call.hang_up
    split
    · exact .hung_up _
    · exact .same c
  · exact .same c

theorem woken_put {i j : Nat} {c d : Call T} (hne : j ≠ i)
    (h : ∃ c', s.calls[i]? = some c' ∧ c.Woken c') :
    ∃ c', (s.put j d).calls[i]? = some c' ∧ c.Woken c' := by
  rwa [get_put_ne d hne]

/-- A step that is about another call. -/
theorem other_call {a : Action} {i : Nat} {c : Call T} (h : s.step a = some s')
    (hne : a.call ≠ some i) (hi : s.calls[i]? = some c) :
    ∃ c', s'.calls[i]? = some c' ∧ c.Woken c' := by
  cases trans_of_step h with
  | checkout | close =>
    refine ⟨c, ?_, .same c⟩
    rw [List.getElem?_append_left (List.getElem?_eq_some_iff.mp hi).1, hi]
  | send => exact woken_put (by simpa [Action.call] using hne) (woken_send _ _ hi)
  | clear => exact woken_put (by simpa [Action.call] using hne) (woken_hang_up_all _ hi)
  | _ => exact woken_put (by simpa [Action.call] using hne) ⟨c, hi, .same c⟩

/-- The number of calls grows with a new call only. -/
theorem calls_length {a : Action} (h : s.step a = some s') :
    s'.calls.length = s.calls.length + if a.call = none then 1 else 0 := by
  cases trans_of_step h with
  | checkout | close => simp [Action.call]
  | send =>
    simp only [put_calls, List.length_set, Action.call, reduceCtorEq, if_false, Nat.add_zero]
    unfold Pool.send
    split
    · exact List.length_set
    · rfl
  | clear => simp [Action.call, hang_up_all]
  | _ => simp [Action.call]

/-! ## The two halves of a call -/

/-- An async caller that has no item in its hands, or has just got one. -/
def Call.checks_out : Call T → Prop
  | .fast_path .Async | .slow_path .Async | .parked .Async _ | .failed | .guard _ => True
  | _ => False

/-- A caller that is done with its item. -/
def Call.checks_in : Call T → Prop
  | .checkin _ | .giving _ | .sending _ _ | .pushing _ | .returned => True
  | _ => False

theorem Call.Woken.checks_out {c c' : Call T} (h : c.Woken c') (hc : c.checks_out) :
    c'.checks_out := by
  cases h with
  | same => exact hc
  | sent kind | hung_up kind => cases kind <;> exact hc

theorem Call.Woken.checks_in {c c' : Call T} (h : c.Woken c') (hc : c.checks_in) : c'.checks_in := by
  cases h with
  | same => exact hc
  | sent | hung_up => exact hc.elim

/-- What a section makes of its call. -/
inductive Call.Next : Call T → Call T → Prop where
  | refused (kind) : Next (.fast_path kind) .failed
  | took (kind item) : Next (.fast_path kind) (.guard item)
  | missed (kind) : Next (.fast_path kind) (.slow_path kind)
  | refused_late (kind) : Next (.slow_path kind) .failed
  | parked (kind) : Next (.slow_path kind) (.parked kind .empty)
  | received (kind item) : Next (.parked kind (.item item)) (.guard item)
  | heard_close (kind) : Next (.parked kind .hung_up) .failed
  | discarded (item) : Next (.checkin item) .returned
  | giving (item) : Next (.checkin item) (.giving item)
  | popped (waiter item) : Next (.giving item) (.sending waiter item)
  | unwanted (item) : Next (.giving item) (.pushing item)
  | sent (waiter item) : Next (.sending waiter item) .returned
  | pushed (item) : Next (.pushing item) .returned
  | stored : Next .closing .clearing
  | cleared : Next .clearing .returned

theorem own_call {i : Nat} {c : Call T} (h : s.step (.next i) = some s')
    (hi : s.calls[i]? = some c) : ∃ c', s'.calls[i]? = some c' ∧ c.Next c' := by
  have hput : ∀ {pool : PoolInner T} {calls : List (Call T)} {d : Call T},
      calls.length = s.calls.length → (Sys.put ⟨pool, calls⟩ i d).calls[i]? = some d := by
    intro pool calls d hlength
    rw [put_calls]
    exact List.getElem?_set_self (hlength ▸ (List.getElem?_eq_some_iff.mp hi).1)
  have hsend : ∀ tx item, (send s.calls tx item).length = s.calls.length := by
    intro tx item
    unfold send
    split
    · exact List.length_set
    · rfl
  cases trans_of_step h with
  | refuse_fast hi' | take hi' | miss hi' | refuse_slow hi' | register hi' | receive hi' | hear_close hi'
  | discard hi' | find_open hi' | pop hi' | no_waiter hi' | push hi' | store hi' =>
    obtain rfl := Option.some.inj (hi'.symm.trans hi)
    exact ⟨_, hput rfl, by constructor⟩
  | send hi' =>
    obtain rfl := Option.some.inj (hi'.symm.trans hi)
    exact ⟨_, hput (hsend _ _), .sent _ _⟩
  | clear hi' =>
    obtain rfl := Option.some.inj (hi'.symm.trans hi)
    exact ⟨_, hput (by simp [hang_up_all]), .cleared⟩

theorem Call.Next.checks_out {c c' : Call T} (h : c.Next c') (hc : c.checks_out) : c'.checks_out := by
  cases h with
  | @missed kind | @parked kind => cases kind <;> exact hc
  | refused | took | refused_late | received | heard_close => trivial
  | _ => exact hc.elim

theorem Call.Next.checks_in {c c' : Call T} (h : c.Next c') (hc : c.checks_in) : c'.checks_in := by
  cases h with
  | discarded | giving | popped | unwanted | sent | pushed => trivial
  | _ => exact hc.elim

/-- A call whose next section can run. -/
def Call.runs : Call T → Bool
  | .fast_path _ | .slow_path _ | .parked _ (.item _) | .parked _ .hung_up | .checkin _ | .giving _
  | .sending _ _ | .pushing _ | .closing | .clearing => true
  | _ => false

/-- The sections take their locks for a moment, and wait for nothing else. -/
theorem next_of_runs {i : Nat} {c : Call T} (hi : s.calls[i]? = some c) (hc : c.runs = true) :
    (s.step (.next i)).isSome = true := by
  simp only [Sys.step, Sys.next, hi]
  cases c with
  | fast_path | slow_path | checkin | giving => dsimp only; split <;> rfl
  | parked kind rx => cases rx with
    | empty => cases hc
    | item | hung_up => rfl
  | sending | pushing | closing | clearing => rfl
  | cancelled | failed | guard | owned | returned => cases hc

/-! ## Pools that nobody closes -/

/-- A call that `close` has reached. -/
def Call.heard_close : Call T → Bool
  | .parked _ .hung_up | .failed => true
  | _ => false

/-- Nobody has begun to close the pool, and nobody was told that it is closed. -/
def Sys.Unclosed (s : Sys T) : Prop := s.Open ∧ ∀ c ∈ s.calls, c.heard_close = false

theorem Sys.Unclosed.put_calls (h : ∀ c ∈ s.calls, c.heard_close = false) {i : Nat} {d : Call T}
    (hd : d.heard_close = false) : ∀ c ∈ s.calls.set i d, c.heard_close = false := by
  intro c hmem
  rcases List.mem_or_eq_of_mem_set hmem with hmem | rfl
  · exact h c hmem
  · exact hd

theorem unclosed_step (hs : s.Unclosed) {a : Action} (ha : a ≠ .close) (h : s.step a = some s') :
    s'.Unclosed := by
  obtain ⟨hopen, hcalls⟩ := hs
  refine ⟨open_step hopen ha h, ?_⟩
  cases trans_of_step h with
  | checkout kind =>
    intro c hmem
    rcases List.mem_append.mp hmem with hmem | hmem
    · exact hcalls c hmem
    · rw [List.mem_singleton.mp hmem]
      rfl
  | close => exact absurd rfl ha
  | refuse_fast _ hclosed | refuse_slow _ hclosed => simp [hopen.1] at hclosed
  | hear_close hi => exact absurd (hcalls _ (List.mem_of_getElem? hi)) (by simp [Call.heard_close])
  | store hi => exact absurd rfl (hopen.2 _ (List.mem_of_getElem? hi)).1
  | clear hi => exact absurd rfl (hopen.2 _ (List.mem_of_getElem? hi)).2
  | @send i waiter item hi =>
    have hsent : ∀ c ∈ send s.calls waiter.tx item, c.heard_close = false := by
      intro c hmem
      rcases mem_send hmem with hmem | ⟨kind, rfl⟩
      · exact hcalls c hmem
      · rfl
    exact Sys.Unclosed.put_calls (s := { s with calls := send s.calls waiter.tx item }) hsent rfl
  | take | miss | register | receive | discard | find_open | pop | no_waiter | push | cancel | into_owned
  | drop | give_back => exact Sys.Unclosed.put_calls hcalls rfl

theorem unclosed_run {items : List T} {as : List Action} (hrun : Sys.run items as = some s)
    (hopen : Action.close ∉ as) : s.Unclosed :=
  Steps.inv_of_eachStep Sys.Unclosed (fun _ _ _ ha h hs => unclosed_step hs ha h) hrun
    (eachStep_ne_close hopen _) ⟨open_new items, by simp [Sys.new]⟩

end Gigastt.Pool
