import Gigastt.Pool.Trans

/-!
# Senders and receivers

A sender lives in the waiter queue or in the hands of a running `checkin`. Each one is
the only sender of its channel, and its receiver waits or was dropped.
-/

namespace Gigastt.Pool

variable {T : Type} {s s' : Sys T}

/-- The channel whose sender the call has in hand. -/
def Call.sender : Call T → Multiset Nat
  | .sending waiter _ => {waiter.tx}
  | _ => 0

def Sys.senders (s : Sys T) : Multiset Nat :=
  ↑(s.pool.waiters.map Waiter.tx) + (s.calls.map Call.sender).sum

structure Wf (s : Sys T) : Prop where
  once : s.senders.Nodup
  receiver : ∀ tx ∈ s.senders, Waits s.calls tx ∨ s.calls[tx]? = some .cancelled
  sender : ∀ i, Waits s.calls i → i ∈ s.senders

theorem wf_new (items : List T) : Wf (Sys.new items) := by
  refine ⟨?_, ?_, ?_⟩ <;> simp [Sys.senders, Sys.new, PoolInner.new, Waits]

def Call.Plain (c : Call T) : Prop := c ≠ .cancelled ∧ ∀ kind, c ≠ .parked kind .empty

theorem senders_put {i : Nat} {c d : Call T} (h : s.calls[i]? = some c) :
    (s.put i d).senders + c.sender = s.senders + d.sender := by
  simp only [Sys.senders, put_pool, put_calls, add_assoc, Steps.sum_map_set Call.sender d h]

theorem Wf.not_mem (hw : Wf s) {i : Nat} {c : Call T} (hi : s.calls[i]? = some c) (hc : c.Plain) :
    i ∉ s.senders := by
  intro hmem
  rcases hw.receiver i hmem with ⟨kind, hk⟩ | hk
  · exact hc.2 kind (Option.some.inj (hi.symm.trans hk))
  · exact hc.1 (Option.some.inj (hi.symm.trans hk))

theorem Wf.congr (hw : Wf s) (i : Nat) (hs : s'.senders = s.senders)
    (hcalls : ∀ j, i ≠ j → s'.calls[j]? = s.calls[j]?)
    (hold : ∀ c, s.calls[i]? = some c → c.Plain) (hnew : ∀ c, s'.calls[i]? = some c → c.Plain) :
    Wf s' := by
  have hne : ∀ tx ∈ s.senders, i ≠ tx := by
    rintro tx hmem rfl
    rcases hw.receiver i hmem with ⟨kind, hk⟩ | hk
    · exact (hold _ hk).2 kind rfl
    · exact (hold _ hk).1 rfl
  refine ⟨hs ▸ hw.once, ?_, ?_⟩
  · intro tx hmem
    rw [hs] at hmem
    simpa only [Waits, hcalls tx (hne tx hmem)] using hw.receiver tx hmem
  · rintro j ⟨kind, hk⟩
    have hij : i ≠ j := by
      rintro rfl
      exact (hnew _ hk).2 kind rfl
    rw [hs]
    exact hw.sender j ⟨kind, by rw [← hcalls j hij, hk]⟩

theorem Wf.put (hw : Wf s) {pool : PoolInner T} {i : Nat} {c d : Call T}
    (hq : pool.waiters = s.pool.waiters) (hi : s.calls[i]? = some c) (hc : c.Plain) (hd : d.Plain)
    (hs : c.sender = d.sender) : Wf ({ s with pool }.put i d) := by
  refine hw.congr i ?_ (fun j hij => get_put_ne (s := { s with pool }) d hij) ?_ ?_
  · have h := senders_put (s := { s with pool }) (d := d) hi
    rw [hs] at h
    rw [add_right_cancel h]
    simp only [Sys.senders, hq]
  · intro e he
    rw [hi] at he
    exact Option.some.inj he ▸ hc
  · intro e he
    rw [get_put_self (s := { s with pool }) hi] at he
    exact Option.some.inj he ▸ hd

theorem Wf.enter (hw : Wf s) {c : Call T} (hc : c.Plain) (hs : c.sender = 0) :
    Wf { s with calls := s.calls ++ [c] } := by
  refine hw.congr s.calls.length ?_ ?_ ?_ ?_
  · simp [Sys.senders, hs]
  · intro j hj
    simp only [List.getElem?_append, List.getElem?_singleton]
    split
    · rfl
    · rw [if_neg (by omega), List.getElem?_eq_none (by omega)]
  · simp
  · intro d hd
    obtain rfl : c = d := by simpa using hd
    exact hc

theorem Wf.register (hw : Wf s) {i : Nat} {kind : Kind} (hi : s.calls[i]? = some (.slow_path kind)) :
    Wf ({ s with pool := { s.pool with waiters := s.pool.waiters ++ [kind.waiter i] } }.put i
      (.parked kind .empty)) := by
  have hfresh : i ∉ s.senders := hw.not_mem hi (by simp [Call.Plain])
  have htx : (kind.waiter i).tx = i := by cases kind <;> rfl
  set s₁ : Sys T := { s with pool := { s.pool with waiters := s.pool.waiters ++ [kind.waiter i] } }
  have hs : (s₁.put i (.parked kind .empty)).senders = i ::ₘ s.senders := by
    have h := senders_put (s := s₁) (d := .parked kind .empty) hi
    simp only [Call.sender, add_zero] at h
    rw [h, ← Multiset.singleton_add]
    simp only [s₁, Sys.senders, List.map_append, List.map_cons, List.map_nil, htx, ← Multiset.coe_add,
      Multiset.coe_singleton]
    abel
  refine ⟨?_, ?_, ?_⟩
  · rw [hs]
    exact Multiset.nodup_cons.mpr ⟨hfresh, hw.once⟩
  · intro tx hmem
    rw [hs, Multiset.mem_cons] at hmem
    by_cases hitx : i = tx
    · subst hitx
      exact .inl ⟨kind, get_put_self (s := s₁) hi⟩
    · have h := hw.receiver tx (hmem.resolve_left (Ne.symm hitx))
      simpa only [Waits, get_put_ne (s := s₁) _ hitx] using h
  · rintro j ⟨k, hk⟩
    rw [hs, Multiset.mem_cons]
    rcases get_put hk with ⟨rfl, -⟩ | ⟨-, hk⟩
    · exact .inl rfl
    · exact .inr (hw.sender j ⟨k, hk⟩)

theorem Wf.pop (hw : Wf s) {i : Nat} {item : T} {waiter : Waiter} {waiters : List Waiter}
    (hi : s.calls[i]? = some (.giving item)) (hq : s.pool.waiters = waiter :: waiters) :
    Wf ({ s with pool := { s.pool with waiters } }.put i (.sending waiter item)) := by
  set s₁ : Sys T := { s with pool := { s.pool with waiters } }
  refine hw.congr i ?_ (fun j hij => get_put_ne (s := s₁) _ hij) ?_ ?_
  · have h := senders_put (s := s₁) (d := .sending waiter item) hi
    simp only [Call.sender, add_zero] at h
    rw [h]
    simp only [s₁, Sys.senders, hq, List.map_cons, ← Multiset.cons_coe, ← Multiset.singleton_add]
    abel
  · intro c hc
    rw [hi] at hc
    exact Option.some.inj hc ▸ (by simp [Call.Plain])
  · intro c hc
    rw [get_put_self (s := s₁) hi] at hc
    exact Option.some.inj hc ▸ (by simp [Call.Plain])

theorem map_sender_send (calls : List (Call T)) (tx : Nat) (item : T) :
    (send calls tx item).map Call.sender = calls.map Call.sender := by
  by_cases hw : Waits calls tx
  · obtain ⟨kind, hk⟩ := hw
    obtain ⟨htx, hget⟩ := List.getElem?_eq_some_iff.mp hk
    have hlt : tx < (calls.map Call.sender).length := by simpa using htx
    have hzero : (calls.map Call.sender)[tx] = 0 := by simp [hget, Call.sender]
    rw [send_of_waits item hk, List.map_set]
    exact (congrArg _ hzero.symm).trans (List.set_getElem_self _)
  · rw [send_of_not_waits item hw]

theorem Wf.send (hw : Wf s) {i : Nat} {item : T} {waiter : Waiter}
    (hi : s.calls[i]? = some (.sending waiter item)) :
    Wf ({ s with calls := send s.calls waiter.tx item }.put i .returned) := by
  set s₁ : Sys T := { s with calls := Pool.send s.calls waiter.tx item }
  have hi₁ : s₁.calls[i]? = some (.sending waiter item) := get_send (by simp) hi
  have hs : waiter.tx ::ₘ (s₁.put i .returned).senders = s.senders := by
    have h := senders_put (d := .returned) hi₁
    simp only [Call.sender, add_zero] at h
    rw [← Multiset.singleton_add, add_comm, h]
    simp only [s₁, Sys.senders, map_sender_send]
  have hnodup := hw.once
  rw [← hs, Multiset.nodup_cons] at hnodup
  -- No call but the receiver and the sender itself is touched.
  have hget : ∀ j, i ≠ j → waiter.tx ≠ j → (s₁.put i .returned).calls[j]? = s.calls[j]? := by
    intro j hij hj
    rw [get_put_ne _ hij]
    by_cases hwait : Waits s.calls waiter.tx
    · obtain ⟨kind, hk⟩ := hwait
      simp only [s₁, send_of_waits item hk, List.getElem?_set_ne hj]
    · simp only [s₁, send_of_not_waits item hwait]
  refine ⟨hnodup.2, ?_, ?_⟩
  · intro tx hmem
    have hold : tx ∈ s.senders := hs ▸ Multiset.mem_cons_of_mem hmem
    have hij : i ≠ tx := by
      rintro rfl
      exact hw.not_mem hi (by simp [Call.Plain]) hold
    have htx : waiter.tx ≠ tx := by
      rintro rfl
      exact hnodup.1 hmem
    simpa only [Waits, hget tx hij htx] using hw.receiver tx hold
  · rintro j ⟨kind, hk⟩
    rcases get_put hk with ⟨-, h⟩ | ⟨hij, hk₁⟩
    · simp at h
    · have hj : waiter.tx ≠ j := by
        rintro rfl
        by_cases hwait : Waits s.calls waiter.tx
        · obtain ⟨k, hk'⟩ := hwait
          simp only [s₁, send_of_waits item hk'] at hk₁
          rw [List.getElem?_set_self (List.getElem?_eq_some_iff.mp hk').1] at hk₁
          cases hk₁
        · simp only [s₁, send_of_not_waits item hwait] at hk₁
          exact hwait ⟨kind, hk₁⟩
      have hmem := hw.sender j ⟨kind, by rw [← hget j hij hj, hk]⟩
      rw [← hs, Multiset.mem_cons] at hmem
      exact hmem.resolve_left (Ne.symm hj)

theorem Call.sender_hang_up (c : Call T) : c.hang_up.sender = c.sender := by
  unfold Call.hang_up
  split <;> rfl

theorem map_sender_hang_up_all (calls : List (Call T)) (waiters : List Waiter) :
    (hang_up_all calls waiters).map Call.sender = calls.map Call.sender := by
  apply List.ext_getElem?
  intro i
  simp only [List.getElem?_map, get_hang_up_all, Option.map_map]
  congr 1
  funext c
  simp only [Function.comp]
  split
  · exact Call.sender_hang_up c
  · rfl

theorem Wf.clear (hw : Wf s) {i : Nat} (hi : s.calls[i]? = some .clearing) :
    Wf (Sys.put ⟨s.pool.clear_waiters, hang_up_all s.calls s.pool.waiters⟩ i .returned) := by
  set s₁ : Sys T := ⟨s.pool.clear_waiters, hang_up_all s.calls s.pool.waiters⟩
  have hi₁ : s₁.calls[i]? = some .clearing := by
    simp only [s₁, get_hang_up_all, hi, Option.map_some, Call.hang_up, ite_self]
  have hs : ↑(s.pool.waiters.map Waiter.tx) + (s₁.put i .returned).senders = s.senders := by
    have h := senders_put (d := .returned) hi₁
    simp only [Call.sender, add_zero] at h
    rw [h]
    simp [s₁, Sys.senders, PoolInner.clear_waiters, map_sender_hang_up_all]
  have hnodup := hw.once
  rw [← hs, Multiset.nodup_add] at hnodup
  obtain ⟨-, hrest, hdisj⟩ := hnodup
  refine ⟨hrest, ?_, ?_⟩
  · intro tx hmem
    have hold : tx ∈ s.senders := hs ▸ Multiset.mem_add.mpr (.inr hmem)
    have hij : i ≠ tx := by
      rintro rfl
      exact hw.not_mem hi (by simp [Call.Plain]) hold
    have hq : tx ∉ s.pool.waiters.map Waiter.tx := fun hq =>
      Multiset.disjoint_left.mp hdisj (Multiset.mem_coe.mpr hq) hmem
    have hget : (s₁.put i .returned).calls[tx]? = s.calls[tx]? := by
      rw [get_put_ne _ hij]
      simp only [s₁, get_hang_up_all, if_neg hq, Option.map_id']
    simpa only [Waits, hget] using hw.receiver tx hold
  · rintro j ⟨kind, hk⟩
    rcases get_put hk with ⟨-, h⟩ | ⟨-, hk₁⟩
    · simp at h
    simp only [s₁, get_hang_up_all, Option.map_eq_some_iff] at hk₁
    obtain ⟨c, hc, hup⟩ := hk₁
    split at hup
    · -- A receiver whose sender was dropped does not wait any more.
      unfold Call.hang_up at hup
      split at hup
      · simp at hup
      · rename_i hne
        exact absurd hup (hne kind)
    · rename_i hq
      subst hup
      have hmem := hw.sender j ⟨kind, hc⟩
      rw [← hs, Multiset.mem_add] at hmem
      exact hmem.resolve_left fun h => hq (Multiset.mem_coe.mp h)

theorem Wf.cancel (hw : Wf s) {i : Nat} {rx : Slot T}
    (hi : s.calls[i]? = some (.parked .Async rx)) : Wf (s.put i .cancelled) := by
  have hs : (s.put i .cancelled).senders = s.senders := by
    have h := senders_put (d := .cancelled) hi
    simpa only [Call.sender, add_zero] using h
  refine ⟨hs ▸ hw.once, ?_, ?_⟩
  · intro tx hmem
    rw [hs] at hmem
    by_cases hij : i = tx
    · subst hij
      exact .inr (get_put_self hi)
    · simpa only [Waits, get_put_ne _ hij] using hw.receiver tx hmem
  · rintro j ⟨kind, hk⟩
    rw [hs]
    rcases get_put hk with ⟨-, h⟩ | ⟨-, hk⟩
    · simp at h
    · exact hw.sender j ⟨kind, hk⟩

/-- Every step keeps senders and receivers paired. -/
theorem wf_step (hw : Wf s) {a : Action} (h : s.step a = some s') : Wf s' := by
  cases trans_of_step h with
  | checkout kind => exact hw.enter (by simp [Call.Plain]) rfl
  | close => exact hw.enter (by simp [Call.Plain]) rfl
  | register hi => exact hw.register hi
  | pop hi hq => exact hw.pop hi hq
  | send hi => exact hw.send hi
  | clear hi => exact hw.clear hi
  | cancel hi => exact hw.cancel hi
  | refuse_fast hi | take hi | miss hi | refuse_slow hi | receive hi | hear_close hi | discard hi
  | find_open hi | no_waiter hi | push hi | store hi | into_owned hi | drop hi | give_back hi =>
    exact hw.put rfl hi (by simp [Call.Plain]) (by simp [Call.Plain]) rfl

theorem wf_run {items : List T} {as : List Action} (h : Sys.run items as = some s) : Wf s :=
  Steps.inv_of_run Wf (fun _ _ _ hs hw => wf_step hw hs) h (wf_new items)

end Gigastt.Pool
