import Gigastt.Pool.Wf

/-!
# Where the items of a pool are

The custody of a state is every item in the queue, in the hands of a call, or sent to a
receiver that will take it. `loss` says which steps drop an item.
-/

namespace Gigastt.Pool

variable {T : Type} {s s' : Sys T}

def Call.items : Call T → Multiset T
  | .parked _ (.item item) => {item}
  | .guard item | .owned item | .checkin item | .giving item | .sending _ item
  | .pushing item => {item}
  | _ => 0

def Sys.custody (s : Sys T) : Multiset T := ↑s.pool.items + (s.calls.map Call.items).sum

open Classical in
/-- The item that a step drops: a full channel loses its receiver, a send finds the
receiver gone, or `checkin` finds the pool closed. -/
noncomputable def loss (s : Sys T) : Action → Multiset T
  | .cancel i => match s.calls[i]? with
    | some (.parked _ (.item item)) => {item}
    | _ => 0
  | .next i => match s.calls[i]? with
    | some (.sending waiter item) => if Waits s.calls waiter.tx then 0 else {item}
    | some (.checkin item) => if s.pool.closed then {item} else 0
    | _ => 0
  | _ => 0

theorem custody_new (items : List T) : (Sys.new items).custody = ↑items := by
  simp [Sys.custody, Sys.new, PoolInner.new]

/-! ## The books of one step -/

theorem custody_put (pool : PoolInner T) {i : Nat} {c : Call T} (d : Call T) (h : s.calls[i]? = some c) :
    ({ s with pool }.put i d).custody + (s.pool.items + c.items) =
      s.custody + (pool.items + d.items) := by
  have hsum := Steps.sum_map_set Call.items d h
  simp only [Sys.custody, put_pool, put_calls]
  calc (pool.items + ((s.calls.set i d).map Call.items).sum) + (s.pool.items + c.items)
      = s.pool.items + (((s.calls.set i d).map Call.items).sum + c.items) + pool.items := by abel
    _ = _ := by rw [hsum]; abel

theorem custody_move {pool : PoolInner T} {i : Nat} {c d : Call T} {lost : Multiset T}
    (h : s.calls[i]? = some c)
    (hmove : (s.pool.items : Multiset T) + c.items = pool.items + d.items + lost) :
    s.custody = ({ s with pool }.put i d).custody + lost := by
  have hput := custody_put pool d h
  rw [hmove, ← add_assoc] at hput
  have : ({ s with pool }.put i d).custody + lost + (pool.items + d.items) =
      s.custody + (pool.items + d.items) := by
    rw [← hput]; abel
  exact (add_right_cancel this).symm

theorem items_send (calls : List (Call T)) (tx : Nat) (item : T) [Decidable (Waits calls tx)] :
    ((send calls tx item).map Call.items).sum + (if Waits calls tx then 0 else {item}) =
      (calls.map Call.items).sum + {item} := by
  split
  · rename_i hw
    obtain ⟨kind, hk⟩ := hw
    have h := Steps.sum_map_set Call.items (.parked kind (.item item)) hk
    rw [send_of_waits item hk, add_zero]
    simpa [Call.items] using h
  · rename_i hw
    rw [send_of_not_waits item hw]

theorem custody_send {i : Nat} {waiter : Waiter} {item : T}
    (hi : s.calls[i]? = some (.sending waiter item)) [Decidable (Waits s.calls waiter.tx)] :
    s.custody = ({ s with calls := send s.calls waiter.tx item }.put i .returned).custody +
      (if Waits s.calls waiter.tx then 0 else {item}) := by
  set s₁ : Sys T := { s with calls := send s.calls waiter.tx item }
  have hi₁ : s₁.calls[i]? = some (.sending waiter item) := get_send (by simp) hi
  have hput : s₁.custody = (s₁.put i .returned).custody + {item} :=
    custody_move hi₁ (by simp [Call.items, s₁])
  have hsend := items_send s.calls waiter.tx item
  apply add_right_cancel (b := ({item} : Multiset T))
  calc s.custody + {item}
      = s.pool.items + ((s.calls.map Call.items).sum + {item}) := by rw [Sys.custody, add_assoc]
    _ = s₁.custody + (if Waits s.calls waiter.tx then 0 else {item}) := by
        rw [← hsend, ← add_assoc]; rfl
    _ = _ := by rw [hput]; abel

theorem items_hang_up_all (calls : List (Call T)) (waiters : List Waiter) :
    (hang_up_all calls waiters).map Call.items = calls.map Call.items := by
  apply List.ext_getElem?
  intro i
  simp only [List.getElem?_map, get_hang_up_all, Option.map_map]
  congr 1
  funext c
  simp only [Function.comp]
  split
  · unfold Call.hang_up
    split <;> rfl
  · rfl

/-- Every step accounts for each item: it keeps it, or `loss` names it. -/
theorem custody_step {a : Action} (h : s.step a = some s') :
    s.custody = s'.custody + loss s a := by
  classical
  cases trans_of_step h with
  | checkout kind => simp [Sys.custody, loss, Call.items]
  | close => simp [Sys.custody, loss, Call.items]
  | take hi _ hx =>
    apply custody_move hi
    simp only [loss, hi, hx, Call.items, add_zero, ← Multiset.cons_coe, ← Multiset.singleton_add]
    abel
  | push hi =>
    apply custody_move hi
    simp [loss, hi, Call.items, PoolInner.push_item, ← Multiset.coe_add]
  | discard hi hc => exact custody_move hi (by simp [loss, hi, hc, Call.items])
  | find_open hi hc => exact custody_move hi (by simp [loss, hi, hc, Call.items])
  | send hi => simpa only [loss, hi] using custody_send hi
  | @clear i hi =>
    have hget : (hang_up_all s.calls s.pool.waiters)[i]? = some .clearing := by
      simp only [get_hang_up_all, hi, Option.map_some, Call.hang_up, ite_self]
    have hput : (⟨s.pool, hang_up_all s.calls s.pool.waiters⟩ : Sys T).custody =
        (Sys.put ⟨s.pool.clear_waiters, hang_up_all s.calls s.pool.waiters⟩ i .returned).custody +
          loss s (.next i) :=
      custody_move hget (by simp [loss, hi, Call.items, PoolInner.clear_waiters])
    rw [← hput]
    simp only [Sys.custody, items_hang_up_all]
  | @cancel i rx hi =>
    apply custody_move hi
    cases rx <;> simp [loss, hi, Call.items]
  | refuse_fast hi | miss hi | refuse_slow hi | register hi | receive hi | hear_close hi | pop hi
  | no_waiter hi | store hi | into_owned hi | drop hi | give_back hi =>
    exact custody_move hi (by simp [loss, hi, Call.items, PoolInner.store_closed])

theorem total_step {a : Action} (h : s.step a = some s') : s'.pool.total = s.pool.total := by
  cases trans_of_step h <;> rfl

/-! ## Pools that nobody closes -/

def Sys.Open (s : Sys T) : Prop :=
  s.pool.closed = false ∧ ∀ c ∈ s.calls, c ≠ .closing ∧ c ≠ .clearing

theorem open_new (items : List T) : (Sys.new items).Open := by
  simp [Sys.Open, Sys.new, PoolInner.new]

theorem Sys.Open.put (ho : s.Open) {pool : PoolInner T} {i : Nat} {d : Call T}
    (hc : pool.closed = s.pool.closed) (hd : d ≠ .closing ∧ d ≠ .clearing) :
    ({ s with pool }.put i d).Open := by
  refine ⟨hc.trans ho.1, ?_⟩
  intro c hmem
  rcases List.mem_or_eq_of_mem_set hmem with h | rfl
  · exact ho.2 c h
  · exact hd

theorem Sys.Open.send (ho : s.Open) (tx : Nat) (item : T) :
    ({ s with calls := send s.calls tx item } : Sys T).Open := by
  refine ⟨ho.1, ?_⟩
  by_cases hw : Waits s.calls tx
  · obtain ⟨kind, hk⟩ := hw
    rw [send_of_waits item hk]
    intro c hmem
    rcases List.mem_or_eq_of_mem_set hmem with h | rfl
    · exact ho.2 c h
    · simp
  · rw [send_of_not_waits item hw]
    exact ho.2

theorem open_step (ho : s.Open) {a : Action} (ha : a ≠ .close) (h : s.step a = some s') :
    s'.Open := by
  cases trans_of_step h with
  | checkout kind =>
    refine ⟨ho.1, fun c hc => ?_⟩
    rcases List.mem_append.mp hc with hc | hc
    · exact ho.2 c hc
    · obtain rfl := List.mem_singleton.mp hc
      simp
  | close => exact absurd rfl ha
  | send hi => exact (ho.send _ _).put rfl (by simp)
  | store hi => exact absurd rfl (ho.2 _ (List.mem_of_getElem? hi)).1
  | clear hi => exact absurd rfl (ho.2 _ (List.mem_of_getElem? hi)).2
  | refuse_fast hi | take hi | miss hi | refuse_slow hi | register hi | receive hi | hear_close hi
  | discard hi | find_open hi | pop hi | no_waiter hi | push hi | cancel hi | into_owned hi
  | drop hi | give_back hi => exact ho.put rfl (by simp)

def Sound (s : Sys T) : Prop := Wf s ∧ s.Open

theorem sound_new (items : List T) : Sound (Sys.new items) := ⟨wf_new items, open_new items⟩

theorem sound_step (s : Sys T) (a : Action) (s' : Sys T) (ha : a ≠ .close)
    (h : s.step a = some s') (hs : Sound s) : Sound s' :=
  ⟨wf_step hs.1 h, open_step hs.2 ha h⟩

theorem eachStep_ne_close {as : List Action} (h : Action.close ∉ as) (s : Sys T) :
    Steps.EachStep Sys.step (fun _ a => a ≠ .close) s as := by
  apply Steps.eachStep_of_mem
  rintro a ha rfl
  exact h ha

/-! ## When nothing is lost -/

/-- A parked checkout goes away with an item in its channel, or an item is sent to a
checkout that has gone away. -/
def DropsItem (s : Sys T) : Action → Prop
  | .cancel i => ∃ kind item, s.calls[i]? = some (.parked kind (.item item))
  | .next i => ∃ waiter item, s.calls[i]? = some (.sending waiter item) ∧
      s.calls[waiter.tx]? = some .cancelled
  | _ => False

/-- The call neither holds an item nor awaits one. -/
def Call.idle : Call T → Bool
  | .cancelled | .failed | .closing | .clearing | .returned => true
  | _ => false

/-- No item lost and none made: the custody is what the pool started with. -/
def Kept (items : List T) (s : Sys T) : Prop :=
  s.custody = ↑items ∧ s.pool.available ≤ s.pool.total ∧
    ((∀ c ∈ s.calls, c.idle) → s.pool.available = s.pool.total)

theorem sender_mem {i : Nat} {waiter : Waiter} {item : T}
    (hi : s.calls[i]? = some (.sending waiter item)) : waiter.tx ∈ s.senders := by
  have h := senders_put (d := .returned) hi
  simp only [Call.sender, add_zero] at h
  rw [← h]
  exact Multiset.mem_add.mpr (.inr (Multiset.mem_singleton_self _))

theorem loss_eq_zero_iff (hs : Sound s) (a : Action) : loss s a = 0 ↔ ¬ DropsItem s a := by
  classical
  cases a with
  | checkout kind | close | into_owned i | drop i | give_back i => simp [loss, DropsItem]
  | cancel i =>
    simp only [loss, DropsItem]
    split
    · rename_i kind item hi
      simp [hi]
    · rename_i hne
      simp only [true_iff]
      rintro ⟨kind, item, hi⟩
      exact hne _ _ hi
  | next i =>
    simp only [loss, DropsItem]
    split
    · rename_i waiter item hi
      have hrx := hs.1.receiver _ (sender_mem hi)
      have hcancel : s.calls[waiter.tx]? = some .cancelled ↔ ¬ Waits s.calls waiter.tx := by
        constructor
        · rintro hk ⟨kind, hk'⟩
          rw [hk] at hk'
          cases hk'
        · exact fun hw => hrx.resolve_left hw
      simp [hi, hcancel]
    · rename_i item hi
      simp [hi, hs.2.1]
    · rename_i hne _
      simp only [true_iff]
      rintro ⟨waiter, item, hi, -⟩
      exact hne _ _ hi

theorem items_of_idle {c : Call T} (h : c.idle = true) : c.items = 0 := by
  cases c <;> simp_all [Call.idle, Call.items]

theorem kept_iff {items : List T} (htotal : s.pool.total = items.length) :
    Kept items s ↔ s.custody = ↑items := by
  refine ⟨fun h => h.1, fun h => ⟨h, ?_, ?_⟩⟩
  · have hcard := congrArg Multiset.card h
    simp only [Sys.custody, Multiset.card_add, Multiset.coe_card] at hcard
    rw [htotal, PoolInner.available]
    omega
  · intro hidle
    have hzero : (s.calls.map Call.items).sum = 0 := by
      apply List.sum_eq_zero
      intro m hm
      obtain ⟨c, hc, rfl⟩ := List.mem_map.mp hm
      exact items_of_idle (hidle c hc)
    have hcard := congrArg Multiset.card h
    simpa [Sys.custody, PoolInner.available, hzero, htotal] using hcard

/-- Without `close`, every state of a run has all items exactly when no step of the run
drops one. -/
theorem items_kept_iff (items : List T) (as : List Action) (s : Sys T)
    (hrun : Sys.run items as = some s) (hopen : Action.close ∉ as) :
    Steps.Throughout Sys.step (Kept items) (Sys.new items) as ↔
      Steps.EachStep Sys.step (fun s a => ¬ DropsItem s a) (Sys.new items) as := by
  let I : Sys T → Prop := fun s => Sound s ∧ s.pool.total = items.length
  have keep : ∀ s a s', a ≠ .close → s.step a = some s' → I s → I s' := fun s a s' ha h hI =>
    ⟨sound_step s a s' ha h hI.1, (total_step h).trans hI.2⟩
  refine Steps.throughout_iff_eachStep I keep ?_ hrun (eachStep_ne_close hopen _)
    ⟨sound_new items, rfl⟩ ?_
  · intro s a s' ha h hI hkept
    have hbook := custody_step h
    rw [kept_iff hI.2] at hkept
    rw [kept_iff (keep s a s' ha h hI).2, ← loss_eq_zero_iff hI.1, ← hkept, hbook]
    exact left_eq_add
  · exact (kept_iff rfl).mpr (custody_new items)

def handOver : List Action :=
  [.checkout .Async, .next 0, .checkout .Async, .next 1, .next 1, .drop 0, .next 0, .next 0,
   .next 0, .next 1]

theorem items_kept_hand_over :
    Steps.Throughout Sys.step (Kept [7]) (Sys.new [7]) handOver ↔
      Steps.EachStep Sys.step (fun s a => ¬ DropsItem s a) (Sys.new [7]) handOver :=
  items_kept_iff [7] handOver
    ⟨⟨[], [], false, 1⟩, [.returned, .guard 7]⟩ (by decide) (by decide)

/-- The second caller gives up while it waits for the only item. -/
def timedOut : List Action :=
  [.checkout .Async, .next 0, .checkout .Async, .next 1, .next 1, .cancel 1, .drop 0, .next 0,
   .next 0, .next 0]

/-- After `timedOut` nobody holds or awaits the item, and it is not in the queue. -/
theorem item_lost_to_cancelled_waiter :
    Action.close ∉ timedOut ∧ ∃ s, Sys.run [7] timedOut = some s ∧ (∀ c ∈ s.calls, c.idle) ∧
      s.pool.available = 0 ∧ s.pool.total = 1 ∧ ¬ Kept [7] s := by
  refine ⟨by decide, ⟨⟨[], [], false, 1⟩, [.returned, .cancelled]⟩, by decide, by decide, rfl,
    rfl, ?_⟩
  rintro ⟨-, -, h⟩
  exact absurd (h (by decide)) (by decide)

end Gigastt.Pool
