import Gigastt.Pool.Custody

/-!
# The books of a pool over a run

`dropped` is `loss` as a list that can be computed. Over a run it names every item that
went, so what is left can be counted. Callers that only block drop nothing: the C
interface makes no other kind of checkout, and never closes its pool.
-/

namespace Gigastt.Pool

variable {T : Type} {s s' : Sys T}

/-- The item that the step drops. -/
def Sys.dropped (s : Sys T) : Action → List T
  | .cancel i =>
    match s.calls[i]? with
    | some (.parked _ (.item item)) => [item]
    | _ => []
  | .next i =>
    match s.calls[i]? with
    | some (.sending waiter item) =>
      match s.calls[waiter.tx]? with
      | some (.parked _ .empty) => []
      | _ => [item]
    | some (.checkin item) => if s.pool.closed then [item] else []
    | _ => []
  | _ => []

theorem dropped_eq_loss (s : Sys T) (a : Action) : (↑(s.dropped a) : Multiset T) = loss s a := by
  classical
  cases a with
  | checkout kind | close | into_owned i | drop i | give_back i => rfl
  | cancel i =>
    simp only [Sys.dropped, loss]
    rcases s.calls[i]? with _ | c
    · rfl
    · cases c with
      | parked kind rx => cases rx <;> rfl
      | _ => rfl
  | next i =>
    simp only [Sys.dropped, loss]
    rcases s.calls[i]? with _ | c
    · rfl
    · cases c with
      | sending waiter item =>
        dsimp only
        split
        · rename_i kind hk
          rw [if_pos ⟨kind, hk⟩]
          rfl
        · rename_i hne
          rw [if_neg]
          · rfl
          · rintro ⟨kind, hk⟩
            exact hne kind hk
      | checkin item =>
        dsimp only
        split_ifs <;> rfl
      | _ => rfl

/-! ## Every item is accounted for -/

/-- The items that a run drops, in order. -/
abbrev Sys.dropped_of (items : List T) (as : List Action) : List T :=
  Steps.trace Sys.step Sys.dropped (Sys.new items) as

theorem custody_run {items : List T} {as : List Action} (hrun : Sys.run items as = some s) :
    s.custody + ↑(Sys.dropped_of items as) = (items : Multiset T) := by
  let Books : List T → Sys T → Prop := fun past s => s.custody + ↑past = (items : Multiset T)
  have keep : ∀ past s a s', True → Sys.step s a = some s' → Books past s →
      Books (past ++ s.dropped a) s' := by
    intro past s a s' _ hstep hs
    show s'.custody + ↑(past ++ s.dropped a) = (items : Multiset T)
    rw [← hs, custody_step hstep, ← Multiset.coe_add, dropped_eq_loss]
    abel
  have h0 : Books [] (Sys.new items) := by simp [Books, custody_new]
  exact Steps.inv_of_trace Books keep hrun (Steps.eachStep_of_forall (fun _ _ => trivial) _ _) h0

theorem total_run {items : List T} {as : List Action} (hrun : Sys.run items as = some s) :
    s.pool.total = items.length :=
  Steps.inv_of_run (fun s => s.pool.total = items.length)
    (fun _ _ _ hstep h => (total_step hstep).trans h) hrun rfl

/-- Over any run, closed or not, the items that are queued, held or on their way and the items
dropped are together what the pool started with. So once every call is over, the queue is short
of the total by exactly the items dropped. -/
theorem slots_accounted (items : List T) (as : List Action) (s : Sys T)
    (hrun : Sys.run items as = some s) :
    s.custody + ↑(Sys.dropped_of items as) = (items : Multiset T) ∧
      ((∀ c ∈ s.calls, c.idle) →
        s.pool.available + (Sys.dropped_of items as).length = s.pool.total) := by
  have hbooks := custody_run hrun
  refine ⟨hbooks, fun hidle => ?_⟩
  have hzero : (s.calls.map Call.items).sum = 0 := by
    apply List.sum_eq_zero
    intro m hm
    obtain ⟨c, hc, rfl⟩ := List.mem_map.mp hm
    exact items_of_idle (hidle c hc)
  have hcard := congrArg Multiset.card hbooks
  simpa [Sys.custody, PoolInner.available, hzero, total_run hrun] using hcard

/-- The item that went to a caller who had timed out. -/
theorem slots_accounted_timed_out :
    ∃ s, Sys.run [7] timedOut = some s ∧ Sys.dropped_of [7] timedOut = [7] ∧
      s.pool.available + 1 = s.pool.total := by
  have hrun : Sys.run [7] timedOut = some ⟨⟨[], [], false, 1⟩, [.returned, .cancelled]⟩ := by decide
  exact ⟨_, hrun, by decide, (slots_accounted [7] timedOut _ hrun).2 (by decide)⟩

/-- What two calls have in hand is part of the whole. -/
theorem items_of_two {i j : Nat} {c d : Call T} (hi : s.calls[i]? = some c) (hj : s.calls[j]? = some d)
    (hne : i ≠ j) : ↑s.pool.items + (c.items + d.items) ≤ s.custody := by
  have hreturned : (Call.returned : Call T).items = 0 := rfl
  have hfirst := Steps.sum_map_set Call.items .returned hi
  have hj' : (s.calls.set i .returned)[j]? = some d := by rw [List.getElem?_set_ne hne, hj]
  have hsecond := Steps.sum_map_set Call.items .returned hj'
  rw [hreturned, add_zero] at hfirst hsecond
  unfold Sys.custody
  rw [← hfirst, ← hsecond, add_comm c.items]
  exact add_le_add_right (add_le_add_left (Multiset.le_add_left _ _) _) _

theorem items_of_one {i : Nat} {c : Call T} (hi : s.calls[i]? = some c) :
    ↑s.pool.items + c.items ≤ s.custody := by
  have hfirst := Steps.sum_map_set Call.items .returned hi
  have hreturned : (Call.returned : Call T).items = 0 := rfl
  rw [hreturned, add_zero] at hfirst
  unfold Sys.custody
  rw [← hfirst]
  exact add_le_add_right (Multiset.le_add_left _ _) _

/-! ## Callers that block -/

/-- No async checkout is under way, and none was cancelled. -/
def Call.blocks : Call T → Bool
  | .fast_path .Async | .slow_path .Async | .parked .Async _ | .cancelled => false
  | _ => true

theorem blocks_put {i : Nat} {c : Call T} (hs : ∀ c ∈ s.calls, c.blocks) (hc : c.blocks)
    {pool : PoolInner T} : ∀ d ∈ ({ s with pool }.put i c).calls, d.blocks := by
  intro d hd
  rcases List.mem_or_eq_of_mem_set hd with hd | rfl
  · exact hs d hd
  · exact hc

theorem blocks_step {a : Action} (h : s.step a = some s') (ha : a ≠ .checkout .Async)
    (hs : ∀ c ∈ s.calls, c.blocks) : ∀ c ∈ s'.calls, c.blocks := by
  have hat : ∀ {i : Nat} {c : Call T}, s.calls[i]? = some c → c.blocks :=
    fun hi => hs _ (List.mem_of_getElem? hi)
  cases trans_of_step h with
  | checkout kind =>
    intro c hc
    rcases List.mem_append.mp hc with hc | hc
    · exact hs c hc
    · obtain rfl := List.mem_singleton.mp hc
      cases kind with
      | Async => exact absurd rfl ha
      | Blocking => rfl
  | close =>
    intro c hc
    rcases List.mem_append.mp hc with hc | hc
    · exact hs c hc
    · obtain rfl := List.mem_singleton.mp hc
      rfl
  | @miss i kind hi | @register i kind hi =>
    have hblocks := hat hi
    refine blocks_put hs ?_
    cases kind with
    | Async => exact hblocks
    | Blocking => rfl
  | cancel hi => cases hat hi
  | @send i waiter item hi =>
    have hsend : ∀ c ∈ (send s.calls waiter.tx item), c.blocks := by
      unfold send
      split
      · rename_i kind hk
        have hblocks := hat hk
        intro c hc
        rcases List.mem_or_eq_of_mem_set hc with hc | rfl
        · exact hs c hc
        · cases kind with
          | Async => exact hblocks
          | Blocking => rfl
      · exact hs
    exact blocks_put (s := { s with calls := send s.calls waiter.tx item }) hsend rfl
  | @clear i hi =>
    refine blocks_put (s := { s with calls := hang_up_all s.calls s.pool.waiters }) ?_ rfl
    intro c hc
    obtain ⟨j, hj⟩ := List.mem_iff_getElem?.mp hc
    rw [get_hang_up_all] at hj
    obtain ⟨d, hd, rfl⟩ := Option.map_eq_some_iff.mp hj
    split_ifs
    · have hblocks := hat hd
      cases d with
      | parked kind rx =>
        cases kind with
        | Async => cases hblocks
        | Blocking => cases rx <;> rfl
      | _ => exact hblocks
    · exact hat hd
  | refuse_fast hi | take hi | refuse_slow hi | receive hi | hear_close hi
  | discard hi | find_open hi | pop hi | no_waiter hi | push hi | store hi | into_owned hi
  | drop hi | give_back hi => exact blocks_put hs rfl

theorem not_dropsItem_of_blocks {a : Action} (h : s.step a = some s')
    (hs : ∀ c ∈ s.calls, c.blocks) : ¬ DropsItem s a := by
  have hat : ∀ {i : Nat} {c : Call T}, s.calls[i]? = some c → c.blocks :=
    fun hi => hs _ (List.mem_of_getElem? hi)
  cases a with
  | checkout kind | close | into_owned i | drop i | give_back i => exact id
  | cancel i =>
    cases trans_of_step h with
    | cancel hi => cases hat hi
  | next i =>
    rintro ⟨waiter, item, -, hcancelled⟩
    cases hat hcancelled

/-- Callers of the C interface, on any number of threads: they block for a triplet, hold it for a
call or for the life of a stream, and give it back. No interleaving of their sections costs the
pool an item. -/
theorem blocking_callers_lose_nothing (items : List T) (as : List Action) (s : Sys T)
    (hrun : Sys.run items as = some s)
    (hblocking : Action.checkout .Async ∉ as) (hopen : Action.close ∉ as) :
    Kept items s ∧ Sys.dropped_of items as = [] := by
  let P : Sys T → Action → Prop := fun _ a => a ≠ .checkout .Async ∧ a ≠ .close
  have hsteps : Steps.EachStep Sys.step P (Sys.new items) as :=
    Steps.eachStep_of_mem (fun a ha => ⟨by rintro rfl; exact hblocking ha,
      by rintro rfl; exact hopen ha⟩) _
  let I : List T → Sys T → Prop := fun past s =>
    Sound s ∧ (∀ c ∈ s.calls, c.blocks) ∧ past = []
  have keep : ∀ past s a s', P s a → Sys.step s a = some s' → I past s →
      I (past ++ s.dropped a) s' := by
    rintro past s a s' ha hstep ⟨hsound, hblocks, rfl⟩
    refine ⟨sound_step s a s' ha.2 hstep hsound, blocks_step hstep ha.1 hblocks, ?_⟩
    have hnone := (loss_eq_zero_iff hsound a).mpr (not_dropsItem_of_blocks hstep hblocks)
    rw [← dropped_eq_loss, Multiset.coe_eq_zero] at hnone
    rw [List.nil_append, hnone]
  have h0 : I [] (Sys.new items) := ⟨sound_new items, by simp [Sys.new], rfl⟩
  have hnone : Sys.dropped_of items as = [] := (Steps.inv_of_trace I keep hrun hsteps h0).2.2
  refine ⟨(kept_iff (total_run hrun)).mpr ?_, hnone⟩
  have hbooks := custody_run hrun
  rw [hnone] at hbooks
  simpa using hbooks

/-- Two threads and one triplet: the second waits for the first. -/
def blockingHandOver : List Action :=
  [.checkout .Blocking, .next 0, .into_owned 0, .checkout .Blocking, .next 1, .next 1,
   .give_back 0, .next 0, .next 0, .next 0, .next 1]

theorem blocking_hand_over_kept :
    ∃ s, Sys.run [7] blockingHandOver = some s ∧ Kept [7] s := by
  have hrun : Sys.run [7] blockingHandOver =
      some ⟨⟨[], [], false, 1⟩, [.returned, .guard 7]⟩ := by decide
  exact ⟨_, hrun,
    (blocking_callers_lose_nothing [7] blockingHandOver _ hrun (by decide) (by decide)).1⟩

end Gigastt.Pool
