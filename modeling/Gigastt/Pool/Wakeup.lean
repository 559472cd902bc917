import Gigastt.Pool.Custody

/-!
# Nobody sleeps beside an idle item, unless it registers late

A checkout looks for items under one lock and registers under another, and a checkin
looks for waiters under the second lock and queues its item under the first. An item
that is queued, or is on its way there, when a caller registers is never offered to it.
-/

namespace Gigastt.Pool

variable {T : Type} {s s' : Sys T}

/-- A caller registers while an item is in the queue, or a checkin that found no waiter is
about to put one there. -/
def RegistersLate (s : Sys T) : Action → Prop
  | .next i => (∃ kind, s.calls[i]? = some (.slow_path kind)) ∧
      (s.pool.items ≠ [] ∨ ∃ item, Call.pushing item ∈ s.calls)
  | _ => False

/-- The call has returned, was cancelled or is parked. -/
def Call.settled : Call T → Bool
  | .parked _ _ | .cancelled | .failed | .guard _ | .owned _ | .returned => true
  | _ => false

def Settled (s : Sys T) : Prop := ∀ c ∈ s.calls, c.settled

def NoLostWakeup (s : Sys T) : Prop := (∃ i, Waits s.calls i) → s.pool.items = []

/-- Items and waiters are never queued at the same time. -/
def Disciplined (s : Sys T) : Prop :=
  s.pool.waiters ≠ [] → s.pool.items = [] ∧ ∀ item, Call.pushing item ∉ s.calls

theorem disciplined_new (items : List T) : Disciplined (Sys.new items) := fun h => absurd rfl h

theorem Disciplined.put (hd : Disciplined s) {pool : PoolInner T} {i : Nat} {c : Call T}
    (hw : pool.waiters ≠ [] → s.pool.waiters ≠ []) (hx : pool.items = s.pool.items)
    (hc : ∀ item, c ≠ .pushing item) : Disciplined ({ s with pool }.put i c) := by
  intro hne
  obtain ⟨hitems, hpush⟩ := hd (hw hne)
  refine ⟨hx.trans hitems, fun item hmem => ?_⟩
  rcases List.mem_or_eq_of_mem_set hmem with h | h
  · exact hpush item h
  · exact hc item h.symm

theorem Disciplined.send (hd : Disciplined s) (tx : Nat) (item : T) :
    Disciplined { s with calls := send s.calls tx item } := by
  intro hne
  obtain ⟨hitems, hpush⟩ := hd hne
  refine ⟨hitems, fun x hmem => ?_⟩
  rcases mem_send hmem with h | ⟨kind, h⟩
  · exact hpush x h
  · simp at h

theorem disciplined_register {i : Nat} {kind : Kind} (hi : s.calls[i]? = some (.slow_path kind)) :
    Disciplined ({ s with pool := { s.pool with waiters := s.pool.waiters ++ [kind.waiter i] } }.put i
      (.parked kind .empty)) ↔ ¬ RegistersLate s (.next i) := by
  have hne : s.pool.waiters ++ [kind.waiter i] ≠ [] := by simp
  have hmem : ∀ item, Call.pushing item ∈ s.calls.set i (.parked kind .empty) ↔
      Call.pushing item ∈ s.calls := by
    intro item
    rw [List.mem_iff_getElem?, List.mem_iff_getElem?]
    constructor
    · rintro ⟨j, hj⟩
      rcases get_put hj with ⟨-, h⟩ | ⟨-, h⟩
      · simp at h
      · exact ⟨j, h⟩
    · rintro ⟨j, hj⟩
      have hij : i ≠ j := by
        rintro rfl
        rw [hi] at hj
        cases hj
      exact ⟨j, by rw [List.getElem?_set_ne hij, hj]⟩
  simp only [Disciplined, put_pool, put_calls, hne, ne_eq, not_false_eq_true, forall_const, hmem,
    RegistersLate, hi, Option.some.injEq, Call.slow_path.injEq, exists_eq', true_and, not_or,
    not_not, not_exists]

theorem not_late {i : Nat} {c : Call T} (hi : s.calls[i]? = some c)
    (hc : ∀ kind, c ≠ .slow_path kind) : ¬ RegistersLate s (.next i) := by
  rintro ⟨⟨kind, hk⟩, -⟩
  exact hc kind (Option.some.inj (hi.symm.trans hk))

/-- Only a late registration breaks the discipline. -/
theorem disciplined_step (hs : Sound s) (hd : Disciplined s) {a : Action}
    (h : s.step a = some s') : Disciplined s' ↔ ¬ RegistersLate s a := by
  cases trans_of_step h with
  | register hi => exact disciplined_register hi
  | refuse_slow _ hc => rw [hs.2.1] at hc; cases hc
  | store hi => exact absurd rfl (hs.2.2 _ (List.mem_of_getElem? hi)).1
  | clear hi => exact absurd rfl (hs.2.2 _ (List.mem_of_getElem? hi)).2
  | checkout kind | close =>
    refine iff_of_true (fun hne => ⟨(hd hne).1, fun item hmem => ?_⟩) id
    rcases List.mem_append.mp hmem with h | h
    · exact (hd hne).2 item h
    · cases List.mem_singleton.mp h
  | take hi _ hx =>
    refine iff_of_true (fun hne => ?_) (not_late hi (by simp))
    rw [(hd hne).1] at hx
    cases hx
  | pop hi hw => exact iff_of_true (hd.put (by simp [hw]) rfl (by simp)) (not_late hi (by simp))
  | no_waiter hi hw => exact iff_of_true (fun hne => absurd hw hne) (not_late hi (by simp))
  | push hi =>
    exact iff_of_true (fun hne => absurd (List.mem_of_getElem? hi) ((hd hne).2 _))
      (not_late hi (by simp))
  | send hi => exact iff_of_true ((hd.send _ _).put id rfl (by simp)) (not_late hi (by simp))
  | refuse_fast hi | miss hi | receive hi | hear_close hi | discard hi | find_open hi =>
    exact iff_of_true (hd.put id rfl (by simp)) (not_late hi (by simp))
  | cancel hi | into_owned hi | drop hi | give_back hi =>
    exact iff_of_true (hd.put id rfl (by simp)) id

theorem disciplined_iff {items : List T} {as : List Action} (hrun : Sys.run items as = some s)
    (hopen : Action.close ∉ as) :
    Steps.Throughout Sys.step Disciplined (Sys.new items) as ↔
      Steps.EachStep Sys.step (fun s a => ¬ RegistersLate s a) (Sys.new items) as :=
  Steps.throughout_iff_eachStep Sound sound_step
    (fun _ _ _ _ h hs hd => disciplined_step hs hd h) hrun (eachStep_ne_close hopen _)
    (sound_new items) (disciplined_new items)

theorem Call.sender_of_settled {c : Call T} (h : c.settled = true) : c.sender = 0 := by
  cases c <;> simp_all [Call.settled, Call.sender]

theorem no_lost_wakeup_of_disciplined (hw : Wf s) (hd : Disciplined s) (hset : Settled s) :
    NoLostWakeup s := by
  rintro ⟨i, hi⟩
  have hzero : (s.calls.map Call.sender).sum = 0 := by
    apply List.sum_eq_zero
    intro m hm
    obtain ⟨c, hc, rfl⟩ := List.mem_map.mp hm
    exact Call.sender_of_settled (hset c hc)
  have hmem := hw.sender i hi
  rw [Sys.senders, hzero, add_zero, Multiset.mem_coe] at hmem
  exact (hd (by rintro hq; simp [hq] at hmem)).1

/-- Without `close`, and as long as no caller registers late, no settled state leaves a
caller parked beside a queued item. -/
theorem no_lost_wakeup (items : List T) (as : List Action) (s : Sys T)
    (hrun : Sys.run items as = some s) (hopen : Action.close ∉ as)
    (htime : Steps.EachStep Sys.step (fun s a => ¬ RegistersLate s a) (Sys.new items) as) :
    Steps.Throughout Sys.step (fun s => Settled s → NoLostWakeup s) (Sys.new items) as :=
  ((disciplined_iff hrun hopen).mpr htime).imp Sound sound_step
    (fun _ hs hd hset => no_lost_wakeup_of_disciplined hs.1 hd hset)
    (eachStep_ne_close hopen _) (sound_new items)

/-- A caller registers in time if the queue is empty and no item is on its way. -/
theorem not_registersLate {s : Sys T} {i : Nat}
    (h : ∀ kind, s.calls[i]? = some (.slow_path kind) →
      s.pool.items = [] ∧ ∀ item, Call.pushing item ∉ s.calls) : ¬ RegistersLate s (.next i) := by
  rintro ⟨⟨kind, hcall⟩, hlate⟩
  obtain ⟨hitems, hpushing⟩ := h kind hcall
  rcases hlate with hlate | ⟨item, hlate⟩
  · exact hlate hitems
  · exact hpushing item hlate

theorem handOver_on_time :
    Steps.EachStep Sys.step (fun s a => ¬ RegistersLate s a) (Sys.new [7]) handOver := by
  refine (Steps.eachStep_cons rfl).mpr ⟨id, (Steps.eachStep_cons rfl).mpr ⟨not_registersLate nofun, ?_⟩⟩
  refine (Steps.eachStep_cons rfl).mpr ⟨id, (Steps.eachStep_cons rfl).mpr ⟨not_registersLate nofun, ?_⟩⟩
  -- The second caller registers while the first one has the item.
  refine (Steps.eachStep_cons rfl).mpr ⟨not_registersLate fun _ _ => ⟨rfl, nofun⟩, ?_⟩
  refine (Steps.eachStep_cons rfl).mpr ⟨id, (Steps.eachStep_cons rfl).mpr ⟨not_registersLate nofun, ?_⟩⟩
  refine (Steps.eachStep_cons rfl).mpr ⟨not_registersLate nofun, ?_⟩
  refine (Steps.eachStep_cons rfl).mpr ⟨not_registersLate nofun, ?_⟩
  exact (Steps.eachStep_cons rfl).mpr ⟨not_registersLate nofun, trivial⟩

theorem no_lost_wakeup_hand_over :
    Steps.Throughout Sys.step (fun s => Settled s → NoLostWakeup s) (Sys.new [7]) handOver :=
  no_lost_wakeup [7] handOver ⟨⟨[], [], false, 1⟩, [.returned, .guard 7]⟩ (by decide) (by decide)
    handOver_on_time

def overtaken : List Action :=
  [.checkout .Blocking, .next 0, .checkout .Blocking, .next 1, .drop 0, .next 0, .next 0, .next 0,
   .next 1]

/-- After `overtaken` the blocking caller is parked and the item is in the queue. -/
theorem wakeup_lost_to_late_registration :
    Action.close ∉ overtaken ∧ ∃ s, Sys.run [7] overtaken = some s ∧ Settled s ∧
      s.calls[1]? = some (.parked .Blocking .empty) ∧ s.pool.items = [7] ∧ ¬ NoLostWakeup s := by
  refine ⟨by decide, ⟨⟨[7], [.Blocking 1], false, 1⟩, [.returned, .parked .Blocking .empty]⟩,
    by decide, by simp [Settled, Call.settled], rfl, rfl, ?_⟩
  intro h
  exact absurd (h ⟨1, .Blocking, rfl⟩) (by decide)

end Gigastt.Pool
