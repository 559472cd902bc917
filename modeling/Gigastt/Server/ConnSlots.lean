import Gigastt.Pool.Ledger
import Gigastt.Server.ConnTrans

/-!
# Which connection holds which slot

Each connection is tied to its own call on the pool, so a session holds the slot that its
call owns, and nobody else does. The runs of the server go by runs of the pool.
-/

namespace Gigastt.Server

open Session Streaming Words

variable {F D R V : Type} {cfg : Config F D R} {s s' : AppState F D R V}

/-! ## A connection and its call -/

def Conn.call : Conn F D R → Option Nat
  | .checking_out call | .waiting call | .session call _ _ | .returned call _ _ | .checking_in call _ =>
    some call
  | _ => none

/-- The call of a connection has come as far as the connection. -/
def Tied (pool : Pool.Sys Nat) : Conn F D R → Prop
  | .checking_out call => ∃ k, pool.calls[call]? = some k ∧ k.checks_out
  | .waiting call => ∃ rx, pool.calls[call]? = some (.parked .Async rx)
  | .session call _ loop => loop.result = none ∧
      ∃ slot, pool.calls[call]? = some (.owned slot) ∧ Sound slot loop.vars
  | .returned call triplet_opt _ =>
      ∃ slot, pool.calls[call]? = some (.owned slot) ∧ ∀ triplet ∈ triplet_opt, triplet.slot = slot
  | .checking_in call _ => ∃ k, pool.calls[call]? = some k ∧ k.checks_in
  | _ => True

/-- A step of the pool for somebody else. -/
theorem Tied.other {pool pool' : Pool.Sys Nat} {act : Pool.Action} {conn : Conn F D R}
    (h : Tied pool conn) (hstep : pool.step act = some pool')
    (hother : ∀ call, conn.call = some call → act.call ≠ some call) : Tied pool' conn := by
  have howned : ∀ {call slot : Nat}, act.call ≠ some call → pool.calls[call]? = some (.owned slot) →
      pool'.calls[call]? = some (.owned slot) := by
    intro call slot hne hi
    exact Pool.get_step_other hstep hi (by simp) hne
  cases conn with
  | checking_out call =>
    obtain ⟨k, hi, hk⟩ := h
    obtain ⟨k', hi', hwoken⟩ := Pool.other_call hstep (hother call rfl) hi
    exact ⟨k', hi', hwoken.checks_out hk⟩
  | waiting call =>
    obtain ⟨rx, hi⟩ := h
    obtain ⟨k', hi', hwoken⟩ := Pool.other_call hstep (hother call rfl) hi
    cases hwoken with
    | same | sent | hung_up => exact ⟨_, hi'⟩
  | session call deadline loop =>
    obtain ⟨hopen, slot, hi, hv⟩ := h
    exact ⟨hopen, slot, howned (hother call rfl) hi, hv⟩
  | returned call triplet_opt said =>
    obtain ⟨slot, hi, hslot⟩ := h
    exact ⟨slot, howned (hother call rfl) hi, hslot⟩
  | checking_in call said =>
    obtain ⟨k, hi, hk⟩ := h
    obtain ⟨k', hi', hwoken⟩ := Pool.other_call hstep (hother call rfl) hi
    exact ⟨k', hi', hwoken.checks_in hk⟩
  | refused | upgrading | entered | ended => trivial

section Moves

variable [F32Pcm F]

/-- A move without the pool keeps the tie. -/
theorem Move.tied_still {c : Nat} {a : ServerAction F V} {conn conn' : Conn F D R}
    {calls : List (Metrics.Call V)} (h : Move cfg s c a conn conn' none calls)
    (hc : Tied s.pool conn) : Tied s.pool conn' := by
  cases h with
  | park hi =>
    obtain ⟨k, hk, hout⟩ := hc
    obtain rfl := Option.some.inj (hi.symm.trans hk)
    rename_i kind
    cases kind with
    | Async => exact ⟨_, hi⟩
    | Blocking => exact hout.elim
  | wake =>
    obtain ⟨rx, hi⟩ := hc
    exact ⟨_, hi, trivial⟩
  | turn ht hw hturn hopen =>
    obtain ⟨hbefore, slot, hi, hv⟩ := hc
    exact ⟨hopen, slot, hi, sound_step (fun _ => hv) hturn hopen⟩
  | @last_turn call deadline loop loop' it result ht hw hturn hend =>
    obtain ⟨hbefore, slot, hi, hv⟩ := hc
    refine ⟨slot, hi, ?_⟩
    have hturned := turned_of_step hv hturn
    rw [hend] at hturned
    obtain ⟨⟨back, hback, hslot⟩ | ⟨hnone, -⟩, -⟩ := returned_of_turned hv hturned
    · rw [hback]
      rintro triplet ⟨⟩
      exact hslot
    · rw [hnone]
      simp
  | upgraded | upgrade_failed | turn_away | pool_closed | lose | checked_in => trivial

/-- A move with the pool keeps it too, and is about the call of the connection. -/
theorem Move.tied_moved {c : Nat} {a : ServerAction F V} {conn conn' : Conn F D R}
    {act : Pool.Action} {calls : List (Metrics.Call V)} {pool : Pool.Sys Nat}
    (h : Move cfg s c a conn conn' (some act) calls) (hpool : s.pool.step act = some pool)
    (hc : Tied s.pool conn) : Tied pool conn' := by
  cases h with
  | check_out =>
    cases hpool
    exact ⟨_, List.getElem?_concat_length, trivial⟩
  | go_on call =>
    obtain ⟨k, hi, hk⟩ := hc
    obtain ⟨k', hi', hnext⟩ := Pool.own_call hpool hi
    exact ⟨k', hi', hnext.checks_out hk⟩
  | check_in =>
    obtain ⟨k, hi, hk⟩ := hc
    obtain ⟨k', hi', hnext⟩ := Pool.own_call hpool hi
    exact ⟨k', hi', hnext.checks_in hk⟩
  | give_up | expire | panic => trivial
  | @deaf call slot now elapsed sessions hi =>
    cases Pool.trans_of_step hpool with
    | into_owned hi' =>
      obtain rfl := Pool.Call.guard.inj (Option.some.inj (hi.symm.trans hi'))
      exact ⟨slot, Pool.get_put_self hi', by rintro triplet ⟨⟩; rfl⟩
  | @enter call slot now elapsed sessions deadline hi =>
    cases Pool.trans_of_step hpool with
    | into_owned hi' =>
      obtain rfl := Pool.Call.guard.inj (Option.some.inj (hi.symm.trans hi'))
      exact ⟨rfl, slot, Pool.get_put_self hi', sound_new { slot, sessions }⟩
  | give_back =>
    obtain ⟨slot, hi, hslot⟩ := hc
    cases Pool.trans_of_step hpool with
    | give_back hi' => exact ⟨_, Pool.get_put_self hi', trivial⟩

/-- A move is about the call of its connection, or makes it. -/
theorem Move.about {c : Nat} {a : ServerAction F V} {conn conn' : Conn F D R} {act : Pool.Action}
    {calls : List (Metrics.Call V)} (h : Move cfg s c a conn conn' (some act) calls) :
    (act = .checkout .Async ∧ conn'.call = some s.pool.calls.length) ∨
      (∃ call, act.call = some call ∧ conn.call = some call ∧
        ∀ call', conn'.call = some call' → call' = call) := by
  cases h with
  | check_out => exact .inl ⟨rfl, rfl⟩
  | go_on call => exact .inr ⟨call, rfl, rfl, by rintro call' ⟨⟩; rfl⟩
  | @check_in call | @deaf call | @enter call | @give_back call =>
    exact .inr ⟨call, rfl, rfl, by rintro call' ⟨⟩; rfl⟩
  | @give_up call | @expire call | @panic call =>
    exact .inr ⟨call, rfl, rfl, by rintro call' ⟨⟩⟩

theorem Move.about_still {c : Nat} {a : ServerAction F V} {conn conn' : Conn F D R}
    {calls : List (Metrics.Call V)} (h : Move cfg s c a conn conn' none calls) {call : Nat}
    (hcall : conn'.call = some call) : conn.call = some call := by
  cases h with
  | park | wake | turn | last_turn => exact hcall
  | upgraded | upgrade_failed | turn_away | pool_closed | lose | checked_in => cases hcall

end Moves

/-! ## The invariant -/

structure Consistent (s : AppState F D R V) : Prop where
  length : s.callers.length = s.pool.calls.length
  caller : ∀ (c : Nat) (conn : Conn F D R) (call : Nat), s.conns[c]? = some conn → conn.call = some call →
    s.callers[call]? = some (.conn c)
  tied : ∀ (c : Nat) (conn : Conn F D R), s.conns[c]? = some conn → Tied s.pool conn
  closer : ∀ call, s.closer = some call → s.callers[call]? = some .shutdown

theorem consistent_new (slots : List Nat) : Consistent (AppState.new slots : AppState F D R V) :=
  ⟨rfl, by simp [AppState.new], by simp [AppState.new], by simp [AppState.new]⟩

theorem consistent_record {calls : List (Metrics.Call V)} (h : Consistent s) :
    Consistent (s.record cfg calls) := by
  obtain ⟨hlength, hcaller, htied, hcloser⟩ := h
  constructor
  · rwa [record_callers, record_pool]
  · rwa [record_conns, record_callers]
  · rwa [record_conns, record_pool]
  · rwa [record_closer, record_callers]

/-- The callers grow with the calls. -/
theorem length_new_caller {act : Pool.Action} {caller : Caller} {pool : Pool.Sys Nat}
    (hlength : s.callers.length = s.pool.calls.length) (hpool : s.pool.step act = some pool) :
    (s.callers ++ new_caller act caller).length = pool.calls.length := by
  rw [Pool.calls_length hpool, List.length_append, hlength, new_caller]
  split_ifs <;> rfl

theorem callers_append {callers more : List Caller} {call : Nat} {caller : Caller}
    (h : callers[call]? = some caller) : (callers ++ more)[call]? = some caller := by
  rwa [List.getElem?_append_left (List.getElem?_eq_some_iff.mp h).1]

/-- A step of the pool by somebody who is no connection. -/
theorem Consistent.beside (h : Consistent s) (act : Pool.Action) (caller : Caller)
    (closer : Option Nat) {pool : Pool.Sys Nat} (hpool : s.pool.step act = some pool)
    (hown : ∀ call, act.call = some call → ∀ c, s.callers[call]? ≠ some (.conn c))
    (hcloser : ∀ call, closer = some call →
      (s.callers ++ new_caller act caller)[call]? = some .shutdown) :
    Consistent { s with pool, callers := s.callers ++ new_caller act caller, closer } := by
  refine ⟨length_new_caller h.length hpool, ?_, ?_, hcloser⟩
  · intro c conn call hc hcall
    exact callers_append (h.caller c conn call hc hcall)
  · intro c conn hc
    refine (h.tied c conn hc).other hpool fun call hcall hact => ?_
    exact hown call hact c (h.caller c conn call hc hcall)

theorem get_concat {α : Type} {l : List α} {x y : α} {c : Nat} (h : (l ++ [x])[c]? = some y) :
    l[c]? = some y ∨ y = x := by
  rw [List.getElem?_append] at h
  split_ifs at h
  · exact .inl h
  · exact .inr (List.mem_singleton.mp (List.mem_of_getElem? h))

theorem get_set {α : Type} {l : List α} {x y : α} {c c' : Nat} (h : (l.set c x)[c']? = some y) :
    (c' = c ∧ y = x) ∨ (c' ≠ c ∧ l[c']? = some y) := by
  by_cases hne : c = c'
  · subst hne
    rw [List.getElem?_set, if_pos rfl] at h
    split_ifs at h
    exact .inl ⟨rfl, (Option.some.inj h).symm⟩
  · rw [List.getElem?_set_ne hne] at h
    exact .inr ⟨Ne.symm hne, h⟩

variable [F32Pcm F]

/-- A move is not about the call of another connection. -/
theorem Move.not_about {c c₁ : Nat} {a : ServerAction F V} {conn conn' : Conn F D R}
    {act : Pool.Action} {calls : List (Metrics.Call V)} {call : Nat}
    (h : Move cfg s c a conn conn' (some act) calls) (hs : Consistent s) (hc : s.conns[c]? = some conn)
    (hne : c₁ ≠ c) (hcaller : s.callers[call]? = some (.conn c₁)) : act.call ≠ some call := by
  intro hact
  rcases h.about with ⟨rfl, -⟩ | ⟨call', hact', hcall', -⟩
  · simp [Pool.Action.call] at hact
  · obtain rfl := Option.some.inj (hact'.symm.trans hact)
    have hsame := (hs.caller c conn call' hc hcall').symm.trans hcaller
    exact hne (Caller.conn.inj (Option.some.inj hsame)).symm

theorem consistent_step {a : ServerAction F V} (hs : Consistent s) (h : s.step cfg a = some s') :
    Consistent s' := by
  cases app_trans h with
  | request legacy =>
    have hnew : ∀ conn : Conn F D R, conn = (if legacy then ws_handler_legacy s.is_cancelled
        else ws_handler s.is_cancelled) → conn.call = none ∧ Tied s.pool conn := by
      rintro conn rfl
      unfold ws_handler_legacy ws_handler
      split_ifs <;> exact ⟨rfl, trivial⟩
    refine ⟨hs.length, ?_, ?_, hs.closer⟩
    · intro c conn call hc hcall
      rcases get_concat hc with hc | hconn
      · exact hs.caller c conn call hc hcall
      · rw [(hnew conn hconn).1] at hcall
        cases hcall
    · intro c conn hc
      rcases get_concat hc with hc | hconn
      · exact hs.tied c conn hc
      · exact (hnew conn hconn).2
  | @still _ c conn conn' calls hc hm =>
    apply consistent_record
    refine ⟨hs.length, ?_, ?_, hs.closer⟩
    · intro c₁ conn₁ call hc₁ hcall
      rcases get_set hc₁ with ⟨rfl, rfl⟩ | ⟨-, hc₁⟩
      · exact hs.caller _ conn call hc (hm.about_still hcall)
      · exact hs.caller c₁ conn₁ call hc₁ hcall
    · intro c₁ conn₁ hc₁
      rcases get_set hc₁ with ⟨rfl, rfl⟩ | ⟨-, hc₁⟩
      · exact hm.tied_still (hs.tied _ conn hc)
      · exact hs.tied c₁ conn₁ hc₁
  | @moved _ c conn conn' act calls pool hc hm hpool =>
    apply consistent_record
    have hnew : act = .checkout .Async →
        (s.callers ++ new_caller act (.conn c))[s.pool.calls.length]? = some (.conn c) := by
      rintro rfl
      rw [← hs.length]
      exact List.getElem?_concat_length
    refine ⟨length_new_caller hs.length hpool, ?_, ?_, fun call hcall =>
      callers_append (hs.closer call hcall)⟩
    · intro c₁ conn₁ call hc₁ hcall
      rcases get_set hc₁ with ⟨rfl, rfl⟩ | ⟨-, hc₁⟩
      · rcases hm.about with ⟨hact, hcall'⟩ | ⟨call', -, hcall', hsame⟩
        · obtain rfl := Option.some.inj (hcall'.symm.trans hcall)
          exact hnew hact
        · obtain rfl := hsame call hcall
          exact callers_append (hs.caller _ conn call hc hcall')
      · exact callers_append (hs.caller c₁ conn₁ call hc₁ hcall)
    · intro c₁ conn₁ hc₁
      rcases get_set hc₁ with ⟨rfl, rfl⟩ | ⟨hne, hc₁⟩
      · exact hm.tied_moved hpool (hs.tied _ conn hc)
      · refine (hs.tied c₁ conn₁ hc₁).other hpool fun call hcall hact => ?_
        exact hm.not_about hs hc hne (hs.caller c₁ conn₁ call hc₁ hcall) hact
  | @rest_checkout kind pool hpool =>
    exact hs.beside (.checkout kind) .rest _ hpool (by simp [Pool.Action.call]) fun call hcall =>
      callers_append (hs.closer call hcall)
  | @rest call act pool hact hcaller hpool =>
    have hb := hs.beside act .rest s.closer hpool
      (fun call' hcall' c hc => by
        obtain rfl := Option.some.inj (hact.symm.trans hcall')
        simp [hcaller] at hc)
      (fun call' hcall' => callers_append (hs.closer call' hcall'))
    rwa [new_caller, if_neg (by simp [hact]), List.append_nil] at hb
  | rest_metric => exact consistent_record hs
  | shutdown => exact ⟨hs.length, hs.caller, hs.tied, hs.closer⟩
  | @close_pool pool ht hcloser hpool =>
    refine hs.beside .close .shutdown _ hpool (by simp [Pool.Action.call]) ?_
    rintro call ⟨⟩
    rw [← hs.length]
    exact List.getElem?_concat_length
  | @closing call pool hcloser hpool =>
    have hb := hs.beside (.next call) .rest s.closer hpool
      (fun call' hcall' c hc => by
        obtain rfl : call = call' := Option.some.inj hcall'
        simp [hs.closer call hcloser] at hc)
      (fun call' hcall' => callers_append (hs.closer call' hcall'))
    rwa [new_caller, if_neg (by simp [Pool.Action.call]), List.append_nil] at hb

theorem consistent_run {slots : List Nat} {as : List (ServerAction F V)}
    (hrun : AppState.run cfg slots as = some s) : Consistent s :=
  Steps.inv_of_run Consistent (fun _ _ _ h hs => consistent_step hs h) hrun (consistent_new slots)

/-! ## Runs of the pool -/

/-- What a step of the server does to the pool is one of its steps, and it is closed only once the
token is cancelled. -/
theorem pool_of_step {a : ServerAction F V} (h : s.step cfg a = some s') :
    s'.pool = s.pool ∨ ∃ act, s.pool.step act = some s'.pool ∧
      (act = .close → s.is_cancelled = true) := by
  cases app_trans h with
  | request | shutdown => exact .inl rfl
  | still | rest_metric => exact .inl (record_pool _)
  | @moved _ c conn conn' act calls pool hc hm hpool =>
    refine .inr ⟨act, by rw [record_pool]; exact hpool, ?_⟩
    rintro rfl
    rcases hm.about with ⟨hact, -⟩ | ⟨call, hact, -⟩
    · cases hact
    · cases hact
  | rest_checkout hpool => exact .inr ⟨_, hpool, by simp⟩
  | rest hact _ hpool => exact .inr ⟨_, hpool, by rintro rfl; cases hact⟩
  | close_pool ht _ hpool => exact .inr ⟨_, hpool, fun _ => ht⟩
  | closing _ hpool => exact .inr ⟨_, hpool, by simp⟩

theorem cancelled_step {a : ServerAction F V} (h : s.step cfg a = some s')
    (ht : s.is_cancelled = true) : s'.is_cancelled = true := by
  cases app_trans h with
  | shutdown => rfl
  | still | moved | rest_metric => rw [record_is_cancelled]; exact ht
  | _ => exact ht

theorem open_of_open_step {a : ServerAction F V} (h : s.step cfg a = some s')
    (ht : s'.is_cancelled = false) : s.is_cancelled = false := by
  by_contra hs
  rw [cancelled_step h (by simpa using hs)] at ht
  cases ht

/-- The pool of a server goes by a run of the pool alone, without a `close` while the token is not
cancelled. -/
theorem pool_run {slots : List Nat} {as : List (ServerAction F V)}
    (hrun : AppState.run cfg slots as = some s) :
    ∃ acts, Pool.Sys.run slots acts = some s.pool ∧
      (s.is_cancelled = false → Pool.Action.close ∉ acts) := by
  let Follows : AppState F D R V → Prop := fun s => ∃ acts, Pool.Sys.run slots acts = some s.pool ∧
    (s.is_cancelled = false → Pool.Action.close ∉ acts)
  refine Steps.inv_of_run Follows ?_ hrun ⟨[], rfl, by simp⟩
  rintro s a s' h ⟨acts, hacts, hopen⟩
  have hbefore := open_of_open_step h
  rcases pool_of_step h with hpool | ⟨act, hpool, hclose⟩
  · exact ⟨acts, by rw [hpool, hacts], fun hs' => hopen (hbefore hs')⟩
  · refine ⟨acts ++ [act], Steps.run_append.mpr ⟨_, hacts, Steps.run_cons_eq_some.mpr ⟨_, hpool, rfl⟩⟩,
      fun hs' => ?_⟩
    have hs := hbefore hs'
    rw [List.mem_append, List.mem_singleton]
    rintro (hmem | hact)
    · exact hopen hs hmem
    · rw [hclose hact.symm] at hs
      cases hs

theorem unclosed_of_open {slots : List Nat} {as : List (ServerAction F V)}
    (hrun : AppState.run cfg slots as = some s) (ht : s.is_cancelled = false) : s.pool.Unclosed := by
  obtain ⟨acts, hacts, hopen⟩ := pool_run hrun
  exact Pool.unclosed_run hacts (hopen ht)

/-! ## Slots -/

/-- The slot that `handle_ws` holds for a connection. -/
def Conn.slot : Conn F D R → Option Nat
  | .session _ _ loop => loop.vars.triplet_opt.map Triplet.slot
  | .returned _ triplet_opt _ => triplet_opt.map Triplet.slot
  | _ => none

omit [F32Pcm F] in
theorem Tied.slot {pool : Pool.Sys Nat} {conn : Conn F D R} {slot : Nat} (h : Tied pool conn)
    (hslot : conn.slot = some slot) :
    ∃ call, conn.call = some call ∧ pool.calls[call]? = some (.owned slot) := by
  cases conn with
  | session call deadline loop =>
    obtain ⟨-, owned, hi, -, triplet, htriplet, howned⟩ := h
    rw [Conn.slot, htriplet] at hslot
    obtain rfl : triplet.slot = slot := Option.some.inj hslot
    exact ⟨call, rfl, by rw [hi, howned]⟩
  | returned call triplet_opt said =>
    obtain ⟨owned, hi, howned⟩ := h
    obtain ⟨triplet, htriplet, rfl⟩ := Option.map_eq_some_iff.mp hslot
    exact ⟨call, rfl, by rw [hi, howned triplet htriplet]⟩
  | _ => cases hslot

/-- The slots in the hands of the connections. -/
def AppState.held (s : AppState F D R V) : List Nat := s.conns.filterMap Conn.slot

omit [F32Pcm F] in
theorem held_nodup {slots : List Nat} (hslots : slots.Nodup) (hs : Consistent s)
    (hcustody : s.pool.custody ≤ ↑slots) : s.held.Nodup := by
  unfold AppState.held
  rw [List.Nodup, List.pairwise_filterMap, List.pairwise_iff_getElem]
  intro c c' hc hc' hlt slot hslot slot' hslot'
  obtain ⟨call, hcall, hi⟩ := (hs.tied c _ (List.getElem?_eq_getElem hc)).slot hslot
  obtain ⟨call', hcall', hi'⟩ := (hs.tied c' _ (List.getElem?_eq_getElem hc')).slot hslot'
  have hcaller := hs.caller c _ call (List.getElem?_eq_getElem hc) hcall
  have hcaller' := hs.caller c' _ call' (List.getElem?_eq_getElem hc') hcall'
  have hne : call ≠ call' := by
    rintro rfl
    have hsame := Caller.conn.inj (Option.some.inj (hcaller.symm.trans hcaller'))
    omega
  rintro rfl
  have hboth := (Pool.items_of_two hi hi' hne).trans hcustody
  have hnodup := Multiset.nodup_of_le ((Multiset.le_add_left _ _).trans hboth)
    (Multiset.coe_nodup.mpr hslots)
  exact absurd hnodup (by simp [Pool.Call.items])

/-- A slot is in the hands of one connection, or in the queue, or elsewhere, but never in two
places, so there are never more sessions than slots. -/
theorem slots_exclusive (cfg : Config F D R) (slots : List Nat) (as : List (ServerAction F V))
    (s : AppState F D R V) (hslots : slots.Nodup) (hrun : AppState.run cfg slots as = some s) :
    (s.held ++ s.pool.pool.items).Nodup ∧ s.held ++ s.pool.pool.items ⊆ slots ∧
      s.held.length + s.pool.pool.available ≤ slots.length := by
  have hs := consistent_run hrun
  obtain ⟨acts, hacts, -⟩ := pool_run hrun
  have hcustody : s.pool.custody ≤ ↑slots := by
    rw [← Pool.custody_run hacts]
    exact Multiset.le_add_right _ _
  have howned : ∀ slot ∈ s.held, slot ∉ s.pool.pool.items ∧ slot ∈ slots := by
    intro slot hslot
    obtain ⟨conn, hconn, hslot⟩ := List.mem_filterMap.mp hslot
    obtain ⟨c, hc⟩ := List.mem_iff_getElem?.mp hconn
    obtain ⟨call, -, hi⟩ := (hs.tied c conn hc).slot hslot
    have hone := (Pool.items_of_one hi).trans hcustody
    have hnodup := Multiset.nodup_of_le hone (Multiset.coe_nodup.mpr hslots)
    have hmem : slot ∈ (↑s.pool.pool.items : Multiset Nat) + (Pool.Call.owned slot).items := by
      simp [Pool.Call.items]
    refine ⟨fun hqueued => ?_, Multiset.mem_coe.mp (Multiset.mem_of_le hone hmem)⟩
    exact Multiset.disjoint_left.mp (Multiset.nodup_add.mp hnodup).2.2 (Multiset.mem_coe.mpr hqueued)
      (by simp [Pool.Call.items])
  have hitems : (↑s.pool.pool.items : Multiset Nat) ≤ ↑slots :=
    (Multiset.le_add_right _ _).trans hcustody
  have hnodup : (s.held ++ s.pool.pool.items).Nodup := by
    refine List.nodup_append.mpr ⟨held_nodup hslots hs hcustody,
      Multiset.coe_nodup.mp (Multiset.nodup_of_le hitems (Multiset.coe_nodup.mpr hslots)), ?_⟩
    rintro slot hslot _ hqueued rfl
    exact (howned slot hslot).1 hqueued
  have hsubset : s.held ++ s.pool.pool.items ⊆ slots := by
    intro slot hslot
    rcases List.mem_append.mp hslot with hslot | hqueued
    · exact (howned slot hslot).2
    · exact Multiset.mem_coe.mp (Multiset.mem_of_le hitems (Multiset.mem_coe.mpr hqueued))
  refine ⟨hnodup, hsubset, ?_⟩
  have hlength := (hnodup.subperm hsubset).length_le
  rwa [List.length_append] at hlength

/-! ## A server on fixed inputs -/

def yes_config : Config Int Unit Unit where
  limits := {}
  metrics_enabled := true
  env _ := yes_env

/-- One connection, which gets to its session. -/
def one_session : List (ServerAction Int Int) :=
  [.request false, .upgraded 0, .poll 0, .poll 0,
    .obtained 0 (yes_turn .closed).now 0 (yes_call 320).triplet]

/-- Two connections in their sessions, and a REST caller with a slot of its own. -/
def two_sessions : List (ServerAction Int Int) :=
  one_session ++ [.rest_checkout .Async, .request true, .upgraded 1, .rest 1 (.next 1),
    .rest 1 (.into_owned 1), .poll 1, .poll 1, .obtained 1 (yes_turn .closed).now 0 (yes_call 320).triplet]

theorem two_sessions_run :
    ∃ s, AppState.run yes_config [7, 8, 9] two_sessions = some s ∧ s.held = [7, 9] ∧
      s.pool.calls[1]? = some (.owned 8) :=
  ⟨_, rfl, rfl, rfl⟩

theorem slots_exclusive_two :
    ∃ s, AppState.run yes_config [7, 8, 9] two_sessions = some s ∧ s.held = [7, 9] ∧
      s.pool.calls[1]? = some (.owned 8) ∧ s.held.length + s.pool.pool.available ≤ 3 := by
  obtain ⟨s, hrun, hheld, hrest⟩ := two_sessions_run
  exact ⟨s, hrun, hheld, hrest,
    (slots_exclusive yes_config [7, 8, 9] two_sessions s (by decide) hrun).2.2⟩

end Gigastt.Server
