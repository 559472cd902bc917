import Gigastt.Server.Connections
import Gigastt.Session.Endings

/-!
# What one step of the server can do to its connections

A step moves one connection, with at most one step of the pool, or it is a step of another
user of the pool, and moves none.
-/

namespace Gigastt.Server

open Session Streaming Words

variable {F D R V : Type} {cfg : Config F D R} {s s' : AppState F D R V}

/-! ## What the registry does not change -/

@[simp] theorem record_pool (calls : List (Metrics.Call V)) : (s.record cfg calls).pool = s.pool := by
  unfold AppState.record
  split <;> rfl

@[simp] theorem record_callers (calls : List (Metrics.Call V)) :
    (s.record cfg calls).callers = s.callers := by
  unfold AppState.record
  split <;> rfl

@[simp] theorem record_conns (calls : List (Metrics.Call V)) :
    (s.record cfg calls).conns = s.conns := by
  unfold AppState.record
  split <;> rfl

@[simp] theorem record_is_cancelled (calls : List (Metrics.Call V)) :
    (s.record cfg calls).is_cancelled = s.is_cancelled := by
  unfold AppState.record
  split <;> rfl

@[simp] theorem record_closer (calls : List (Metrics.Call V)) :
    (s.record cfg calls).closer = s.closer := by
  unfold AppState.record
  split <;> rfl

theorem record_nil : s.record cfg [] = s := by
  unfold AppState.record
  split <;> simp

theorem record_leave (calls : List (Metrics.Call V)) (c : Nat) (said : List (Sent F)) :
    (s.record cfg calls).leave cfg c said =
      (s.put c (.ended said)).record cfg (calls ++ [.gauge_inc WS_ACTIVE [] (-1)]) := by
  unfold AppState.leave AppState.record AppState.put
  split <;> simp

theorem record_put (calls : List (Metrics.Call V)) (c : Nat) (conn : Conn F D R) :
    (s.record cfg calls).put c conn = (s.put c conn).record cfg calls := by
  unfold AppState.record AppState.put
  split <;> rfl

/-! ## Moves -/

section Moves

variable [F32Pcm F]

/-- The moves of connection `c`, with what the pool does in them and what the registry is told. -/
inductive Move (cfg : Config F D R) (s : AppState F D R V) (c : Nat) : ServerAction F V →
    Conn F D R → Conn F D R → Option Pool.Action → List (Metrics.Call V) → Prop where
  | upgraded (headers) :
      Move cfg s c (.upgraded c) (.upgrading headers) .entered none [.gauge_inc WS_ACTIVE [] 1]
  | upgrade_failed (headers) :
      Move cfg s c (.upgrade_failed c) (.upgrading headers) (.ended []) none []
  | turn_away (ht : s.is_cancelled = true) :
      Move cfg s c (.poll c) .entered (.ended [close_at_shutdown]) none
        [.gauge_inc WS_ACTIVE [] (-1)]
  | check_out (ht : s.is_cancelled = false) :
      Move cfg s c (.poll c) .entered (.checking_out s.pool.calls.length) (some (.checkout .Async)) []
  | go_on (call) :
      Move cfg s c (.poll c) (.checking_out call) (.checking_out call) (some (.next call)) []
  | park {call kind} (hi : s.pool.calls[call]? = some (.parked kind .empty)) :
      Move cfg s c (.poll c) (.checking_out call) (.waiting call) none []
  | pool_closed {call} (hi : s.pool.calls[call]? = some .failed) :
      Move cfg s c (.poll c) (.checking_out call) (.ended [pool_closed_message]) none
        [.gauge_inc WS_ACTIVE [] (-1)]
  | give_up {call} (ht : s.is_cancelled = true) :
      Move cfg s c (.poll c) (.waiting call) (.ended [close_at_shutdown]) (some (.cancel call))
        [.gauge_inc WS_ACTIVE [] (-1)]
  | wake {call} (ht : s.is_cancelled = false) :
      Move cfg s c (.poll c) (.waiting call) (.checking_out call) none []
  | deaf {call slot} {now elapsed sessions} (hi : s.pool.calls[call]? = some (.guard slot))
      (hsent : (cfg.env c).accepts 0 = false) :
      Move cfg s c (.obtained c now elapsed sessions) (.checking_out call)
        (.returned call (some { slot, sessions }) [.Text (ready (cfg.env c))])
        (some (.into_owned call)) [checkout_duration elapsed]
  | panic {call slot} {now elapsed sessions} (hi : s.pool.calls[call]? = some (.guard slot))
      (hd : session_deadline cfg.limits now = none) :
      Move cfg s c (.obtained c now elapsed sessions) (.checking_out call)
        (.ended [.Text (ready (cfg.env c))]) (some (.into_owned call))
        [checkout_duration elapsed, .gauge_inc WS_ACTIVE [] (-1)]
  | enter {call slot} {now elapsed sessions deadline} (hi : s.pool.calls[call]? = some (.guard slot)) :
      Move cfg s c (.obtained c now elapsed sessions) (.checking_out call)
        (.session call deadline (WsLoop.new (cfg.env c) { slot, sessions }))
        (some (.into_owned call)) [checkout_duration elapsed]
  | expire {call elapsed} :
      Move cfg s c (.expired c elapsed) (.checking_out call) (.ended [timeout_message cfg.limits])
        (some (.cancel call)) [.counter_inc "gigastt_pool_timeouts_total".toList [] 1,
          checkout_duration elapsed, .gauge_inc WS_ACTIVE [] (-1)]
  | turn {call deadline loop loop' it} (ht : it.cancelled = s.is_cancelled)
      (hw : it.cancel_wakes = true → s.is_cancelled = true)
      (hturn : WsLoop.step (cfg.env c) deadline loop it = some loop') (hopen : loop'.result = none) :
      Move cfg s c (.turn c it) (.session call deadline loop) (.session call deadline loop') none []
  | last_turn {call deadline loop loop' it result} (ht : it.cancelled = s.is_cancelled)
      (hw : it.cancel_wakes = true → s.is_cancelled = true)
      (hturn : WsLoop.step (cfg.env c) deadline loop it = some loop')
      (hend : loop'.result = some result) :
      Move cfg s c (.turn c it) (.session call deadline loop)
        (.returned call loop'.vars.triplet_opt loop'.vars.sink) none []
  | give_back {call triplet said} :
      Move cfg s c (.finish c) (.returned call (some triplet) said) (.checking_in call said)
        (some (.give_back call)) []
  | lose {call said} :
      Move cfg s c (.finish c) (.returned call none said) (.ended said) none
        [.gauge_inc WS_ACTIVE [] (-1)]
  | check_in {call said} :
      Move cfg s c (.poll c) (.checking_in call said) (.checking_in call said) (some (.next call)) []
  | checked_in {call said} (hi : s.pool.calls[call]? = some .returned) :
      Move cfg s c (.poll c) (.checking_in call said) (.ended said) none
        [.gauge_inc WS_ACTIVE [] (-1)]

/-- The caller of a new call. -/
def new_caller (act : Pool.Action) (caller : Caller) : List Caller :=
  if act.call = none then [caller] else []

inductive AppTrans (cfg : Config F D R) (s : AppState F D R V) : ServerAction F V →
    AppState F D R V → Prop where
  | request (legacy) :
      AppTrans cfg s (.request legacy) { s with conns := s.conns ++
        [if legacy then ws_handler_legacy s.is_cancelled else ws_handler s.is_cancelled] }
  | still {a c conn conn' calls} (hc : s.conns[c]? = some conn)
      (hm : Move cfg s c a conn conn' none calls) : AppTrans cfg s a ((s.put c conn').record cfg calls)
  | moved {a c conn conn' act calls pool} (hc : s.conns[c]? = some conn)
      (hm : Move cfg s c a conn conn' (some act) calls) (hpool : s.pool.step act = some pool) :
      AppTrans cfg s a (AppState.record cfg { s with
        pool
        callers := s.callers ++ new_caller act (.conn c)
        conns := s.conns.set c conn' } calls)
  | rest_checkout {kind pool} (hpool : s.pool.step (.checkout kind) = some pool) :
      AppTrans cfg s (.rest_checkout kind) { s with pool, callers := s.callers ++ [.rest] }
  | rest {call act pool} (hact : act.call = some call) (hcaller : s.callers[call]? = some .rest)
      (hpool : s.pool.step act = some pool) : AppTrans cfg s (.rest call act) { s with pool }
  | rest_metric {call} (hcall : rest_call call = true) :
      AppTrans cfg s (.rest_metric call) (s.record cfg [call])
  | shutdown (ht : s.is_cancelled = false) :
      AppTrans cfg s .shutdown { s with is_cancelled := true }
  | close_pool {pool} (ht : s.is_cancelled = true) (hcloser : s.closer = none)
      (hpool : s.pool.step .close = some pool) :
      AppTrans cfg s .close_pool { s with
        pool
        callers := s.callers ++ [.shutdown]
        closer := some s.pool.calls.length }
  | closing {call pool} (hcloser : s.closer = some call)
      (hpool : s.pool.step (.next call) = some pool) : AppTrans cfg s .closing { s with pool }

/-- A move with a step of the pool that makes no new call. -/
theorem AppTrans.of_call {a : ServerAction F V} {c call : Nat} {conn conn' : Conn F D R}
    {act : Pool.Action} {calls : List (Metrics.Call V)} {pool : Pool.Sys Nat}
    (hc : s.conns[c]? = some conn) (hm : Move cfg s c a conn conn' (some act) calls)
    (hact : act.call = some call) (hpool : s.pool.step act = some pool) :
    AppTrans cfg s a (({ s with pool }.put c conn').record cfg calls) := by
  have h := AppTrans.moved hc hm hpool
  rwa [new_caller, if_neg (by simp [hact]), List.append_nil] at h

/-- Moves that the registry is not told of. -/
theorem AppTrans.still_quiet {a : ServerAction F V} {c : Nat} {conn conn' : Conn F D R}
    (hc : s.conns[c]? = some conn) (hm : Move cfg s c a conn conn' none []) :
    AppTrans cfg s a (s.put c conn') := by
  have h := AppTrans.still hc hm
  rwa [record_nil] at h

theorem AppTrans.of_call_quiet {a : ServerAction F V} {c call : Nat} {conn conn' : Conn F D R}
    {act : Pool.Action} {pool : Pool.Sys Nat} (hc : s.conns[c]? = some conn)
    (hm : Move cfg s c a conn conn' (some act) []) (hact : act.call = some call)
    (hpool : s.pool.step act = some pool) : AppTrans cfg s a ({ s with pool }.put c conn') := by
  have h := AppTrans.of_call hc hm hact hpool
  rwa [record_nil] at h

omit [F32Pcm F] in
theorem on_pool_eq_some {act : Pool.Action} :
    s.on_pool act = some s' ↔ ∃ pool, s.pool.step act = some pool ∧ s' = { s with pool } := by
  unfold AppState.on_pool
  rw [Option.map_eq_some_iff]
  constructor
  · rintro ⟨pool, hpool, rfl⟩
    exact ⟨pool, hpool, rfl⟩
  · rintro ⟨pool, hpool, rfl⟩
    exact ⟨pool, hpool, rfl⟩

omit [F32Pcm F] in
theorem call_pool_eq_some {act : Pool.Action} {caller : Caller} :
    s.call_pool act caller = some s' ↔ ∃ pool, s.pool.step act = some pool ∧
      s' = { s with pool, callers := s.callers ++ [caller] } := by
  unfold AppState.call_pool AppState.on_pool
  rw [Option.map_map, Option.map_eq_some_iff]
  constructor
  · rintro ⟨pool, hpool, rfl⟩
    exact ⟨pool, hpool, rfl⟩
  · rintro ⟨pool, hpool, rfl⟩
    exact ⟨pool, hpool, rfl⟩

omit [F32Pcm F] in
theorem put_same {c : Nat} {conn : Conn F D R} (hc : s.conns[c]? = some conn) : s.put c conn = s := by
  obtain ⟨hlt, hget⟩ := List.getElem?_eq_some_iff.mp hc
  have hset : s.conns.set c conn = s.conns := by rw [← hget, List.set_getElem_self]
  unfold AppState.put
  rw [hset]

/-- A poll that makes the next step of its own call. -/
theorem trans_of_own {c call : Nat} {conn : Conn F D R} (hc : s.conns[c]? = some conn)
    (hm : Move cfg s c (.poll c) conn conn (some (.next call)) [])
    (h : s.on_pool (.next call) = some s') : AppTrans cfg s (.poll c) s' := by
  obtain ⟨pool, hpool, rfl⟩ := on_pool_eq_some.mp h
  have ht := AppTrans.of_call_quiet hc hm rfl hpool
  rwa [put_same (s := { s with pool }) hc] at ht

theorem trans_of_poll {c : Nat} (h : s.poll cfg c = some s') : AppTrans cfg s (.poll c) s' := by
  unfold AppState.poll at h
  split at h
  · rename_i hc
    cases ht : s.is_cancelled with
    | true =>
      rw [ht, if_pos rfl] at h
      cases h
      exact .still hc (.turn_away ht)
    | false =>
      rw [ht, if_neg (by simp), Option.map_eq_some_iff] at h
      obtain ⟨s₁, hs₁, rfl⟩ := h
      obtain ⟨pool, hpool, rfl⟩ := call_pool_eq_some.mp hs₁
      have hm : AppTrans cfg s (.poll c) _ := .moved hc (.check_out ht) hpool
      rwa [record_nil] at hm
  · rename_i call hc
    cases ht : s.is_cancelled with
    | true =>
      rw [ht, if_pos rfl, Option.map_eq_some_iff] at h
      obtain ⟨s₁, hs₁, rfl⟩ := h
      obtain ⟨pool, hpool, rfl⟩ := on_pool_eq_some.mp hs₁
      exact .of_call hc (.give_up ht) rfl hpool
    | false =>
      rw [ht, if_neg (by simp)] at h
      cases h
      exact .still_quiet hc (.wake ht)
  · rename_i call hc
    unfold AppState.poll_checkout at h
    split at h
    · rename_i hi
      cases h
      exact .still_quiet hc (.park hi)
    · rename_i hi
      cases h
      exact .still hc (.pool_closed hi)
    · exact trans_of_own hc (.go_on call) h
    · exact trans_of_own hc (.go_on call) h
    · exact trans_of_own hc (.go_on call) h
    · simp at h
  · rename_i call said hc
    split at h
    · rename_i hi
      cases h
      exact .still hc (.checked_in hi)
    · exact trans_of_own hc .check_in h
  · simp at h

theorem trans_of_obtained {c : Nat} {now : Instant} {elapsed : V} {sessions : SessionTriplet F}
    (h : s.obtained cfg c now elapsed sessions = some s') :
    AppTrans cfg s (.obtained c now elapsed sessions) s' := by
  unfold AppState.obtained at h
  split at h
  · rename_i call hc
    split at h
    · rename_i slot hi
      rw [Option.map_eq_some_iff] at h
      obtain ⟨s₁, hs₁, rfl⟩ := h
      obtain ⟨pool, hpool, rfl⟩ := on_pool_eq_some.mp hs₁
      unfold AppState.enter
      cases hsent : (cfg.env c).accepts 0 with
      | false =>
        rw [if_neg (by simp)]
        unfold enter_session
        dsimp only
        rw [record_put]
        exact .of_call hc (.deaf hi hsent) rfl hpool
      | true =>
        rw [if_pos rfl]
        unfold enter_session
        cases hd : session_deadline cfg.limits now with
        | none =>
          dsimp only
          rw [record_leave]
          exact .of_call hc (.panic hi hd) rfl hpool
        | some deadline =>
          dsimp only
          rw [record_put]
          exact .of_call hc (.enter hi) rfl hpool
    · simp at h
  · simp at h

theorem trans_of_turn {c : Nat} {it : Iteration F} (h : s.turn cfg c it = some s') :
    AppTrans cfg s (.turn c it) s' := by
  unfold AppState.turn at h
  split at h
  · rename_i call deadline loop hc
    split_ifs at h with hit
    obtain ⟨ht, hw⟩ := hit
    rw [Option.map_eq_some_iff] at h
    obtain ⟨loop', hturn, rfl⟩ := h
    cases hresult : loop'.result with
    | none =>
      exact .still_quiet hc (.turn ht hw hturn hresult)
    | some result =>
      exact .still_quiet hc (.last_turn ht hw hturn hresult)
  · simp at h

theorem trans_of_finish {c : Nat} (h : s.finish cfg c = some s') : AppTrans cfg s (.finish c) s' := by
  unfold AppState.finish at h
  split at h
  · rename_i call triplet said hc
    rw [Option.map_eq_some_iff] at h
    obtain ⟨s₁, hs₁, rfl⟩ := h
    obtain ⟨pool, hpool, rfl⟩ := on_pool_eq_some.mp hs₁
    exact .of_call_quiet hc .give_back rfl hpool
  · rename_i hc
    cases h
    exact .still hc .lose
  · simp at h

theorem app_trans {a : ServerAction F V} (h : s.step cfg a = some s') : AppTrans cfg s a s' := by
  cases a with
  | request legacy =>
    cases h
    exact .request legacy
  | upgraded c =>
    simp only [AppState.step] at h
    split at h
    · rename_i headers hc
      cases h
      exact .still hc (.upgraded headers)
    · simp at h
  | upgrade_failed c =>
    simp only [AppState.step] at h
    split at h
    · rename_i headers hc
      cases h
      exact .still_quiet hc (.upgrade_failed headers)
    · simp at h
  | poll c => exact trans_of_poll h
  | obtained c now elapsed sessions => exact trans_of_obtained h
  | expired c elapsed =>
    simp only [AppState.step] at h
    unfold AppState.expired at h
    split at h
    · rename_i call hc
      rw [Option.map_eq_some_iff] at h
      obtain ⟨s₁, hs₁, rfl⟩ := h
      obtain ⟨pool, hpool, rfl⟩ := on_pool_eq_some.mp hs₁
      rw [record_leave]
      exact .of_call hc .expire rfl hpool
    · simp at h
  | turn c it => exact trans_of_turn h
  | finish c => exact trans_of_finish h
  | rest_checkout kind =>
    obtain ⟨pool, hpool, rfl⟩ := call_pool_eq_some.mp h
    exact .rest_checkout hpool
  | rest call act =>
    simp only [AppState.step] at h
    split_ifs at h with hown
    obtain ⟨pool, hpool, rfl⟩ := on_pool_eq_some.mp h
    exact .rest hown.1 hown.2 hpool
  | rest_metric call =>
    simp only [AppState.step] at h
    split_ifs at h with hcall
    cases h
    exact .rest_metric hcall
  | shutdown =>
    simp only [AppState.step] at h
    split_ifs at h with ht
    cases h
    exact .shutdown (by simpa using ht)
  | close_pool =>
    simp only [AppState.step] at h
    split_ifs at h with ht
    rw [Bool.and_eq_true, Option.isNone_iff_eq_none] at ht
    rw [Option.map_eq_some_iff] at h
    obtain ⟨s₁, hs₁, rfl⟩ := h
    obtain ⟨pool, hpool, rfl⟩ := call_pool_eq_some.mp hs₁
    exact .close_pool ht.1 ht.2 hpool
  | closing =>
    simp only [AppState.step] at h
    rw [Option.bind_eq_some_iff] at h
    obtain ⟨call, hcloser, h⟩ := h
    obtain ⟨pool, hpool, rfl⟩ := on_pool_eq_some.mp h
    exact .closing hcloser hpool

end Moves

end Gigastt.Server
