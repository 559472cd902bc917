import Gigastt.Server.ConnSlots

/-!
# The connections at a shutdown

The token is read at each poll that waits for a slot and at each turn of a session. So a
connection that has not got past it is turned away, each of the others has only a few steps
left, and before the token is cancelled nobody hears of a shutdown.
-/

namespace Gigastt.Server

open Session Streaming Words

variable {F D R V : Type} {cfg : Config F D R} {s s' : AppState F D R V}

/-! ## Turned away -/

/-- A connection that gets no slot. -/
inductive TurnedAway : Conn F D R → Prop where
  | refused : TurnedAway (.refused shutting_down_error)
  | upgrading (headers) : TurnedAway (.upgrading headers)
  | entered : TurnedAway .entered
  | waiting (call) : TurnedAway (.waiting call)
  -- There was no socket to upgrade.
  | gone : TurnedAway (.ended [])
  | told : TurnedAway (.ended [close_at_shutdown])

theorem TurnedAway.slot {conn : Conn F D R} (h : TurnedAway conn) : conn.slot = none := by
  cases h <;> rfl

variable [F32Pcm F]

theorem Move.turned_away {c : Nat} {a : ServerAction F V} {conn conn' : Conn F D R}
    {act : Option Pool.Action} {calls : List (Metrics.Call V)} (h : Move cfg s c a conn conn' act calls)
    (ht : s.is_cancelled = true) (hconn : TurnedAway conn) : TurnedAway conn' := by
  cases h with
  | upgraded => exact .entered
  | upgrade_failed => exact .gone
  | turn_away | give_up => exact .told
  | check_out hopen | wake hopen => simp [ht] at hopen
  | _ => cases hconn

omit [F32Pcm F] in
theorem requested_when_cancelled (legacy : Bool) :
    (if legacy then ws_handler_legacy true else ws_handler true : Conn F D R) =
      .refused shutting_down_error := by
  cases legacy <;> rfl

/-- One step under a cancelled token, for the connections that are not beyond it. -/
theorem turned_away_step {a : ServerAction F V} {Within : Nat → Prop} (h : s.step cfg a = some s')
    (ht : s.is_cancelled = true)
    (hs : ∀ c conn, s.conns[c]? = some conn → Within c ∨ TurnedAway conn) :
    ∀ c conn, s'.conns[c]? = some conn → Within c ∨ TurnedAway conn := by
  cases app_trans h with
  | request legacy =>
    intro c conn hc
    rw [ht, requested_when_cancelled] at hc
    rcases get_concat hc with hc | rfl
    · exact hs c conn hc
    · exact .inr .refused
  | still hc₀ hm =>
    intro c conn hc
    rw [record_conns] at hc
    rcases get_set hc with ⟨rfl, rfl⟩ | ⟨-, hc⟩
    · exact (hs _ _ hc₀).imp_right (hm.turned_away ht)
    · exact hs c conn hc
  | moved hc₀ hm hpool =>
    intro c conn hc
    rw [record_conns] at hc
    rcases get_set hc with ⟨rfl, rfl⟩ | ⟨-, hc⟩
    · exact (hs _ _ hc₀).imp_right (hm.turned_away ht)
    · exact hs c conn hc
  | rest_metric =>
    intro c conn hc
    rw [record_conns] at hc
    exact hs c conn hc
  | rest_checkout | rest | shutdown | close_pool | closing => exact hs

/-- From the cancellation of the token on, a connection that has not got past it, or comes later,
gets no slot over any run. It is answered with a 503 or told nothing but that the server goes. -/
theorem shutdown_turns_away (cfg : Config F D R) (s s' : AppState F D R V)
    (as : List (ServerAction F V)) (ht : s.is_cancelled = true)
    (hrun : Steps.run (AppState.step cfg) s as = some s') (c : Nat) (conn' : Conn F D R)
    (hconn : ∀ conn, s.conns[c]? = some conn → TurnedAway conn) (hc : s'.conns[c]? = some conn') :
    TurnedAway conn' ∧ conn'.slot = none := by
  let Within : Nat → Prop := fun c => ∃ conn, s.conns[c]? = some conn ∧ ¬ TurnedAway conn
  let Holds : AppState F D R V → Prop := fun s => s.is_cancelled = true ∧
    ∀ c conn, s.conns[c]? = some conn → Within c ∨ TurnedAway conn
  have hholds : Holds s' := by
    refine Steps.inv_of_run Holds ?_ hrun ⟨ht, fun c conn hc => ?_⟩
    · rintro s a s' h ⟨ht, hs⟩
      exact ⟨cancelled_step h ht, turned_away_step h ht hs⟩
    · by_cases haway : TurnedAway conn
      · exact .inr haway
      · exact .inl ⟨conn, hc, haway⟩
  rcases hholds.2 c conn' hc with ⟨conn, hc₀, hwithin⟩ | haway
  · exact absurd (hconn conn hc₀) hwithin
  · exact ⟨haway, haway.slot⟩

/-! ## Before the shutdown -/

def Conn.said : Conn F D R → List (Sent F)
  | .session _ _ loop => loop.vars.sink
  | .returned _ _ said | .checking_in _ said | .ended said => said
  | _ => []

/-- The server has told this client that it goes. -/
def Conn.told_shutdown (conn : Conn F D R) : Prop :=
  (∃ response, conn = .refused response) ∨ close_at_shutdown ∈ conn.said ∨
    pool_closed_message ∈ conn.said.head?

/-- What a client was told while the token was not cancelled. -/
def Unaware (env : Env F D R) : Conn F D R → Prop
  | .refused _ => False
  | .session _ _ loop => Spoken env loop.vars []
  | .returned _ _ said | .checking_in _ said | .ended said =>
      close_at_shutdown ∉ said ∧ pool_closed_message ∉ said.head?
  | _ => True

omit [F32Pcm F] in
theorem Spoken.unaware {env : Env F D R} {v : Vars F D R} {ending : List (Sent F)}
    (h : Spoken env v ending) (hending : close_at_shutdown ∉ ending) :
    close_at_shutdown ∉ v.sink ∧ pool_closed_message ∉ v.sink.head? := by
  obtain ⟨body, hsink, hbody⟩ := h
  rw [hsink]
  constructor
  · intro hmem
    rcases List.mem_cons.mp hmem with hready | hmem
    · cases hready
    · rcases List.mem_append.mp hmem with hmem | hmem
      · cases hbody _ hmem
      · exact hending hmem
  · rintro ⟨⟩

omit [F32Pcm F] in
theorem Unaware.not_told {env : Env F D R} {conn : Conn F D R} (h : Unaware env conn) :
    ¬ conn.told_shutdown := by
  have hsaid : close_at_shutdown ∉ conn.said ∧ pool_closed_message ∉ conn.said.head? := by
    cases conn with
    | session call deadline loop => exact Spoken.unaware h (by simp)
    | returned | checking_in | ended => exact h
    | refused | upgrading | entered | checking_out | waiting => simp [Conn.said]
  rintro (⟨response, rfl⟩ | htold | htold)
  · exact h
  · exact hsaid.1 htold
  · exact hsaid.2 htold

omit [F32Pcm F] in
/-- An ending that is not that of a shutdown. -/
theorem ending_unaware {cause : Cause} {ending : List (Sent F)} (h : Session.Ending cause ending)
    (hcause : cause ≠ .shutdown) : close_at_shutdown ∉ ending := by
  cases cause with
  | shutdown => exact absurd rfl hcause
  | stop =>
    obtain ⟨seg, rfl⟩ := h
    simp [close_at_shutdown]
  | session_cap =>
    obtain ⟨seg, rfl⟩ := h
    simp [close_at_shutdown]
  | idle | other =>
    rw [show ending = [] from h]
    simp

omit [F32Pcm F] in
theorem cause_open {env : Env F D R} {deadline : Instant} {it : Iteration F}
    (hc : it.cancelled = false) (hw : it.cancel_wakes ≠ true) :
    it.cause env deadline ≠ .shutdown := by
  unfold Iteration.cause
  rw [if_neg (by simp [hc])]
  split_ifs
  · simp
  · simp
  · split
    · simp
    · split_ifs <;> simp
    · simp
    · simp

theorem Move.unaware {c : Nat} {a : ServerAction F V} {conn conn' : Conn F D R}
    {act : Option Pool.Action} {calls : List (Metrics.Call V)} (h : Move cfg s c a conn conn' act calls)
    (ht : s.is_cancelled = false) (hpool : s.pool.Unclosed) (htied : Tied s.pool conn)
    (hconn : Unaware (cfg.env c) conn) : Unaware (cfg.env c) conn' := by
  cases h with
  | upgraded | check_out | go_on | park | wake => trivial
  | upgrade_failed => exact ⟨by simp, by simp⟩
  | turn_away hc | give_up hc => simp [ht] at hc
  | pool_closed hi =>
    exact absurd (hpool.2 _ (List.mem_of_getElem? hi)) (by simp [Pool.Call.heard_close])
  | deaf | panic => exact ⟨by simp [close_at_shutdown], by rintro ⟨⟩⟩
  | enter => exact ⟨[], rfl, by simp⟩
  | expire => exact ⟨by simp [close_at_shutdown, timeout_message], by
      simp [pool_closed_message, timeout_message]⟩
  | turn htoken hw hturn hopen =>
    obtain ⟨-, slot, -, hv⟩ := htied
    exact (spoken_of_turned hv hconn (turned_of_step hv hturn)).1 hopen
  | last_turn htoken hw hturn hend =>
    obtain ⟨-, slot, -, hv⟩ := htied
    obtain ⟨-, hending, -⟩ := spoken_of_turned hv hconn (turned_of_step hv hturn)
    obtain ⟨ending, hending, hspoken⟩ := hending (by simp [hend])
    refine Spoken.unaware hspoken (ending_unaware hending (cause_open (by rw [htoken, ht]) ?_))
    exact fun hwakes => by simp [ht] at hw; simp [hw] at hwakes
  | give_back | lose | check_in | checked_in => exact hconn

theorem unaware_step {a : ServerAction F V} (h : s.step cfg a = some s') (hs : Consistent s)
    (ht : s.is_cancelled = false) (hpool : s.pool.Unclosed)
    (hconns : ∀ c conn, s.conns[c]? = some conn → Unaware (cfg.env c) conn) :
    ∀ c conn, s'.conns[c]? = some conn → Unaware (cfg.env c) conn := by
  cases app_trans h with
  | request legacy =>
    intro c conn hc
    rcases get_concat hc with hc | rfl
    · exact hconns c conn hc
    · unfold ws_handler_legacy ws_handler
      rw [ht]
      split_ifs <;> trivial
  | still hc₀ hm =>
    intro c conn hc
    rw [record_conns] at hc
    rcases get_set hc with ⟨rfl, rfl⟩ | ⟨-, hc⟩
    · exact hm.unaware ht hpool (hs.tied _ _ hc₀) (hconns _ _ hc₀)
    · exact hconns c conn hc
  | moved hc₀ hm _ =>
    intro c conn hc
    rw [record_conns] at hc
    rcases get_set hc with ⟨rfl, rfl⟩ | ⟨-, hc⟩
    · exact hm.unaware ht hpool (hs.tied _ _ hc₀) (hconns _ _ hc₀)
    · exact hconns c conn hc
  | rest_metric =>
    intro c conn hc
    rw [record_conns] at hc
    exact hconns c conn hc
  | rest_checkout | rest | shutdown | close_pool | closing => exact hconns

/-- Before the token is cancelled no client hears of a shutdown, neither in place of an upgrade,
nor while it waits for a slot, nor at the end of a session. -/
theorem no_early_notice (cfg : Config F D R) (slots : List Nat) (as : List (ServerAction F V))
    (s : AppState F D R V) (hrun : AppState.run cfg slots as = some s)
    (ht : s.is_cancelled = false) (c : Nat) (conn : Conn F D R) (hc : s.conns[c]? = some conn) :
    ¬ conn.told_shutdown := by
  let Holds : AppState F D R V → Prop := fun s => (∃ as, AppState.run cfg slots as = some s) ∧
    (s.is_cancelled = false → ∀ c conn, s.conns[c]? = some conn → Unaware (cfg.env c) conn)
  have hholds : Holds s := by
    refine Steps.inv_of_run Holds ?_ hrun ⟨⟨[], rfl⟩, fun _ => by simp [AppState.new]⟩
    rintro s a s' h ⟨⟨as, has⟩, hs⟩
    refine ⟨⟨as ++ [a], Steps.run_append.mpr ⟨s, has, Steps.run_cons_eq_some.mpr ⟨s', h, rfl⟩⟩⟩,
      fun ht' => ?_⟩
    have ht := open_of_open_step h ht'
    exact unaware_step h (consistent_run has) ht (unclosed_of_open has ht) (hs ht)
  exact (hholds.2 ht c conn hc).not_told

/-! ## Draining -/

/-- How many steps a call can still cost its connection. -/
def call_weight : Option (Pool.Call Nat) → Nat
  | some (.fast_path _) => 12
  | some (.slow_path _) => 11
  | some (.parked _ _) => 10
  | some (.guard _) => 8
  | some (.checkin _) => 5
  | some (.giving _) => 4
  | some (.sending _ _) | some (.pushing _) => 3
  | _ => 1

/-- How many steps a connection can still take under a cancelled token. -/
def Conn.weight (pool : Pool.Sys Nat) : Conn F D R → Nat
  | .refused _ | .ended _ => 0
  | .upgrading _ => 14
  | .entered => 13
  | .checking_out call | .checking_in call _ => call_weight pool.calls[call]?
  | .waiting _ => 9
  | .session _ _ _ => 7
  | .returned _ _ _ => 6

omit [F32Pcm F] in
theorem weight_woken {c c' : Pool.Call Nat} (h : c.Woken c') :
    call_weight (some c') = call_weight (some c) := by
  cases h <;> rfl

omit [F32Pcm F] in
/-- The weight of a connection does not change with a step of the pool for somebody else. -/
theorem Tied.weight_other {pool pool' : Pool.Sys Nat} {act : Pool.Action} {conn : Conn F D R}
    (h : Tied pool conn) (hstep : pool.step act = some pool')
    (hother : ∀ call, conn.call = some call → act.call ≠ some call) :
    conn.weight pool' = conn.weight pool := by
  cases conn with
  | checking_out call | checking_in call said =>
    obtain ⟨k, hi, -⟩ := h
    obtain ⟨k', hi', hwoken⟩ := Pool.other_call hstep (hother call rfl) hi
    simp only [Conn.weight, hi, hi', weight_woken hwoken]
  | _ => rfl

omit [F32Pcm F] in
/-- A section of its own brings a call closer to its end. -/
theorem weight_next {k k' : Pool.Call Nat} (h : k.Next k') (hk : k.checks_out ∨ k.checks_in) :
    call_weight (some k') < call_weight (some k) := by
  cases h with
  | stored | cleared => simp [Pool.Call.checks_out, Pool.Call.checks_in] at hk
  | _ => simp [call_weight]

theorem Move.weight_still {c : Nat} {a : ServerAction F V} {conn conn' : Conn F D R}
    {calls : List (Metrics.Call V)} (h : Move cfg s c a conn conn' none calls)
    (ht : s.is_cancelled = true) : conn'.weight s.pool < conn.weight s.pool := by
  cases h with
  | upgraded | upgrade_failed | turn_away | lose | last_turn => simp [Conn.weight]
  | park hi | pool_closed hi | checked_in hi => simp [Conn.weight, call_weight, hi]
  | wake hopen => simp [ht] at hopen
  | @turn call deadline loop loop' it htoken hw hturn hopen =>
    -- A turn that finds the token cancelled is the last one.
    unfold WsLoop.step at hturn
    split at hturn
    · simp at hturn
    · rw [Session.turn, if_pos (by rw [htoken, ht])] at hturn
      cases hturn
      cases hopen

theorem Move.weight_moved {c : Nat} {a : ServerAction F V} {conn conn' : Conn F D R}
    {act : Pool.Action} {calls : List (Metrics.Call V)} {pool : Pool.Sys Nat}
    (h : Move cfg s c a conn conn' (some act) calls) (hpool : s.pool.step act = some pool)
    (ht : s.is_cancelled = true) (htied : Tied s.pool conn) :
    conn'.weight pool < conn.weight s.pool := by
  cases h with
  | check_out hopen => simp [ht] at hopen
  | go_on call =>
    obtain ⟨k, hi, hk⟩ := htied
    obtain ⟨k', hi', hnext⟩ := Pool.own_call hpool hi
    simpa only [Conn.weight, hi, hi'] using weight_next hnext (.inl hk)
  | check_in =>
    obtain ⟨k, hi, hk⟩ := htied
    obtain ⟨k', hi', hnext⟩ := Pool.own_call hpool hi
    simpa only [Conn.weight, hi, hi'] using weight_next hnext (.inr hk)
  | give_up => simp [Conn.weight]
  | deaf hi | panic hi | enter hi => simp [Conn.weight, call_weight, hi]
  | expire =>
    cases Pool.trans_of_step hpool with
    | cancel hi => simp [Conn.weight, call_weight, hi]
  | give_back =>
    cases Pool.trans_of_step hpool with
    | @give_back _ item hi =>
      show call_weight (s.pool.put _ (.checkin item)).calls[_]? < 6
      rw [Pool.get_put_self hi]
      exact Nat.lt_succ_self 5

/-- The steps that the connections can still take under a cancelled token. -/
def AppState.weight (s : AppState F D R V) : Nat := (s.conns.map (Conn.weight s.pool)).sum

omit [F32Pcm F] in
/-- The weights after a move of connection `c`. -/
theorem weight_put {pool : Pool.Sys Nat} {c : Nat} {conn conn' : Conn F D R}
    (hc : s.conns[c]? = some conn)
    (hothers : ∀ c' other, c' ≠ c → s.conns[c']? = some other → other.weight pool = other.weight s.pool) :
    ((s.conns.set c conn').map (Conn.weight pool)).sum + conn.weight s.pool =
      s.weight + conn'.weight pool := by
  have hmap : (s.conns.set c conn').map (Conn.weight pool) =
      (s.conns.map (Conn.weight s.pool)).set c (conn'.weight pool) := by
    apply List.ext_getElem?
    intro c'
    by_cases hne : c = c'
    · subst hne
      obtain ⟨hlt, -⟩ := List.getElem?_eq_some_iff.mp hc
      rw [List.getElem?_map, List.getElem?_set_self hlt, List.getElem?_set_self (by simpa using hlt)]
      rfl
    · rw [List.getElem?_map, List.getElem?_set_ne hne, List.getElem?_set_ne hne, List.getElem?_map]
      cases hother : s.conns[c']? with
      | none => rfl
      | some other => exact congrArg some (hothers c' other (Ne.symm hne) hother)
  have hc' : (s.conns.map (Conn.weight s.pool))[c]? = some (conn.weight s.pool) := by
    rw [List.getElem?_map, hc]
    rfl
  have hsum := Steps.sum_map_set id (conn'.weight pool) hc'
  rw [hmap]
  simpa [AppState.weight] using hsum

/-- The steps of the connections themselves. -/
def ServerAction.own : ServerAction F V → Bool
  | .upgraded _ | .upgrade_failed _ | .poll _ | .obtained _ _ _ _ | .expired _ _ | .turn _ _ | .finish _ =>
    true
  | _ => false

theorem Move.own {c : Nat} {a : ServerAction F V} {conn conn' : Conn F D R}
    {act : Option Pool.Action} {calls : List (Metrics.Call V)}
    (h : Move cfg s c a conn conn' act calls) : a.own = true := by
  cases h <;> rfl

omit [F32Pcm F] in
/-- Steps of the pool for others leave all weights. -/
theorem weight_beside (hs : Consistent s) {act : Pool.Action} {pool : Pool.Sys Nat}
    (hpool : s.pool.step act = some pool)
    (hown : ∀ call, act.call = some call → ∀ c, s.callers[call]? ≠ some (.conn c)) :
    (s.conns.map (Conn.weight pool)).sum = s.weight := by
  unfold AppState.weight
  refine congrArg List.sum (List.map_congr_left fun conn hconn => ?_)
  obtain ⟨c, hc⟩ := List.mem_iff_getElem?.mp hconn
  exact (hs.tied c conn hc).weight_other hpool fun call hcall hact =>
    hown call hact c (hs.caller c conn call hc hcall)

/-- Under a cancelled token each step of a connection uses up weight, and no step adds any. -/
theorem weight_step {a : ServerAction F V} (h : s.step cfg a = some s') (hs : Consistent s)
    (ht : s.is_cancelled = true) : s'.weight + (if a.own then 1 else 0) ≤ s.weight := by
  cases app_trans h with
  | request legacy =>
    rw [ht, requested_when_cancelled]
    simp [AppState.weight, Conn.weight, ServerAction.own]
  | @still _ c conn conn' calls hc hm =>
    have hput : ((s.conns.set c conn').map (Conn.weight s.pool)).sum + conn.weight s.pool =
        s.weight + conn'.weight s.pool := weight_put hc fun _ _ _ _ => rfl
    have hlt := hm.weight_still ht
    have hafter : ((s.put c conn').record cfg calls).weight =
        ((s.conns.set c conn').map (Conn.weight s.pool)).sum := by
      rw [AppState.weight, record_conns, record_pool]
      rfl
    rw [hm.own, if_pos rfl, hafter]
    omega
  | @moved _ c conn conn' act calls pool hc hm hpool =>
    have hput : ((s.conns.set c conn').map (Conn.weight pool)).sum + conn.weight s.pool =
        s.weight + conn'.weight pool := by
      refine weight_put hc fun c₁ conn₁ hne hc₁ => ?_
      refine (hs.tied c₁ conn₁ hc₁).weight_other hpool fun call hcall hact => ?_
      exact hm.not_about hs hc hne (hs.caller c₁ conn₁ call hc₁ hcall) hact
    have hlt := hm.weight_moved hpool ht (hs.tied c conn hc)
    rw [hm.own, if_pos rfl, AppState.weight, record_conns, record_pool]
    show ((s.conns.set c conn').map (Conn.weight pool)).sum + 1 ≤ s.weight
    omega
  | @rest_checkout kind pool hpool =>
    exact (weight_beside hs hpool (by simp [Pool.Action.call])).le
  | @rest call act pool hact hcaller hpool =>
    refine (weight_beside hs hpool fun call' hcall' c hc => ?_).le
    obtain rfl := Option.some.inj (hact.symm.trans hcall')
    simp [hcaller] at hc
  | rest_metric =>
    unfold AppState.weight
    rw [record_conns, record_pool]
    exact le_rfl
  | shutdown => exact le_rfl
  | close_pool _ _ hpool => exact (weight_beside hs hpool (by simp [Pool.Action.call])).le
  | closing hcloser hpool =>
    refine (weight_beside hs hpool fun call' hcall' c hc => ?_).le
    obtain rfl := Option.some.inj hcall'
    simp [hs.closer _ hcloser] at hc

/-! ## Steps that are left -/

/-- A connection that `handle_ws` still serves, or will. -/
def Conn.unfinished : Conn F D R → Bool
  | .refused _ | .ended _ => false
  | _ => true

omit [F32Pcm F] in
theorem on_pool_isSome {act : Pool.Action} (h : (s.pool.step act).isSome = true) :
    (s.on_pool act).isSome = true := by
  rwa [AppState.on_pool, Option.isSome_map]

/-- While a connection is unfinished it has a step, whatever the others do. -/
theorem own_step (elapsed : V) (it : Iteration F) (hs : Consistent s) (ht : s.is_cancelled = true)
    {c : Nat} {conn : Conn F D R} (hc : s.conns[c]? = some conn) (hopen : conn.unfinished = true) :
    ∃ a : ServerAction F V, a.own = true ∧ (s.step cfg a).isSome = true := by
  have htied := hs.tied c conn hc
  cases conn with
  | refused | ended => cases hopen
  | upgrading headers => exact ⟨.upgraded c, rfl, by simp [AppState.step, hc]⟩
  | entered => exact ⟨.poll c, rfl, by simp [AppState.step, AppState.poll, hc, ht]⟩
  | waiting call =>
    obtain ⟨rx, hi⟩ := htied
    exact ⟨.poll c, rfl, by
      simp [AppState.step, AppState.poll, AppState.on_pool, Pool.Sys.step, hc, ht, hi]⟩
  | checking_out call =>
    obtain ⟨k, hi, hk⟩ := htied
    by_cases hguard : ∃ slot, k = .guard slot
    · obtain ⟨slot, rfl⟩ := hguard
      refine ⟨.obtained c it.now elapsed it.blocking.sessions, rfl, ?_⟩
      simp [AppState.step, AppState.obtained, AppState.on_pool, Pool.Sys.step, hc, hi]
    · refine ⟨.poll c, rfl, ?_⟩
      simp only [AppState.step, AppState.poll, AppState.poll_checkout, hc, hi]
      have hrun : k.runs = true → (s.on_pool (.next call)).isSome = true :=
        fun hruns => on_pool_isSome (Pool.next_of_runs hi hruns)
      cases k with
      | fast_path | slow_path => exact hrun rfl
      | parked kind rx => cases rx with
        | empty => rfl
        | item | hung_up => exact hrun rfl
      | failed => rfl
      | guard slot => exact absurd ⟨slot, rfl⟩ hguard
      | cancelled | owned | checkin | giving | sending | pushing | closing | clearing | returned =>
        exact hk.elim
  | session call deadline loop =>
    obtain ⟨hresult, -⟩ := htied
    refine ⟨.turn c { it with cancelled := true, cancel_wakes := false }, rfl, ?_⟩
    simp [AppState.step, AppState.turn, hc, ht, WsLoop.step, hresult]
  | returned call triplet_opt said =>
    obtain ⟨slot, hi, -⟩ := htied
    refine ⟨.finish c, rfl, ?_⟩
    cases triplet_opt <;>
      simp [AppState.step, AppState.finish, AppState.on_pool, Pool.Sys.step, hc, hi]
  | checking_in call said =>
    obtain ⟨k, hi, hk⟩ := htied
    refine ⟨.poll c, rfl, ?_⟩
    simp only [AppState.step, AppState.poll, hc, hi]
    have hrun : k.runs = true → (s.on_pool (.next call)).isSome = true :=
      fun hruns => on_pool_isSome (Pool.next_of_runs hi hruns)
    cases k with
    | returned => rfl
    | checkin | giving | sending | pushing => exact hrun rfl
    | fast_path | slow_path | parked | cancelled | failed | guard | owned | closing | clearing =>
      exact hk.elim

omit [F32Pcm F] in
theorem weight_le (pool : Pool.Sys Nat) (conn : Conn F D R) :
    conn.weight pool ≤ if conn.unfinished then 14 else 0 := by
  have hcall : ∀ k, call_weight k ≤ 14 := by
    intro k
    unfold call_weight
    split <;> decide
  cases conn with
  | checking_out | checking_in => exact hcall _
  | _ => simp [Conn.weight, Conn.unfinished]

/-- The connections that `handle_ws` still serves, or will. -/
def AppState.unfinished (s : AppState F D R V) : List (Conn F D R) := s.conns.filter Conn.unfinished

omit [F32Pcm F] in
theorem weight_le_unfinished : s.weight ≤ 14 * s.unfinished.length := by
  unfold AppState.weight AppState.unfinished
  induction s.conns with
  | nil => simp
  | cons conn conns ih =>
    have hhead := weight_le s.pool conn
    rw [List.map_cons, List.sum_cons, List.filter_cons]
    split_ifs at hhead ⊢
    · rw [List.length_cons]
      omega
    · omega

/-- Once the token is cancelled the server drains, as far as each turn of a session comes to its
end. Over any run the connections take at most 14 steps for each that was unfinished, and as long
as one is unfinished one of them has a step, so none waits for a slot or for another. -/
theorem drains (cfg : Config F D R) (slots : List Nat) (before after : List (ServerAction F V))
    (s s' : AppState F D R V) (elapsed : V) (it : Iteration F)
    (hrun : AppState.run cfg slots before = some s) (ht : s.is_cancelled = true)
    (hafter : Steps.run (AppState.step cfg) s after = some s') :
    (after.filter ServerAction.own).length ≤ 14 * s.unfinished.length ∧
      (s'.unfinished ≠ [] → ∃ a : ServerAction F V, a.own = true ∧ (s'.step cfg a).isSome = true) := by
  have hbound : ∀ {s : AppState F D R V}, Consistent s → s.is_cancelled = true →
      Steps.run (AppState.step cfg) s after = some s' →
      Consistent s' ∧ s'.is_cancelled = true ∧
        (after.filter ServerAction.own).length + s'.weight ≤ s.weight := by
    clear hrun hafter ht s
    induction after with
    | nil =>
      intro s hs ht h
      cases h
      exact ⟨hs, ht, by simp⟩
    | cons a as ih =>
      intro s hs ht h
      obtain ⟨s₁, h₁, hrest⟩ := Steps.run_cons_eq_some.mp h
      obtain ⟨hs', ht', hle⟩ := ih (consistent_step hs h₁) (cancelled_step h₁ ht) hrest
      have hstep := weight_step h₁ hs ht
      refine ⟨hs', ht', ?_⟩
      rw [List.filter_cons]
      split_ifs at hstep ⊢
      · rw [List.length_cons]
        omega
      · omega
  obtain ⟨hs', ht', hle⟩ := hbound (consistent_run hrun) ht hafter
  refine ⟨?_, fun hne => ?_⟩
  · have htop : s.weight ≤ 14 * s.unfinished.length := weight_le_unfinished
    omega
  · obtain ⟨conn, hconn⟩ := List.exists_mem_of_ne_nil _ hne
    obtain ⟨hmem, hopen⟩ := List.mem_filter.mp hconn
    obtain ⟨c, hc⟩ := List.mem_iff_getElem?.mp hmem
    exact own_step elapsed it hs' ht' hc hopen

/-! ## The shutdown of a server on fixed inputs -/

/-- One connection in its session, another at its first poll, and the token is cancelled. -/
def two_at_shutdown : List (ServerAction Int Int) :=
  one_session ++ [.request true, .upgraded 1, .shutdown]

theorem two_at_shutdown_run : ∃ s, AppState.run yes_config [7] two_at_shutdown = some s ∧
    s.is_cancelled = true ∧ s.conns[1]? = some .entered ∧ s.unfinished.length = 2 ∧
    ∃ s', s.step yes_config (.poll 1) = some s' ∧ s'.conns[1]? = some (.ended [close_at_shutdown]) :=
  ⟨_, rfl, rfl, rfl, rfl, _, rfl, rfl⟩

theorem shutdown_turns_away_second :
    ∃ s s' conn, AppState.run yes_config [7] two_at_shutdown = some s ∧
      s.step yes_config (.poll 1) = some s' ∧ s'.conns[1]? = some conn ∧ conn.slot = none := by
  obtain ⟨s, hrun, ht, hentered, -, s', hstep, hc⟩ := two_at_shutdown_run
  have hafter : Steps.run (AppState.step yes_config) s [.poll 1] = some s' :=
    Steps.run_cons_eq_some.mpr ⟨s', hstep, rfl⟩
  refine ⟨s, s', _, hrun, hstep, hc, (shutdown_turns_away yes_config s s' [.poll 1] ht hafter 1 _ ?_ hc).2⟩
  intro conn hconn
  rw [hentered] at hconn
  cases hconn
  exact .entered

theorem no_early_notice_two :
    ∃ s, AppState.run yes_config [7, 8, 9] two_sessions = some s ∧ s.held = [7, 9] ∧
      ∀ (c : Nat) (conn : Conn Int Unit Unit), s.conns[c]? = some conn → ¬ conn.told_shutdown := by
  obtain ⟨s, hrun, hheld, ht⟩ : ∃ s, AppState.run yes_config [7, 8, 9] two_sessions = some s ∧
      s.held = [7, 9] ∧ s.is_cancelled = false := ⟨_, rfl, rfl, rfl⟩
  exact ⟨s, hrun, hheld, fun c conn hc =>
    no_early_notice yes_config [7, 8, 9] two_sessions s hrun ht c conn hc⟩

theorem drains_two :
    ∃ s, AppState.run yes_config [7] two_at_shutdown = some s ∧
      ∃ a : ServerAction Int Int, a.own = true ∧ (s.step yes_config a).isSome = true := by
  obtain ⟨s, hrun, ht, -, htwo, -⟩ := two_at_shutdown_run
  refine ⟨s, hrun, (drains yes_config [7] two_at_shutdown [] s s 0 (yes_turn .closed) hrun ht rfl).2 ?_⟩
  intro hnone
  rw [hnone] at htwo
  cases htwo

end Gigastt.Server
