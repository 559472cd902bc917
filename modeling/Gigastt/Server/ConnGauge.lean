import Gigastt.Metrics.Families
import Gigastt.Server.ConnSlots

/-!
# The gauge of the WebSocket connections

`WsMetricsGuard` takes one from the gauge however `handle_ws` ends, so what a scrape shows
is the number of the connections that are in it.
-/

namespace Gigastt.Metrics.MetricsRegistry

open Words Steps

variable {V : Type} [F64 V] {r r' : MetricsRegistry V} {name : Text} {c : Call V}

/-! ## One gauge over the calls -/

/-- What a call adds to a gauge without labels. -/
def added (name : Text) : Call V → Int
  | .gauge_inc name' _ delta => if name' = name then delta.toInt else 0
  | _ => 0

/-- The call at most adds to the gauge. -/
def Adds (name : Text) : Call V → Prop
  | .gauge_set name' _ _ => name' ≠ name
  | .gauge_inc name' labels _ => name' = name → labels = []
  | _ => True

omit [F64 V] in
theorem gauge_tick_eq (h : Adds name c) (n : Int64) :
    gauge_tick name [] n c = n + Int64.ofInt (added name c) := by
  have hsame : n = n + Int64.ofInt 0 := (Int64.add_zero n).symm
  cases c with
  | gauge_set name' labels value =>
    rw [gauge_tick, if_neg fun hboth => h hboth.1]
    exact hsame
  | gauge_inc name' labels delta =>
    rw [gauge_tick, added]
    by_cases hname : name' = name
    · rw [if_pos hname, Int64.ofInt_toInt, h hname]
      exact if_pos ⟨hname, rfl⟩
    · rw [if_neg hname, if_neg fun hboth => hname hboth.1]
      exact hsame
  | register_counter | counter_inc | register_gauge | register_histogram | histogram_record
  | render_prometheus => exact hsame

omit [F64 V] in
theorem foldl_gauge_tick {calls : List (Call V)} (h : ∀ c ∈ calls, Adds name c) (n : Int64) :
    calls.foldl (gauge_tick name []) n = n + Int64.ofInt (calls.map (added name)).sum := by
  induction calls generalizing n with
  | nil => exact (Int64.add_zero n).symm
  | cons c calls ih =>
    obtain ⟨hc, hcalls⟩ := List.forall_mem_cons.mp h
    rw [List.foldl_cons, ih hcalls, gauge_tick_eq hc, List.map_cons, List.sum_cons, Int64.ofInt_add,
      Int64.add_assoc]

/-! ## Registrations first -/

def is_registration : Call V → Bool
  | .register_counter _ _ | .register_gauge _ _ | .register_histogram _ _ _ => true
  | _ => false

/-- A registry that nothing was observed in. -/
def Fresh (r : MetricsRegistry V) : Prop := ∀ name, (r.family name).series = ∅

theorem Fresh.call (h : r.Fresh) (hc : is_registration c = true) :
    ∃ r', r.call c = .ok r' ∧ r'.Fresh := by
  cases c with
  | register_counter name help => exact ⟨_, rfl, h⟩
  | register_gauge name help => exact ⟨_, rfl, h⟩
  | register_histogram name' help buckets =>
    refine ⟨_, rfl, fun name => ?_⟩
    rw [register_histogram_eq]
    by_cases hname : name = name'
    · rw [hname, family_put_self]
      exact h name'
    · rw [family_put_of_ne _ _ hname]
      exact h name
  | counter_inc | gauge_set | gauge_inc | histogram_record | render_prometheus => cases hc

omit [F64 V] in
theorem Fresh.inStep (h : r.Fresh) : r.InStep := by
  intro name labels series hs
  rw [h name] at hs
  cases hs

theorem step_of_call (h : r.call c = .ok r') : r.step c = some r' := by
  rw [step, h]
  rfl

theorem fresh_of_registrations {calls : List (Call V)} (h : ∀ c ∈ calls, is_registration c = true)
    (hr : r.Fresh) : ∃ r', run step r calls = some r' ∧ r'.Fresh := by
  induction calls generalizing r with
  | nil => exact ⟨r, rfl, hr⟩
  | cons c calls ih =>
    obtain ⟨hc, hcalls⟩ := List.forall_mem_cons.mp h
    obtain ⟨r₁, hcall, hr₁⟩ := hr.call hc
    obtain ⟨r', hrun, hr'⟩ := ih hcalls hr₁
    exact ⟨r', run_cons_eq_some.mpr ⟨r₁, step_of_call hcall, hrun⟩, hr'⟩

/-- No later call panics. -/
theorem InStep.call_isOk (hr : r.InStep) (hc : is_registration c = false) :
    ∃ r', r.call c = .ok r' ∧ r'.InStep := by
  have hkeep : ∀ {r'}, r.call c = .ok r' → r.RegistersFirst c → r'.InStep :=
    fun hok hfirst => hr.call hfirst hok
  cases c with
  | register_counter | register_gauge | register_histogram => cases hc
  | counter_inc | gauge_set | gauge_inc => exact ⟨_, rfl, hkeep rfl trivial⟩
  | histogram_record name' labels value =>
    obtain ⟨series, -, hrecord, -⟩ := histogram_record_spec r name' labels value
    exact ⟨_, hrecord, hkeep hrecord trivial⟩
  | render_prometheus =>
    obtain ⟨text, htext⟩ := hr.render_isOk
    exact ⟨r, map_eq_ok.mpr ⟨text, htext, rfl⟩, hr⟩

theorem inStep_of_calls {calls : List (Call V)} (h : ∀ c ∈ calls, is_registration c = false)
    (hr : r.InStep) : ∃ r', run step r calls = some r' ∧ r'.InStep := by
  induction calls generalizing r with
  | nil => exact ⟨r, rfl, hr⟩
  | cons c calls ih =>
    obtain ⟨hc, hcalls⟩ := List.forall_mem_cons.mp h
    obtain ⟨r₁, hcall, hr₁⟩ := hr.call_isOk hc
    obtain ⟨r', hrun, hr'⟩ := ih hcalls hr₁
    exact ⟨r', run_cons_eq_some.mpr ⟨r₁, step_of_call hcall, hrun⟩, hr'⟩

/-- Registrations, and then anything else. -/
theorem inStep_of_startup {before calls : List (Call V)}
    (hbefore : ∀ c ∈ before, is_registration c = true)
    (hcalls : ∀ c ∈ calls, is_registration c = false) :
    ∃ r, run step .new (before ++ calls) = some r ∧ r.InStep := by
  obtain ⟨r₀, hstart, hfresh⟩ := fresh_of_registrations hbefore (r := .new) fun _ => rfl
  obtain ⟨r, hrun, hr⟩ := inStep_of_calls hcalls hfresh.inStep
  exact ⟨r, run_append.mpr ⟨r₀, hstart, hrun⟩, hr⟩

end Gigastt.Metrics.MetricsRegistry

namespace Gigastt.Server

open Metrics MetricsRegistry Session Streaming TextFormat Words

variable {F D R V : Type} {cfg : Config F D R} {s s' : AppState F D R V}

/-! ## Connections in `handle_ws` -/

section Registry

variable [F64 V]

/-- What `run_with_config_listener` registers. -/
def startup : List (Metrics.Call V) :=
  [.register_counter "gigastt_http_requests_total".toList "Total HTTP requests processed".toList,
    .register_histogram "gigastt_http_request_duration_seconds".toList
      "HTTP request duration in seconds".toList DEFAULT_BUCKETS,
    .register_gauge "gigastt_pool_available".toList
      "Number of session triplets currently available in the pool".toList,
    .register_histogram "gigastt_pool_checkout_duration_seconds".toList
      "Time spent waiting for a pool checkout".toList DEFAULT_BUCKETS,
    .register_counter "gigastt_pool_timeouts_total".toList "Total pool checkout timeouts".toList,
    .register_gauge WS_ACTIVE "Number of active WebSocket connections".toList,
    .register_histogram "gigastt_inference_duration_seconds".toList
      "Inference duration in seconds".toList DEFAULT_BUCKETS,
    .register_counter "gigastt_rate_limit_rejections_total".toList
      "Total requests rejected by rate limiter".toList]

end Registry

/-- `WsMetricsGuard` is alive. -/
def Conn.guarded : Conn F D R → Int
  | .entered | .checking_out _ | .waiting _ | .session _ _ _ | .returned _ _ _ | .checking_in _ _ => 1
  | .refused _ | .upgrading _ | .ended _ => 0

/-- The connections that `handle_ws` runs for. -/
def AppState.guards (s : AppState F D R V) : Int := (s.conns.map Conn.guarded).sum

theorem toInt_one : (1 : Int64).toInt = 1 := by decide

section Moves

variable [F64 V] [F32Pcm F]

omit [F64 V] in
/-- What a move tells the registry is what it does to the guard. -/
theorem Move.guarded {c : Nat} {a : ServerAction F V} {conn conn' : Conn F D R}
    {act : Option Pool.Action} {calls : List (Metrics.Call V)}
    (h : Move cfg s c a conn conn' act calls) :
    conn'.guarded = (calls.map (added WS_ACTIVE)).sum + conn.guarded ∧
      ∀ call ∈ calls, Adds WS_ACTIVE call := by
  have hin : ∀ call ∈ [(.gauge_inc WS_ACTIVE [] 1 : Metrics.Call V)], Adds WS_ACTIVE call := by
    simp [Adds]
  have hout : ∀ call ∈ [(.gauge_inc WS_ACTIVE [] (-1) : Metrics.Call V)], Adds WS_ACTIVE call := by
    simp [Adds]
  cases h with
  | upgraded => exact ⟨by simp [Conn.guarded, added, toInt_one], hin⟩
  | turn_away | pool_closed | give_up | lose | checked_in =>
    exact ⟨by simp [Conn.guarded, added], hout⟩
  | panic | expire =>
    refine ⟨by simp [Conn.guarded, added, checkout_duration], ?_⟩
    simp [Adds, checkout_duration]
  | deaf | enter =>
    refine ⟨by simp [Conn.guarded, added, checkout_duration], ?_⟩
    simp [Adds, checkout_duration]
  | upgrade_failed | check_out | go_on | park | wake | turn | last_turn | give_back | check_in =>
    exact ⟨by simp [Conn.guarded], by simp⟩

omit [F64 V] [F32Pcm F] in
theorem guards_put {c : Nat} {conn : Conn F D R} (conn' : Conn F D R) (hc : s.conns[c]? = some conn) :
    ((s.conns.set c conn').map Conn.guarded).sum + conn.guarded = s.guards + conn'.guarded :=
  Steps.sum_map_set Conn.guarded conn' hc

/-- The log of the registry, which counts the guards. -/
structure Counted (s : AppState F D R V) : Prop where
  adds : ∀ call ∈ s.metrics, Adds WS_ACTIVE call
  total : (s.metrics.map (added WS_ACTIVE)).sum = s.guards

omit [F64 V] [F32Pcm F] in
theorem record_metrics (hmetrics : cfg.metrics_enabled = true) (calls : List (Metrics.Call V)) :
    (s.record cfg calls).metrics = s.metrics ++ calls := by
  rw [AppState.record, if_pos hmetrics]

omit [F64 V] [F32Pcm F] in
theorem added_of_rest_call {call : Metrics.Call V} (h : rest_call call = true) :
    Adds WS_ACTIVE call ∧ added WS_ACTIVE call = 0 := by
  cases call with
  | gauge_set name labels value =>
    have hne : name ≠ WS_ACTIVE := by simpa [rest_call] using h
    exact ⟨hne, rfl⟩
  | gauge_inc name labels delta =>
    have hne : name ≠ WS_ACTIVE := by simpa [rest_call] using h
    exact ⟨fun heq => absurd heq hne, if_neg hne⟩
  | counter_inc | histogram_record | render_prometheus => exact ⟨trivial, rfl⟩
  | register_counter | register_gauge | register_histogram => cases h

omit [F64 V] in
theorem counted_step (hmetrics : cfg.metrics_enabled = true) {a : ServerAction F V}
    (h : s.step cfg a = some s') (hs : Counted s) : Counted s' := by
  have hmove : ∀ {s₁ : AppState F D R V} {c : Nat} {conn conn' : Conn F D R}
      {act : Option Pool.Action} {calls : List (Metrics.Call V)}, s.conns[c]? = some conn →
      Move cfg s c a conn conn' act calls → s₁.metrics = s.metrics →
      s₁.conns = s.conns.set c conn' → Counted (s₁.record cfg calls) := by
    intro s₁ c conn conn' act calls hc hm hlog hconns
    obtain ⟨hguarded, hadds⟩ := hm.guarded
    have hput := guards_put conn' hc
    constructor
    · rw [record_metrics hmetrics, hlog]
      intro call hcall
      rcases List.mem_append.mp hcall with hcall | hcall
      · exact hs.adds call hcall
      · exact hadds call hcall
    · have hafter : (s₁.record cfg calls).guards = ((s.conns.set c conn').map Conn.guarded).sum := by
        rw [AppState.guards, record_conns, hconns]
      rw [record_metrics hmetrics, hlog, List.map_append, List.sum_append, hs.total, hafter]
      omega
  cases app_trans h with
  | request legacy =>
    refine ⟨hs.adds, ?_⟩
    have hnew : (if legacy then ws_handler_legacy s.is_cancelled
        else ws_handler s.is_cancelled : Conn F D R).guarded = 0 := by
      unfold ws_handler_legacy ws_handler
      split_ifs <;> rfl
    rw [hs.total]
    unfold AppState.guards
    rw [List.map_append, List.sum_append, List.map_singleton, List.sum_singleton, hnew, add_zero]
  | still hc hm => exact hmove hc hm rfl rfl
  | moved hc hm => exact hmove hc hm rfl rfl
  | @rest_metric call hcall =>
    obtain ⟨hadds, hadded⟩ := added_of_rest_call hcall
    constructor
    · rw [record_metrics hmetrics]
      intro call' hcall'
      rcases List.mem_append.mp hcall' with hcall' | hcall'
      · exact hs.adds call' hcall'
      · rw [List.mem_singleton.mp hcall']
        exact hadds
    · rw [record_metrics hmetrics, List.map_append, List.sum_append, List.map_singleton,
        List.sum_singleton, hadded, add_zero, hs.total, AppState.guards, AppState.guards, record_conns]
  | rest_checkout | rest | shutdown | close_pool | closing => exact ⟨hs.adds, hs.total⟩

/-! ## What the log says of the upgrades -/

/-- What the middlewares and the REST handlers tell the registry, and `handle_ws` beside its
guard. -/
inductive Reported : Metrics.Call V → Prop where
  | pool_available (value : Int64) : Reported (.gauge_set "gigastt_pool_available".toList [] value)
  | http_request (method path status : Text) :
      Reported (.counter_inc "gigastt_http_requests_total".toList
        [("method".toList, method), ("path".toList, path), ("status".toList, status)] 1)
  | http_duration (method path : Text) (elapsed : V) :
      Reported (.histogram_record "gigastt_http_request_duration_seconds".toList
        [("method".toList, method), ("path".toList, path)] elapsed)
  | pool_timeout : Reported (.counter_inc "gigastt_pool_timeouts_total".toList [] 1)
  | checkout (elapsed : V) : Reported (checkout_duration elapsed)
  | inference (elapsed : V) :
      Reported (.histogram_record "gigastt_inference_duration_seconds".toList [] elapsed)
  | rejection : Reported (.counter_inc "gigastt_rate_limit_rejections_total".toList [] 1)
  | scrape : Reported .render_prometheus

/-- The guard goes up or down. -/
def moves_guard (call : Metrics.Call V) : Prop := ∃ delta, call = .gauge_inc WS_ACTIVE [] delta

/-- The lines of a log: what is told, and what the guards do. -/
def Logged (s : AppState F D R V) : Prop := ∀ call ∈ s.metrics, Reported call ∨ moves_guard call

/-- There was no upgrade yet. -/
structure Quiet (s : AppState F D R V) : Prop where
  conns : ∀ conn ∈ s.conns, conn.guarded = 0
  metrics : ∀ call ∈ s.metrics, ¬ moves_guard call

omit [F64 V] in
theorem Move.logged {c : Nat} {a : ServerAction F V} {conn conn' : Conn F D R}
    {act : Option Pool.Action} {calls : List (Metrics.Call V)}
    (h : Move cfg s c a conn conn' act calls) : ∀ call ∈ calls, Reported call ∨ moves_guard call := by
  have hguard : ∀ delta, Reported (.gauge_inc WS_ACTIVE [] delta : Metrics.Call V) ∨
      moves_guard (.gauge_inc WS_ACTIVE [] delta : Metrics.Call V) := fun _ => .inr ⟨_, rfl⟩
  cases h with
  | upgraded | turn_away | pool_closed | give_up | lose | checked_in =>
    exact List.forall_mem_singleton.mpr (hguard _)
  | panic =>
    exact List.forall_mem_cons.mpr ⟨.inl (.checkout _), List.forall_mem_singleton.mpr (hguard _)⟩
  | expire =>
    exact List.forall_mem_cons.mpr ⟨.inl .pool_timeout, List.forall_mem_cons.mpr
      ⟨.inl (.checkout _), List.forall_mem_singleton.mpr (hguard _)⟩⟩
  | deaf | enter => exact List.forall_mem_singleton.mpr (.inl (.checkout _))
  | upgrade_failed | check_out | go_on | park | wake | turn | last_turn | give_back | check_in =>
    exact nofun

omit [F64 V] in
/-- Nothing but an upgrade moves a connection that is not in `handle_ws` into it. -/
theorem Move.quiet {c : Nat} {a : ServerAction F V} {conn conn' : Conn F D R}
    {act : Option Pool.Action} {calls : List (Metrics.Call V)}
    (h : Move cfg s c a conn conn' act calls) (hconn : conn.guarded = 0) (ha : ∀ c, a ≠ .upgraded c) :
    conn'.guarded = 0 ∧ calls = [] := by
  cases h with
  | upgraded => exact absurd rfl (ha c)
  | upgrade_failed => exact ⟨rfl, rfl⟩
  | turn_away | pool_closed | give_up | lose | checked_in | panic | expire | deaf | enter | check_out
  | go_on | park | wake | turn | last_turn | give_back | check_in => cases hconn

omit [F64 V] [F32Pcm F] in
theorem mem_record {calls : List (Metrics.Call V)} {call : Metrics.Call V}
    (h : call ∈ (s.record cfg calls).metrics) : call ∈ s.metrics ∨ call ∈ calls := by
  unfold AppState.record at h
  split at h
  · exact List.mem_append.mp h
  · exact .inl h

omit [F64 V] in
theorem logged_step {a : ServerAction F V} (ha : ∀ call, a = .rest_metric call → Reported call)
    (h : s.step cfg a = some s') (hs : Logged s) : Logged s' := by
  have hmove : ∀ {s₁ : AppState F D R V} {c : Nat} {conn conn' : Conn F D R}
      {act : Option Pool.Action} {calls : List (Metrics.Call V)}, Move cfg s c a conn conn' act calls →
      s₁.metrics = s.metrics → Logged (s₁.record cfg calls) := by
    intro s₁ c conn conn' act calls hm hlog call hcall
    rcases mem_record hcall with hcall | hcall
    · exact hs call (hlog ▸ hcall)
    · exact hm.logged call hcall
  cases app_trans h with
  | still hc hm => exact hmove hm rfl
  | moved hc hm => exact hmove hm rfl
  | @rest_metric call =>
    intro call' hcall'
    rcases mem_record hcall' with hcall' | hcall'
    · exact hs call' hcall'
    · rw [List.mem_singleton.mp hcall']
      exact .inl (ha call rfl)
  | request | rest_checkout | rest | shutdown | close_pool | closing => exact hs

omit [F64 V] in
theorem quiet_step {a : ServerAction F V} (ha : ∀ c, a ≠ .upgraded c) (h : s.step cfg a = some s')
    (hs : Quiet s) : Quiet s' := by
  have hmove : ∀ {s₁ : AppState F D R V} {c : Nat} {conn conn' : Conn F D R}
      {act : Option Pool.Action} {calls : List (Metrics.Call V)}, s.conns[c]? = some conn →
      Move cfg s c a conn conn' act calls → s₁.metrics = s.metrics →
      s₁.conns = s.conns.set c conn' → Quiet (s₁.record cfg calls) := by
    intro s₁ c conn conn' act calls hc hm hlog hconns
    obtain ⟨hguarded, rfl⟩ := hm.quiet (hs.conns conn (List.mem_of_getElem? hc)) ha
    rw [record_nil]
    refine ⟨fun d hd => ?_, fun call hcall => hs.metrics call (hlog ▸ hcall)⟩
    rw [hconns] at hd
    rcases List.mem_or_eq_of_mem_set hd with hd | rfl
    · exact hs.conns d hd
    · exact hguarded
  cases app_trans h with
  | request legacy =>
    refine ⟨fun conn hconn => ?_, hs.metrics⟩
    rcases List.mem_append.mp hconn with hconn | hconn
    · exact hs.conns conn hconn
    · rw [List.mem_singleton.mp hconn]
      unfold ws_handler_legacy ws_handler
      split_ifs <;> rfl
  | still hc hm => exact hmove hc hm rfl rfl
  | moved hc hm => exact hmove hc hm rfl rfl
  | @rest_metric call hcall =>
    refine ⟨fun conn hconn => hs.conns conn (by simpa using hconn), fun call' hcall' => ?_⟩
    rcases mem_record hcall' with hcall' | hcall'
    · exact hs.metrics call' hcall'
    · rintro ⟨delta, rfl⟩
      obtain rfl := List.mem_singleton.mp hcall'
      simp [rest_call] at hcall
  | rest_checkout | rest | shutdown | close_pool | closing => exact ⟨hs.conns, hs.metrics⟩

omit [F64 V] in
theorem quiet_run {slots : List Nat} {as : List (ServerAction F V)}
    (has : ∀ c, .upgraded c ∉ as) (hrun : AppState.run cfg slots as = some s) : Quiet s := by
  have hother : ∀ a ∈ as, ∀ c, a ≠ .upgraded c := by
    rintro a hmem c rfl
    exact has c hmem
  have hnew : Quiet (AppState.new slots : AppState F D R V) :=
    ⟨fun _ h => absurd h List.not_mem_nil, fun _ h => absurd h List.not_mem_nil⟩
  exact Steps.inv_of_eachStep Quiet (fun _ _ _ ha h hs => quiet_step ha h hs) hrun
    (Steps.eachStep_of_mem hother _) hnew

omit [F64 V] in
theorem metrics_subset_step {a : ServerAction F V} (h : s.step cfg a = some s') :
    s.metrics ⊆ s'.metrics := by
  have hrecord : ∀ {s₁ : AppState F D R V} {calls : List (Metrics.Call V)},
      s₁.metrics = s.metrics → s.metrics ⊆ (s₁.record cfg calls).metrics := by
    intro s₁ calls hlog call hcall
    unfold AppState.record
    split
    · exact List.mem_append_left _ (hlog ▸ hcall)
    · exact hlog ▸ hcall
  cases app_trans h with
  | still | moved | rest_metric => exact hrecord rfl
  | request | rest_checkout | rest | shutdown | close_pool | closing => exact fun _ h => h

omit [F64 V] in
/-- An upgrade is in the log, from its step on. -/
theorem upgrade_logged (hmetrics : cfg.metrics_enabled = true) {slots : List Nat}
    {as : List (ServerAction F V)} {c : Nat} (hc : .upgraded c ∈ as)
    (hrun : AppState.run cfg slots as = some s) : .gauge_inc WS_ACTIVE [] 1 ∈ s.metrics := by
  obtain ⟨before, after, rfl⟩ := List.append_of_mem hc
  obtain ⟨s₀, -, hrest⟩ := Steps.run_append.mp hrun
  obtain ⟨s₁, hstep, hafter⟩ := Steps.run_cons_eq_some.mp hrest
  refine Steps.inv_of_run (fun s : AppState F D R V => .gauge_inc WS_ACTIVE [] 1 ∈ s.metrics)
    (fun _ _ _ h hs => metrics_subset_step h hs) hafter ?_
  simp only [AppState.step] at hstep
  split at hstep
  · obtain rfl := Option.some.inj hstep
    rw [record_metrics hmetrics]
    exact List.mem_append_right _ List.mem_cons_self
  · cases hstep

/-! ## The families of the server -/

/-- The families that `run_with_config_listener` registers. -/
def server_families : List (Kind × Text) :=
  [(.counter, "gigastt_http_requests_total".toList),
    (.histogram, "gigastt_http_request_duration_seconds".toList),
    (.gauge, "gigastt_pool_available".toList),
    (.histogram, "gigastt_pool_checkout_duration_seconds".toList),
    (.counter, "gigastt_pool_timeouts_total".toList),
    (.gauge, WS_ACTIVE),
    (.histogram, "gigastt_inference_duration_seconds".toList),
    (.counter, "gigastt_rate_limit_rejections_total".toList)]

theorem server_families_apart : Apart server_families :=
  ⟨by decide, by decide⟩

theorem mem_server_families_ws : (.gauge, WS_ACTIVE) ∈ server_families := by decide

omit [F32Pcm F] in
/-- The calls of a server, the registrations included, are ones that a scrape can be read after. -/
theorem Reported.within {call : Metrics.Call V} (h : Reported call ∨ moves_guard call) :
    call.Named ∧ call.Within server_families ∧ is_registration call = false := by
  have hnone : NamedLabels [] := ⟨nofun, nofun, .nil⟩
  rcases h with h | ⟨delta, rfl⟩
  · cases h with
    | pool_available | pool_timeout | checkout | inference | rejection =>
      refine ⟨⟨by decide, hnone⟩, ?_, rfl⟩
      show (_, _) ∈ server_families
      decide
    | http_request method path status =>
      refine ⟨⟨by decide, .of_names (show _ = ["method", "path", "status"].map String.toList from rfl)
        (by decide) (by decide) (by decide)⟩, ?_, rfl⟩
      show (_, _) ∈ server_families
      decide
    | http_duration method path elapsed =>
      refine ⟨⟨by decide, .of_names (show _ = ["method", "path"].map String.toList from rfl)
        (by decide) (by decide) (by decide)⟩, ?_, rfl⟩
      show (_, _) ∈ server_families
      decide
    | scrape => exact ⟨trivial, trivial, rfl⟩
  · exact ⟨⟨by decide, hnone⟩, mem_server_families_ws, rfl⟩

omit [F32Pcm F] in
theorem startup_within (hdefault : (bound_texts (DEFAULT_BUCKETS : List V)).Nodup) :
    ∀ call ∈ (startup : List (Metrics.Call V)),
      call.Named ∧ call.Within server_families ∧ is_registration call = true := by
  have hname : ∀ e ∈ server_families, isMetricName e.2 := by decide
  have hcounter : ∀ {name help : Text}, (.counter, name) ∈ server_families → '\n' ∉ help →
      escaped help → (.register_counter name help : Metrics.Call V).Named ∧
        (.register_counter name help : Metrics.Call V).Within server_families ∧ true = true :=
    fun hmem hline hescaped => ⟨⟨hname _ hmem, hline⟩, ⟨hmem, hescaped⟩, rfl⟩
  have hgauge : ∀ {name help : Text}, (.gauge, name) ∈ server_families → '\n' ∉ help →
      escaped help → (.register_gauge name help : Metrics.Call V).Named ∧
        (.register_gauge name help : Metrics.Call V).Within server_families ∧ true = true :=
    fun hmem hline hescaped => ⟨⟨hname _ hmem, hline⟩, ⟨hmem, hescaped⟩, rfl⟩
  have hhistogram : ∀ {name help : Text}, (.histogram, name) ∈ server_families → '\n' ∉ help →
      escaped help → (.register_histogram name help DEFAULT_BUCKETS : Metrics.Call V).Named ∧
        (.register_histogram name help DEFAULT_BUCKETS : Metrics.Call V).Within server_families ∧
          true = true :=
    fun hmem hline hescaped =>
      ⟨⟨hname _ hmem, hline⟩, ⟨hmem, hescaped, bound_texts_normalised hdefault⟩, rfl⟩
  simp only [startup, List.forall_mem_cons]
  exact ⟨hcounter (by decide) (by decide) (by decide), hhistogram (by decide) (by decide) (by decide),
    hgauge (by decide) (by decide) (by decide), hhistogram (by decide) (by decide) (by decide),
    hcounter (by decide) (by decide) (by decide), hgauge (by decide) (by decide) (by decide),
    hhistogram (by decide) (by decide) (by decide), hcounter (by decide) (by decide) (by decide), nofun⟩

omit [F64 V] [F32Pcm F] in
theorem Reported.key_ne {call : Metrics.Call V} (h : Reported call) (labels : Labels) :
    call.key ≠ some (.gauge, WS_ACTIVE, labels) := by
  intro heq
  cases h with
  | pool_available value =>
    have hname := (Prod.mk.inj (Prod.mk.inj (Option.some.inj heq)).2).1
    exact absurd hname (by decide)
  | http_request | http_duration | pool_timeout | checkout | inference | rejection =>
    have hkind := (Prod.mk.inj (Option.some.inj heq)).1
    cases hkind
  | scrape => cases heq

omit [F32Pcm F] in
/-- The series of the gauge: the one without labels, once a guard has moved. -/
theorem has_ws {r : MetricsRegistry V} {log : List (Metrics.Call V)}
    (hlog : ∀ call ∈ log, Reported call ∨ moves_guard call)
    (hrun : Steps.run MetricsRegistry.step .new (startup ++ log) = some r) (labels : Labels) :
    r.Has (.gauge, WS_ACTIVE, labels) ↔ labels = [] ∧ ∃ call ∈ log, moves_guard call := by
  have hstartup : ∀ call ∈ (startup : List (Metrics.Call V)), call.key = none := by
    simp [startup, Metrics.Call.key, Metrics.Call.target]
  have hkey : ∀ call : Metrics.Call V, Reported call ∨ moves_guard call →
      (call.key = some (.gauge, WS_ACTIVE, labels) ↔ labels = [] ∧ moves_guard call) := by
    rintro call (h | ⟨delta, rfl⟩)
    · refine iff_of_false (h.key_ne labels) ?_
      rintro ⟨-, delta, rfl⟩
      exact h.key_ne [] rfl
    · have hguard : (.gauge_inc WS_ACTIVE [] delta : Metrics.Call V).key = some (.gauge, WS_ACTIVE, []) := rfl
      rw [hguard]
      refine ⟨fun heq => ?_, fun ⟨hlabels, _⟩ => hlabels ▸ rfl⟩
      exact ⟨(Prod.mk.inj (Prod.mk.inj (Option.some.inj heq)).2).2.symm, delta, rfl⟩
  rw [has_of_run hrun]
  constructor
  · rintro ⟨call, hcall, heq⟩
    rcases List.mem_append.mp hcall with hcall | hcall
    · rw [hstartup call hcall] at heq
      cases heq
    · obtain ⟨hlabels, hmoves⟩ := (hkey call (hlog call hcall)).mp heq
      exact ⟨hlabels, call, hcall, hmoves⟩
  · rintro ⟨hlabels, call, hcall, hmoves⟩
    exact ⟨call, List.mem_append_right _ hcall, (hkey call (hlog call hcall)).mpr ⟨hlabels, hmoves⟩⟩

/-- With the metrics on, a scrape at any moment of any run can be read. From the first upgrade on
it has one sample of the gauge of the active connections, which shows how many of them are in
`handle_ws`. Before that it has none, and none are. -/
theorem gauge_counts_connections {Q : Type} {read : Text → Option Q} {of_int : Int → Q}
    {of_float : V → Q} (hnumbers : ReadsNumbers read of_int of_float)
    (hdefault : (bound_texts (DEFAULT_BUCKETS : List V)).Nodup) (cfg : Config F D R)
    (slots : List Nat) (as : List (ServerAction F V)) (s : AppState F D R V)
    (hmetrics : cfg.metrics_enabled = true) (hreported : ∀ call, .rest_metric call ∈ as → Reported call)
    (hrun : AppState.run cfg slots as = some s) :
    ∃ r text parsed, Steps.run MetricsRegistry.step .new (startup ++ s.metrics) = some r ∧
      r.render_prometheus = .ok text ∧ parse read text = some parsed ∧
      ((∃ c, .upgraded c ∈ as) → parsed.filter (·.name = WS_ACTIVE) =
        [{ name := WS_ACTIVE, labels := [], value := of_int (Int64.ofInt s.guards).toInt }]) ∧
      ((∀ c, .upgraded c ∉ as) → parsed.filter (·.name = WS_ACTIVE) = [] ∧ s.guards = 0) := by
  have hcounted : Counted s := Steps.inv_of_run Counted (fun _ _ _ h hs => counted_step hmetrics h hs)
    hrun ⟨by simp [AppState.new], rfl⟩
  have hlog : Logged s := by
    have heach : ∀ a ∈ as, ∀ call, a = .rest_metric call → Reported call := by
      rintro a ha call rfl
      exact hreported call ha
    exact Steps.inv_of_eachStep Logged (fun _ _ _ ha h hs => logged_step ha h hs) hrun
      (Steps.eachStep_of_mem heach _) fun _ h => absurd h List.not_mem_nil
  have hstartup := startup_within hdefault
  obtain ⟨r, hregistry, hinstep⟩ := inStep_of_startup (fun call h => (hstartup call h).2.2)
    fun call h => (Reported.within (hlog call h)).2.2
  have hwithin : r.Within server_families := by
    refine within_of_run hdefault (fun call h => ?_) hregistry
    rcases List.mem_append.mp h with h | h
    · exact (hstartup call h).2.1
    · exact (Reported.within (hlog call h)).2.1
  have hnamed : r.Named := by
    refine named_of_run hregistry fun call h => ?_
    rcases List.mem_append.mp h with h | h
    · exact (hstartup call h).1
    · exact (Reported.within (hlog call h)).1
  obtain ⟨text, htext⟩ := hinstep.render_isOk
  obtain ⟨parsed, hparsed, hperm⟩ :=
    parse_of_clear hnumbers hnamed (hwithin.clear server_families_apart) htext
  have hvalue : r.gauge_reading WS_ACTIVE [] = Int64.ofInt s.guards := by
    rw [gauge_reading_of_run hregistry, List.foldl_append, foldl_gauge_tick hcounted.adds,
      hcounted.total, foldl_gauge_tick (by simp [startup, Adds])]
    simp [startup, added]
  have hhas := has_ws hlog hregistry
  have hsample : ∀ sample, sample ∈ parsed.filter (·.name = WS_ACTIVE) ↔
      (∃ call ∈ s.metrics, moves_guard call) ∧ sample =
        { name := WS_ACTIVE, labels := [], value := of_int (Int64.ofInt s.guards).toInt } := by
    intro sample
    rw [List.mem_filter, decide_eq_true_iff, hperm.mem_iff, gauge_sample_iff hwithin
      server_families_apart mem_server_families_ws fun labels h => ((hhas labels).mp h).1, hvalue, hhas []]
    simp
  refine ⟨r, text, parsed, hregistry, htext, hparsed, ?_, fun hnone => ?_⟩
  · rintro ⟨c, hc⟩
    have hmoved : ∃ call ∈ s.metrics, moves_guard call :=
      ⟨_, upgrade_logged hmetrics hc hrun, 1, rfl⟩
    refine eq_singleton_of_apart ((parse_apart hparsed).sublist List.filter_sublist) fun sample => ?_
    rw [hsample]
    exact and_iff_right hmoved
  · have hquiet := quiet_run hnone hrun
    refine ⟨List.eq_nil_iff_forall_not_mem.mpr fun sample hmem => ?_, ?_⟩
    · obtain ⟨⟨call, hcall, hmoves⟩, -⟩ := (hsample sample).mp hmem
      exact hquiet.metrics call hcall hmoves
    · unfold AppState.guards
      refine List.sum_eq_zero fun n hn => ?_
      obtain ⟨conn, hconn, rfl⟩ := List.mem_map.mp hn
      exact hquiet.conns conn hconn

/-- A REST request and a scrape beside two connections. -/
def metered : List (ServerAction Int Int) :=
  two_sessions ++ [.rest_metric (.gauge_set "gigastt_pool_available".toList [] 0),
    .rest_metric (.counter_inc "gigastt_http_requests_total".toList
      [("method".toList, "GET".toList), ("path".toList, "/a\"\x7d".toList), ("status".toList, "404".toList)] 1),
    .rest_metric .render_prometheus]

theorem gauge_counts_connections_two :
    ∃ s r text parsed, AppState.run yes_config [7, 8, 9] metered = some s ∧
      Steps.run MetricsRegistry.step .new (startup ++ s.metrics) = some r ∧
      r.render_prometheus = .ok text ∧ parse read_thousandths text = some parsed ∧
      parsed.filter (·.name = WS_ACTIVE) = [{ name := WS_ACTIVE, labels := [], value := 2000 }] := by
  obtain ⟨s, hrun, hguards⟩ : ∃ s, AppState.run yes_config [7, 8, 9] metered = some s ∧ s.guards = 2 :=
    ⟨_, rfl, rfl⟩
  have hreported : ∀ call, .rest_metric call ∈ metered → Reported call := by
    intro call hcall
    simp only [metered, two_sessions, one_session, List.mem_append, List.mem_cons, List.not_mem_nil,
      or_false, reduceCtorEq, false_or, ServerAction.rest_metric.injEq] at hcall
    rcases hcall with rfl | rfl | rfl
    · exact .pool_available 0
    · exact .http_request _ _ _
    · exact .scrape
  obtain ⟨r, text, parsed, hregistry, htext, hparsed, hone, -⟩ :=
    gauge_counts_connections reads_thousandths (by decide) yes_config [7, 8, 9] metered s rfl hreported hrun
  refine ⟨s, r, text, parsed, hrun, hregistry, htext, hparsed, ?_⟩
  rw [hone ⟨0, by simp [metered, two_sessions, one_session]⟩, hguards]
  rfl

end Moves

end Gigastt.Server
