import Gigastt.Metrics.Code
import Gigastt.Pool.Frame
import Gigastt.Session.Code

/-!
# The WebSocket connections of a running server

Any number of upgrades, each run by `handle_ws`, over one pool and one shutdown token. The
REST handlers and the C interface use the same pool, and write to the same registry.
The pool holds the slots of the triplets. The limits on message sizes are left out.
-/

namespace Gigastt.Server

open Session Streaming Words

variable {F D R V : Type}

/-! ## The upgrade -/

def shutting_down_error : ApiError := api_error 503 "Server shutting down" "shutting_down"

/-- How far one upgrade request has come. -/
inductive Conn (F D R : Type) where
  | refused (response : ApiError)
  -- Answered with these headers, and not handed to `handle_ws` yet.
  | upgrading (headers : List (String × String))
  -- In `handle_ws`, before the first poll of its `select!`.
  | entered
  -- In a poll of the `select!` that found the token open, with the checkout under way as this
  -- call on the pool.
  | checking_out (call : Nat)
  -- Between two polls, with the checkout parked.
  | waiting (call : Nat)
  -- In the loop of `handle_ws_inner`, with the reservation of this call.
  | session (call : Nat) (deadline : Instant) (loop : WsLoop F D R)
  -- `handle_ws_inner` has returned.
  | returned (call : Nat) (triplet_opt : Option (Triplet F)) (said : List (Sent F))
  | checking_in (call : Nat) (said : List (Sent F))
  | ended (said : List (Sent F))

def ws_handler (is_cancelled : Bool) : Conn F D R :=
  if is_cancelled then .refused shutting_down_error else .upgrading []

/-- The deprecated path. -/
def ws_handler_legacy (is_cancelled : Bool) : Conn F D R :=
  if is_cancelled then .refused shutting_down_error
  else
    .upgrading [("deprecation", "true"), ("link", "</v1/ws>; rel=\"successor-version\"")]

/-! ## The server -/

/-- Who made a call on the pool. -/
inductive Caller where
  | conn (c : Nat)
  -- A handler of the REST interface.
  | rest
  -- `close`, after the token was cancelled.
  | shutdown
deriving DecidableEq, Repr

structure AppState (F D R V : Type) where
  pool : Pool.Sys Nat
  -- Of each call on the pool.
  callers : List Caller
  conns : List (Conn F D R)
  -- The shutdown token.
  is_cancelled : Bool
  closer : Option Nat
  -- What the registry was told.
  metrics : List (Metrics.Call V)

def AppState.new (slots : List Nat) : AppState F D R V where
  pool := .new slots
  callers := []
  conns := []
  is_cancelled := false
  closer := none
  metrics := []

def WS_ACTIVE : Text := "gigastt_ws_active_connections".toList

/-- What a running server is given. -/
structure Config (F D R : Type) where
  limits : RuntimeLimits
  metrics_enabled : Bool
  -- Of each connection.
  env : Nat → Env F D R

section Step

variable (cfg : Config F D R)

def AppState.put (s : AppState F D R V) (c : Nat) (conn : Conn F D R) : AppState F D R V :=
  { s with conns := s.conns.set c conn }

def AppState.record (s : AppState F D R V) (calls : List (Metrics.Call V)) : AppState F D R V :=
  if cfg.metrics_enabled then { s with metrics := s.metrics ++ calls } else s

/-- One step of the pool. -/
def AppState.on_pool (s : AppState F D R V) (a : Pool.Action) : Option (AppState F D R V) :=
  (s.pool.step a).map fun pool => { s with pool }

/-- A new call on the pool. -/
def AppState.call_pool (s : AppState F D R V) (a : Pool.Action) (caller : Caller) :
    Option (AppState F D R V) :=
  (s.on_pool a).map fun s => { s with callers := s.callers ++ [caller] }

/-- `handle_ws` returns, and `WsMetricsGuard` is dropped. -/
def AppState.leave (s : AppState F D R V) (c : Nat) (said : List (Sent F)) : AppState F D R V :=
  (s.put c (.ended said)).record cfg [.gauge_inc WS_ACTIVE [] (-1)]

def close_at_shutdown : Sent F := .Close { code := 1001, reason := "server shutdown" }

def pool_closed_message : Sent F := .Text (.Error "Server is shutting down" "pool_closed" none)

def timeout_message (limits : RuntimeLimits) : Sent F :=
  .Text (.Error "Server busy, try again later" "timeout" (some (pool_retry_after_ms limits)))

/-- What the registry is told of a checkout. -/
def checkout_duration (elapsed : V) : Metrics.Call V :=
  .histogram_record "gigastt_pool_checkout_duration_seconds".toList [] elapsed

/-- A poll of the checkout, which runs all its sections up to the one that parks it. -/
def AppState.poll_checkout (s : AppState F D R V) (c call : Nat) : Option (AppState F D R V) :=
  match s.pool.calls[call]? with
  | some (.parked _ .empty) => some (s.put c (.waiting call))
  | some .failed => some (s.leave cfg c [pool_closed_message])
  | some (.fast_path _) | some (.slow_path _) | some (.parked _ _) => s.on_pool (.next call)
  | _ => none

/-- The task of connection `c` goes on. The `select!` is biased: each poll reads the token first. -/
def AppState.poll (s : AppState F D R V) (c : Nat) : Option (AppState F D R V) :=
  match s.conns[c]? with
  | some .entered =>
    if s.is_cancelled then some (s.leave cfg c [close_at_shutdown])
    else
      (s.call_pool (.checkout .Async) (.conn c)).map fun s' =>
        s'.put c (.checking_out s.pool.calls.length)
  | some (.waiting call) =>
    if s.is_cancelled then
      (s.on_pool (.cancel call)).map fun s => s.leave cfg c [close_at_shutdown]
    else some (s.put c (.checking_out call))
  | some (.checking_out call) => s.poll_checkout cfg c call
  | some (.checking_in call said) =>
    match s.pool.calls[call]? with
    | some .returned => some (s.leave cfg c said)
    | _ => s.on_pool (.next call)
  | _ => none

section Inner

variable [F32Pcm F]

/-- `handle_ws_inner` up to its loop. A panic unwinds through `handle_ws`. -/
def AppState.enter (s : AppState F D R V) (c call : Nat) (now : Instant) (triplet : Triplet F) :
    AppState F D R V :=
  let loop := WsLoop.new (cfg.env c) triplet
  let sent := if (cfg.env c).accepts 0 then .ok () else .error (.err [])
  match enter_session cfg.limits now sent triplet with
  | .send_failed triplet _ => s.put c (.returned call (some triplet) loop.vars.sink)
  | .panicked => s.leave cfg c loop.vars.sink
  | .session_loop deadline _ => s.put c (.session call deadline loop)

/-- The checkout of connection `c` gave a guard. -/
def AppState.obtained (s : AppState F D R V) (c : Nat) (now : Instant) (elapsed : V)
    (sessions : SessionTriplet F) : Option (AppState F D R V) :=
  match s.conns[c]? with
  | some (.checking_out call) =>
    match s.pool.calls[call]? with
    | some (.guard slot) =>
      (s.on_pool (.into_owned call)).map fun s =>
        (s.record cfg [checkout_duration elapsed]).enter cfg c call now { slot, sessions }
    | _ => none
  | _ => none

/-- The checkout of connection `c` is still parked, and took too long. An item that it is sent
before its future is dropped is dropped with it. -/
def AppState.expired (s : AppState F D R V) (c : Nat) (elapsed : V) : Option (AppState F D R V) :=
  match s.conns[c]? with
  | some (.checking_out call) =>
    (s.on_pool (.cancel call)).map fun s =>
      (s.record cfg [.counter_inc "gigastt_pool_timeouts_total".toList [] 1,
        checkout_duration elapsed]).leave cfg c [timeout_message cfg.limits]
  | _ => none

/-- One turn of the loop of connection `c`. A token that is cancelled within the turn may wake
it, and the turn is then one after the cancellation. -/
def AppState.turn (s : AppState F D R V) (c : Nat) (it : Iteration F) : Option (AppState F D R V) :=
  match s.conns[c]? with
  | some (.session call deadline loop) =>
    if it.cancelled = s.is_cancelled ∧ (it.cancel_wakes = true → s.is_cancelled = true) then
      (WsLoop.step (cfg.env c) deadline loop it).map fun loop =>
        match loop.result with
        | none => s.put c (.session call deadline loop)
        | some _ => s.put c (.returned call loop.vars.triplet_opt loop.vars.sink)
    else none
  | _ => none

/-- `handle_ws` after `handle_ws_inner`. -/
def AppState.finish (s : AppState F D R V) (c : Nat) : Option (AppState F D R V) :=
  match s.conns[c]? with
  | some (.returned call (some _) said) =>
    (s.on_pool (.give_back call)).map fun s => s.put c (.checking_in call said)
  | some (.returned _ none said) => some (s.leave cfg c said)
  | _ => none

inductive ServerAction (F V : Type) where
  | request (legacy : Bool)
  -- `on_upgrade` gets a socket, or does not.
  | upgraded (c : Nat)
  | upgrade_failed (c : Nat)
  | poll (c : Nat)
  | obtained (c : Nat) (now : Instant) (elapsed : V) (sessions : SessionTriplet F)
  | expired (c : Nat) (elapsed : V)
  | turn (c : Nat) (it : Iteration F)
  | finish (c : Nat)
  -- A REST handler starts a checkout, goes on with a call of its own, or writes to the registry.
  | rest_checkout (kind : Pool.Kind)
  | rest (call : Nat) (a : Pool.Action)
  | rest_metric (call : Metrics.Call V)
  | shutdown
  | close_pool
  | closing

/-- The calls of the REST handlers. What there is to register is registered at startup, and the
gauge of the connections is not theirs. -/
def rest_call : Metrics.Call V → Bool
  | .register_counter _ _ | .register_gauge _ _ | .register_histogram _ _ _ => false
  | .gauge_set name _ _ | .gauge_inc name _ _ => name != WS_ACTIVE
  | .counter_inc _ _ _ | .histogram_record _ _ _ | .render_prometheus => true

def AppState.step (s : AppState F D R V) : ServerAction F V → Option (AppState F D R V)
  | .request legacy =>
    let conn := if legacy then ws_handler_legacy s.is_cancelled else ws_handler s.is_cancelled
    some { s with conns := s.conns ++ [conn] }
  | .upgraded c =>
    match s.conns[c]? with
    | some (.upgrading _) => some ((s.put c .entered).record cfg [.gauge_inc WS_ACTIVE [] 1])
    | _ => none
  | .upgrade_failed c =>
    match s.conns[c]? with
    | some (.upgrading _) => some (s.put c (.ended []))
    | _ => none
  | .poll c => s.poll cfg c
  | .obtained c now elapsed sessions => s.obtained cfg c now elapsed sessions
  | .expired c elapsed => s.expired cfg c elapsed
  | .turn c it => s.turn cfg c it
  | .finish c => s.finish cfg c
  | .rest_checkout kind => s.call_pool (.checkout kind) .rest
  | .rest call a =>
    if a.call = some call ∧ s.callers[call]? = some .rest then s.on_pool a else none
  | .rest_metric call => if rest_call call then some (s.record cfg [call]) else none
  | .shutdown => if s.is_cancelled then none else some { s with is_cancelled := true }
  | .close_pool =>
    if s.is_cancelled && s.closer.isNone then
      (s.call_pool .close .shutdown).map fun s' => { s' with closer := some s.pool.calls.length }
    else none
  | .closing => s.closer.bind fun call => s.on_pool (.next call)

abbrev AppState.run (slots : List Nat) (as : List (ServerAction F V)) : Option (AppState F D R V) :=
  Steps.run (AppState.step cfg) (AppState.new slots) as

end Inner

end Step

end Gigastt.Server
