import Gigastt.Lib.Steps
import Gigastt.Server.Limits
import Gigastt.Words.Code

/-!
# One request to `POST /v1/transcribe`

The handler waits twice: for a guard of the pool, then for the blocking task. A client
that leaves makes its future drop at one of the two waits. The closure of the task runs on
a thread of its own, so it goes on after that, but its value is taken by nobody.
-/

namespace Gigastt.Server

open Words

variable {T F : Type}

/-! ## Responses -/

structure ApiError where
  status : Nat
  error : String
  code : String
  retry_after : Option String := none
  retry_after_ms : Option UInt32 := none
deriving DecidableEq, Repr

def api_error (status : Nat) (msg code : String) : ApiError := { status, error := msg, code }

def api_timeout_error (limits : RuntimeLimits) : ApiError where
  status := 503
  error := "Server busy, try again later"
  code := "timeout"
  retry_after := some (toString (pool_retry_after_secs limits))
  retry_after_ms := some (pool_retry_after_ms limits)

def api_pool_closed_error : ApiError where
  status := 503
  error := "Server is shutting down"
  code := "pool_closed"

structure TranscribeResult (F : Type) where
  text : Text
  words : List (WordInfo F)
  duration_s : ℚ
deriving DecidableEq, Repr

structure TranscribeResponse (F : Type) where
  text : Text
  words : List (WordInfo F)
  duration : ℚ
deriving DecidableEq, Repr

/-! ## The guard and its two halves -/

inductive Event (T : Type) where
  | closure_done (triplet : T)
  | checked_in (triplet : T)
deriving DecidableEq, Repr

structure PoolGuard (T : Type) where
  item : T
deriving DecidableEq, Repr

structure OwnedReservation where
deriving DecidableEq, Repr

def PoolGuard.into_owned (guard : PoolGuard T) : T × OwnedReservation := (guard.item, {})

def OwnedReservation.checkin (_ : OwnedReservation) (item : T) : List (Event T) :=
  [.checked_in item]

/-- A reservation has no `Drop`. -/
def OwnedReservation.drop (_ : OwnedReservation) : List (Event T) := []

/-! ## The blocking task -/

inductive Inference (F : Type) where
  | returned (result : Except Fault (TranscribeResult F))
  | panicked

/-- The value of the closure. `infer` may change the triplet, also when it panics. -/
def closure (infer : T → Inference F × T) (triplet : T) : Except Fault (TranscribeResult F) × T :=
  match infer triplet with
  | (.returned inference_result, triplet) => (inference_result, triplet)
  | (.panicked, triplet) => (.error (.err ["Inference thread panicked"]), triplet)

inductive Task (T F : Type) where
  | none
  | queued (triplet : T)
  | running (triplet : T)
  | finished (value : Except Fault (TranscribeResult F) × T)
  | failed
  -- Its handle was awaited, and gave `none` for a `JoinError`.
  | joined (result : Option (Except Fault (TranscribeResult F) × T))
  -- It finished, but its handle was gone.
  | discarded

def Task.detach : Task T F → Task T F
  | .finished _ => .discarded
  | task => task

/-! ## The handler -/

inductive Handler (F : Type) where
  | checking_out
  | joining (reservation : OwnedReservation)
  | returned (response : Except ApiError (TranscribeResponse F))
  | dropped

structure Request (T F : Type) where
  handler : Handler F
  task : Task T F
  log : List (Event T)

/-- The handler up to its first wait. -/
def transcribe (limits : RuntimeLimits) (body : List UInt8) : Request T F :=
  { handler :=
      if body.isEmpty then
        .returned (.error (api_error 400 "Empty request body" "empty_body"))
      else if body.length > limits.body_limit_bytes then
        .returned (.error
          (api_error 413 "Request body exceeds the configured size limit" "payload_too_large"))
      else .checking_out
    task := .none
    log := [] }

/-- The end of the handler, from the result of the join on. -/
def on_join (reservation : OwnedReservation) :
    Option (Except Fault (TranscribeResult F) × T) →
      Except ApiError (TranscribeResponse F) × List (Event T)
  | some (.ok result, triplet) =>
    (.ok { text := result.text, words := result.words, duration := result.duration_s },
      reservation.checkin triplet)
  | some (.error _, triplet) =>
    (.error (api_error 422 "Transcription failed. Check audio format." "transcription_error"),
      reservation.checkin triplet)
  | none => (.error (api_error 500 "Internal server error" "internal"), reservation.drop)

inductive Checkout (T : Type) where
  | guard (guard : PoolGuard T)
  | pool_closed
  | timeout

inductive Action (T F : Type) where
  | checked_out (outcome : Checkout T)
  -- The closure starts, and comes to its end.
  | start
  | finish (infer : T → Inference F × T)
  -- The task will give no value, as at the shutdown of the runtime.
  | fail
  -- The handler is polled with its task done.
  | poll
  -- The client leaves.
  | drop

def Request.step (limits : RuntimeLimits) (s : Request T F) : Action T F → Option (Request T F)
  | .checked_out outcome =>
    match s.handler, outcome with
    | .checking_out, .guard guard =>
      let (triplet, reservation) := guard.into_owned
      some { s with handler := .joining reservation, task := .queued triplet }
    | .checking_out, .pool_closed =>
      some { s with handler := .returned (.error api_pool_closed_error) }
    | .checking_out, .timeout =>
      some { s with handler := .returned (.error (api_timeout_error limits)) }
    | _, _ => none
  | .start =>
    match s.task with
    | .queued triplet => some { s with task := .running triplet }
    | _ => none
  | .finish infer =>
    match s.task, s.handler with
    | .running triplet, .dropped =>
      some { s with
        task := .discarded, log := s.log ++ [.closure_done (closure infer triplet).2] }
    | .running triplet, _ =>
      some { s with
        task := .finished (closure infer triplet)
        log := s.log ++ [.closure_done (closure infer triplet).2] }
    | _, _ => none
  | .fail =>
    match s.task with
    | .queued _ => some { s with task := .failed }
    | .running _ => some { s with task := .failed }
    | _ => none
  | .poll =>
    match s.handler, s.task with
    | .joining reservation, .finished value =>
      let (response, given) := on_join reservation (some value)
      some { handler := .returned response, task := .joined (some value), log := s.log ++ given }
    | .joining reservation, .failed =>
      let (response, given) := on_join reservation none
      some { handler := .returned response, task := .joined none, log := s.log ++ given }
    | _, _ => none
  | .drop =>
    match s.handler with
    | .checking_out => some { s with handler := .dropped }
    | .joining reservation =>
      some { handler := .dropped, task := s.task.detach, log := s.log ++ reservation.drop }
    | _ => none

abbrev Request.run (limits : RuntimeLimits) (body : List UInt8) (as : List (Action T F)) :
    Option (Request T F) :=
  Steps.run (Request.step limits) (transcribe limits body) as

end Gigastt.Server
