import Gigastt.Lib.Channel
import Gigastt.Server.Transcribe
import Gigastt.Streaming.Runs

/-!
# One request to `POST /v1/transcribe/stream`

The handler decodes the upload, waits for a guard of the pool and answers with a stream
that it has not filled yet. A blocking task fills it over a channel, and goes on whatever
becomes of the client. Each call of the task is given its own sessions and its own time.
What is recorded as a metric is left out, and so are the comments that keep the stream alive.
-/

namespace Gigastt.Server

open Streaming Words

variable {T F D : Type}

/-! ## What the client reads -/

/-- What the task sends: a segment, or the text of an error. -/
abbrev Message (F : Type) := Except String (TranscriptSegment F)

/-- The JSON of one event. -/
inductive SseEvent (F : Type) where
  | final (text : Text) (timestamp : ℚ) (words : List (WordInfo F))
  | partial_ (text : Text) (timestamp : ℚ) (words : List (WordInfo F))
  | error (message code : String)
deriving DecidableEq, Repr

def sse_event : Message F → SseEvent F
  | .ok seg =>
    if seg.is_final then .final seg.text seg.timestamp seg.words
    else .partial_ seg.text seg.timestamp seg.words
  | .error _ => .error "Transcription failed." "inference_error"

/-! ## The blocking task -/

def SSE_CHUNK_SIZE : Nat := 16000
def SSE_CHANNEL_CAPACITY : Nat := 16

/-- `slice::chunks`, with a bound on the number of the chunks. -/
def chunks_upto (chunk_size : Nat) : Nat → List F → List (List F)
  | 0, _ => []
  | n + 1, samples =>
    if samples.isEmpty then []
    else samples.take chunk_size :: chunks_upto chunk_size n (samples.drop chunk_size)

def chunks (chunk_size : Nat) (samples : List F) : List (List F) :=
  chunks_upto chunk_size samples.length samples

/-- How far the closure has come. -/
inductive Point (F D : Type) where
  -- At the head of the loop, or past its last chunk.
  | chunk (chunks : List (List F)) (stream_state : StreamingState F D)
  -- In `blocking_send`, with the segments of one call.
  | sending (segs : List (TranscriptSegment F)) (chunks : List (List F))
      (stream_state : StreamingState F D)
  | failing (message : String)
  | flushing (seg : TranscriptSegment F)
  -- `catch_unwind` has returned, one way or the other.
  | caught
  -- The triplet is given back, but `tx` is not dropped.
  | given_back

inductive SseTask (T F D : Type) where
  | none
  | queued (samples : List F) (triplet : T)
  | running (triplet : T) (point : Point F D)
  | exited
  -- Dropped in the queue, as at the shutdown of the runtime.
  | lost

inductive SseHandler (F : Type) where
  | decoding (body : List UInt8)
  | checking_out (samples : List F)
  | returned (response : Except ApiError Unit)
  | dropped

structure SseRequest (T F D : Type) where
  handler : SseHandler F
  task : SseTask T F D
  channel : Option (Channel (Message F))
  cancelled : Bool
  -- What the client has read, and whether it read the end.
  events : List (SseEvent F)
  ended : Bool
  log : List (Event T)

/-- The handler up to its first wait. -/
def transcribe_stream (limits : RuntimeLimits) (body : List UInt8) (cancelled : Bool) :
    SseRequest T F D :=
  { handler :=
      if body.isEmpty then
        .returned (.error (api_error 400 "Empty request body" "empty_body"))
      else if body.length > limits.body_limit_bytes then
        .returned (.error
          (api_error 413 "Request body exceeds the configured size limit" "payload_too_large"))
      else .decoding body
    task := .none
    channel := none
    cancelled
    events := []
    ended := false
    log := [] }

/-- The result of the decode task, or `none` for a `JoinError`. -/
def on_decoded : Option (Except Fault (List F)) → SseHandler F
  | some (.ok samples) => .checking_out samples
  | some (.error (.err _)) =>
    .returned (.error (api_error 422
      "Failed to decode audio file. Check format (WAV, MP3, M4A, OGG, FLAC supported)."
      "invalid_audio"))
  | some (.error (.panic _)) | none =>
    .returned (.error (api_error 500 "Internal server error" "internal"))

inductive SseAction (T F : Type) where
  -- The decode task is done, or will give no value.
  | decoded
  | decode_lost
  | checked_out (outcome : Checkout T)
  -- The closure starts, and goes on to its next point.
  | start
  | next (sessions : SessionTriplet F) (ts : ℚ)
  -- `process_chunk` panics in code that the model takes as a parameter.
  | panic
  | lose
  -- The connection reads the stream, and goes away.
  | recv
  | leave
  | shutdown

section Step

variable [F32 F]

/-- `blocking_send`, which waits while there is no room. Once it is sent the closure goes on
from the point `sent`, and without a receiver nothing is left to do. -/
def SseRequest.blocking_send (s : SseRequest T F D) (triplet : T) (message : Message F)
    (sent : Point F D) : Option (SseRequest T F D) :=
  match s.channel with
  | some channel =>
    match channel.send message with
    | .sent channel => some { s with channel := some channel, task := .running triplet sent }
    | .refused => some { s with task := .running triplet .caught }
    | .full => none
  | none => none

/-- `format!("{e}")` of `GigasttError::Inference`. -/
def inference_failed : String := "inference failed"

def SseRequest.next (engine : Engine F D) (s : SseRequest T F D) (triplet : T)
    (sessions : SessionTriplet F) (ts : ℚ) : Point F D → Option (SseRequest T F D)
  | .chunk (chunk :: chunks) stream_state =>
    if s.cancelled then some { s with task := .running triplet .caught }
    else
      match engine.process_chunk chunk stream_state sessions ts with
      | (.ok segs, stream_state) =>
        some { s with task := .running triplet (.sending segs chunks stream_state) }
      | (.error (.Inference _), _) =>
        some { s with task := .running triplet (.failing inference_failed) }
      | (.error (.panic _), _) => some { s with task := .running triplet .caught }
  | .chunk [] stream_state =>
    if s.cancelled then some { s with task := .running triplet .caught }
    else
      match flush_state stream_state ts with
      | (some seg, _) => some { s with task := .running triplet (.flushing seg) }
      | (none, _) => some { s with task := .running triplet .caught }
  | .sending (seg :: segs) chunks stream_state =>
    s.blocking_send triplet (.ok seg) (.sending segs chunks stream_state)
  | .sending [] chunks stream_state =>
    some { s with task := .running triplet (.chunk chunks stream_state) }
  | .failing message => s.blocking_send triplet (.error message) .caught
  | .flushing seg => s.blocking_send triplet (.ok seg) .caught
  | .caught =>
    some { s with
      task := .running triplet .given_back
      log := s.log ++ OwnedReservation.checkin {} triplet }
  | .given_back =>
    some { s with task := .exited, channel := s.channel.map Channel.drop_sender }

def SseRequest.step (limits : RuntimeLimits) (decode : List UInt8 → Except Fault (List F))
    (engine : Engine F D) (s : SseRequest T F D) : SseAction T F → Option (SseRequest T F D)
  | .decoded =>
    match s.handler with
    | .decoding body => some { s with handler := on_decoded (some (decode body)) }
    | _ => none
  | .decode_lost =>
    match s.handler with
    | .decoding _ => some { s with handler := on_decoded none }
    | _ => none
  | .checked_out outcome =>
    match s.handler, outcome with
    | .checking_out samples, .guard guard =>
      some { s with
        handler := .returned (.ok ())
        task := .queued samples guard.into_owned.1
        channel := some (Channel.new (Message F) SSE_CHANNEL_CAPACITY) }
    | .checking_out _, .pool_closed =>
      some { s with handler := .returned (.error api_pool_closed_error) }
    | .checking_out _, .timeout =>
      some { s with handler := .returned (.error (api_timeout_error limits)) }
    | _, _ => none
  | .start =>
    match s.task with
    | .queued samples triplet =>
      some { s with
        task := .running triplet
          (.chunk (chunks SSE_CHUNK_SIZE samples) (engine.create_state none)) }
    | _ => none
  | .next sessions ts =>
    match s.task with
    | .running triplet point => s.next engine triplet sessions ts point
    | _ => none
  | .panic =>
    match s.task with
    | .running triplet (.chunk (_ :: _) _) =>
      if s.cancelled then none else some { s with task := .running triplet .caught }
    | _ => none
  | .lose =>
    match s.task with
    | .queued _ _ =>
      some { s with task := .lost, channel := s.channel.map Channel.drop_sender }
    | _ => none
  | .recv =>
    match s.channel, s.ended with
    | some channel, false =>
      if channel.receiver then
        match channel.recv with
        | .received message channel =>
          some { s with channel := some channel, events := s.events ++ [sse_event message] }
        | .ended => some { s with ended := true }
        | .empty => none
      else none
    | _, _ => none
  | .leave =>
    match s.handler, s.channel with
    | .decoding _, _ | .checking_out _, _ => some { s with handler := .dropped }
    | .returned (.ok ()), some channel =>
      if channel.receiver then some { s with channel := some channel.drop_receiver } else none
    | _, _ => none
  | .shutdown => if s.cancelled then none else some { s with cancelled := true }

abbrev SseRequest.run (limits : RuntimeLimits) (decode : List UInt8 → Except Fault (List F))
    (engine : Engine F D) (body : List UInt8) (cancelled : Bool) (as : List (SseAction T F)) :
    Option (SseRequest T F D) :=
  Steps.run (SseRequest.step limits decode engine) (transcribe_stream limits body cancelled) as

end Step

end Gigastt.Server
