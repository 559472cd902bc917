import Gigastt.Lib.Steps
import Gigastt.Server.Deadline
import Gigastt.Server.Transcribe
import Gigastt.Streaming.Code
import Gigastt.Streaming.Resample

/-!
# A WebSocket session: `handle_ws_inner` of `server/mod.rs`

One definition per handler, then the loop as a step system that takes one iteration at a
time. Log output is left out. A send may fail, and the sink keeps what was tried. Panics are
those of the blocking task. One outside it, in the resampler or in a timer, would end the
session's own task, and is not modelled.
-/

namespace Gigastt.Session

open Decode Server Streaming Words

variable {F D R : Type}

/-! ## Messages -/

def PROTOCOL_VERSION : String := "1.0"
def SUPPORTED_RATES : List UInt32 := [8000, 16000, 24000, 44100, 48000]
def DEFAULT_SAMPLE_RATE : UInt32 := 48000

inductive ServerMessage (F : Type) where
  | Ready (model : String) (sample_rate : UInt32) (version : String) (supported_rates : List UInt32)
      (diarization : Bool) (min_protocol_version : Option String)
  | Partial (segment : TranscriptSegment F)
  | Final (segment : TranscriptSegment F)
  | Error (message code : String) (retry_after_ms : Option UInt32)
deriving DecidableEq, Repr

inductive ClientMessage where
  | Stop
  | Configure (sample_rate : Option UInt32) (diarization : Option Bool)
      (protocol_version : Option String)
deriving DecidableEq, Repr

structure CloseFrame where
  code : Nat
  reason : String
deriving DecidableEq, Repr

/-- What the server sends. -/
inductive Sent (F : Type) where
  | Text (msg : ServerMessage F)
  | Close (frame : CloseFrame)
deriving DecidableEq, Repr

/-- What the client sends. -/
inductive WsMessage where
  | Binary (data : List UInt8)
  | Text (text : Text)
  | Close
  | Ping
  | Pong
deriving DecidableEq, Repr

/-! ## The variables of the session -/

/-- `StreamingState` with the resampler, which `process_chunk` never touches. -/
structure SessionState (F D R : Type) where
  stream : StreamingState F D
  resampler : Option R

/-- A triplet goes by the slot of the pool it came from. Its sessions change as they run. -/
structure Triplet (F : Type) where
  slot : Nat
  sessions : SessionTriplet F

/-- What a session is given. -/
structure Env (F D R : Type) where
  engine : Engine F D
  rubato : Rubato F R
  -- The build has the feature `diarization`.
  diarization : Bool
  new_diarizer : D
  -- `serde_json::from_str` at `ClientMessage`.
  from_str : Text → Option ClientMessage
  -- Whether the send at this place of the sink's log works.
  accepts : Nat → Bool

structure Vars (F D R : Type) where
  state_opt : Option (SessionState F D R)
  triplet_opt : Option (Triplet F)
  client_sample_rate : UInt32
  audio_received : Bool
  pending_byte : Option UInt8
  -- What was sent, or tried.
  sink : List (Sent F)
  -- What `source.next()` gave.
  source : List WsMessage

def Env.create_state [Zero F] (env : Env F D R) (diarization_enabled : Bool) : SessionState F D R where
  stream := env.engine.create_state
    (if env.diarization && diarization_enabled && env.engine.speaker_encoder.isSome then
      some env.new_diarizer
    else none)
  resampler := none

inductive FrameOutcome where
  | Continue
  | Break
deriving DecidableEq, Repr

/-! ## Sending -/

def send (env : Env F D R) (msg : Sent F) (v : Vars F D R) : Except Fault Unit × Vars F D R :=
  (if env.accepts v.sink.length then .ok () else .error (.err []), { v with sink := v.sink ++ [msg] })

def send_server_message (env : Env F D R) (msg : ServerMessage F) (v : Vars F D R) :
    Except Fault Unit × Vars F D R :=
  send env (.Text msg) v

/-- Send an error, and go on. -/
def reply_error (env : Env F D R) (message code : String) (outcome : FrameOutcome) (v : Vars F D R) :
    Except Fault FrameOutcome × Vars F D R :=
  match send_server_message env (.Error message code none) v with
  | (.error e, v) => (.error e, v)
  | (.ok (), v) => (.ok outcome, v)

def segment_message (seg : TranscriptSegment F) : ServerMessage F :=
  if seg.is_final then .Final seg else .Partial seg

def send_segments (env : Env F D R) : List (TranscriptSegment F) → Vars F D R →
    Except Fault FrameOutcome × Vars F D R
  | [], v => (.ok .Continue, v)
  | seg :: segments, v =>
    match send_server_message env (segment_message seg) v with
    | (.error e, v) => (.error e, v)
    | (.ok (), v) => send_segments env segments v

/-! ## Audio -/

/-- `chunks_exact(2)`. -/
def pairs : List UInt8 → List (UInt8 × UInt8)
  | lo :: hi :: rest => (lo, hi) :: pairs rest
  | _ => []

/-- `i16::from_le_bytes`. -/
def from_le_bytes (pair : UInt8 × UInt8) : Int :=
  let n : Int := pair.1.toNat + 256 * pair.2.toNat
  if n < 2 ^ 15 then n else n - 2 ^ 16

/-- The samples of a frame, with the byte left over from the frame before it, and the byte
that is left over now. -/
def deframe (pending_byte : Option UInt8) (data : List UInt8) : List Int × Option UInt8 :=
  if pending_byte.isSome || data.length % 2 != 0 then
    let combined := pending_byte.toList ++ data
    if combined.length % 2 != 0 then
      ((pairs combined.dropLast).map from_le_bytes, combined.getLast?)
    else ((pairs combined).map from_le_bytes, none)
  else ((pairs data).map from_le_bytes, none)

section Handlers

variable [F32Pcm F]

def to_f32 (sample : Int) : F := (sample : F) / ((32768 : Nat) : F)

def resample (env : Env F D R) (samples_f32 : List F) (v : Vars F D R) :
    Except Fault (List F) × Vars F D R :=
  if v.client_sample_rate = 16000 then (.ok samples_f32, v)
  else
    match v.state_opt with
    | none => (.error (.err ["Streaming state lost"]), v)
    | some state =>
      match resample_with_cache env.rubato samples_f32 v.client_sample_rate 16000 state.resampler with
      | (samples_16k, resampler) => (samples_16k, { v with state_opt := some { state with resampler } })

/-- What becomes of the blocking task of one frame. -/
structure Blocking (F : Type) where
  join_fails : Bool
  -- A dependency panics under `process_chunk`.
  panics : Bool
  -- The sessions of the triplet as the call leaves them.
  sessions : SessionTriplet F
  ts : ℚ

inductive Caught (F : Type) where
  | returned (segments : Except ChunkError (List (TranscriptSegment F)))
  | panicked

/-- `spawn_blocking`, joined: the result, the state and the triplet, or a `JoinError`. -/
def spawn_blocking (env : Env F D R) (blocking : Blocking F) (samples_16k : List F)
    (state : SessionState F D R) (triplet : Triplet F) :
    Option (Caught F × SessionState F D R × Triplet F) :=
  if blocking.join_fails then none
  else
    let triplet_back := { triplet with sessions := blocking.sessions }
    if blocking.panics then some (.panicked, state, triplet_back)
    else
      match env.engine.process_chunk samples_16k state.stream triplet.sessions blocking.ts with
      | (.error (.panic _), stream) => some (.panicked, { state with stream }, triplet_back)
      | (r, stream) => some (.returned r, { state with stream }, triplet_back)

/-- The reply to what the task made of the frame. -/
def on_joined (env : Env F D R) (v : Vars F D R) :
    Option (Caught F × SessionState F D R × Triplet F) → Except Fault FrameOutcome × Vars F D R
  | some (.returned (.ok segments), state_back, triplet_back) =>
    send_segments env segments
      { v with state_opt := some state_back, triplet_opt := some triplet_back }
  | some (.returned (.error _), state_back, triplet_back) =>
    reply_error env "Inference failed. Please check audio format." "inference_error" .Continue
      { v with state_opt := some state_back, triplet_opt := some triplet_back }
  | some (.panicked, _, triplet_back) =>
    reply_error env "Inference failed unexpectedly. Session reset." "inference_panic" .Continue
      { v with state_opt := some (env.create_state false), triplet_opt := some triplet_back }
  | none => (.error (.err ["Blocking task join failed"]), v)

def handle_binary_frame (env : Env F D R) (blocking : Blocking F) (data : List UInt8)
    (v : Vars F D R) : Except Fault FrameOutcome × Vars F D R :=
  if data.isEmpty then (.ok .Continue, v)
  else
    let (samples, pending_byte) := deframe v.pending_byte data
    match resample env (samples.map to_f32) { v with audio_received := true, pending_byte } with
    | (.error e, v) => (.error e, v)
    | (.ok samples_16k, v) =>
      match v.state_opt with
      | none => (.error (.err ["Streaming state lost"]), v)
      | some state =>
        let v := { v with state_opt := none }
        match v.triplet_opt with
        | none => (.error (.err ["Triplet lost"]), v)
        | some triplet =>
          on_joined env { v with triplet_opt := none } (spawn_blocking env blocking samples_16k state triplet)

/-! ## Control messages -/

def unsupported_version (ver : String) : String :=
  "Unsupported protocol version: " ++ ver ++ ". Supported: " ++ PROTOCOL_VERSION

def unsupported_rate (rate : UInt32) : String :=
  "Unsupported sample rate: " ++ toString rate ++ "Hz. Supported: " ++ toString SUPPORTED_RATES

/-- The sample rate of a `Configure`. -/
def configure_rate (env : Env F D R) (sample_rate : Option UInt32) (v : Vars F D R) :
    Except Fault FrameOutcome × Vars F D R :=
  match sample_rate with
  | none => (.ok .Continue, v)
  | some rate =>
    if rate ∈ SUPPORTED_RATES then (.ok .Continue, { v with client_sample_rate := rate })
    else reply_error env (unsupported_rate rate) "invalid_sample_rate" .Continue v

/-- The diarization of a `Configure`. -/
def configure_diarization (env : Env F D R) (diarization : Option Bool) (v : Vars F D R) : Vars F D R :=
  match env.diarization, diarization with
  | true, some enable_dia => { v with state_opt := some (env.create_state enable_dia) }
  | _, _ => v

def handle_configure_message (env : Env F D R) (sample_rate : Option UInt32)
    (diarization : Option Bool) (protocol_version : Option String) (v : Vars F D R) :
    Except Fault FrameOutcome × Vars F D R :=
  if v.audio_received then
    reply_error env "Configure must be sent before first audio frame" "configure_too_late" .Continue v
  else
    match protocol_version.filter (· != PROTOCOL_VERSION) with
    | some ver => reply_error env (unsupported_version ver) "unsupported_protocol_version" .Break v
    | none =>
      match configure_rate env sample_rate v with
      | (.error e, v) => (.error e, v)
      | (.ok _, v) => (.ok .Continue, configure_diarization env diarization v)

/-- The segment of a flush, or an empty one. -/
def final_message (flush_seg : Option (TranscriptSegment F)) (ts : ℚ) : ServerMessage F :=
  match flush_seg with
  | some seg => .Final seg
  | none => .Final { text := [], timestamp := ts, words := [], is_final := true }

def handle_stop_message (env : Env F D R) (ts : ℚ) (v : Vars F D R) :
    Except Fault FrameOutcome × Vars F D R :=
  match v.state_opt with
  | none => (.ok .Break, v)
  | some state =>
    let (flush_seg, _) := flush_state state.stream ts
    match send_server_message env (final_message flush_seg ts) { v with state_opt := none } with
    | (.error e, v) => (.error e, v)
    | (.ok (), v) => (.ok .Break, v)

def flush_and_final (env : Env F D R) (ts : ℚ) (v : Vars F D R) : Except Fault Unit × Vars F D R :=
  match v.state_opt with
  | none => send_server_message env (final_message none ts) v
  | some state =>
    let (flush_seg, stream) := flush_state state.stream ts
    send_server_message env (final_message flush_seg ts)
      { v with state_opt := some { state with stream } }

/-! ## The loop -/

/-- What `source.next()` gives within the idle timeout, if anything. -/
inductive Next where
  | message (msg : WsMessage)
  | error
  | closed
  | idle_timeout
deriving DecidableEq, Repr

/-- One turn of the loop: the token and the clock at its head, what `select!` finds when it
wakes, and what the handlers meet. -/
structure Iteration (F : Type) where
  cancelled : Bool
  now : Instant
  cancel_wakes : Bool
  deadline_wakes : Bool
  next : Next
  blocking : Blocking F
  ts : ℚ

def on_message (env : Env F D R) (it : Iteration F) (msg : WsMessage) (v : Vars F D R) :
    Except Fault FrameOutcome × Vars F D R :=
  match msg with
  | .Binary data => handle_binary_frame env it.blocking data v
  | .Text text =>
    match env.from_str text with
    | some (.Configure sample_rate diarization protocol_version) =>
      handle_configure_message env sample_rate diarization protocol_version v
    | some .Stop => handle_stop_message env it.ts v
    | none => (.ok .Continue, v)
  | .Close => (.ok .Break, v)
  | .Ping | .Pong => (.ok .Continue, v)

/-- What both branches for the cancelled token do. Every send is swallowed. -/
def on_cancel (env : Env F D R) (ts : ℚ) (v : Vars F D R) : Vars F D R :=
  let (_, v) := flush_and_final env ts v
  (send env (.Close { code := 1001, reason := "server shutdown" }) v).2

/-- What both branches for the deadline do. -/
def on_deadline (env : Env F D R) (ts : ℚ) (v : Vars F D R) : Vars F D R :=
  let (_, v) := send_server_message env
    (.Error "Maximum session duration exceeded" "max_session_duration_exceeded" none) v
  let (_, v) := flush_and_final env ts v
  (send env (.Close { code := 1008, reason := "max session duration" }) v).2

/-- One turn: the result of the session if the turn breaks the loop, and the variables. -/
def turn (env : Env F D R) (deadline : Instant) (it : Iteration F) (v : Vars F D R) :
    Option (Except Fault Unit) × Vars F D R :=
  if it.cancelled then (some (.ok ()), on_cancel env it.ts v)
  else if session_cap_reached deadline it.now then (some (.ok ()), on_deadline env it.ts v)
  else if it.cancel_wakes then (some (.ok ()), on_cancel env it.ts v)
  else if it.deadline_wakes then (some (.ok ()), on_deadline env it.ts v)
  else
    match it.next with
    | .error => (some (.error (.err [])), v)
    | .closed => (some (.ok ()), v)
    | .idle_timeout => (some (.ok ()), v)
    | .message msg =>
      match on_message env it msg { v with source := v.source ++ [msg] } with
      | (.ok .Continue, v) => (none, v)
      | (.ok .Break, v) => (some (.ok ()), v)
      | (.error e, v) => (some (.error e), v)

structure WsLoop (F D R : Type) where
  vars : Vars F D R
  -- The result, once the loop is left.
  result : Option (Except Fault Unit)

def WsLoop.step (env : Env F D R) (deadline : Instant) (s : WsLoop F D R) (it : Iteration F) :
    Option (WsLoop F D R) :=
  match s.result with
  | some _ => none
  | none =>
    let (result, vars) := turn env deadline it s.vars
    some { vars, result }

def ready (env : Env F D R) : ServerMessage F :=
  .Ready "gigaam-v3-e2e-rnnt" DEFAULT_SAMPLE_RATE PROTOCOL_VERSION SUPPORTED_RATES
    (env.diarization && env.engine.speaker_encoder.isSome) none

/-- The session when it enters its loop, `Ready` sent. -/
def WsLoop.new (env : Env F D R) (triplet : Triplet F) : WsLoop F D R where
  vars :=
    { state_opt := some (env.create_state false)
      triplet_opt := some triplet
      client_sample_rate := DEFAULT_SAMPLE_RATE
      audio_received := false
      pending_byte := none
      sink := [.Text (ready env)]
      source := [] }
  result := none

/-- The session after these turns of its loop. -/
abbrev WsLoop.run (env : Env F D R) (deadline : Instant) (triplet : Triplet F)
    (its : List (Iteration F)) : Option (WsLoop F D R) :=
  Steps.run (WsLoop.step env deadline) (WsLoop.new env triplet) its

end Handlers

/-- `handle_ws` after `handle_ws_inner` has returned this triplet. -/
def give_back {T : Type} (reservation : OwnedReservation) (triplet_opt : Option T) : List (Event T) :=
  match triplet_opt with
  | some triplet => reservation.checkin triplet
  | none => reservation.drop

end Gigastt.Session
