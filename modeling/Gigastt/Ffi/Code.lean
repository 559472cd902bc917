import Gigastt.Session.Deframe

/-!
# The C interface of a stream: `ffi.rs`

A pointer that may be null is an option. The JSON text of a call is given by the segments
that it lists.
-/

namespace Gigastt.Ffi

open Decode Session Streaming Words

variable {F D R : Type}

structure GigasttEngine (F D R : Type) where
  engine : Engine F D
  rubato : Rubato F R

structure GigasttStream (F D R : Type) where
  state : SessionState F D R
  triplet : SessionTriplet F

/-- What a call meets: the state that a dependency leaves when it panics under
`process_chunk`, or else the sessions as `process_chunk` leaves them. -/
structure Guarded (F D : Type) where
  panics : Option (StreamingState F D)
  sessions : SessionTriplet F
  ts : ℚ

section Calls

variable [F32Pcm F]

/-- Resample if needed. -/
def resampled (engine : GigasttEngine F D R) (stream : GigasttStream F D R) (sample_rate : UInt32)
    (samples_f32 : List F) : Except Fault (List F) × GigasttStream F D R :=
  if sample_rate = 16000 then (.ok samples_f32, stream)
  else
    match resample_with_cache engine.rubato samples_f32 sample_rate 16000 stream.state.resampler with
    | (r, resampler) => (r, { stream with state := { stream.state with resampler } })

/-- `process_chunk` under `catch_unwind`. A panic leaves the state as it was by then. -/
def guarded_chunk (engine : GigasttEngine F D R) (stream : GigasttStream F D R)
    (guarded : Guarded F D) (samples_f32 : List F) :
    Option (List (TranscriptSegment F)) × GigasttStream F D R :=
  match guarded.panics with
  | some left =>
    (none, { state := { stream.state with stream := left }, triplet := guarded.sessions })
  | none =>
    match engine.engine.process_chunk samples_f32 stream.state.stream stream.triplet guarded.ts with
    | (r, left) =>
      (r.toOption, { state := { stream.state with stream := left }, triplet := guarded.sessions })

/-- What a call does with its samples. -/
def process_samples (sample_rate : UInt32) (guarded : Guarded F D) (engine : GigasttEngine F D R)
    (stream : GigasttStream F D R) (pcm16 : List Int) :
    Option (List (TranscriptSegment F)) × GigasttStream F D R :=
  match resampled engine stream sample_rate (pcm16.map to_f32) with
  | (.error _, stream) => (none, stream)
  | (.ok samples_f32, stream) => guarded_chunk engine stream guarded samples_f32

/-- A call, with `process` for what it hands its samples on to. Null for an error. -/
def stream_process_chunk {m : Type → Type} [Monad m]
    (process : GigasttEngine F D R → GigasttStream F D R → List Int →
      m (Option (List (TranscriptSegment F)) × GigasttStream F D R))
    (engine : Option (GigasttEngine F D R)) (stream : Option (GigasttStream F D R))
    (pcm16_bytes : Option (List UInt8)) :
    m (Option (List (TranscriptSegment F)) × Option (GigasttStream F D R)) :=
  match engine, stream, pcm16_bytes with
  | some engine, some stream, some bytes => do
    let pcm16 := (pairs bytes).map from_le_bytes
    let (segments, stream) ← process engine stream pcm16
    return (segments, some stream)
  | _, _, _ => return (none, stream)

def gigastt_stream_process_chunk (engine : Option (GigasttEngine F D R))
    (stream : Option (GigasttStream F D R)) (pcm16_bytes : Option (List UInt8))
    (sample_rate : UInt32) (guarded : Guarded F D) :
    Option (List (TranscriptSegment F)) × Option (GigasttStream F D R) :=
  Id.run (stream_process_chunk (fun engine stream pcm16 =>
    pure (process_samples sample_rate guarded engine stream pcm16)) engine stream pcm16_bytes)

end Calls

end Gigastt.Ffi
