import Gigastt.Streaming.Features
import Gigastt.Words.Code
import Mathlib.Algebra.Order.Ring.Rat

/-!
# Streaming recognition: `Engine` in `inference/mod.rs`

The speaker diarizer is a crate of its own; what it does to its state `D` is a parameter.
A call is given its own sessions, so calls on one stream need not share a triplet.
-/

namespace Gigastt.Streaming

open Decode Words

variable {F D : Type}

/-! ## The data -/

abbrev Encoder (F : Type) := Session F (List F × List Int)

structure SessionTriplet (F : Type) where
  encoder : Encoder F
  decoder : Decoder F
  joiner : Joiner F

structure Diarization (F D : Type) where
  feed : D → List F → D
  current_speaker : D → Option Nat

structure Engine (F D : Type) where
  tokenizer : Tokenizer
  mel : MelSpectrogram F
  speaker_encoder : Option (Diarization F D)

structure StreamingState (F D : Type) where
  decoder : DecoderState F
  audio_buffer : List F
  assembler : TranscriptAssembler F
  total_frames : Nat
  mel_fft_input : List (Complex F)
  mel_power : List F
  diarization_state : Option D

/-- `create_state`, with the diarizer it makes if it makes one. -/
def Engine.create_state [Zero F] (engine : Engine F D) (diarization_state : Option D) :
    StreamingState F D where
  decoder := DecoderState.new engine.tokenizer.blank_id
  audio_buffer := []
  assembler := TranscriptAssembler.new
  total_frames := 0
  mel_fft_input := []
  mel_power := []
  diarization_state

/-- `GigasttError::Inference` with the texts of its source, or a panic. -/
inductive ChunkError where
  | Inference (source : List String)
  | panic (about : Panic)
deriving DecidableEq, Repr

def inference_error : Fault → ChunkError
  | .err contexts => .Inference contexts
  | .panic about => .panic about

/-! ## One run of the models -/

section Models

variable [F32 F]

def encode (encoder : Encoder F) (features : List F) (num_frames : Nat) :
    Except Fault (List F × Nat) := do
  let signal ← from_array_view [1, N_MELS, num_frames] features
  let length ← from_array_view [1] [(num_frames : Int)]
  let outputs ← context "Encoder inference failed" (encoder 0 (signal, length))
  let enc_data ← context "Failed to extract encoder output" (← index outputs 0).try_extract_f32
  let len_data ← context "Failed to extract encoder length" (← index outputs 1).try_extract_i32
  let len ← index len_data 0
  let enc_len ← context "Negative encoder length" (if 0 ≤ len then some len.toNat else none)
  return (enc_data, enc_len)

structure Inference (F : Type) where
  enc_len : Nat
  tokens : List (TokenInfo F)
  words : List (WordInfo F)
  endpoint_detected : Bool

def run_inference (tokenizer : Tokenizer) (triplet : SessionTriplet F) (features : List F)
    (num_frames : Nat) (decoder_state : DecoderState F) (frame_offset : Nat) :
    Except Fault (Inference F) × DecoderState F :=
  match encode triplet.encoder features num_frames with
  | .error e => (.error e, decoder_state)
  | .ok (enc_data, enc_len) =>
    match greedy_decode triplet.decoder triplet.joiner enc_data enc_len tokenizer.blank_id
        decoder_state with
    | (.error e, decoder_state) => (.error e, decoder_state)
    | (.ok result, decoder_state) =>
      (.ok { enc_len
             tokens := result.tokens
             words := tokens_to_words tokenizer result.tokens frame_offset
             endpoint_detected := result.endpoint_detected }, decoder_state)

/-! ## One chunk -/

/-- What the models made of a chunk, and the mel frames they were given. -/
structure Heard (F : Type) extends Inference F where
  num_frames : Nat

/-- `process_chunk` up to the models. Nothing is heard when the samples make no frame. Where
`compute_with_buffers` panics the source has begun to fill the mel buffers, which stay as they
were here. -/
def Engine.hear (engine : Engine F D) (samples : List F) (state : StreamingState F D)
    (triplet : SessionTriplet F) : Except Fault (Option (Heard F)) × StreamingState F D :=
  if samples.isEmpty then (.ok none, state)
  else
    match prepare_audio_buffer samples state.audio_buffer with
    | (none, audio_buffer) => (.ok none, { state with audio_buffer })
    | (some samples, audio_buffer) =>
      let state := { state with audio_buffer }
      match compute_with_buffers engine.mel samples state.mel_fft_input state.mel_power with
      | .error e => (.error e, state)
      | .ok (features, num_frames, mel_fft_input, mel_power) =>
        let state := { state with mel_fft_input, mel_power }
        if num_frames = 0 then (.ok none, state)
        else
          match run_inference engine.tokenizer triplet features num_frames state.decoder
              state.total_frames with
          | (.error e, decoder) => (.error e, { state with decoder })
          | (.ok inference, decoder) =>
            (.ok (some { inference with num_frames }), { state with decoder })

/-- The diarization block: feed the samples, then label all words with one speaker. -/
def Engine.label (engine : Engine F D) (samples : List F) (state : StreamingState F D)
    (new_words : List (WordInfo F)) : List (WordInfo F) × StreamingState F D :=
  match state.diarization_state, engine.speaker_encoder with
  | some dia, some enc =>
    let dia := enc.feed dia samples
    let new_words := match enc.current_speaker dia with
      | some speaker => new_words.map fun w => { w with speaker := some speaker }
      | none => new_words
    (new_words, { state with diarization_state := some dia })
  | _, _ => (new_words, state)

/-- The end of `process_chunk`: append the words, and send a segment if there is something new. -/
def deliver (state : StreamingState F D) (new_words : List (WordInfo F)) (endpoint : Bool) (ts : ℚ) :
    List (TranscriptSegment F) × StreamingState F D :=
  if new_words.isEmpty && !endpoint then ([], state)
  else
    let assembler := state.assembler.append new_words
    if endpoint then
      let (segment, assembler) := assembler.finalize ts
      ([segment], { state with assembler, decoder := { state.decoder with consecutive_blanks := 0 } })
    else ([assembler.partial_segment ts], { state with assembler })

def Engine.process_chunk (engine : Engine F D) (samples : List F) (state : StreamingState F D)
    (triplet : SessionTriplet F) (ts : ℚ) :
    Except ChunkError (List (TranscriptSegment F)) × StreamingState F D :=
  match engine.hear samples state triplet with
  | (.error e, state) => (.error (inference_error e), state)
  | (.ok none, state) => (.ok [], state)
  | (.ok (some heard), state) =>
    let state := { state with total_frames := state.total_frames + heard.num_frames }
    let (new_words, state) := engine.label samples state heard.words
    let (segments, state) := deliver state new_words heard.endpoint_detected ts
    (.ok segments, state)

/-- `flush_state` at the time `ts`. -/
def flush_state (state : StreamingState F D) (ts : ℚ) :
    Option (TranscriptSegment F) × StreamingState F D :=
  if state.assembler.is_empty then (none, state)
  else
    let (segment, assembler) := state.assembler.finalize ts
    (some segment, { state with assembler })

/-! ## A whole recording -/

/-- `MelSpectrogram::compute`, with buffers of its own. -/
def compute (mel : MelSpectrogram F) (samples : List F) : Except Fault (List F × Nat) := do
  let (features, num_frames, _, _) ← compute_with_buffers mel samples (List.replicate N_FFT (0, 0))
    (List.replicate (N_FFT / 2 + 1) 0)
  return (features, num_frames)

/-- A turn that the offline diarizer finds. -/
structure SpeakerTurn where
  start : ℚ
  end_ : ℚ
  speaker : Nat

/-- The speaker of the first turn that the middle of the word lies in. -/
def assign_speaker (turns : List SpeakerTurn) (word : WordInfo F) : WordInfo F :=
  let mid := (word.start + word.end_) / 2
  match turns.find? fun t => t.start ≤ mid && mid ≤ t.end_ with
  | some turn => { word with speaker := some turn.speaker }
  | none => word

structure TranscribeResult (F : Type) where
  text : Text
  words : List (WordInfo F)
  duration_s : ℚ

/-- `OfflineDiarizer::run` is a parameter, like the online one. -/
def Engine.transcribe_samples (engine : Engine F D)
    (diarizer_run : Diarization F D → List F → Option (List SpeakerTurn)) (float_samples : List F)
    (triplet : SessionTriplet F) : Except ChunkError (TranscribeResult F) :=
  match compute engine.mel float_samples with
  | .error e => .error (inference_error e)
  | .ok (features, num_frames) =>
    match run_inference engine.tokenizer triplet features num_frames
        (DecoderState.new engine.tokenizer.blank_id) 0 with
    | (.error e, _) => .error (inference_error e)
    | (.ok inference, _) =>
      let words := match engine.speaker_encoder.bind (diarizer_run · float_samples) with
        | some turns => inference.words.map (assign_speaker turns)
        | none => inference.words
      .ok { text := [' '].intercalate (words.map WordInfo.word)
            words
            duration_s := float_samples.length / 16000 }

end Models

end Gigastt.Streaming
