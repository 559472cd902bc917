import Gigastt.Decode.Utterance
import Gigastt.Streaming.Code

/-!
# Streams of chunks

A stream is a list of `process_chunk` calls on one state. The log keeps of each call what
the models made of it and the segments it returned.
-/

namespace Gigastt.Streaming

open Decode Words

variable {F D : Type}

structure ChunkCall (F : Type) where
  samples : List F
  triplet : SessionTriplet F
  ts : ℚ

structure ChunkLog (F : Type) where
  heard : Option (Heard F)
  segments : List (TranscriptSegment F)

def ChunkLog.words (log : ChunkLog F) : List (WordInfo F) :=
  match log.heard with
  | some heard => heard.words
  | none => []

def unlabelled (w : WordInfo F) : WordInfo F := { w with speaker := none }

theorem label_spec (engine : Engine F D) (samples : List F) (state : StreamingState F D)
    (words : List (WordInfo F)) :
    (engine.label samples state words).1.map unlabelled = words.map unlabelled ∧
      (engine.label samples state words).2.assembler = state.assembler ∧
      (engine.label samples state words).2.total_frames = state.total_frames := by
  unfold Engine.label
  split
  · refine ⟨?_, rfl, rfl⟩
    dsimp only
    split
    · simp [Function.comp_def, unlabelled]
    · rfl
  · exact ⟨rfl, rfl, rfl⟩

theorem deliver_total_frames (state : StreamingState F D) (words : List (WordInfo F))
    (endpoint : Bool) (ts : ℚ) :
    (deliver state words endpoint ts).2.total_frames = state.total_frames := by
  unfold deliver
  split_ifs <;> rfl

variable [F32 F]

/-- What the models made of the chunk, if it reached them and they did not fail. -/
def Engine.heard (engine : Engine F D) (state : StreamingState F D) (call : ChunkCall F) :
    Option (Heard F) :=
  match engine.hear call.samples state call.triplet with
  | (.ok heard, _) => heard
  | (.error _, _) => none

/-- The calls in order, up to the first that fails. -/
def Engine.run (engine : Engine F D) : StreamingState F D → List (ChunkCall F) →
    Except ChunkError (List (ChunkLog F) × StreamingState F D)
  | state, [] => .ok ([], state)
  | state, call :: calls =>
    match engine.process_chunk call.samples state call.triplet call.ts with
    | (.error e, _) => .error e
    | (.ok segments, state') => do
      let (logs, last) ← engine.run state' calls
      return ({ heard := engine.heard state call, segments } :: logs, last)

/-! ## What a call does -/

structure HeardStep (engine : Engine F D) (state state' : StreamingState F D) (call : ChunkCall F)
    (heard : Heard F) (segments : List (TranscriptSegment F)) : Prop where
  encoded : ∃ features enc_data,
    encode call.triplet.encoder features heard.num_frames = .ok (enc_data, heard.enc_len)
  words : heard.words = tokens_to_words engine.tokenizer heard.tokens state.total_frames
  total_frames : state'.total_frames = state.total_frames + heard.num_frames
  delivered : ∃ state₁ new_words,
    state₁.assembler = state.assembler ∧ new_words.map unlabelled = heard.words.map unlabelled ∧
      deliver state₁ new_words heard.endpoint_detected call.ts = (segments, state')

/-- A call without an error, by whether it reached the models. -/
def Step (engine : Engine F D) (state state' : StreamingState F D) (call : ChunkCall F)
    (log : ChunkLog F) : Prop :=
  match log.heard with
  | some heard => HeardStep engine state state' call heard log.segments
  | none => log.segments = [] ∧ state'.assembler = state.assembler ∧
      state'.total_frames = state.total_frames

theorem run_inference_spec {tokenizer : Tokenizer} {triplet : SessionTriplet F} {features : List F}
    {num_frames frame_offset : Nat} {decoder decoder' : DecoderState F} {inference : Inference F}
    (h : run_inference tokenizer triplet features num_frames decoder frame_offset =
      (.ok inference, decoder')) :
    (∃ enc_data, encode triplet.encoder features num_frames = .ok (enc_data, inference.enc_len)) ∧
      inference.words = tokens_to_words tokenizer inference.tokens frame_offset := by
  unfold run_inference at h
  split at h
  · simp at h
  · rename_i hencode
    split at h
    · simp at h
    · cases h
      exact ⟨⟨_, hencode⟩, rfl⟩

theorem hear_spec {engine : Engine F D} {samples : List F} {state state₁ : StreamingState F D}
    {triplet : SessionTriplet F} {heard : Option (Heard F)}
    (h : engine.hear samples state triplet = (.ok heard, state₁)) :
    state₁.assembler = state.assembler ∧ state₁.total_frames = state.total_frames ∧
      ∀ inference, heard = some inference →
        (∃ features enc_data, encode triplet.encoder features inference.num_frames =
          .ok (enc_data, inference.enc_len)) ∧
        inference.words = tokens_to_words engine.tokenizer inference.tokens state.total_frames := by
  unfold Engine.hear at h
  split_ifs at h
  · cases h
    exact ⟨rfl, rfl, by rintro _ ⟨⟩⟩
  · split at h
    · cases h
      exact ⟨rfl, rfl, by rintro _ ⟨⟩⟩
    · dsimp only at h
      split at h
      · simp at h
      · split_ifs at h
        · cases h
          exact ⟨rfl, rfl, by rintro _ ⟨⟩⟩
        · split at h
          · simp at h
          · rename_i hrun
            cases h
            refine ⟨rfl, rfl, ?_⟩
            rintro _ ⟨⟩
            obtain ⟨⟨enc_data, hencode⟩, hwords⟩ := run_inference_spec hrun
            exact ⟨⟨_, enc_data, hencode⟩, hwords⟩

/-- The words, the count of frames and the diarizer are for `process_chunk` to change. -/
theorem hear_kept (engine : Engine F D) (samples : List F) (state : StreamingState F D)
    (triplet : SessionTriplet F) :
    (engine.hear samples state triplet).2.assembler = state.assembler ∧
      (engine.hear samples state triplet).2.total_frames = state.total_frames ∧
      (engine.hear samples state triplet).2.diarization_state = state.diarization_state := by
  unfold Engine.hear
  split
  · exact ⟨rfl, rfl, rfl⟩
  · split
    · exact ⟨rfl, rfl, rfl⟩
    · dsimp only
      split
      · exact ⟨rfl, rfl, rfl⟩
      · split
        · exact ⟨rfl, rfl, rfl⟩
        · split
          · exact ⟨rfl, rfl, rfl⟩
          · exact ⟨rfl, rfl, rfl⟩

/-- A call that fails leaves the words and the count of frames as they are. -/
theorem process_chunk_error {engine : Engine F D} {state state' : StreamingState F D}
    {samples : List F} {triplet : SessionTriplet F} {ts : ℚ} {e : ChunkError}
    (h : engine.process_chunk samples state triplet ts = (.error e, state')) :
    state'.assembler = state.assembler ∧ state'.total_frames = state.total_frames := by
  obtain ⟨hwords, hframes, -⟩ := hear_kept engine samples state triplet
  unfold Engine.process_chunk at h
  split at h
  · rename_i hhear
    rw [hhear] at hwords hframes
    cases h
    exact ⟨hwords, hframes⟩
  · simp at h
  · simp at h

omit [F32 F] in
theorem deliver_diarization_state (state : StreamingState F D) (words : List (WordInfo F))
    (endpoint : Bool) (ts : ℚ) :
    (deliver state words endpoint ts).2.diarization_state = state.diarization_state := by
  unfold deliver
  split
  · rfl
  · dsimp only
    split
    · rfl
    · rfl

omit [F32 F] in
theorem label_diarizes (engine : Engine F D) (samples : List F) (state : StreamingState F D)
    (words : List (WordInfo F)) :
    (engine.label samples state words).2.diarization_state.isSome =
      state.diarization_state.isSome := by
  unfold Engine.label
  split
  · rename_i hstate _
    rw [hstate]
    rfl
  · rfl

/-- No call turns diarization on or off. -/
theorem process_chunk_diarizes (engine : Engine F D) (samples : List F)
    (state : StreamingState F D) (triplet : SessionTriplet F) (ts : ℚ) :
    (engine.process_chunk samples state triplet ts).2.diarization_state.isSome =
      state.diarization_state.isSome := by
  obtain ⟨-, -, hkept⟩ := hear_kept engine samples state triplet
  unfold Engine.process_chunk
  split
  · rename_i hhear
    rw [hhear] at hkept
    rw [hkept]
  · rename_i hhear
    rw [hhear] at hkept
    rw [hkept]
  · rename_i hhear
    rw [hhear] at hkept
    dsimp only at hkept ⊢
    rw [deliver_diarization_state, label_diarizes, hkept]

theorem process_chunk_spec {engine : Engine F D} {state state' : StreamingState F D}
    {call : ChunkCall F} {segments : List (TranscriptSegment F)}
    (h : engine.process_chunk call.samples state call.triplet call.ts = (.ok segments, state')) :
    Step engine state state' call { heard := engine.heard state call, segments } := by
  unfold Engine.process_chunk at h
  unfold Engine.heard Step
  split at h
  · simp at h
  · rename_i hhear
    obtain ⟨hassembler, hframes, -⟩ := hear_spec hhear
    cases h
    rw [hhear]
    exact ⟨rfl, hassembler, hframes⟩
  · rename_i heard state₁ hhear
    obtain ⟨hassembler, hframes, hheard⟩ := hear_spec hhear
    obtain ⟨hencode, hwords⟩ := hheard heard rfl
    rw [hhear]
    let state₂ := { state₁ with total_frames := state₁.total_frames + heard.num_frames }
    obtain ⟨hlabel, hlabelled, htotal⟩ := label_spec engine call.samples state₂ heard.words
    have hdeliver : deliver (engine.label call.samples state₂ heard.words).2
        (engine.label call.samples state₂ heard.words).1 heard.endpoint_detected call.ts =
          (segments, state') := by
      cases h
      rfl
    refine ⟨hencode, hwords, ?_, _, _, hlabelled.trans hassembler, hlabel, hdeliver⟩
    have := deliver_total_frames (engine.label call.samples state₂ heard.words).2
      (engine.label call.samples state₂ heard.words).1 heard.endpoint_detected call.ts
    rw [hdeliver] at this
    rw [this, htotal, ← hframes]

theorem run_cons {engine : Engine F D} {state last : StreamingState F D} {call : ChunkCall F}
    {calls : List (ChunkCall F)} {logs : List (ChunkLog F)}
    (h : engine.run state (call :: calls) = .ok (logs, last)) :
    ∃ log rest state', logs = log :: rest ∧ log.heard = engine.heard state call ∧
      Step engine state state' call log ∧ engine.run state' calls = .ok (rest, last) := by
  unfold Engine.run at h
  split at h
  · simp at h
  · rename_i hchunk
    obtain ⟨⟨rest, last'⟩, hrest, h⟩ := bind_eq_ok.mp h
    cases h
    exact ⟨_, _, _, rfl, rfl, process_chunk_spec hchunk, hrest⟩

/-! ## A call that reaches the models -/

theorem run_inference_steady (tokenizer : Tokenizer) {encoder : Encoder F}
    {d : List Int × List F × List F → Option (List (Value F))}
    {j : List F × List F → Option (List (Value F))} {features : List F} {num_frames : Nat}
    {E : List (Frame F)} {state : DecoderState F} {p : Progress F} (frame_offset : Nat)
    (hencode : encode encoder features num_frames = .ok (channels_first E, E.length))
    (hwalk : plain_frames (steady d) (steady j) tokenizer.blank_id 0 E (Progress.new state) =
      .ok p) :
    run_inference tokenizer { encoder, decoder := steady d, joiner := steady j } features num_frames
        state frame_offset =
      (.ok { enc_len := E.length
             tokens := p.tokens
             words := tokens_to_words tokenizer p.tokens frame_offset
             endpoint_detected := p.endpoint_detected }, p.state) := by
  unfold run_inference
  simp only [hencode, greedy_decode_eq_plain, plain_decode_channels_first, hwalk, returned]

theorem hear_of_block (engine : Engine F D) (state : StreamingState F D)
    {samples block audio_buffer features mel_power : List F} {mel_fft_input : List (Complex F)}
    {num_frames : Nat} {triplet : SessionTriplet F} {inference : Inference F} {decoder : DecoderState F}
    (hsamples : samples.isEmpty = false)
    (hblock : prepare_audio_buffer samples state.audio_buffer = (some block, audio_buffer))
    (hmel : compute_with_buffers engine.mel block state.mel_fft_input state.mel_power =
      .ok (features, num_frames, mel_fft_input, mel_power))
    (hframes : num_frames ≠ 0)
    (hrun : run_inference engine.tokenizer triplet features num_frames state.decoder
      state.total_frames = (.ok inference, decoder)) :
    engine.hear samples state triplet =
      (.ok (some { inference with num_frames }),
        { state with audio_buffer, mel_fft_input, mel_power, decoder }) := by
  unfold Engine.hear
  simp [hsamples, hblock, hmel, hframes, hrun]

/-- A call that hears something, on an engine without a diarizer. -/
theorem process_chunk_heard {engine : Engine F D} {state state₁ : StreamingState F D}
    {samples : List F} {triplet : SessionTriplet F} {heard : Heard F} (ts : ℚ)
    (h : engine.hear samples state triplet = (.ok (some heard), state₁))
    (hspeaker : engine.speaker_encoder = none) :
    engine.process_chunk samples state triplet ts =
      let (segments, state') :=
        deliver { state₁ with total_frames := state₁.total_frames + heard.num_frames } heard.words
          heard.endpoint_detected ts
      (.ok segments, state') := by
  have hlabel : ∀ state, engine.label samples state heard.words = (heard.words, state) := by
    intro state
    unfold Engine.label
    rw [hspeaker]
    split
    · simp_all
    · rfl
  unfold Engine.process_chunk
  rw [h]
  simp only [hlabel]

theorem run_of_chunk {engine : Engine F D} {state state' last : StreamingState F D}
    (call : ChunkCall F) {calls : List (ChunkCall F)} {segments : List (TranscriptSegment F)}
    {logs : List (ChunkLog F)}
    (hchunk : engine.process_chunk call.samples state call.triplet call.ts = (.ok segments, state'))
    (hrun : engine.run state' calls = .ok (logs, last)) :
    engine.run state (call :: calls) =
      .ok ({ heard := engine.heard state call, segments } :: logs, last) := by
  unfold Engine.run
  rw [hchunk]
  exact bind_eq_ok.mpr ⟨(logs, last), hrun, rfl⟩

theorem heard_of_hear {engine : Engine F D} {state state₁ : StreamingState F D} (call : ChunkCall F)
    {heard : Option (Heard F)}
    (h : engine.hear call.samples state call.triplet = (.ok heard, state₁)) :
    engine.heard state call = heard := by
  unfold Engine.heard
  rw [h]

theorem compute_features (mel : MelSpectrogram F) (samples : List F) :
    ∃ features, compute mel samples = .ok (features, frameCount samples.length) ∧
      features.length = N_MELS * frameCount samples.length := by
  have hmel := compute_with_buffers_returns mel samples (List.replicate N_FFT (0, 0))
    (Nat.le_of_eq (List.length_replicate (n := N_FFT / 2 + 1) (a := (0 : F))))
  unfold compute
  generalize compute_with_buffers mel samples _ _ = r at hmel ⊢
  match r, hmel with
  | .ok (features, num_frames, mel_fft_input, mel_power), .ok ⟨hcount, hlength, _⟩ =>
    dsimp only at hcount hlength
    subst hcount
    exact ⟨features, rfl, hlength⟩

theorem transcribe_samples_heard (engine : Engine F D)
    {diarizer_run : Diarization F D → List F → Option (List SpeakerTurn)}
    {samples features : List F} {triplet : SessionTriplet F} {num_frames : Nat}
    {inference : Inference F} {state : DecoderState F}
    (hcompute : compute engine.mel samples = .ok (features, num_frames))
    (hrun : run_inference engine.tokenizer triplet features num_frames
      (DecoderState.new engine.tokenizer.blank_id) 0 = (.ok inference, state))
    (hspeaker : engine.speaker_encoder = none) :
    ∃ result, engine.transcribe_samples diarizer_run samples triplet = .ok result ∧
      result.words = inference.words := by
  unfold Engine.transcribe_samples
  rw [hcompute]
  dsimp only
  rw [hrun, hspeaker]
  exact ⟨_, rfl, rfl⟩

/-! ## A stream on fixed inputs -/

def flat_mel : MelSpectrogram Int where
  window := List.replicate N_FFT 1
  mel_filterbank := List.replicate N_MELS (List.replicate (N_FFT / 2 + 1) 1)
  fft := id
  window_length := List.length_replicate
  filterbank_length := List.length_replicate
  filter_length filter h := by rw [List.eq_of_mem_replicate h, List.length_replicate]
  fft_length _ := rfl

/-- One frame of sound for every four mel frames, the last four perhaps in part. -/
def subsampling_encoder : List Int × List Int → Option (List (Value Int))
  | (_, length) =>
    let enc_len := (length.sum.toNat + 3) / 4
    some [.f32 (channels_first (List.replicate enc_len sound)), .i32 [enc_len]]

theorem encode_subsampling {num_frames : Nat} {features : List Int}
    (h : features.length = N_MELS * num_frames) :
    encode (steady subsampling_encoder) features num_frames =
      .ok (channels_first (List.replicate ((num_frames + 3) / 4) sound), (num_frames + 3) / 4) := by
  simp [encode, from_array_view, h, steady, subsampling_encoder, context, index,
    Value.try_extract_f32, Value.try_extract_i32, bind, Except.bind, pure, Except.pure]
  rw [if_pos (by omega)]
  simp only [Except.ok.injEq, Prod.mk.injEq, true_and]
  omega

/-- `token` on a frame with sound, unless it was the last token, else a blank. -/
def says_joiner (token : Nat) : List Int × List Int → Option (List (Value Int))
  | (enc, dec) =>
    if enc.head? = some 1 ∧ dec.head? ≠ some (token : Int) then
      some [.f32 ((List.replicate 3 (-1000)).set token 0)]
    else some [.f32 [0, -1000, -1000]]

def yes_engine : Engine Int Unit where
  tokenizer := { tokens := ["<blk>".toList, "▁yes".toList, "▁no".toList], blank_id := 0 }
  mel := flat_mel
  speaker_encoder := none

def says_triplet (token : Nat) : SessionTriplet Int where
  encoder := steady subsampling_encoder
  decoder := steady echo_decoder
  joiner := steady (says_joiner token)

def says_call (token n : Nat) : ChunkCall Int :=
  { samples := List.replicate n 1, triplet := says_triplet token, ts := 0 }

@[simp] theorem says_call_samples (token n : Nat) :
    (says_call token n).samples = List.replicate n 1 := rfl

@[simp] theorem says_call_triplet (token n : Nat) :
    (says_call token n).triplet = says_triplet token := rfl

@[simp] theorem says_call_ts (token n : Nat) : (says_call token n).ts = 0 := rfl

def yes_call (n : Nat) : ChunkCall Int := says_call 1 n
def no_call (n : Nat) : ChunkCall Int := says_call 2 n

/-- After a call that left no samples. -/
structure Paused (token : Int) (blanks : Nat) (state : StreamingState Int Unit) : Prop where
  decoder : state.decoder =
    { DecoderState.new 0 with prev_token := token, consecutive_blanks := blanks }
  audio_buffer : state.audio_buffer = []
  mel_power : state.mel_power.length ≤ N_FFT / 2 + 1

theorem paused_create_state : Paused 0 0 (yes_engine.create_state none) :=
  ⟨rfl, rfl, Nat.zero_le _⟩

/-- The loops over `frames` frames of sound emit `token` at the first of them. -/
def Says (token frames : Nat) (prev : Int) (blanks : Nat) : Prop :=
  plain_frames (steady echo_decoder) (steady (says_joiner token)) 0 0 (List.replicate frames sound)
      (Progress.new
        { DecoderState.new 0 with prev_token := prev, consecutive_blanks := blanks }) =
    .ok { tokens := [⟨token, 0, 1⟩]
          endpoint_detected := decide (ENDPOINT_BLANK_THRESHOLD ≤ frames)
          state := { DecoderState.new 0 with prev_token := token, consecutive_blanks := frames } }

instance (token frames : Nat) (prev : Int) (blanks : Nat) :
    Decidable (Says token frames prev blanks) :=
  inferInstanceAs (Decidable (_ = _))

/-- What the models make of a call that says `token`. -/
def said (token num_frames total_frames : Nat) : Heard Int where
  enc_len := (num_frames + 3) / 4
  tokens := [⟨token, 0, 1⟩]
  words := tokens_to_words yes_engine.tokenizer [⟨token, 0, 1⟩] total_frames
  endpoint_detected := decide (ENDPOINT_BLANK_THRESHOLD ≤ (num_frames + 3) / 4)
  num_frames

/-- Samples that `num_frames` mel frames use up. -/
structure UsedUp (num_frames : Nat) (samples : List Int) : Prop where
  ne_nil : samples ≠ []
  block : prepare_audio_buffer samples [] = (some samples, [])
  frames : frameCount samples.length = num_frames

theorem used_up_replicate {n num_frames : Nat} (hn : N_FFT ≤ n) (hroom : n ≤ MAX_BUFFER_SAMPLES)
    (huse : usable n = n) (hframes : frameCount n = num_frames) (x : Int) :
    UsedUp num_frames (List.replicate n x) where
  ne_nil := by
    have hpos : 0 < N_FFT := by decide
    simp
    omega
  block := by
    have htrimmed : trimmed ([] ++ List.replicate n x) = List.replicate n x := by
      unfold trimmed
      rw [List.nil_append, List.length_replicate, Nat.sub_eq_zero_of_le hroom, List.drop_zero]
    have hblock : ¬ ([] : List Int).length + (List.replicate n x).length < N_FFT := by
      rw [List.length_nil, List.length_replicate]
      omega
    rw [prepare_audio_buffer_block hblock, htrimmed, List.length_replicate, huse]
    simp
  frames := by rw [List.length_replicate, hframes]

theorem used_up_frame (x : Int) : UsedUp 1 (List.replicate 320 x) :=
  used_up_replicate (by decide) (by decide) (by decide) (by decide) x

section Says

variable {state : StreamingState Int Unit} {prev : Int} {blanks token num_frames : Nat}
  {samples : List Int}

theorem says_heard (hstate : Paused prev blanks state) (hsamples : UsedUp num_frames samples)
    (hword : Says token ((num_frames + 3) / 4) prev blanks) :
    ∃ mel_fft_input mel_power, mel_power.length ≤ N_FFT / 2 + 1 ∧
      yes_engine.hear samples state (says_triplet token) =
        (.ok (some (said token num_frames state.total_frames)),
          { state with
            audio_buffer := []
            mel_fft_input
            mel_power
            decoder :=
              { DecoderState.new 0 with
                prev_token := token
                consecutive_blanks := (num_frames + 3) / 4 } }) := by
  have hmel := compute_with_buffers_returns flat_mel samples state.mel_fft_input hstate.mel_power
  generalize hfeatures :
    compute_with_buffers flat_mel samples state.mel_fft_input state.mel_power = r at hmel
  match r, hmel with
  | .ok (features, count, mel_fft_input, mel_power), .ok ⟨hcount, hlength, hpower⟩ =>
    dsimp only at hcount hlength hpower
    obtain rfl : count = num_frames := hcount.trans hsamples.frames
    have hframes : count ≠ 0 := by
      rw [hcount, frameCount]
      split_ifs
      · decide
      · exact Nat.succ_ne_zero _
    have hencode := encode_subsampling hlength
    rw [Says, ← hstate.decoder] at hword
    have hrun := run_inference_steady yes_engine.tokenizer state.total_frames
      (by rw [List.length_replicate]; exact hencode) hword
    rw [List.length_replicate] at hrun
    refine ⟨mel_fft_input, mel_power, hpower,
      hear_of_block yes_engine state ?_ ?_ hfeatures hframes hrun⟩
    · simpa using hsamples.ne_nil
    · rw [hstate.audio_buffer]
      exact hsamples.block

/-- A call that says a word gives one segment, final at an endpoint. -/
theorem says_chunk (ts : ℚ) (hstate : Paused prev blanks state) (hsamples : UsedUp num_frames samples)
    (hword : Says token ((num_frames + 3) / 4) prev blanks)
    (hwords : (said token num_frames state.total_frames).words ≠ []) :
    ∃ seg state', yes_engine.process_chunk samples state (says_triplet token) ts =
        (.ok [seg], state') ∧
      state'.total_frames = state.total_frames + num_frames ∧
      if ENDPOINT_BLANK_THRESHOLD ≤ (num_frames + 3) / 4 then
        seg.is_final = true ∧ Paused token 0 state'
      else
        seg = state'.assembler.partial_segment ts ∧ Paused token ((num_frames + 3) / 4) state' ∧
          state'.assembler =
            state.assembler.append (said token num_frames state.total_frames).words := by
  obtain ⟨mel_fft_input, mel_power, hpower, hheard⟩ := says_heard hstate hsamples hword
  rw [process_chunk_heard ts hheard rfl]
  unfold deliver
  rw [if_neg (by simp [hwords])]
  by_cases hend : ENDPOINT_BLANK_THRESHOLD ≤ (num_frames + 3) / 4
  · have hend' : (said token num_frames state.total_frames).endpoint_detected = true :=
      decide_eq_true hend
    simp only [hend', hend, if_true]
    exact ⟨_, _, rfl, rfl, rfl, rfl, rfl, hpower⟩
  · have hend' : (said token num_frames state.total_frames).endpoint_detected = false :=
      decide_eq_false hend
    simp only [hend', hend, Bool.false_eq_true, if_false]
    exact ⟨_, _, rfl, rfl, rfl, ⟨rfl, rfl, hpower⟩, rfl⟩

end Says

/-! ### A call of one frame, and one after it -/

theorem says_yes : Says 1 1 0 0 := by
  decide +kernel

theorem says_no : Says 2 1 1 1 := by
  decide +kernel

/-- A frame of any samples, after which the word `yes` is pending. -/
theorem yes_chunk (x : Int) (ts : ℚ) :
    ∃ seg state', yes_engine.process_chunk (List.replicate 320 x) (yes_engine.create_state none)
        (says_triplet 1) ts = (.ok [seg], state') ∧
      seg = state'.assembler.partial_segment ts ∧ Paused 1 1 state' ∧ state'.total_frames = 1 ∧
      state'.assembler = TranscriptAssembler.new.append (said 1 1 0).words := by
  obtain ⟨seg, state', hchunk, htotal, hseg⟩ := says_chunk ts paused_create_state
    (used_up_frame x) says_yes nofun
  obtain ⟨hsegment, hpaused, hassembler⟩ := hseg
  exact ⟨seg, state', hchunk, hsegment, hpaused, htotal, hassembler⟩

theorem heard_says_call {state : StreamingState Int Unit} {prev : Int}
    {blanks token num_frames n : Nat} (hstate : Paused prev blanks state)
    (hused : UsedUp num_frames (List.replicate n 1))
    (hword : Says token ((num_frames + 3) / 4) prev blanks) :
    yes_engine.heard state (says_call token n) = some (said token num_frames state.total_frames) := by
  obtain ⟨_, _, -, hheard⟩ := says_heard hstate hused hword
  rw [← says_call_samples token, ← says_call_triplet token n] at hheard
  exact heard_of_hear _ hheard

/-- One call of up to four frames. -/
theorem yes_run {num_frames n : Nat} (hused : UsedUp num_frames (List.replicate n 1))
    (hfour : (num_frames + 3) / 4 = 1) :
    ∃ segments last, yes_engine.run (yes_engine.create_state none) [yes_call n] =
      .ok ([{ heard := some (said 1 num_frames 0), segments }], last) := by
  have hword : Says 1 ((num_frames + 3) / 4) 0 0 := by
    rw [hfour]
    exact says_yes
  obtain ⟨seg, last, hchunk, -⟩ := says_chunk 0 paused_create_state hused hword nofun
  rw [← says_call_samples 1, ← says_call_triplet 1 n, ← says_call_ts 1 n] at hchunk
  refine ⟨[seg], last, ?_⟩
  rw [yes_call, run_of_chunk _ hchunk rfl, heard_says_call paused_create_state hused hword]
  rfl

/-- Two calls of one frame. -/
theorem yes_no_run :
    ∃ segments segments' last,
      yes_engine.run (yes_engine.create_state none) [yes_call 320, no_call 320] =
        .ok ([{ heard := some (said 1 1 0), segments },
          { heard := some (said 2 1 1), segments := segments' }], last) := by
  obtain ⟨seg, state, hchunk, -, hpaused, htotal, -⟩ := yes_chunk 1 0
  obtain ⟨seg', last, hchunk', -⟩ := says_chunk 0 hpaused (used_up_frame 1) says_no nofun
  have hfirst := heard_says_call paused_create_state (used_up_frame 1) says_yes
  have hheard := heard_says_call hpaused (used_up_frame 1) says_no
  rw [htotal] at hheard
  rw [← says_call_samples 1, ← says_call_triplet 1 320, ← says_call_ts 1 320] at hchunk
  rw [← says_call_samples 2, ← says_call_triplet 2 320, ← says_call_ts 2 320] at hchunk'
  refine ⟨[seg], [seg'], last, ?_⟩
  rw [yes_call, no_call, run_of_chunk _ hchunk (run_of_chunk _ hchunk' rfl), hheard, hfirst]
  rfl

end Gigastt.Streaming
