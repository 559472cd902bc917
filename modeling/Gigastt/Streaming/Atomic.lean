import Gigastt.Streaming.Runs

/-!
# A call that fails midway

The words and the count of frames survive a failed call. The samples are drained before the
models run, and the decoder's state moves with them.
-/

namespace Gigastt.Streaming

open Decode Words

variable {F D : Type}

/-! ## Sizes -/

/-- The sizes of the decoder's vectors. -/
def DecoderState.Sized (state : DecoderState F) : Prop :=
  state.h.length = PRED_HIDDEN ∧ state.c.length = PRED_HIDDEN

/-- The sizes that `create_state` gives, and that no call changes. -/
structure StreamingState.Sized (state : StreamingState F D) : Prop where
  decoder : DecoderState.Sized state.decoder
  mel_power : state.mel_power.length ≤ N_FFT / 2 + 1

theorem leaving_sized {α : Type} {state : DecoderState F} (h : DecoderState.Sized state)
    (x : Except Fault α) :
    ResultSpec (fun _ => True) (fun e => DecoderState.Sized e.2) (leaving state x) := by
  cases x with
  | ok a => exact .ok trivial
  | error e => exact .error h

theorem decoder_call_sized (decoder : Decoder F) {l : Locals F} (h : DecoderState.Sized l.state) :
    ResultSpec (fun r => DecoderState.Sized r.2.state) (fun e => DecoderState.Sized e.2)
      (l.decoder_call decoder) := by
  unfold Locals.decoder_call
  split_ifs
  · dsimp only
    split
    · exact .ok h
    · exact .error h
  · exact (leaving_sized h _).bind fun out _ => .ok h

theorem commit_sized {p : Progress F} (h : DecoderState.Sized p.state) (out : DecoderOutput F)
    (token t : Nat) (confidence : F) :
    ResultSpec (fun p' => DecoderState.Sized p'.state) (fun e => DecoderState.Sized e.2)
      (p.commit out token t confidence) := by
  obtain ⟨hh, hc⟩ := h
  unfold Progress.commit
  split_ifs with hshape
  · exact .error ⟨hh, hc⟩
  · obtain ⟨hnew_h, hnew_c⟩ := not_or.mp hshape
    rw [not_not] at hnew_h hnew_c
    have hcopy_h : copy_from_slice p.state.h out.new_h = .ok out.new_h :=
      if_pos (hh.trans hnew_h.symm)
    have hcopy_c : copy_from_slice p.state.c out.new_c = .ok out.new_c :=
      if_pos (hc.trans hnew_c.symm)
    dsimp only
    rw [hcopy_h]
    simp only [leaving, bind, Except.bind]
    rw [hcopy_c]
    exact .ok ⟨hnew_h, hnew_c⟩

section Calls

variable [F32 F]

theorem decode_pass_sized (decoder : Decoder F) (joiner : Joiner F) (blank_id t : Nat)
    (enc_frame : List F) (s : Locals F × Nat) (h : DecoderState.Sized s.1.state) :
    ResultSpec (Turn.Holds (fun s => DecoderState.Sized s.1.state) fun l => DecoderState.Sized l.state)
      (fun e => DecoderState.Sized e.2) (decode_pass decoder joiner blank_id t enc_frame s) := by
  unfold decode_pass
  apply (decoder_call_sized decoder h).bind
  rintro ⟨out, l⟩ hl
  apply (leaving_sized hl _).bind
  intro logits_buf _
  dsimp only at hl ⊢
  unfold Locals.classify
  split_ifs
  · exact .ok (.stop hl)
  · exact .ok (.stop hl)
  · exact (commit_sized hl _ _ _ _).bind fun p hp => .ok (.next hp)

theorem decode_frame_sized (decoder : Decoder F) (joiner : Joiner F) (encoded : List F)
    (encoded_len blank_id t : Nat) (l : Locals F) (h : DecoderState.Sized l.state) :
    ResultSpec (fun l => DecoderState.Sized l.state) (fun e => DecoderState.Sized e.2)
      (decode_frame decoder joiner encoded encoded_len blank_id l t) := by
  unfold decode_frame
  apply (leaving_sized h _).bind
  intro enc_frame _
  exact Loop.run_spec _ (decode_pass_sized decoder joiner blank_id t enc_frame) (l, 0) h

theorem greedy_decode_sized (decoder : Decoder F) (joiner : Joiner F) (encoded : List F)
    (encoded_len blank_id : Nat) {state : DecoderState F} (h : DecoderState.Sized state) :
    DecoderState.Sized (greedy_decode decoder joiner encoded encoded_len blank_id state).2 := by
  have hspec := foldlM_spec
    (fun t (_ : t ∈ List.range encoded_len) =>
      decode_frame_sized decoder joiner encoded encoded_len blank_id t)
    (Locals.new state) h
  unfold greedy_decode
  split_ifs
  · exact h
  · generalize (List.range encoded_len).foldlM
      (decode_frame decoder joiner encoded encoded_len blank_id) (Locals.new state) = x at hspec ⊢
    match hspec with
    | .ok h => exact h
    | .error h => exact h

theorem run_inference_sized (tokenizer : Tokenizer) (triplet : SessionTriplet F) (features : List F)
    (num_frames : Nat) {state : DecoderState F} (frame_offset : Nat) (h : DecoderState.Sized state) :
    DecoderState.Sized
      (run_inference tokenizer triplet features num_frames state frame_offset).2 := by
  unfold run_inference
  split
  · exact h
  · rename_i enc_data enc_len _
    have hdecode := greedy_decode_sized triplet.decoder triplet.joiner enc_data enc_len
      tokenizer.blank_id h
    split
    · rename_i hrun
      rwa [hrun] at hdecode
    · rename_i hrun
      rwa [hrun] at hdecode

theorem hear_sized (engine : Engine F D) (samples : List F) {state : StreamingState F D}
    (triplet : SessionTriplet F) (h : state.Sized) : (engine.hear samples state triplet).2.Sized := by
  obtain ⟨hdecoder, hpower⟩ := h
  unfold Engine.hear
  split
  · exact ⟨hdecoder, hpower⟩
  · split
    · exact ⟨hdecoder, hpower⟩
    · rename_i block _ _
      have hmel := compute_with_buffers_returns engine.mel block state.mel_fft_input hpower
      dsimp only
      split
      · exact ⟨hdecoder, hpower⟩
      · rename_i features num_frames _ _ hcompute
        rw [hcompute] at hmel
        obtain ⟨-, -, hpower⟩ := match hmel with | .ok h => h
        have hrun := run_inference_sized engine.tokenizer triplet features num_frames
          state.total_frames hdecoder
        split
        · exact ⟨hdecoder, hpower⟩
        · split
          · rename_i hrun'
            rw [hrun'] at hrun
            exact ⟨hrun, hpower⟩
          · rename_i hrun'
            rw [hrun'] at hrun
            exact ⟨hrun, hpower⟩

theorem sized_create_state (engine : Engine F D) (diarization_state : Option D) :
    (engine.create_state diarization_state).Sized :=
  ⟨⟨List.length_replicate, List.length_replicate⟩, Nat.zero_le _⟩

/-- No call changes the sizes, whether it fails or not. -/
theorem process_chunk_sized (engine : Engine F D) (samples : List F) {state : StreamingState F D}
    (triplet : SessionTriplet F) (ts : ℚ) (h : state.Sized) :
    (engine.process_chunk samples state triplet ts).2.Sized := by
  have hheard := hear_sized engine samples triplet h
  unfold Engine.process_chunk
  split
  · rename_i hhear
    rwa [hhear] at hheard
  · rename_i hhear
    rwa [hhear] at hheard
  · rename_i heard state₁ hhear
    rw [hhear] at hheard
    have hlabel : (engine.label samples { state₁ with
        total_frames := state₁.total_frames + heard.num_frames } heard.words).2.Sized := by
      unfold Engine.label
      split
      · exact ⟨hheard.decoder, hheard.mel_power⟩
      · exact ⟨hheard.decoder, hheard.mel_power⟩
    dsimp only
    unfold deliver
    split
    · exact hlabel
    · dsimp only
      split
      · exact ⟨hlabel.decoder, hlabel.mel_power⟩
      · exact ⟨hlabel.decoder, hlabel.mel_power⟩

/-! ## Sessions that fail at the second frame -/

def two_frames : Encoder F :=
  fun _ _ => some [.f32 (channels_first (List.replicate 2 fun _ => 0)), .i32 [2]]

def zeros_decoder : Decoder F :=
  fun _ _ => some [.f32 (List.replicate PRED_HIDDEN 0), .f32 [], .f32 []]

/-- No logits make a blank. -/
def blank_joiner : Joiner F := fun call _ => if call = 1 then some [.f32 []] else none

def failing_sessions : SessionTriplet F :=
  { encoder := two_frames, decoder := zeros_decoder, joiner := blank_joiner }

theorem run_decoder_zeros {state : DecoderState F} (h : DecoderState.Sized state) (call : Nat) :
    run_decoder zeros_decoder call state =
      .ok { dec_data := List.replicate PRED_HIDDEN 0, new_h := [], new_c := [] } := by
  obtain ⟨hh, hc⟩ := h
  unfold run_decoder zeros_decoder
  simp [from_array_view, hh, hc, context, index, Value.try_extract_f32, bind, Except.bind, pure,
    Except.pure]

theorem run_joiner_blank (call : Nat) :
    run_joiner_single blank_joiner call (List.replicate ENC_DIM (0 : F))
        (List.replicate PRED_HIDDEN 0) =
      if call = 1 then .ok [] else .error (.err ["Joiner inference failed"]) := by
  unfold run_joiner_single blank_joiner
  split
  · simp [from_array_view, context, index, Value.try_extract_f32, bind, Except.bind]
  · simp [from_array_view, context, bind, Except.bind]

/-- The locals after a first frame that is blank. -/
def after_blank (state : DecoderState F) : Locals F where
  toProgress := (Progress.new state).count_blank
  decoder_calls := 1
  joiner_calls := 1
  skipped_decoder_calls := 0
  cached_decoder_output := some { dec_data := List.replicate PRED_HIDDEN 0, new_h := [], new_c := [] }
  in_blank_run := true

theorem extract_zeros {t : Nat} (ht : t < 2) :
    extract_encoder_frame (channels_first (List.replicate 2 fun _ => (0 : F))) 2 t =
      .ok (List.replicate ENC_DIM 0) := by
  have hlen : (List.replicate 2 (fun _ => 0 : Frame F)).length = 2 := List.length_replicate
  have hframe := extract_channels_first (List.replicate 2 (fun _ => 0 : Frame F)) t (by rwa [hlen])
  rw [List.getElem_replicate, hlen, List.ofFn_const] at hframe
  exact hframe

theorem first_frame_blank {encoded : List F} (blank_id : Nat) {state : DecoderState F}
    (h : DecoderState.Sized state)
    (hframe : extract_encoder_frame encoded 2 0 = .ok (List.replicate ENC_DIM 0)) :
    decode_frame zeros_decoder blank_joiner encoded 2 blank_id (Locals.new state) 0 =
      .ok (after_blank state) := by
  unfold decode_frame
  rw [hframe]
  simp only [leaving, bind, Except.bind]
  refine Loop.run_of_stop ?_
  simp [decode_loop, decode_pass, Locals.decoder_call, Locals.new, Progress.new, leaving,
    run_decoder_zeros h, run_joiner_blank, argmax_with_confidence, Locals.classify, after_blank, bind,
    Except.bind, pure, Except.pure]

theorem second_frame_fails {encoded : List F} (blank_id : Nat) (state : DecoderState F)
    (hframe : extract_encoder_frame encoded 2 1 = .ok (List.replicate ENC_DIM 0)) :
    decode_frame zeros_decoder blank_joiner encoded 2 blank_id (after_blank state) 1 =
      .error (.err ["Joiner inference failed"], (Progress.new state).count_blank.state) := by
  unfold decode_frame
  rw [hframe]
  simp only [leaving, bind, Except.bind]
  refine Loop.run_of_error ?_
  simp [decode_loop, decode_pass, Locals.decoder_call, after_blank, leaving, run_joiner_blank, bind,
    Except.bind]

/-- One blank is counted by the time the joiner fails. -/
theorem greedy_decode_fails {encoded : List F} (blank_id : Nat) {state : DecoderState F}
    (h : DecoderState.Sized state) (hlen : encoded.length = ENC_DIM * 2)
    (hframes : ∀ t < 2, extract_encoder_frame encoded 2 t = .ok (List.replicate ENC_DIM 0)) :
    greedy_decode zeros_decoder blank_joiner encoded 2 blank_id state =
      (.error (.err ["Joiner inference failed"]), (Progress.new state).count_blank.state) := by
  unfold greedy_decode
  rw [if_neg (by omega), show List.range 2 = [0, 1] from rfl, List.foldlM_cons,
    first_frame_blank blank_id h (hframes 0 (by decide))]
  simp only [bind, Except.bind, List.foldlM_cons,
    second_frame_fails blank_id state (hframes 1 (by decide))]
  rfl

omit [F32 F] in
theorem encode_frames (enc_data : List F) (enc_len : Nat) {features : List F} {num_frames : Nat}
    (h : features.length = N_MELS * num_frames) :
    encode (fun _ _ => some [.f32 enc_data, .i32 [enc_len]]) features num_frames =
      .ok (enc_data, enc_len) := by
  simp [encode, from_array_view, h, context, index, Value.try_extract_f32, Value.try_extract_i32,
    bind, Except.bind, pure, Except.pure]

theorem run_inference_of_decode_error (tokenizer : Tokenizer) {triplet : SessionTriplet F}
    {features enc_data : List F} {num_frames enc_len : Nat} {state state' : DecoderState F} {e : Fault}
    (frame_offset : Nat) (hencode : encode triplet.encoder features num_frames = .ok (enc_data, enc_len))
    (hdecode : greedy_decode triplet.decoder triplet.joiner enc_data enc_len tokenizer.blank_id state =
      (.error e, state')) :
    run_inference tokenizer triplet features num_frames state frame_offset = (.error e, state') := by
  unfold run_inference
  rw [hencode]
  dsimp only
  rw [hdecode]

theorem run_inference_fails (tokenizer : Tokenizer) {features : List F} {num_frames : Nat}
    {state : DecoderState F} (frame_offset : Nat) (h : DecoderState.Sized state)
    (hfeatures : features.length = N_MELS * num_frames) :
    run_inference tokenizer failing_sessions features num_frames state frame_offset =
      (.error (.err ["Joiner inference failed"]), (Progress.new state).count_blank.state) := by
  have hlen : (channels_first (List.replicate 2 fun _ => (0 : F))).length = ENC_DIM * 2 := by
    rw [channels_first_length, List.length_replicate]
  have hencode : encode failing_sessions.encoder features num_frames =
      .ok (channels_first (List.replicate 2 fun _ => (0 : F)), 2) := encode_frames _ 2 hfeatures
  exact run_inference_of_decode_error tokenizer frame_offset hencode
    (greedy_decode_fails tokenizer.blank_id h hlen fun t ht => extract_zeros ht)

/-! ## What survives a failure -/

/-- What `process_chunk` must leave alone when it fails. -/
structure Untouched (state state' : StreamingState F D) : Prop where
  decoder : state'.decoder = state.decoder
  total_frames : state'.total_frames = state.total_frames
  audio_buffer : state'.audio_buffer = state.audio_buffer
  assembler : state'.assembler = state.assembler

/-- Whatever the sessions do, a call on these samples that fails has changed nothing. -/
def Atomic (engine : Engine F D) (samples : List F) (state : StreamingState F D) : Prop :=
  ∀ triplet ts source state', engine.process_chunk samples state triplet ts =
    (.error (.Inference source), state') → Untouched state state'

/-- No block of samples reaches the models. -/
def NoBlock (samples : List F) (state : StreamingState F D) : Prop :=
  samples = [] ∨ state.audio_buffer.length + samples.length < N_FFT

theorem process_chunk_without_block (engine : Engine F D) {samples : List F}
    {state : StreamingState F D} (h : NoBlock samples state) (triplet : SessionTriplet F) (ts : ℚ) :
    (engine.process_chunk samples state triplet ts).1 = .ok [] := by
  unfold Engine.process_chunk Engine.hear
  by_cases hempty : samples.isEmpty
  · rw [if_pos hempty]
  · have hshort := h.resolve_left (by simpa using hempty)
    rw [if_neg hempty, prepare_audio_buffer_short hshort]

theorem hear_fails (engine : Engine F D) {samples block audio_buffer : List F}
    {state : StreamingState F D} (hstate : state.Sized) (hne : samples ≠ [])
    (hprepare : prepare_audio_buffer samples state.audio_buffer = (some block, audio_buffer)) :
    ∃ state', engine.hear samples state failing_sessions =
        (.error (.err ["Joiner inference failed"]), state') ∧
      state'.decoder = (Progress.new state.decoder).count_blank.state := by
  have hmel := compute_with_buffers_returns engine.mel block state.mel_fft_input hstate.mel_power
  unfold Engine.hear
  rw [if_neg (by simpa using hne), hprepare]
  dsimp only
  match hcompute : compute_with_buffers engine.mel block state.mel_fft_input state.mel_power, hmel with
  | .ok (features, num_frames, mel_fft_input, mel_power), .ok ⟨hcount, hfeatures, _⟩ =>
    have hpos : num_frames ≠ 0 := by
      intro hzero
      have := hcount.symm.trans hzero
      unfold frameCount at this
      split at this
      · simp at this
      · simp at this
    dsimp only
    rw [if_neg hpos, run_inference_fails engine.tokenizer _ hstate.decoder hfeatures]
    exact ⟨_, rfl, rfl⟩

/-- Sessions that fail at the second frame leave a blank counted. -/
theorem process_chunk_fails (engine : Engine F D) {samples : List F} {state : StreamingState F D}
    (hstate : state.Sized) (h : ¬ NoBlock samples state) (ts : ℚ) :
    ∃ state', engine.process_chunk samples state failing_sessions ts =
        (.error (.Inference ["Joiner inference failed"]), state') ∧
      state'.decoder = (Progress.new state.decoder).count_blank.state := by
  obtain ⟨hne, hblock⟩ := not_or.mp h
  obtain ⟨state', hhear, hdecoder⟩ :=
    hear_fails engine hstate hne (prepare_audio_buffer_block hblock)
  refine ⟨state', ?_, hdecoder⟩
  unfold Engine.process_chunk
  rw [hhear]
  rfl

/-- The words and the count of frames survive every failure. The decoder's state and the
buffered samples do exactly when no block reaches the models. -/
theorem process_chunk_atomic_iff (engine : Engine F D) (samples : List F)
    (state : StreamingState F D) :
    (∀ triplet ts source state', engine.process_chunk samples state triplet ts =
        (.error (.Inference source), state') →
      state'.assembler = state.assembler ∧ state'.total_frames = state.total_frames) ∧
      (NoBlock samples state → Atomic engine samples state) ∧
      (state.Sized → (Atomic engine samples state ↔ NoBlock samples state)) := by
  have henough : NoBlock samples state → Atomic engine samples state := by
    intro h triplet ts source state' hchunk
    have hok := process_chunk_without_block engine h triplet ts
    rw [hchunk] at hok
    simp at hok
  refine ⟨fun triplet ts source state' h => process_chunk_error h, henough, fun hstate => ?_⟩
  refine ⟨fun hatomic => ?_, henough⟩
  by_contra hblock
  obtain ⟨state', hchunk, hdecoder⟩ := process_chunk_fails engine hstate hblock 0
  have hblanks := congrArg DecoderState.consecutive_blanks
    (hdecoder.symm.trans (hatomic _ _ _ _ hchunk).decoder)
  simp [Progress.count_blank, Progress.new] at hblanks

end Calls

/-! ## A failure on fixed inputs -/

/-- The joiner fails at the second frame of the first chunk. -/
theorem failed_chunk_counts_blank :
    ∃ state', yes_engine.process_chunk (List.replicate 320 1) (yes_engine.create_state none)
        failing_sessions 0 = (.error (.Inference ["Joiner inference failed"]), state') ∧
      state'.decoder ≠ (yes_engine.create_state none).decoder := by
  have hblock : ¬ NoBlock (List.replicate 320 (1 : Int)) (yes_engine.create_state none) := by
    rintro (hempty | hshort)
    · exact absurd (congrArg List.length hempty) (by rw [List.length_replicate]; decide)
    · rw [List.length_replicate] at hshort
      exact absurd hshort (by decide)
  obtain ⟨state', hchunk, hdecoder⟩ :=
    process_chunk_fails yes_engine (sized_create_state yes_engine none) hblock 0
  refine ⟨state', hchunk, fun hsame => ?_⟩
  have hblanks := congrArg DecoderState.consecutive_blanks (hdecoder.symm.trans hsame)
  simp [Progress.count_blank, Progress.new] at hblanks

end Gigastt.Streaming
