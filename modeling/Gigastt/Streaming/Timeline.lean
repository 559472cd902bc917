import Gigastt.Decode.Passes
import Gigastt.Streaming.Timestamps

/-!
# Words follow one another

The decode loop emits its tokens frame by frame, and the words keep their order. The offset
of a chunk lies past all frames of the chunks before it.
-/

namespace Gigastt.Streaming

open Cut Decode Words

variable {F D : Type}

/-! ## Tokens -/

/-- The tokens are in the order of their frames, all before frame `t`. -/
structure InOrder (t : Nat) (tokens : List (TokenInfo F)) : Prop where
  sorted : tokens.Pairwise fun a b => a.frame_index ≤ b.frame_index
  bound : ∀ token ∈ tokens, token.frame_index < t

/-- The tokens of a decode come frame by frame, and none from past the last frame. -/
theorem greedy_decode_in_order [F32 F] {decoder : Decoder F} {joiner : Joiner F} {encoded : List F}
    {encoded_len blank_id : Nat} {state state' : DecoderState F} {result : DecodeResult F}
    (h : greedy_decode decoder joiner encoded encoded_len blank_id state = (.ok result, state')) :
    InOrder encoded_len result.tokens := by
  obtain ⟨hformed, -⟩ := greedy_decode_committed h
  exact ⟨hformed.sorted, hformed.bound⟩

/-! ## Words -/

/-- No word ends before it starts, or after a later word starts. -/
structure Timeline (words : List (WordInfo F)) : Prop where
  ordered : ∀ w ∈ words, w.start ≤ w.end_
  sequential : words.Pairwise fun w w' => w.end_ ≤ w'.start

theorem Timeline.append {words words' : List (WordInfo F)} (h : Timeline words)
    (h' : Timeline words') (hcut : ∀ w ∈ words, ∀ w' ∈ words', w.end_ ≤ w'.start) :
    Timeline (words ++ words') := by
  refine ⟨fun w hw => ?_, List.pairwise_append.mpr ⟨h.sequential, h'.sequential, hcut⟩⟩
  rcases List.mem_append.mp hw with hw | hw
  · exact h.ordered w hw
  · exact h'.ordered w hw

/-- The seconds at which an encoder frame starts. -/
def seconds (frame : Nat) : ℚ := frame * SECONDS_PER_FRAME

theorem seconds_le {frame frame' : Nat} (h : frame ≤ frame') : seconds frame ≤ seconds frame' := by
  have hpos : 0 ≤ SECONDS_PER_FRAME := by decide +kernel
  unfold seconds
  exact mul_le_mul_of_nonneg_right (Nat.cast_le.mpr h) hpos

theorem head_le_getLast {tokens : List (TokenInfo F)} (hne : tokens ≠ [])
    (h : tokens.Pairwise fun a b => a.frame_index ≤ b.frame_index) :
    (tokens.head hne).frame_index ≤ (tokens.getLast hne).frame_index := by
  match tokens, hne with
  | token :: tokens, hne =>
    rcases List.mem_cons.mp (List.getLast_mem hne) with hlast | hlast
    · rw [hlast]
      rfl
    · exact List.rel_of_pairwise_cons h hlast

section Grouped

variable [F32 F]

/-- A word lasts from a token of its group to a token of its group. -/
theorem wordOf_spec {tokenizer : Tokenizer} {frame_offset : Nat} {group : List (TokenInfo F)}
    {w : WordInfo F} (h : wordOf tokenizer frame_offset group = some w) :
    ∃ first ∈ group, ∃ last ∈ group, w.start = seconds (first.frame_index + frame_offset) ∧
      w.end_ = seconds (last.frame_index + frame_offset) ∧
      (group.Pairwise (fun a b => a.frame_index ≤ b.frame_index) →
        first.frame_index ≤ last.frame_index) := by
  by_cases hspoken : spoken tokenizer group = []
  · rw [wordOf_eq_none tokenizer hspoken] at h
    simp at h
  · rw [wordOf_eq_some tokenizer (List.head?_eq_some_head hspoken)
      (List.getLast?_eq_some_getLast hspoken)] at h
    cases h
    have hsub : (spoken tokenizer group).Sublist group := List.filter_sublist
    exact ⟨_, hsub.mem (List.head_mem hspoken), _, hsub.mem (List.getLast_mem hspoken), rfl, rfl,
      fun hsorted => head_le_getLast hspoken (hsorted.sublist hsub)⟩

/-- The words of tokens in order follow one another, from the offset on and before its end. -/
theorem words_in_order (tokenizer : Tokenizer) {enc_len : Nat} {tokens : List (TokenInfo F)}
    (h : InOrder enc_len tokens) (frame_offset : Nat) :
    Timeline (tokens_to_words tokenizer tokens frame_offset) ∧
      ∀ w ∈ tokens_to_words tokenizer tokens frame_offset,
        seconds frame_offset ≤ w.start ∧ w.end_ ≤ seconds (enc_len + frame_offset) := by
  have hflatten := groups_flatten (starts_word tokenizer) tokens
  have hsorted := h.sorted
  rw [← hflatten, List.pairwise_flatten] at hsorted
  obtain ⟨hwithin, hbetween⟩ := hsorted
  rw [tokens_to_words_eq, wordsOf]
  refine ⟨⟨fun w hw => ?_, ?_⟩, fun w hw => ?_⟩
  · obtain ⟨group, hgroup, hword⟩ := List.mem_filterMap.mp hw
    obtain ⟨first, -, last, -, hstart, hend, hle⟩ := wordOf_spec hword
    rw [hstart, hend]
    exact seconds_le (Nat.add_le_add_right (hle (hwithin group hgroup)) frame_offset)
  · rw [List.pairwise_filterMap]
    refine hbetween.imp fun {group group'} hle w hword w' hword' => ?_
    obtain ⟨-, -, last, hlast, -, hend, -⟩ := wordOf_spec hword
    obtain ⟨first, hfirst, -, -, hstart, -, -⟩ := wordOf_spec hword'
    rw [hend, hstart]
    exact seconds_le (Nat.add_le_add_right (hle last hlast first hfirst) frame_offset)
  · obtain ⟨group, hgroup, hword⟩ := List.mem_filterMap.mp hw
    obtain ⟨first, -, last, hlast, hstart, hend, -⟩ := wordOf_spec hword
    have hmem : last ∈ tokens := by
      rw [← hflatten]
      exact List.mem_flatten.mpr ⟨group, hgroup, hlast⟩
    rw [hstart, hend]
    exact ⟨seconds_le (Nat.le_add_left _ _),
      seconds_le (Nat.add_le_add_right (Nat.le_of_lt (h.bound last hmem)) frame_offset)⟩

/-! ## Runs -/

theorem run_inference_in_order {tokenizer : Tokenizer} {triplet : SessionTriplet F}
    {features : List F} {num_frames frame_offset : Nat} {decoder decoder' : DecoderState F}
    {inference : Inference F}
    (h : run_inference tokenizer triplet features num_frames decoder frame_offset =
      (.ok inference, decoder')) : InOrder inference.enc_len inference.tokens := by
  unfold run_inference at h
  split at h
  · simp at h
  · split at h
    · simp at h
    · rename_i hdecode
      cases h
      exact greedy_decode_in_order hdecode

theorem heard_in_order {engine : Engine F D} {state : StreamingState F D} {call : ChunkCall F}
    {heard : Heard F} (h : engine.heard state call = some heard) :
    InOrder heard.enc_len heard.tokens := by
  unfold Engine.heard Engine.hear at h
  split at h
  · rename_i hhear
    subst h
    split_ifs at hhear
    · simp at hhear
    · split at hhear
      · simp at hhear
      · dsimp only at hhear
        split at hhear
        · simp at hhear
        · split_ifs at hhear
          · simp at hhear
          · split at hhear
            · simp at hhear
            · rename_i hrun
              cases hhear
              exact run_inference_in_order hrun
  · simp at h

/-- The words of one call lie between the offset before it and the offset after it. -/
theorem step_timeline {engine : Engine F D} {state state' : StreamingState F D} {call : ChunkCall F}
    {log : ChunkLog F} (hheard : log.heard = engine.heard state call)
    (h : Step engine state state' call log) (henc : Shortens call.triplet.encoder) :
    Timeline log.words ∧ state.total_frames ≤ state'.total_frames ∧
      ∀ w ∈ log.words,
        seconds state.total_frames ≤ w.start ∧ w.end_ ≤ seconds state'.total_frames := by
  have htotal := step_total_frames h
  have hshort := step_shortens h henc
  unfold ChunkLog.enc_len ChunkLog.num_frames at hshort
  unfold ChunkLog.num_frames at htotal
  unfold ChunkLog.words
  unfold Step at h
  match hlog : log.heard with
  | none =>
    rw [hlog] at htotal
    exact ⟨⟨by simp, List.Pairwise.nil⟩, by omega, by simp⟩
  | some heard =>
    rw [hlog] at h htotal hshort hheard
    dsimp only at h htotal hshort ⊢
    obtain ⟨hwords, hspan⟩ :=
      words_in_order engine.tokenizer (heard_in_order hheard.symm) state.total_frames
    rw [← h.words] at hwords hspan
    refine ⟨hwords, by omega, fun w hw => ?_⟩
    obtain ⟨hstart, hend⟩ := hspan w hw
    exact ⟨hstart, hend.trans (seconds_le (by omega))⟩

theorem run_timeline {engine : Engine F D} {state last : StreamingState F D}
    {calls : List (ChunkCall F)} {logs : List (ChunkLog F)}
    (hrun : engine.run state calls = .ok (logs, last))
    (henc : ∀ call ∈ calls, Shortens call.triplet.encoder) :
    Timeline (logs.flatMap ChunkLog.words) ∧
      ∀ w ∈ logs.flatMap ChunkLog.words, seconds state.total_frames ≤ w.start := by
  induction calls generalizing state logs with
  | nil =>
    cases hrun
    exact ⟨⟨by simp, List.Pairwise.nil⟩, by simp⟩
  | cons call calls ih =>
    obtain ⟨log, rest, state', rfl, hheard, hstep, hrest⟩ := run_cons hrun
    obtain ⟨hcall, hcalls⟩ := List.forall_mem_cons.mp henc
    obtain ⟨hwords, hgrows, hspan⟩ := step_timeline hheard hstep hcall
    obtain ⟨hlater, hfrom⟩ := ih hrest hcalls
    rw [List.flatMap_cons]
    refine ⟨hwords.append hlater fun w hw w' hw' => ?_, fun w hw => ?_⟩
    · exact (hspan w hw).2.trans (hfrom w' hw')
    · rcases List.mem_append.mp hw with hw | hw
      · exact (hspan w hw).1
      · exact (seconds_le hgrows).trans (hfrom w hw)

omit [F32 F] in
theorem assign_speaker_times (turns : List SpeakerTurn) (w : WordInfo F) :
    (assign_speaker turns w).start = w.start ∧ (assign_speaker turns w).end_ = w.end_ := by
  unfold assign_speaker
  dsimp only
  split
  · exact ⟨rfl, rfl⟩
  · exact ⟨rfl, rfl⟩

omit [F32 F] in
/-- Names of speakers do not move words. -/
theorem Timeline.assign_speaker {words : List (WordInfo F)} (h : Timeline words)
    (turns : List SpeakerTurn) : Timeline (words.map (assign_speaker turns)) := by
  constructor
  · intro w hw
    obtain ⟨w, hmem, rfl⟩ := List.mem_map.mp hw
    rw [(assign_speaker_times turns w).1, (assign_speaker_times turns w).2]
    exact h.ordered w hmem
  · refine List.pairwise_map.mpr (h.sequential.imp fun {w w'} hle => ?_)
    rw [(assign_speaker_times turns w).2, (assign_speaker_times turns w').1]
    exact hle

theorem transcribe_samples_timeline {engine : Engine F D}
    {diarizer_run : Diarization F D → List F → Option (List SpeakerTurn)} {float_samples : List F}
    {triplet : SessionTriplet F} {result : TranscribeResult F}
    (h : engine.transcribe_samples diarizer_run float_samples triplet = .ok result) :
    Timeline result.words := by
  unfold Engine.transcribe_samples at h
  split at h
  · simp at h
  · split at h
    · simp at h
    · rename_i hrun
      have hwords := (words_in_order engine.tokenizer (run_inference_in_order hrun) 0).1
      rw [← (run_inference_spec hrun).2] at hwords
      cases h
      dsimp only
      split
      · exact hwords.assign_speaker _
      · exact hwords

/-- The words of a stream follow one another, across its calls, and so do those of a whole
recording. -/
theorem words_follow (engine : Engine F D)
    (diarizer_run : Diarization F D → List F → Option (List SpeakerTurn)) :
    (∀ state calls logs last, engine.run state calls = .ok (logs, last) →
      (∀ call ∈ calls, Shortens call.triplet.encoder) → Timeline (logs.flatMap ChunkLog.words)) ∧
      ∀ float_samples triplet result,
        engine.transcribe_samples diarizer_run float_samples triplet = .ok result →
          Timeline result.words :=
  ⟨fun _ _ _ _ hrun henc => (run_timeline hrun henc).1, fun _ _ _ h => transcribe_samples_timeline h⟩

end Grouped

/-! ## Two words in two calls, and in a recording -/

/-- The token after the last one on a frame with sound, while there is one, else a blank. -/
def counts_joiner : List Int × List Int → Option (List (Value Int))
  | (enc, dec) =>
    if enc.head? = some 1 ∧ dec.head? = some 0 then some [.f32 [-1000, 0, -1000]]
    else if enc.head? = some 1 ∧ dec.head? = some 1 then some [.f32 [-1000, -1000, 0]]
    else some [.f32 [0, -1000, -1000]]

def counts_triplet : SessionTriplet Int where
  encoder := steady subsampling_encoder
  decoder := steady echo_decoder
  joiner := steady counts_joiner

theorem plain_frames_counts :
    plain_frames (steady echo_decoder) (steady counts_joiner) 0 0 [sound]
        (Progress.new (DecoderState.new 0)) =
      .ok { tokens := [⟨1, 0, 1⟩, ⟨2, 0, 1⟩]
            endpoint_detected := false
            state := { DecoderState.new 0 with prev_token := 2, consecutive_blanks := 1 } } := by
  decide +kernel

theorem yes_no_recording :
    ∃ result, yes_engine.transcribe_samples (fun _ _ => none) (List.replicate 320 1) counts_triplet =
        .ok result ∧
      result.words.map WordInfo.word = ["yes".toList, "no".toList] := by
  obtain ⟨features, hcompute, hlength⟩ := compute_features flat_mel (List.replicate 320 1)
  rw [(used_up_frame 1).frames] at hcompute hlength
  have hencode : encode (steady subsampling_encoder) features 1 =
      .ok (channels_first [sound], [sound].length) := encode_subsampling hlength
  have hrun := run_inference_steady yes_engine.tokenizer 0 hencode plain_frames_counts
  obtain ⟨result, hresult, hwords⟩ := transcribe_samples_heard yes_engine hcompute hrun rfl
  refine ⟨result, hresult, ?_⟩
  rw [hwords]
  rfl

theorem words_follow_two_words :
    (∃ logs last, yes_engine.run (yes_engine.create_state none) [yes_call 320, no_call 320] =
        .ok (logs, last) ∧
      (logs.flatMap ChunkLog.words).map WordInfo.word = ["yes".toList, "no".toList] ∧
      Timeline (logs.flatMap ChunkLog.words)) ∧
    ∃ result, yes_engine.transcribe_samples (fun _ _ => none) (List.replicate 320 1) counts_triplet =
        .ok result ∧
      result.words.map WordInfo.word = ["yes".toList, "no".toList] ∧ Timeline result.words := by
  obtain ⟨hstream, hrecording⟩ := words_follow yes_engine fun _ _ => none
  constructor
  · obtain ⟨segments, segments', last, hrun⟩ := yes_no_run
    have htimeline := hstream _ _ _ _ hrun shortens_yes_no
    exact ⟨_, last, hrun, rfl, htimeline⟩
  · obtain ⟨result, hresult, hwords⟩ := yes_no_recording
    exact ⟨result, hresult, hwords, hrecording _ _ _ hresult⟩

end Gigastt.Streaming
