import Gigastt.Streaming.Atomic

/-!
# Buffers that outlive a call

The spectrogram overwrites what it reads of its buffers, as long as `power` holds one entry for
each bin. In a longer one the sum over `power` runs past the end of the filter.
-/

namespace Gigastt.Streaming

variable {F : Type} [F32 F]

/-- The call on these buffers returns what the call on fresh ones returns. -/
def Agrees (mel : MelSpectrogram F) (samples : List F) (fft_input : List (Complex F))
    (power : List F) : Prop :=
  ∃ features num_frames fft_input' power',
    compute_with_buffers mel samples fft_input power =
      .ok (features, num_frames, fft_input', power') ∧
    compute mel samples = .ok (features, num_frames)

/-! ## Two runs side by side -/

/-- The buffers that two runs hold after as many frames. -/
structure InStep (b b' : MelBuffers F) : Prop where
  output : b.output = b'.output
  power : b.power.length = N_FFT / 2 + 1
  power' : b'.power.length = N_FFT / 2 + 1

theorem mel_frame_rel (mel : MelSpectrogram F) (samples : List F) (num_frames frame_idx : Nat)
    {b b' : MelBuffers F} (h : InStep b b') :
    ResultRel InStep (· = ·) (mel_frame mel samples num_frames b frame_idx)
      (mel_frame mel samples num_frames b' frame_idx) := by
  rw [mel_frame_bind, mel_frame_bind, h.output, List.drop_of_length_le h.power.le,
    List.drop_of_length_le h.power'.le]
  refine ((ResultRel.refl _).and_spec (windowed_returns mel samples _ |>.mono (fun _ h => h) nofun)
    (ResultSpec.of_true _)).bind ?_
  rintro windowed _ ⟨rfl, hw, -⟩
  have hlen : (mel.fft windowed).length = N_FFT := (mel.fft_length windowed).trans hw
  refine ((ResultRel.refl _).and_spec (bins_returns hlen |>.mono (fun _ h => h) nofun)
    (ResultSpec.of_true _)).bind ?_
  rintro bins _ ⟨rfl, hbins, -⟩
  have hpower : (bins ++ []).length = N_FFT / 2 + 1 := by rw [List.append_nil, hbins]
  refine (ResultRel.refl _).bind ?_
  rintro output _ rfl
  exact .ok ⟨rfl, hpower, hpower⟩

/-- The features do not depend on what short buffers hold, nor on how long `fft_input` is. -/
theorem compute_with_buffers_rel (mel : MelSpectrogram F) (samples : List F)
    (fft_input fft_input' : List (Complex F)) {power power' : List F}
    (h : power.length ≤ N_FFT / 2 + 1) (h' : power'.length ≤ N_FFT / 2 + 1) :
    ResultRel (fun r r' => r.1 = r'.1 ∧ r.2.1 = r'.2.1) (· = ·)
      (compute_with_buffers mel samples fft_input power)
      (compute_with_buffers mel samples fft_input' power') := by
  have hgrown : ∀ {v : List F}, v.length ≤ N_FFT / 2 + 1 →
      (grown v (N_FFT / 2 + 1) 0).length = N_FFT / 2 + 1 := by
    intro v hv
    unfold grown
    rw [List.length_append, List.length_replicate]
    omega
  unfold compute_with_buffers
  split_ifs
  · exact .ok ⟨rfl, rfl⟩
  · refine ResultRel.bind (R := InStep) ?_ fun b b' hb => .ok ⟨hb.output, rfl⟩
    exact foldlM_rel (fun i b b' hb => mel_frame_rel mel samples _ i hb) _ _ _
      ⟨rfl, hgrown h, hgrown h'⟩

theorem agrees_of_short_power (mel : MelSpectrogram F) (samples : List F)
    (fft_input : List (Complex F)) {power : List F} (h : power.length ≤ N_FFT / 2 + 1) :
    Agrees mel samples fft_input power := by
  have hfresh : (List.replicate (N_FFT / 2 + 1) (0 : F)).length ≤ N_FFT / 2 + 1 := by
    rw [List.length_replicate]
  have hrel := compute_with_buffers_rel mel samples fft_input (List.replicate N_FFT (0, 0)) h hfresh
  have hret := compute_with_buffers_returns mel samples fft_input h
  unfold Agrees compute
  match hx : compute_with_buffers mel samples fft_input power, hret with
  | .ok (features, num_frames, fft_input', power'), .ok _ =>
    rw [hx] at hrel
    match hy : compute_with_buffers mel samples (List.replicate N_FFT (0, 0))
        (List.replicate (N_FFT / 2 + 1) (0 : F)), hrel with
    | .ok (features', num_frames', _, _), .ok ⟨hfeatures, hframes⟩ =>
      refine ⟨features, num_frames, fft_input', power', rfl, ?_⟩
      rw [show features = features' from hfeatures, show num_frames = num_frames' from hframes]
      rfl

/-! ## A `power` buffer that is too long -/

theorem mel_energy_out_of_range {filter power : List F} (h : filter.length < power.length)
    (energy : F) : mel_energy filter power energy = .error (.panic .index) := by
  induction power generalizing filter energy with
  | nil => exact absurd h (Nat.not_lt_zero _)
  | cons p power ih =>
    match filter with
    | [] => rfl
    | weight :: filter =>
      unfold mel_energy
      exact ih (by simpa using h) _

abbrev Panics {α : Type} (x : Except Fault α) : Prop :=
  ResultSpec (fun _ => False) (· = .panic .index) x

theorem mel_frame_panics (mel : MelSpectrogram F) (samples : List F) (num_frames frame_idx : Nat)
    {b : MelBuffers F} (h : N_FFT / 2 + 1 < b.power.length) :
    Panics (mel_frame mel samples num_frames b frame_idx) := by
  rw [mel_frame_bind]
  refine (windowed_returns mel samples _ |>.mono (fun _ h => h) nofun).bind fun windowed hw => ?_
  have hlen : (mel.fft windowed).length = N_FFT := (mel.fft_length windowed).trans hw
  refine (bins_returns hlen |>.mono (fun _ h => h) nofun).bind fun bins hbins => ?_
  refine ResultSpec.bind (P := fun _ => False) ?_ fun _ h => h.elim
  have hpower : N_FFT / 2 + 1 < (bins ++ b.power.drop (N_FFT / 2 + 1)).length := by
    rw [List.length_append, List.length_drop, hbins]
    omega
  match hbank : mel.mel_filterbank with
  | [] =>
    have hnone := mel.filterbank_length
    rw [hbank] at hnone
    nomatch hnone
  | filter :: filters =>
    have hfilter : filter.length = N_FFT / 2 + 1 :=
      mel.filter_length filter (hbank ▸ List.mem_cons_self)
    rw [List.zipIdx_cons, List.foldlM_cons]
    dsimp only
    rw [mel_energy_out_of_range (by omega)]
    exact .error rfl

theorem long_power_panics (mel : MelSpectrogram F) {samples : List F} (hlong : N_FFT ≤ samples.length)
    (fft_input : List (Complex F)) {power : List F} (h : N_FFT / 2 + 1 < power.length) :
    Panics (compute_with_buffers mel samples fft_input power) := by
  have hgrown : N_FFT / 2 + 1 < (grown power (N_FFT / 2 + 1) 0).length := by
    unfold grown
    rw [List.length_append]
    omega
  unfold compute_with_buffers
  rw [if_neg (by omega)]
  refine ResultSpec.bind (P := fun _ => False) ?_ fun _ h => h.elim
  rw [List.range_succ_eq_map, List.foldlM_cons]
  exact (mel_frame_panics mel samples _ 0 hgrown).bind fun _ h => h.elim

/-- With enough samples for a frame, `power` has to be no longer than the code itself makes it. -/
theorem agrees_with_compute_iff (mel : MelSpectrogram F) (samples : List F)
    (fft_input : List (Complex F)) (power : List F) :
    Agrees mel samples fft_input power ↔
      samples.length < N_FFT ∨ power.length ≤ N_FFT / 2 + 1 := by
  constructor
  · rintro ⟨features, num_frames, fft_input', power', hok, -⟩
    by_contra hneither
    obtain ⟨hlong, hpower⟩ := not_or.mp hneither
    have hpanics := long_power_panics mel (Nat.not_lt.mp hlong) fft_input (Nat.not_le.mp hpower)
    rw [hok] at hpanics
    nomatch hpanics
  · rintro (hshort | hpower)
    · refine ⟨_, _, fft_input, power, if_pos hshort, ?_⟩
      unfold compute compute_with_buffers
      rw [if_pos hshort]
      rfl
    · exact agrees_of_short_power mel samples fft_input hpower

/-- One entry more than there are bins is enough. -/
theorem long_power_disagrees :
    ¬ Agrees flat_mel (List.replicate 320 0) [] (List.replicate 162 0) := by
  intro h
  obtain ⟨features, num_frames, fft_input', power', hok, -⟩ := h
  have hlong : N_FFT ≤ (List.replicate 320 (0 : Int)).length := by rw [List.length_replicate]; rfl
  have hpower : N_FFT / 2 + 1 < (List.replicate 162 (0 : Int)).length := by
    rw [List.length_replicate]
    decide
  have hpanics := long_power_panics flat_mel hlong [] hpower
  rw [hok] at hpanics
  nomatch hpanics

/-! ## The buffers of a session -/

variable {D : Type}

/-- The state after these calls, whether they fail or not. -/
def Engine.after (engine : Engine F D) (state : StreamingState F D) (calls : List (ChunkCall F)) :
    StreamingState F D :=
  calls.foldl (fun state call => (engine.process_chunk call.samples state call.triplet call.ts).2) state

theorem after_sized (engine : Engine F D) {state : StreamingState F D} (h : state.Sized)
    (calls : List (ChunkCall F)) : (engine.after state calls).Sized := by
  unfold Engine.after
  induction calls generalizing state with
  | nil => exact h
  | cons call calls ih => exact ih (process_chunk_sized engine call.samples call.triplet call.ts h)

/-- What a session carries from call to call never shows in the features. -/
theorem session_buffers_agree (engine : Engine F D) (diarization_state : Option D)
    (calls : List (ChunkCall F)) (samples : List F) :
    Agrees engine.mel samples
      (engine.after (engine.create_state diarization_state) calls).mel_fft_input
      (engine.after (engine.create_state diarization_state) calls).mel_power :=
  agrees_of_short_power engine.mel samples _
    (after_sized engine (sized_create_state engine diarization_state) calls).mel_power

end Gigastt.Streaming
