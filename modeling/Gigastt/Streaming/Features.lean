import Gigastt.Base
import Gigastt.Lib.Loop

/-!
# From samples to mel frames: `features.rs` and `prepare_audio_buffer`
-/

namespace Gigastt.Streaming

def MAX_BUFFER_SAMPLES : Nat := 80000

variable {F : Type}

/-! ## The sample buffer -/

/-- The frames of `audio.rs` that fit in `len` samples, in samples. -/
def usable (len : Nat) : Nat :=
  if len ≥ N_FFT then
    let num_frames := (len - N_FFT) / HOP_LENGTH + 1
    (num_frames - 1) * HOP_LENGTH + N_FFT
  else 0

/-- The block to analyse, if there is one, and the buffer that is left. -/
def prepare_audio_buffer (new_samples buffer : List F) : Option (List F) × List F :=
  let buffer := buffer ++ new_samples
  let buffer := buffer.drop (buffer.length - MAX_BUFFER_SAMPLES)
  if usable buffer.length = 0 then (none, buffer)
  else (some (buffer.take (usable buffer.length)), buffer.drop (usable buffer.length))

theorem usable_eq_zero (len : Nat) : usable len = 0 ↔ len < N_FFT := by
  unfold usable
  split
  · have hpos : 0 < N_FFT := by decide
    dsimp only
    omega
  · omega

theorem kept_lt (len : Nat) : len - (len - MAX_BUFFER_SAMPLES) < N_FFT ↔ len < N_FFT := by
  have hroom : N_FFT ≤ MAX_BUFFER_SAMPLES := by decide
  omega

/-- The last samples that the buffer has room for. -/
def trimmed (buffer : List F) : List F := buffer.drop (buffer.length - MAX_BUFFER_SAMPLES)

theorem prepare_audio_buffer_eq (samples buffer : List F) :
    prepare_audio_buffer samples buffer =
      if usable (trimmed (buffer ++ samples)).length = 0 then (none, trimmed (buffer ++ samples))
      else
        (some ((trimmed (buffer ++ samples)).take (usable (trimmed (buffer ++ samples)).length)),
          (trimmed (buffer ++ samples)).drop (usable (trimmed (buffer ++ samples)).length)) := rfl

theorem trimmed_short {samples buffer : List F} :
    (trimmed (buffer ++ samples)).length < N_FFT ↔ buffer.length + samples.length < N_FFT := by
  unfold trimmed
  rw [List.length_drop, kept_lt, List.length_append]

theorem prepare_audio_buffer_short {samples buffer : List F}
    (h : buffer.length + samples.length < N_FFT) :
    prepare_audio_buffer samples buffer = (none, trimmed (buffer ++ samples)) := by
  rw [prepare_audio_buffer_eq, if_pos ((usable_eq_zero _).mpr (trimmed_short.mpr h))]

/-- With enough samples there is a block. -/
theorem prepare_audio_buffer_block {samples buffer : List F}
    (h : ¬ buffer.length + samples.length < N_FFT) :
    prepare_audio_buffer samples buffer =
      (some ((trimmed (buffer ++ samples)).take (usable (trimmed (buffer ++ samples)).length)),
        (trimmed (buffer ++ samples)).drop (usable (trimmed (buffer ++ samples)).length)) := by
  rw [prepare_audio_buffer_eq, if_neg]
  exact fun hnone => h (trimmed_short.mp ((usable_eq_zero _).mp hnone))

/-! ## The mel spectrogram -/

abbrev Complex (F : Type) := F × F

/-- With the sizes that `MelSpectrogram::new` gives it. -/
structure MelSpectrogram (F : Type) where
  window : List F
  mel_filterbank : List (List F)
  fft : List (Complex F) → List (Complex F)
  window_length : window.length = N_FFT
  filterbank_length : mel_filterbank.length = N_MELS
  filter_length : ∀ filter ∈ mel_filterbank, filter.length = N_FFT / 2 + 1
  fft_length : ∀ input, (fft input).length = input.length

section Mel

variable [F32 F]

def norm_sqr (z : Complex F) : F := z.1 * z.1 + z.2 * z.2

/-- `resize`, where it is only used to grow. -/
def grown {α : Type} (v : List α) (len : Nat) (value : α) : List α :=
  v ++ List.replicate (len - v.length) value

def store {α : Type} (v : List α) (i : Nat) (value : α) : Except Fault (List α) :=
  if i < v.length then .ok (v.set i value) else .error (.panic .index)

/-- `mel_energy += filter[k] * p` for each `p` of `power`. A filter shorter than `power` is
indexed out of range. -/
def mel_energy (filter power : List F) (energy : F) : Except Fault F :=
  match filter, power with
  | _, [] => .ok energy
  | [], _ :: _ => .error (.panic .index)
  | weight :: filter, p :: power => mel_energy filter power (energy + weight * p)

structure MelBuffers (F : Type) where
  fft_input : List (Complex F)
  power : List F
  output : List F

def mel_frame (mel : MelSpectrogram F) (samples : List F) (num_frames : Nat) (b : MelBuffers F)
    (frame_idx : Nat) : Except Fault (MelBuffers F) := do
  let start := frame_idx * HOP_LENGTH
  let windowed ← (List.range N_FFT).mapM fun i => do
    return (samples.getD (start + i) 0 * (← index mel.window i), (0 : F))
  let fft_input := mel.fft windowed ++ b.fft_input.drop N_FFT
  let bins ← (List.range (N_FFT / 2 + 1)).mapM fun k => norm_sqr <$> index fft_input k
  let power := bins ++ b.power.drop (N_FFT / 2 + 1)
  let output ← mel.mel_filterbank.zipIdx.foldlM (fun output (filter, m) => do
    let energy ← mel_energy filter power 0
    store output (m * num_frames + frame_idx) (F32.ln (F32.max energy F32.mel_floor))) b.output
  return { fft_input, power, output }

/-- The features, the number of frames, and the buffers for the next call. -/
def compute_with_buffers (mel : MelSpectrogram F) (samples : List F)
    (fft_input : List (Complex F)) (power : List F) :
    Except Fault (List F × Nat × List (Complex F) × List F) := do
  if samples.length < N_FFT then
    return (List.replicate mel.mel_filterbank.length 0, 1, fft_input, power)
  let num_frames := (samples.length - N_FFT) / HOP_LENGTH + 1
  let b ← (List.range num_frames).foldlM (mel_frame mel samples num_frames)
    { fft_input := grown fft_input N_FFT (0, 0)
      power := grown power (N_FFT / 2 + 1) 0
      output := List.replicate (mel.mel_filterbank.length * num_frames) 0 }
  return (b.output, num_frames, b.fft_input, b.power)

/-! ## The features fill the encoder's input -/

abbrev Returns {α : Type} (Q : α → Prop) (x : Except Fault α) : Prop := ResultSpec Q (fun _ => False) x

theorem index_returns {α : Type} {v : List α} {i : Nat} (h : i < v.length) :
    Returns (fun _ => True) (index v i) := by
  unfold index
  rw [List.getElem?_eq_getElem h]
  exact .ok trivial

theorem store_returns {α : Type} {v : List α} {i : Nat} (h : i < v.length) (value : α) :
    Returns (fun v' => v'.length = v.length) (store v i value) := by
  unfold store
  rw [if_pos h]
  exact .ok List.length_set

theorem mel_energy_returns {filter power : List F} (h : power.length ≤ filter.length) (energy : F) :
    Returns (fun _ => True) (mel_energy filter power energy) := by
  induction power generalizing filter energy with
  | nil =>
    unfold mel_energy
    exact .ok trivial
  | cons p power ih =>
    match filter with
    | weight :: filter =>
      unfold mel_energy
      exact ih (by simpa using h) _

/-! ### One frame -/

theorem windowed_returns (mel : MelSpectrogram F) (samples : List F) (start : Nat) :
    Returns (fun windowed => windowed.length = N_FFT) ((List.range N_FFT).mapM fun i => do
      return (samples.getD (start + i) 0 * (← index mel.window i), (0 : F))) := by
  refine (mapM_spec fun i hi => ?_).mono (by simp) fun _ h => h
  have hi' : i < mel.window.length := by simpa [mel.window_length] using hi
  exact (index_returns hi').bind fun _ _ => .ok trivial

omit [F32 F] in
/-- What the transform leaves behind its own window is not read. -/
theorem index_spectrum {spectrum : List (Complex F)} (h : spectrum.length = N_FFT)
    (rest : List (Complex F)) {k : Nat} (hk : k ∈ List.range (N_FFT / 2 + 1)) :
    index (spectrum ++ rest) k = index spectrum k := by
  have hk' : k < spectrum.length := by
    have := List.mem_range.mp hk
    unfold N_FFT at *
    omega
  unfold index
  rw [List.getElem?_append_left hk']

theorem bins_returns {spectrum : List (Complex F)} (h : spectrum.length = N_FFT) :
    Returns (fun bins : List F => bins.length = N_FFT / 2 + 1)
      ((List.range (N_FFT / 2 + 1)).mapM fun k => norm_sqr <$> index spectrum k) := by
  refine (mapM_spec fun k hk => ?_).mono (by simp) fun _ h => h
  have hk' : k < spectrum.length := by
    have := List.mem_range.mp hk
    unfold N_FFT at *
    omega
  exact (index_returns hk').map fun _ _ => trivial

/-- A frame, once the stale contents are known not to be read. -/
theorem mel_frame_bind (mel : MelSpectrogram F) (samples : List F) (num_frames : Nat)
    (b : MelBuffers F) (frame_idx : Nat) :
    mel_frame mel samples num_frames b frame_idx = (do
      let windowed ← (List.range N_FFT).mapM fun i => do
        return (samples.getD (frame_idx * HOP_LENGTH + i) 0 * (← index mel.window i), (0 : F))
      let bins ← (List.range (N_FFT / 2 + 1)).mapM fun k => norm_sqr <$> index (mel.fft windowed) k
      let power := bins ++ b.power.drop (N_FFT / 2 + 1)
      let output ← mel.mel_filterbank.zipIdx.foldlM (fun output (filter, m) => do
        let energy ← mel_energy filter power 0
        store output (m * num_frames + frame_idx) (F32.ln (F32.max energy F32.mel_floor))) b.output
      return { fft_input := mel.fft windowed ++ b.fft_input.drop N_FFT, power, output }) := by
  unfold mel_frame
  dsimp only
  refine ResultRel.eq ?_
  refine ((ResultRel.refl _).and_spec (windowed_returns mel samples _ |>.mono (fun _ h => h) nofun)
    (ResultSpec.of_true _)).bind ?_
  rintro windowed _ ⟨rfl, hw, -⟩
  have hlen : (mel.fft windowed).length = N_FFT := (mel.fft_length windowed).trans hw
  rw [mapM_congr fun k hk => congrArg (norm_sqr <$> ·) (index_spectrum hlen _ hk)]
  exact ResultRel.refl _

structure Sized (num_frames : Nat) (b : MelBuffers F) : Prop where
  fft_input : N_FFT ≤ b.fft_input.length
  power : b.power.length = N_FFT / 2 + 1
  output : b.output.length = N_MELS * num_frames

theorem mel_frame_returns (mel : MelSpectrogram F) (samples : List F) {num_frames frame_idx : Nat}
    (hidx : frame_idx < num_frames) {b : MelBuffers F} (h : Sized num_frames b) :
    Returns (Sized num_frames) (mel_frame mel samples num_frames b frame_idx) := by
  rw [mel_frame_bind]
  refine (windowed_returns mel samples _).bind fun windowed hw => ?_
  have hlen : (mel.fft windowed).length = N_FFT := (mel.fft_length windowed).trans hw
  refine (bins_returns hlen).bind fun bins hbins => ?_
  have hfft : N_FFT ≤ (mel.fft windowed ++ b.fft_input.drop N_FFT).length := by
    rw [List.length_append]
    omega
  have hpower : (bins ++ b.power.drop (N_FFT / 2 + 1)).length = N_FFT / 2 + 1 := by
    simp [hbins, h.power]
  refine ResultSpec.bind (P := fun output => output.length = N_MELS * num_frames) ?_
    fun output houtput => .ok ⟨hfft, hpower, houtput⟩
  refine foldlM_spec ?_ b.output h.output
  rintro ⟨filter, m⟩ hmem output houtput
  have hfilter : filter.length = N_FFT / 2 + 1 :=
    mel.filter_length filter (List.fst_mem_of_mem_zipIdx hmem)
  have hm : m < N_MELS := by
    simpa [mel.filterbank_length] using List.snd_lt_of_mem_zipIdx hmem
  apply (mel_energy_returns (by omega) 0).bind
  intro energy _
  have hindex : m * num_frames + frame_idx < output.length := by
    rw [houtput]
    calc m * num_frames + frame_idx < m * num_frames + num_frames := by omega
      _ = (m + 1) * num_frames := (Nat.succ_mul m num_frames).symm
      _ ≤ N_MELS * num_frames := Nat.mul_le_mul_right _ hm
  exact (store_returns hindex _).mono (fun v hv => hv.trans houtput) fun _ h => h

def frameCount (len : Nat) : Nat := if len < N_FFT then 1 else (len - N_FFT) / HOP_LENGTH + 1

/-- With buffers no longer than the code makes them, the features have the encoder's shape. -/
theorem compute_with_buffers_returns (mel : MelSpectrogram F) (samples : List F)
    (fft_input : List (Complex F)) {power : List F} (hpower : power.length ≤ N_FFT / 2 + 1) :
    Returns (fun r => r.2.1 = frameCount samples.length ∧ r.1.length = N_MELS * r.2.1 ∧
      r.2.2.2.length ≤ N_FFT / 2 + 1) (compute_with_buffers mel samples fft_input power) := by
  unfold compute_with_buffers frameCount
  split_ifs with hshort
  · exact .ok ⟨rfl, by simp [mel.filterbank_length], hpower⟩
  · refine ResultSpec.bind (P := Sized _) (foldlM_spec ?_ _ ?_) fun b hb =>
      .ok ⟨rfl, hb.output, Nat.le_of_eq hb.power⟩
    · exact fun i hi b hb => mel_frame_returns mel samples (List.mem_range.mp hi) hb
    · refine ⟨?_, ?_, ?_⟩
      · simp [grown]
        omega
      · simp [grown]
        omega
      · simp [mel.filterbank_length]

end Mel

end Gigastt.Streaming
