import Gigastt.Lib.Windows
import Gigastt.Streaming.Features

/-!
# The frames of a stream that comes in chunks

Every block starts on the grid of the whole stream, but the window that straddles the end of
a block is in no block.
-/

namespace Gigastt.Streaming

open Windows

variable {F : Type}

/-! ## What a spectrogram is made of -/

section Mel

variable [F32 F]

/-- `mel_frame`, given the samples that it reads. -/
def mel_window (mel : MelSpectrogram F) (num_frames : Nat) (b : MelBuffers F)
    (frame : List F × Nat) : Except Fault (MelBuffers F) := do
  let windowed ← (List.range N_FFT).mapM fun i => do
    return (frame.1.getD i 0 * (← index mel.window i), (0 : F))
  let fft_input := mel.fft windowed ++ b.fft_input.drop N_FFT
  let bins ← (List.range (N_FFT / 2 + 1)).mapM fun k => norm_sqr <$> index fft_input k
  let power := bins ++ b.power.drop (N_FFT / 2 + 1)
  let output ← mel.mel_filterbank.zipIdx.foldlM (fun output (filter, m) => do
    let energy ← mel_energy filter power 0
    store output (m * num_frames + frame.2) (F32.ln (F32.max energy F32.mel_floor))) b.output
  return { fft_input, power, output }

theorem mel_frame_eq (mel : MelSpectrogram F) (samples : List F) (num_frames : Nat)
    (b : MelBuffers F) (frame_idx : Nat) :
    mel_frame mel samples num_frames b frame_idx =
      mel_window mel num_frames b (window N_FFT HOP_LENGTH samples frame_idx, frame_idx) := by
  have hread : ∀ i ∈ List.range N_FFT,
      (do return (samples.getD (frame_idx * HOP_LENGTH + i) 0 * (← index mel.window i), (0 : F)) :
        Except Fault (F × F)) =
      (do return ((window N_FFT HOP_LENGTH samples frame_idx).getD i 0 * (← index mel.window i),
        (0 : F))) := by
    intro i hi
    rw [getD_window samples frame_idx (List.mem_range.mp hi)]
  unfold mel_frame mel_window
  dsimp only
  rw [mapM_congr hread]

/-- A spectrogram is made of the windows of its samples, in order. -/
theorem compute_with_buffers_eq (mel : MelSpectrogram F) {samples : List F}
    (h : N_FFT ≤ samples.length) (fft_input : List (Complex F)) (power : List F) :
    compute_with_buffers mel samples fft_input power = (do
      let frames := windows N_FFT HOP_LENGTH samples
      let b ← frames.zipIdx.foldlM (mel_window mel frames.length)
        { fft_input := grown fft_input N_FFT (0, 0)
          power := grown power (N_FFT / 2 + 1) 0
          output := List.replicate (mel.mel_filterbank.length * frames.length) 0 }
      return (b.output, frames.length, b.fft_input, b.power)) := by
  have hcount : count N_FFT HOP_LENGTH samples.length =
      (samples.length - N_FFT) / HOP_LENGTH + 1 := if_neg (by omega)
  have hzip : (windows N_FFT HOP_LENGTH samples).zipIdx =
      (List.range (count N_FFT HOP_LENGTH samples.length)).map fun i =>
        (window N_FFT HOP_LENGTH samples i, i) := by
    refine List.ext_getElem (by simp) fun i h₁ h₂ => ?_
    simp [windows]
  have hframes : mel_frame mel samples (count N_FFT HOP_LENGTH samples.length) = fun b i =>
      mel_window mel (count N_FFT HOP_LENGTH samples.length) b (window N_FFT HOP_LENGTH samples i, i) :=
    funext fun b => funext fun i => mel_frame_eq mel samples _ b i
  unfold compute_with_buffers
  rw [if_neg (by omega)]
  dsimp only
  rw [← hcount, hframes, hzip, List.foldlM_map, windows_length]

end Mel

/-! ## The blocks of a stream -/

/-- The blocks that successive `prepare_audio_buffer` calls give. -/
def blocks : List F → List (List F) → List (List F)
  | _, [] => []
  | buffer, chunk :: chunks =>
    (prepare_audio_buffer chunk buffer).1.toList ++ blocks (prepare_audio_buffer chunk buffer).2 chunks

/-- The windows that are analysed, one block after another. -/
def stream_windows (buffer : List F) (chunks : List (List F)) : List (List F) :=
  (blocks buffer chunks).flatMap (windows N_FFT HOP_LENGTH)

/-- No call drops samples for being more than the buffer holds. -/
def Untruncated : List F → List (List F) → Prop
  | _, [] => True
  | buffer, chunk :: chunks =>
    buffer.length + chunk.length ≤ MAX_BUFFER_SAMPLES ∧
      Untruncated (prepare_audio_buffer chunk buffer).2 chunks

theorem trimmed_eq {buffer : List F} (h : buffer.length ≤ MAX_BUFFER_SAMPLES) :
    trimmed buffer = buffer := by
  unfold trimmed
  rw [Nat.sub_eq_zero_of_le h, List.drop_zero]

/-- A block ends on the grid, and less than a hop is left after it. -/
theorem usable_spec {len : Nat} (h : ¬ len < N_FFT) :
    usable len = len / HOP_LENGTH * HOP_LENGTH := by
  unfold usable N_FFT HOP_LENGTH at *
  rw [if_pos (by omega)]
  dsimp only
  omega

theorem prepare_splits {samples buffer : List F} (h : ¬ buffer.length + samples.length < N_FFT) :
    ∃ block rest, prepare_audio_buffer samples buffer = (some block, rest) ∧
      trimmed (buffer ++ samples) = block ++ rest ∧ N_FFT ≤ block.length ∧
      block.length % HOP_LENGTH = 0 ∧ rest.length < HOP_LENGTH := by
  have hkept : ¬ (trimmed (buffer ++ samples)).length < N_FFT := fun hs => h (trimmed_short.mp hs)
  refine ⟨_, _, prepare_audio_buffer_block h, (List.take_append_drop _ _).symm, ?_⟩
  rw [usable_spec hkept, List.length_take, List.length_drop]
  unfold N_FFT HOP_LENGTH at *
  refine ⟨?_, ?_, ?_⟩
  · omega
  · omega
  · omega

theorem prepare_of_block {samples buffer : List F}
    (hfull : buffer.length + samples.length ≤ MAX_BUFFER_SAMPLES)
    (h : ¬ buffer.length + samples.length < N_FFT) :
    ∃ block rest, prepare_audio_buffer samples buffer = (some block, rest) ∧
      buffer ++ samples = block ++ rest ∧ N_FFT ≤ block.length ∧ block.length % HOP_LENGTH = 0 ∧
      rest.length < HOP_LENGTH := by
  have hsplits := prepare_splits h
  rwa [trimmed_eq (by rwa [List.length_append])] at hsplits

/-! ## The window at the end of a block -/

/-- The window that starts in the last hop of a block, if enough follows the block. -/
def straddling (block rest : List F) : List (List F) :=
  windows N_FFT HOP_LENGTH (block.drop (block.length - HOP_LENGTH) ++ rest.take HOP_LENGTH)

theorem windows_block {block : List F} (hlong : N_FFT ≤ block.length)
    (hgrid : block.length % HOP_LENGTH = 0) (rest : List F) :
    windows N_FFT HOP_LENGTH (block ++ rest) = windows N_FFT HOP_LENGTH block ++
      (straddling block rest ++ windows N_FFT HOP_LENGTH rest) := by
  have hsize : block.length + HOP_LENGTH = N_FFT + (block.length / HOP_LENGTH - 1) * HOP_LENGTH := by
    unfold N_FFT HOP_LENGTH at *
    omega
  have hstart : block.length + HOP_LENGTH - N_FFT = block.length - HOP_LENGTH := by
    unfold N_FFT HOP_LENGTH at *
    omega
  have hhalf : (block.drop (block.length - HOP_LENGTH)).length = HOP_LENGTH := by
    rw [List.length_drop]
    unfold N_FFT HOP_LENGTH at *
    omega
  have hwindow : N_FFT = HOP_LENGTH + HOP_LENGTH := rfl
  rw [windows_append (by decide) (by decide) hsize, hstart]
  unfold straddling
  rw [hwindow, windows_half (by decide) hhalf rest]

theorem straddling_length {block : List F} (hlong : N_FFT ≤ block.length) (rest : List F) :
    (straddling block rest).length = if rest.length < HOP_LENGTH then 0 else 1 := by
  unfold straddling
  rw [windows_length, List.length_append, List.length_drop, List.length_take]
  unfold count N_FFT HOP_LENGTH at *
  split
  · rw [if_pos (by omega)]
  · rw [if_neg (by omega)]
    omega

theorem blocks_cons {buffer chunk rest : List F} {block : Option (List F)}
    (h : prepare_audio_buffer chunk buffer = (block, rest)) (chunks : List (List F)) :
    blocks buffer (chunk :: chunks) = block.toList ++ blocks rest chunks := by
  rw [blocks, h]

/-- What one call does to the blocks, the buffer and the samples that are left to come. -/
theorem blocks_step {buffer chunk : List F} {chunks : List (List F)}
    (h : Untruncated buffer (chunk :: chunks)) :
    (buffer.length + chunk.length < N_FFT ∧ Untruncated (buffer ++ chunk) chunks ∧
        stream_windows buffer (chunk :: chunks) = stream_windows (buffer ++ chunk) chunks) ∨
      ∃ block rest, buffer ++ chunk = block ++ rest ∧ N_FFT ≤ block.length ∧
        block.length % HOP_LENGTH = 0 ∧ rest.length < HOP_LENGTH ∧ Untruncated rest chunks ∧
        stream_windows buffer (chunk :: chunks) =
          windows N_FFT HOP_LENGTH block ++ stream_windows rest chunks := by
  obtain ⟨hfull, hnext⟩ := h
  by_cases hshort : buffer.length + chunk.length < N_FFT
  · have hprepare := prepare_audio_buffer_short hshort
    rw [trimmed_eq (by rwa [List.length_append])] at hprepare
    rw [hprepare] at hnext
    refine .inl ⟨hshort, hnext, ?_⟩
    unfold stream_windows
    rw [blocks_cons hprepare]
    rfl
  · obtain ⟨block, rest, hprepare, hsplit, hlong, hgrid, hleft⟩ := prepare_of_block hfull hshort
    rw [hprepare] at hnext
    refine .inr ⟨block, rest, hsplit, hlong, hgrid, hleft, hnext, ?_⟩
    unfold stream_windows
    rw [blocks_cons hprepare, List.flatMap_append]
    simp

/-- The windows of the blocks are windows of the stream. -/
theorem stream_windows_sublist {buffer : List F} {chunks : List (List F)}
    (h : Untruncated buffer chunks) :
    (stream_windows buffer chunks).Sublist (windows N_FFT HOP_LENGTH (buffer ++ chunks.flatten)) := by
  induction chunks generalizing buffer with
  | nil => exact List.nil_sublist _
  | cons chunk chunks ih =>
    rw [List.flatten_cons, ← List.append_assoc]
    obtain ⟨-, hnext, hwindows⟩ | ⟨block, rest, hsplit, hlong, hgrid, -, hnext, hwindows⟩ :=
      blocks_step h
    · rw [hwindows]
      exact ih hnext
    · rw [hwindows, hsplit, List.append_assoc, windows_block hlong hgrid]
      exact (List.Sublist.refl _).append (List.sublist_append_of_sublist_right (ih hnext))

/-- The samples that fill whole hops have all come by the time the first block is full. -/
def Complete (buffer : List F) (chunks : List (List F)) : Prop :=
  ∀ before after, chunks = before ++ after → N_FFT ≤ (buffer ++ before.flatten).length →
    (buffer ++ before.flatten).length / HOP_LENGTH = (buffer ++ chunks.flatten).length / HOP_LENGTH

theorem complete_cons {buffer chunk : List F} {chunks : List (List F)}
    (h : buffer.length + chunk.length < N_FFT) :
    Complete buffer (chunk :: chunks) ↔ Complete (buffer ++ chunk) chunks := by
  unfold Complete
  constructor
  · intro hcomplete before after hchunks hlong
    have hwhole := hcomplete (chunk :: before) after (by rw [hchunks, List.cons_append])
    rw [List.flatten_cons, List.flatten_cons, ← List.append_assoc, ← List.append_assoc] at hwhole
    exact hwhole hlong
  · intro hcomplete before after hchunks hlong
    match before with
    | [] =>
      simp only [List.flatten_nil, List.append_nil] at hlong
      omega
    | first :: before =>
      obtain ⟨rfl, hrest⟩ : chunk = first ∧ chunks = before ++ after := List.cons.inj hchunks
      rw [List.flatten_cons, ← List.append_assoc] at hlong
      rw [List.flatten_cons, List.flatten_cons, ← List.append_assoc, ← List.append_assoc]
      exact hcomplete before after hrest hlong

/-- After a block, less than a hop may still come. -/
theorem complete_of_block {buffer chunk block rest : List F} {chunks : List (List F)}
    (hsplit : buffer ++ chunk = block ++ rest) (hbuffer : buffer.length < N_FFT)
    (hlong : N_FFT ≤ block.length) (hgrid : block.length % HOP_LENGTH = 0)
    (hleft : rest.length < HOP_LENGTH) :
    Complete buffer (chunk :: chunks) ↔ (rest ++ chunks.flatten).length < HOP_LENGTH := by
  have hlen := congrArg List.length hsplit
  rw [List.length_append, List.length_append] at hlen
  unfold Complete
  constructor
  · intro hcomplete
    have hwhole := hcomplete [chunk] chunks rfl
    simp only [List.flatten_cons, List.flatten_nil, List.append_nil, List.length_append] at hwhole ⊢
    unfold N_FFT HOP_LENGTH at *
    omega
  · intro hfew before after hchunks hbefore
    match before with
    | [] =>
      simp only [List.flatten_nil, List.append_nil] at hbefore
      omega
    | first :: before =>
      obtain ⟨rfl, rfl⟩ : chunk = first ∧ chunks = before ++ after := List.cons.inj hchunks
      simp only [List.flatten_cons, List.flatten_append, List.length_append] at *
      unfold N_FFT HOP_LENGTH at *
      omega

theorem stream_windows_eq_iff {buffer : List F} {chunks : List (List F)}
    (hbuffer : buffer.length < N_FFT) (h : Untruncated buffer chunks) :
    stream_windows buffer chunks = windows N_FFT HOP_LENGTH (buffer ++ chunks.flatten) ↔
      Complete buffer chunks := by
  induction chunks generalizing buffer with
  | nil =>
    have hnone : windows N_FFT HOP_LENGTH (buffer ++ ([] : List (List F)).flatten) = [] :=
      windows_short (by simpa using hbuffer)
    rw [hnone]
    refine ⟨fun _ before after hchunks hlong => ?_, fun _ => rfl⟩
    obtain ⟨rfl, rfl⟩ := List.nil_eq_append_iff.mp hchunks
    rfl
  | cons chunk chunks ih =>
    obtain ⟨hshort, hnext, hwindows⟩ |
        ⟨block, rest, hsplit, hlong, hgrid, hleft, hnext, hwindows⟩ := blocks_step h
    · rw [hwindows, List.flatten_cons, ← List.append_assoc, complete_cons hshort]
      exact ih (by rwa [List.length_append]) hnext
    · rw [complete_of_block hsplit hbuffer hlong hgrid hleft, hwindows, List.flatten_cons,
        ← List.append_assoc, hsplit, List.append_assoc, windows_block hlong hgrid,
        List.append_cancel_left_eq]
      -- One window straddles the end of the block exactly when a hop follows it.
      have hone := straddling_length hlong (rest ++ chunks.flatten)
      have hle := (stream_windows_sublist hnext).length_le
      constructor
      · intro heq
        have hsame := congrArg List.length heq
        rw [List.length_append, hone] at hsame
        split at hsame
        · assumption
        · omega
      · intro hfew
        rw [if_pos hfew] at hone
        have hnone : windows N_FFT HOP_LENGTH (rest ++ chunks.flatten) = [] :=
          windows_short (by unfold N_FFT HOP_LENGTH at *; omega)
        rw [hnone] at hle ⊢
        rw [List.eq_nil_of_length_eq_zero hone, List.eq_nil_of_length_eq_zero (Nat.le_zero.mp hle)]
        rfl

/-- The analysed windows are windows of the stream, in their places. They are all that the
samples received reach exactly when whole hops stop coming with the first block. -/
theorem frames_kept_iff {chunks : List (List F)} (h : Untruncated [] chunks) :
    (stream_windows [] chunks).Sublist (windows N_FFT HOP_LENGTH chunks.flatten) ∧
      (∀ more, windows N_FFT HOP_LENGTH chunks.flatten <+:
        windows N_FFT HOP_LENGTH (chunks.flatten ++ more)) ∧
      (stream_windows [] chunks = windows N_FFT HOP_LENGTH chunks.flatten ↔ Complete [] chunks) := by
  have hsublist := stream_windows_sublist h
  have hiff := stream_windows_eq_iff (by simp [N_FFT]) h
  rw [List.nil_append] at hsublist hiff
  exact ⟨hsublist, windows_prefix chunks.flatten, hiff⟩

/-! ## Two chunks of one window each -/

theorem untruncated_of_small {buffer : List F} {chunks : List (List F)}
    (hbuffer : buffer.length < N_FFT)
    (h : ∀ chunk ∈ chunks, chunk.length + N_FFT ≤ MAX_BUFFER_SAMPLES + 1) :
    Untruncated buffer chunks := by
  induction chunks generalizing buffer with
  | nil => trivial
  | cons chunk chunks ih =>
    obtain ⟨hchunk, hchunks⟩ := List.forall_mem_cons.mp h
    have hfull : buffer.length + chunk.length ≤ MAX_BUFFER_SAMPLES := by omega
    refine ⟨hfull, ih ?_ hchunks⟩
    by_cases hshort : buffer.length + chunk.length < N_FFT
    · rw [prepare_audio_buffer_short hshort, trimmed_eq (by rwa [List.length_append])]
      rwa [List.length_append]
    · obtain ⟨block, rest, hprepare, -, -, -, hleft⟩ := prepare_of_block hfull hshort
      rw [hprepare]
      exact Nat.lt_trans hleft (by decide)

def silent (n : Nat) : List Int := List.replicate n 0

@[simp]
theorem silent_length (n : Nat) : (silent n).length = n := List.length_replicate

/-- The window in the middle of 640 samples is skipped when they come in halves. -/
theorem straddling_window_skipped :
    Untruncated [] [silent 320, silent 320] ∧
      stream_windows [] [silent 320, silent 320] ≠
        windows N_FFT HOP_LENGTH [silent 320, silent 320].flatten := by
  have hsmall : Untruncated [] [silent 320, silent 320] :=
    untruncated_of_small (by simp [N_FFT]) (by simp [N_FFT, MAX_BUFFER_SAMPLES])
  refine ⟨hsmall, fun hsame => ?_⟩
  have hcomplete := (stream_windows_eq_iff (by simp [N_FFT]) hsmall).mp hsame
  have hhops := hcomplete [silent 320] [silent 320] rfl (by simp [N_FFT])
  simp [HOP_LENGTH] at hhops

theorem frames_kept_of_one_block :
    stream_windows [] [silent 320, silent 50] =
      windows N_FFT HOP_LENGTH [silent 320, silent 50].flatten := by
  have hsmall : Untruncated [] [silent 320, silent 50] :=
    untruncated_of_small (by simp [N_FFT]) (by simp [N_FFT, MAX_BUFFER_SAMPLES])
  have hsplit : [] ++ silent 320 = silent 320 ++ [] := by simp
  refine (frames_kept_iff hsmall).2.2.mpr ((complete_of_block hsplit ?_ ?_ ?_ ?_).mpr ?_)
  · simp [N_FFT]
  · simp [N_FFT]
  · simp [HOP_LENGTH]
  · simp [HOP_LENGTH]
  · simp [HOP_LENGTH]

end Gigastt.Streaming
