import Gigastt.Streaming.Frames

/-!
# The sample buffer over many calls

No sample is lost between two calls, except those in front of the last `MAX_BUFFER_SAMPLES`.
-/

namespace Gigastt.Streaming

open Windows

variable {F : Type}

/-- What the buffer holds after the calls. -/
def buffered (buffer : List F) (chunks : List (List F)) : List F :=
  chunks.foldl (fun buffer chunk => (prepare_audio_buffer chunk buffer).2) buffer

theorem buffered_cons (buffer chunk : List F) (chunks : List (List F)) :
    buffered buffer (chunk :: chunks) =
      buffered (prepare_audio_buffer chunk buffer).2 chunks := List.foldl_cons ..

/-! ## One call -/

section Call

variable [F32 F]

/-- The frames of the spectrogram end where the block ends. -/
def Covered (block : List F) : Prop :=
  ∀ (mel : MelSpectrogram F) (fft_input : List (Complex F)) (power : List F),
    (power.length ≤ N_FFT / 2 + 1 →
      ∃ r, compute_with_buffers mel block fft_input power = .ok r) ∧
    ∀ r, compute_with_buffers mel block fft_input power = .ok r →
      1 ≤ r.2.1 ∧ block.length = (r.2.1 - 1) * HOP_LENGTH + N_FFT

/-- What a call makes of its samples. -/
structure Conserved (buffer chunk : List F) (call : Option (List F) × List F) : Prop where
  short : call.2.length < N_FFT
  none_iff : call.1 = none ↔ (trimmed (buffer ++ chunk)).length < N_FFT
  parts : call.1.getD [] ++ call.2 = trimmed (buffer ++ chunk)
  covered : ∀ block, call.1 = some block → Covered block

theorem frames_reported {mel : MelSpectrogram F} {samples : List F} (h : N_FFT ≤ samples.length)
    {fft_input : List (Complex F)} {power : List F} {r : List F × Nat × List (Complex F) × List F}
    (hr : compute_with_buffers mel samples fft_input power = .ok r) :
    r.2.1 = (samples.length - N_FFT) / HOP_LENGTH + 1 := by
  rw [compute_with_buffers_eq mel h] at hr
  dsimp only at hr
  rw [windows_length] at hr
  cases hframes : (windows N_FFT HOP_LENGTH samples).zipIdx.foldlM
      (mel_window mel (count N_FFT HOP_LENGTH samples.length))
      { fft_input := grown fft_input N_FFT (0, 0)
        power := grown power (N_FFT / 2 + 1) 0
        output := List.replicate
          (mel.mel_filterbank.length * count N_FFT HOP_LENGTH samples.length) 0 } with
  | error e =>
    rw [hframes] at hr
    exact nomatch hr
  | ok b =>
    rw [hframes] at hr
    obtain rfl := Except.ok.inj hr
    exact if_neg (by omega)

theorem covered_of_grid {block : List F} (hlong : N_FFT ≤ block.length)
    (hgrid : block.length % HOP_LENGTH = 0) : Covered block := by
  intro mel fft_input power
  constructor
  · intro hpower
    cases hspec : compute_with_buffers mel block fft_input power with
    | ok r => exact ⟨r, rfl⟩
    | error e =>
      have hreturns := compute_with_buffers_returns mel block fft_input hpower
      rw [hspec] at hreturns
      cases hreturns
      contradiction
  · intro r hr
    have hframes := frames_reported hlong hr
    rw [hframes]
    unfold N_FFT HOP_LENGTH at *
    omega

theorem prepare_conserved (buffer chunk : List F) :
    Conserved buffer chunk (prepare_audio_buffer chunk buffer) := by
  by_cases hshort : buffer.length + chunk.length < N_FFT
  · rw [prepare_audio_buffer_short hshort]
    have hkept := trimmed_short.mpr hshort
    constructor
    · dsimp only
      exact hkept
    · dsimp only
      exact ⟨fun _ => hkept, fun _ => rfl⟩
    · dsimp only
      rw [Option.getD_none, List.nil_append]
    · intro block hblock
      cases hblock
  · obtain ⟨block, rest, hprepare, hparts, hlong, hgrid, hleft⟩ := prepare_splits hshort
    have hkept : ¬ (trimmed (buffer ++ chunk)).length < N_FFT := fun h => hshort (trimmed_short.mp h)
    rw [hprepare]
    constructor
    · exact Nat.lt_trans hleft (by decide)
    · dsimp only
      exact ⟨fun hnone => absurd hnone (Option.some_ne_none _), fun h => absurd h hkept⟩
    · exact hparts.symm
    · intro block' hblock
      obtain rfl := Option.some.inj hblock
      exact covered_of_grid hlong hgrid

end Call

/-! ## Every call -/

/-- Where nothing is cut off, the blocks and the buffer are the samples that came in. -/
theorem blocks_append_buffered {buffer : List F} {chunks : List (List F)}
    (h : Untruncated buffer chunks) :
    (blocks buffer chunks).flatten ++ buffered buffer chunks = buffer ++ chunks.flatten := by
  induction chunks generalizing buffer with
  | nil => simp [blocks, buffered]
  | cons chunk chunks ih =>
    obtain ⟨hfull, hnext⟩ := h
    rw [buffered_cons, List.flatten_cons, ← List.append_assoc]
    by_cases hshort : buffer.length + chunk.length < N_FFT
    · have hprepare := prepare_audio_buffer_short hshort
      rw [trimmed_eq (by rwa [List.length_append])] at hprepare
      rw [hprepare] at hnext ⊢
      rw [blocks_cons hprepare]
      exact ih hnext
    · obtain ⟨block, rest, hprepare, hsplit, -, -, -⟩ := prepare_of_block hfull hshort
      rw [hprepare] at hnext ⊢
      rw [blocks_cons hprepare, hsplit, List.flatten_append, List.append_assoc, ih hnext,
        List.append_assoc]
      simp

/-- Each call splits its samples into a block that the frames cover and a short rest. So with
chunks that fit, the blocks and the buffer are all the samples. -/
theorem prepare_audio_buffer_conserves [F32 F] (chunks : List (List F)) :
    (∀ before chunk after, chunks = before ++ chunk :: after →
      Conserved (buffered [] before) chunk (prepare_audio_buffer chunk (buffered [] before))) ∧
    ((∀ chunk ∈ chunks, chunk.length ≤ 79681) →
      (blocks [] chunks).flatten ++ buffered [] chunks = chunks.flatten) := by
  constructor
  · intro before chunk after _
    exact prepare_conserved (buffered [] before) chunk
  · intro hsmall
    have hfits : Untruncated [] chunks := by
      apply untruncated_of_small
      · exact Nat.zero_lt_succ _
      · intro chunk hmem
        have hchunk := hsmall chunk hmem
        unfold N_FFT MAX_BUFFER_SAMPLES
        omega
    exact blocks_append_buffered hfits

end Gigastt.Streaming
