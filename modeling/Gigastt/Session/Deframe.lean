import Gigastt.Session.Turns

/-!
# Samples do not depend on the framing

The byte that is left over is a function of all bytes so far, and so are the samples.
-/

namespace Gigastt.Session

open Decode Server Streaming Words

variable {F D R : Type}

/-! ## Bytes and samples -/

/-- All complete pairs, decoded. -/
def samples_of (bytes : List UInt8) : List Int := (pairs bytes).map from_le_bytes

/-- The last byte, if it has no partner. -/
def leftover (bytes : List UInt8) : Option UInt8 :=
  if bytes.length % 2 = 0 then none else bytes.getLast?

theorem pairs_dropLast {bytes : List UInt8} (h : bytes.length % 2 = 1) :
    pairs bytes.dropLast = pairs bytes := by
  fun_induction pairs bytes with
  | case1 lo hi rest ih =>
    have hrest : rest.length % 2 = 1 := by
      simp only [List.length_cons] at h
      omega
    have hne : rest ≠ [] := by
      rintro rfl
      simp at hrest
    rw [List.dropLast_cons_cons, List.dropLast_cons_of_ne_nil hne, pairs, ih hrest]
  | case2 l hshort =>
    match l, hshort with
    | [], _ | [_], _ => rfl
    | lo :: hi :: rest, hshort => exact absurd rfl (hshort lo hi rest)

theorem pairs_append {bytes : List UInt8} (h : bytes.length % 2 = 0) (rest : List UInt8) :
    pairs (bytes ++ rest) = pairs bytes ++ pairs rest := by
  fun_induction pairs bytes with
  | case1 lo hi bytes ih =>
    have hbytes : bytes.length % 2 = 0 := by
      simp only [List.length_cons] at h
      omega
    rw [List.cons_append, List.cons_append, pairs, ih hbytes, List.cons_append]
  | case2 l hshort =>
    match l, hshort with
    | [], _ => rfl
    | [_], _ => simp at h
    | lo :: hi :: rest, hshort => exact absurd rfl (hshort lo hi rest)

theorem leftover_even_append {bytes : List UInt8} (h : bytes.length % 2 = 0) (rest : List UInt8) :
    leftover (bytes ++ rest) = leftover rest := by
  unfold leftover
  rw [List.length_append, Nat.add_mod, h, Nat.zero_add, Nat.mod_mod]
  split
  · rfl
  · rename_i hodd
    have hne : rest ≠ [] := by
      rintro rfl
      simp at hodd
    rw [List.getLast?_append_of_ne_nil bytes hne]

theorem split_leftover (bytes : List UInt8) :
    ∃ paired, bytes = paired ++ (leftover bytes).toList ∧ paired.length % 2 = 0 := by
  unfold leftover
  split
  · rename_i heven
    exact ⟨bytes, by simp, heven⟩
  · rename_i hodd
    have hne : bytes ≠ [] := by
      rintro rfl
      simp at hodd
    refine ⟨bytes.dropLast, ?_, ?_⟩
    · rw [List.getLast?_eq_some_getLast hne]
      exact (List.dropLast_concat_getLast hne).symm
    · rw [List.length_dropLast]
      omega

theorem samples_of_append {bytes : List UInt8} (h : bytes.length % 2 = 0) (rest : List UInt8) :
    samples_of (bytes ++ rest) = samples_of bytes ++ samples_of rest := by
  unfold samples_of
  rw [pairs_append h, List.map_append]

theorem decode_toList (b : Option UInt8) : samples_of b.toList = [] ∧ leftover b.toList = b := by
  match b with
  | none => exact ⟨rfl, rfl⟩
  | some b => exact ⟨rfl, rfl⟩

/-- More bytes only need what was left over of those before. -/
theorem samples_and_leftover_append (bytes rest : List UInt8) :
    samples_of (bytes ++ rest) =
        samples_of bytes ++ samples_of ((leftover bytes).toList ++ rest) ∧
      leftover (bytes ++ rest) = leftover ((leftover bytes).toList ++ rest) := by
  obtain ⟨paired, hbytes, hpaired⟩ := split_leftover bytes
  generalize hlast : (leftover bytes).toList = last at hbytes ⊢
  have hlone : samples_of last = [] := hlast ▸ (decode_toList (leftover bytes)).1
  rw [hbytes, List.append_assoc, samples_of_append hpaired, samples_of_append hpaired,
    leftover_even_append hpaired, hlone, List.append_nil]
  exact ⟨rfl, rfl⟩

/-! ## Frames -/

theorem deframe_eq (pending_byte : Option UInt8) (data : List UInt8) :
    deframe pending_byte data =
      (samples_of (pending_byte.toList ++ data), leftover (pending_byte.toList ++ data)) := by
  unfold deframe samples_of leftover
  by_cases heven : (pending_byte.toList ++ data).length % 2 = 0
  · rw [if_pos heven]
    match pending_byte with
    | none =>
      have hdata : data.length % 2 = 0 := by simpa using heven
      simp [hdata]
    | some b =>
      have hdata : (data.length + 1) % 2 = 0 := by simpa [Nat.add_comm] using heven
      simp [hdata]
  · have hodd : (pending_byte.toList ++ data).length % 2 = 1 := by omega
    rw [if_neg heven, ← pairs_dropLast hodd]
    match pending_byte with
    | none =>
      have hdata : data.length % 2 = 1 := by simpa using hodd
      simp [hdata]
    | some b =>
      have hdata : (data.length + 1) % 2 = 1 := by simpa [Nat.add_comm] using hodd
      simp [hdata]

section Handlers

variable [F32Pcm F] {env : Env F D R}

/-- The samples that `handle_binary_frame` takes from a frame. -/
def Vars.frame_samples (v : Vars F D R) (data : List UInt8) : List Int :=
  if data.isEmpty then [] else (deframe v.pending_byte data).1

omit [F32Pcm F] in
theorem Vars.frame_samples_eq (v : Vars F D R) (data : List UInt8) :
    v.frame_samples data = samples_of (v.pending_byte.toList ++ data) := by
  unfold Vars.frame_samples
  by_cases hempty : data = []
  · rw [if_pos (by simpa using hempty), hempty, List.append_nil, (decode_toList v.pending_byte).1]
  · rw [if_neg (by simpa using hempty), deframe_eq]

/-- `handle_binary_frame` on each frame in turn, with the samples that it takes. -/
def receive (env : Env F D R) : Vars F D R → List (Blocking F × List UInt8) →
    List Int × Vars F D R
  | v, [] => ([], v)
  | v, (blocking, data) :: frames =>
    let (samples, last) := receive env (handle_binary_frame env blocking data v).2 frames
    (v.frame_samples data ++ samples, last)

/-- A handler leaves what later frames are read with as it was. -/
structure Kept (v v' : Vars F D R) : Prop where
  client_sample_rate : v'.client_sample_rate = v.client_sample_rate
  audio_received : v'.audio_received = v.audio_received
  pending_byte : v'.pending_byte = v.pending_byte
  source : v'.source = v.source

omit [F32Pcm F] in
theorem Kept.trans {v v' v'' : Vars F D R} (h : Kept v v') (h' : Kept v' v'') : Kept v v'' :=
  ⟨h'.client_sample_rate.trans h.client_sample_rate, h'.audio_received.trans h.audio_received,
    h'.pending_byte.trans h.pending_byte, h'.source.trans h.source⟩

theorem resample_kept (env : Env F D R) (samples_f32 : List F) (v : Vars F D R) :
    Kept v (resample env samples_f32 v).2 := by
  unfold resample
  split
  · exact ⟨rfl, rfl, rfl, rfl⟩
  · split
    · exact ⟨rfl, rfl, rfl, rfl⟩
    · exact ⟨rfl, rfl, rfl, rfl⟩

theorem on_joined_kept (v : Vars F D R)
    (task : Option (Caught F × SessionState F D R × Triplet F)) :
    Kept v (on_joined env v task).2 := by
  unfold on_joined
  split
  · obtain ⟨⟨body, hv, -⟩, -⟩ := send_segments_spec (Prod.eta _).symm
    rw [hv]
    exact ⟨rfl, rfl, rfl, rfl⟩
  · obtain ⟨hv, -⟩ := reply_error_spec (Prod.eta _).symm
    rw [hv]
    exact ⟨rfl, rfl, rfl, rfl⟩
  · obtain ⟨hv, -⟩ := reply_error_spec (Prod.eta _).symm
    rw [hv]
    exact ⟨rfl, rfl, rfl, rfl⟩
  · exact ⟨rfl, rfl, rfl, rfl⟩

/-- Whatever becomes of the audio of a frame, its bytes are taken. -/
theorem handle_binary_frame_kept (env : Env F D R) (blocking : Blocking F) {data : List UInt8} (hdata : data ≠ [])
    (v : Vars F D R) :
    Kept { v with
        audio_received := true, pending_byte := leftover (v.pending_byte.toList ++ data) }
      (handle_binary_frame env blocking data v).2 := by
  unfold handle_binary_frame
  rw [if_neg (by simpa using hdata), deframe_eq]
  dsimp only
  set v₀ : Vars F D R :=
    { v with audio_received := true, pending_byte := leftover (v.pending_byte.toList ++ data) }
  have hkept := resample_kept env ((samples_of (v.pending_byte.toList ++ data)).map to_f32) v₀
  split
  · rename_i hres
    rwa [hres] at hkept
  · rename_i hres
    rw [hres] at hkept
    split
    · exact hkept
    · split
      · exact hkept.trans ⟨rfl, rfl, rfl, rfl⟩
      · refine hkept.trans (Kept.trans ?_ (on_joined_kept _ _))
        exact ⟨rfl, rfl, rfl, rfl⟩

theorem handle_binary_frame_pending_byte (blocking : Blocking F) (data : List UInt8)
    (v : Vars F D R) :
    (handle_binary_frame env blocking data v).2.pending_byte =
      leftover (v.pending_byte.toList ++ data) := by
  by_cases hempty : data = []
  · rw [hempty, List.append_nil, (decode_toList v.pending_byte).2]
    rfl
  · exact (handle_binary_frame_kept env blocking hempty v).pending_byte

/-- The samples of the frames and the byte pending at the end are those of all bytes. -/
theorem receive_framing (env : Env F D R) (v : Vars F D R)
    (frames : List (Blocking F × List UInt8)) :
    (receive env v frames).1 = samples_of (v.pending_byte.toList ++ frames.flatMap Prod.snd) ∧
      (receive env v frames).2.pending_byte =
        leftover (v.pending_byte.toList ++ frames.flatMap Prod.snd) := by
  induction frames generalizing v with
  | nil =>
    have halone := decode_toList v.pending_byte
    simp [receive, halone]
  | cons frame frames ih =>
    obtain ⟨blocking, data⟩ := frame
    obtain ⟨hsamples, hpending⟩ := ih (handle_binary_frame env blocking data v).2
    rw [handle_binary_frame_pending_byte] at hsamples hpending
    obtain ⟨hall, hleft⟩ :=
      samples_and_leftover_append (v.pending_byte.toList ++ data) (frames.flatMap Prod.snd)
    unfold receive
    dsimp only
    rw [hsamples, hpending, Vars.frame_samples_eq, List.flatMap_cons, ← List.append_assoc, hall, hleft]
    exact ⟨rfl, rfl⟩

end Handlers

end Gigastt.Session
