import Gigastt.Lib.Loop
import Gigastt.Words.Mean

/-!
# The decode loop of `decode_audio_inner`

What the demuxer gives is a list that ends where it reports the end of the file. Each packet
stands with what the decoder makes of it, should it be asked.
-/

namespace Gigastt.Audio

open Words

variable {F : Type}

/-! ## Packets -/

/-- The samples of a packet as `copy_interleaved_ref` leaves them. -/
structure AudioBuffer (F : Type) where
  channels : Nat
  frames : Nat
  samples : List F
  channels_pos : 0 < channels
  length_eq : samples.length = frames * channels

inductive NextPacket (F : Type) where
  | packet (track_id : UInt32) (decoded : Except String (AudioBuffer F))
  | error (e : String)

/-- The default track. -/
structure Track where
  id : UInt32
  sample_rate : UInt32
deriving DecidableEq, Repr

def MAX_DURATION_S : Nat := 600

/-- The product is exact in `f64`, and so is the cast. -/
def Track.max_samples (track : Track) : Nat := MAX_DURATION_S * track.sample_rate.toNat

/-! ## The loop -/

section Code

variable [F32 F]

def sample_at (samples : List F) (i : Nat) : Except Fault F :=
  match samples[i]? with
  | some x => .ok x
  | none => .error (.panic .index)

def mix_frame (samples : List F) (ch frame : Nat) : Except Fault F := do
  let sum ← (List.range ch).foldlM (fun sum c => do
    let x ← sample_at samples (frame * ch + c)
    return sum + x) 0
  return sum / (ch : F)

/-- What the loop appends for a packet. -/
def mix (decoded : AudioBuffer F) : Except Fault (List F) :=
  if 1 < decoded.channels then
    (List.range decoded.frames).mapM (mix_frame decoded.samples decoded.channels)
  else .ok decoded.samples

/-- The length in seconds, rounded by `{:.0}`, is a parameter. -/
def too_long (observed_s : Nat → UInt32 → String) (track : Track) (len : Nat) : String :=
  "Audio file too long (" ++ observed_s len track.sample_rate ++ "s). Maximum supported: " ++
    toString MAX_DURATION_S ++ "s."

/-- The result of the loop, and `all_samples` when it is left. -/
def decode_loop (observed_s : Nat → UInt32 → String) (track : Track) :
    List (NextPacket F) → List F → Except Fault Unit × List F
  | [], all_samples => (.ok (), all_samples)
  | .error e :: _, all_samples => (.error (.err ["Error reading packet: " ++ e]), all_samples)
  | .packet track_id decoded :: rest, all_samples =>
    if track_id ≠ track.id then decode_loop observed_s track rest all_samples
    else
      match decoded with
      | .error _ => (.error (.err ["Decode error"]), all_samples)
      | .ok decoded =>
        match mix decoded with
        | .error e => (.error e, all_samples)
        | .ok mono =>
          let all_samples := all_samples ++ mono
          if track.max_samples < all_samples.length then
            (.error (.err [too_long observed_s track all_samples.length]), all_samples)
          else decode_loop observed_s track rest all_samples

end Code

/-! ## One frame, one sample -/

/-- The samples of one frame, a channel each. -/
def AudioBuffer.frame (decoded : AudioBuffer F) (i : Nat) : List F :=
  (decoded.samples.drop (i * decoded.channels)).take decoded.channels

/-- The mean of each frame over its channels. -/
def AudioBuffer.means [ExactF32 F] (decoded : AudioBuffer F) : List F :=
  (List.range decoded.frames).map fun i => (decoded.frame i).sum / (decoded.channels : F)

theorem AudioBuffer.frame_fits (decoded : AudioBuffer F) {i : Nat} (hi : i < decoded.frames) :
    i * decoded.channels + decoded.channels ≤ decoded.samples.length := by
  rw [decoded.length_eq, ← Nat.succ_mul]
  exact Nat.mul_le_mul_right _ hi

theorem AudioBuffer.length_frame (decoded : AudioBuffer F) {i : Nat} (hi : i < decoded.frames) :
    (decoded.frame i).length = decoded.channels := by
  have hfits := decoded.frame_fits hi
  unfold AudioBuffer.frame
  rw [List.length_take, List.length_drop]
  omega

section Exact

variable [ExactF32 F]

theorem length_means (decoded : AudioBuffer F) : decoded.means.length = decoded.frames := by
  unfold AudioBuffer.means
  rw [List.length_map, List.length_range]

/-- Adding up what stands at some indices adds up a list, where these hold its elements. -/
theorem sum_loop {samples : List F} (l : List F) {start : Nat}
    (h : ∀ c, c < l.length → samples[start + c]? = l[c]?) (sum : F) :
    (List.range' start l.length).foldlM (fun sum i => do
      let x ← sample_at samples i
      return sum + x) sum = .ok (l.foldl (· + ·) sum) := by
  induction l generalizing start sum with
  | nil => rfl
  | cons x l ih =>
    have hx : sample_at samples start = .ok x := by
      unfold sample_at
      rw [← Nat.add_zero start, h 0 (Nat.succ_pos _)]
      rfl
    have hrest : ∀ c, c < l.length → samples[start + 1 + c]? = l[c]? := by
      intro c hc
      rw [Nat.add_assoc, Nat.add_comm 1 c]
      exact h (c + 1) (Nat.succ_lt_succ hc)
    rw [List.length_cons, List.range'_succ, List.foldlM_cons, hx]
    exact ih hrest (sum + x)

theorem mix_frame_eq (decoded : AudioBuffer F) {i : Nat} (hi : i < decoded.frames) :
    mix_frame decoded.samples decoded.channels i =
      .ok ((decoded.frame i).sum / (decoded.channels : F)) := by
  have hindex : ∀ c, c < (decoded.frame i).length →
      decoded.samples[i * decoded.channels + c]? = (decoded.frame i)[c]? := by
    intro c hc
    rw [decoded.length_frame hi] at hc
    unfold AudioBuffer.frame
    rw [List.getElem?_take_of_lt hc, List.getElem?_drop]
  have hloop := sum_loop (decoded.frame i) hindex 0
  rw [decoded.length_frame hi, List.range'_eq_map_range, List.foldlM_map] at hloop
  unfold mix_frame
  rw [hloop, List.sum_eq_foldl]
  rfl

/-- The mean over one channel is the sample. -/
theorem means_of_one_channel {decoded : AudioBuffer F} (h : decoded.channels = 1) :
    decoded.means = decoded.samples := by
  have hlength : decoded.samples.length = decoded.frames := by
    rw [decoded.length_eq, h, Nat.mul_one]
  unfold AudioBuffer.means
  refine List.ext_getElem (by rw [List.length_map, List.length_range, hlength]) fun i hi hi' => ?_
  have hframe : decoded.frame i = [decoded.samples[i]] := by
    unfold AudioBuffer.frame
    rw [h, Nat.mul_one, List.drop_eq_getElem_cons hi', List.take_succ_cons, List.take_zero]
  rw [List.getElem_map, List.getElem_range, hframe, List.sum_singleton, h, Nat.cast_one, div_one]

/-- Every packet is mixed to the means of its frames, in either branch. -/
theorem mix_eq (decoded : AudioBuffer F) : mix decoded = .ok decoded.means := by
  unfold mix
  split
  · exact mapM_eq_map fun i hi => mix_frame_eq decoded (List.mem_range.mp hi)
  · next hone =>
    have hpos := decoded.channels_pos
    rw [means_of_one_channel (by omega)]

/-! ## Runs of the loop -/

variable (observed_s : Nat → UInt32 → String) (track : Track)

/-- The loop reports an error when it comes to this. -/
def Fails : NextPacket F → Prop
  | .error _ => True
  | .packet track_id (.error _) => track_id = track.id
  | .packet _ (.ok _) => False

def failure : NextPacket F → Fault
  | .error e => .err ["Error reading packet: " ++ e]
  | .packet _ _ => .err ["Decode error"]

def NextPacket.mono : NextPacket F → List F
  | .packet track_id (.ok decoded) => if track_id = track.id then decoded.means else []
  | _ => []

/-- The packets of the track, mixed. -/
def mixed (packets : List (NextPacket F)) : List F := packets.flatMap (NextPacket.mono track)

/-- Nothing fails among these, and they stay within the budget. -/
structure Clean (packets : List (NextPacket F)) : Prop where
  succeeds : ∀ next ∈ packets, ¬ Fails track next
  within : ∀ seen, seen <+: packets → (mixed track seen).length ≤ track.max_samples

/-- How the loop ends on these packets. -/
inductive Ends (packets : List (NextPacket F)) : Except Fault Unit × List F → Prop
  | eof (h : Clean track packets) : Ends packets (.ok (), mixed track packets)
  | failed {seen rest : List (NextPacket F)} {next : NextPacket F} (hpackets : packets = seen ++ next :: rest)
      (hseen : Clean track seen) (hnext : Fails track next) :
      Ends packets (.error (failure next), mixed track seen)
  | too_long {seen rest : List (NextPacket F)} {decoded : AudioBuffer F}
      (hpackets : packets = seen ++ .packet track.id (.ok decoded) :: rest) (hseen : Clean track seen)
      (hover : track.max_samples < (mixed track seen ++ decoded.means).length) :
      Ends packets (.error (.err [too_long observed_s track (mixed track seen ++ decoded.means).length]),
        mixed track seen ++ decoded.means)

variable {observed_s track}

theorem clean_nil : Clean track ([] : List (NextPacket F)) where
  succeeds := nofun
  within := by
    intro seen hseen
    rw [List.prefix_nil.mp hseen]
    exact Nat.zero_le _

theorem mono_of_track (decoded : AudioBuffer F) :
    NextPacket.mono track (.packet track.id (.ok decoded)) = decoded.means := if_pos rfl

/-- A packet of another track adds nothing and fails nothing. -/
theorem other_track {track_id : UInt32} (h : track_id ≠ track.id)
    (decoded : Except String (AudioBuffer F)) :
    NextPacket.mono track (.packet track_id decoded) = [] ∧ ¬ Fails track (.packet track_id decoded) := by
  cases decoded with
  | error e => exact ⟨rfl, h⟩
  | ok decoded => exact ⟨if_neg h, id⟩

theorem mixed_append (packets : List (NextPacket F)) (next : NextPacket F) :
    mixed track (packets ++ [next]) = mixed track packets ++ next.mono track := by
  unfold mixed
  rw [List.flatMap_append, List.flatMap_singleton]

theorem Clean.append {packets : List (NextPacket F)} {next : NextPacket F} (h : Clean track packets)
    (hnext : ¬ Fails track next) (hwithin : (mixed track (packets ++ [next])).length ≤ track.max_samples) :
    Clean track (packets ++ [next]) where
  succeeds := by
    intro other hother
    rcases List.mem_append.mp hother with hmem | hmem
    · exact h.succeeds other hmem
    · rw [List.mem_singleton.mp hmem]
      exact hnext
  within := by
    intro seen hseen
    rcases List.prefix_concat_iff.mp hseen with rfl | hprefix
    · exact hwithin
    · exact h.within seen hprefix

/-- The loop, from the buffer that a clean run has left. -/
theorem decode_loop_from (seen packets : List (NextPacket F)) (hseen : Clean track seen) :
    Ends observed_s track (seen ++ packets) (decode_loop observed_s track packets (mixed track seen)) := by
  induction packets generalizing seen with
  | nil =>
    rw [List.append_nil]
    exact .eof hseen
  | cons next rest ih =>
    have hstep : ¬ Fails track next → (mixed track (seen ++ [next])).length ≤ track.max_samples →
        Ends observed_s track (seen ++ next :: rest)
          (decode_loop observed_s track rest (mixed track seen ++ next.mono track)) := by
      intro hnext hwithin
      have h := ih (seen ++ [next]) (hseen.append hnext hwithin)
      rwa [List.append_assoc, List.singleton_append, mixed_append] at h
    cases next with
    | error e => exact .failed rfl hseen trivial
    | packet track_id decoded =>
      unfold decode_loop
      by_cases hid : track_id = track.id
      · rw [if_neg (not_not.mpr hid)]
        subst hid
        cases decoded with
        | error e => exact .failed rfl hseen rfl
        | ok decoded =>
          dsimp only
          rw [mix_eq]
          dsimp only
          by_cases hover : track.max_samples < (mixed track seen ++ decoded.means).length
          · rw [if_pos hover]
            exact .too_long rfl hseen hover
          · rw [if_neg hover]
            rw [mixed_append, mono_of_track] at hstep
            exact hstep id (Nat.not_lt.mp hover)
      · rw [if_pos hid]
        obtain ⟨hmono, hnext⟩ := other_track hid decoded
        rw [mixed_append, hmono, List.append_nil] at hstep
        exact hstep hnext (hseen.within seen List.prefix_rfl)

theorem decode_loop_ends (packets : List (NextPacket F)) :
    Ends observed_s track packets (decode_loop observed_s track packets []) :=
  decode_loop_from [] packets clean_nil

/-- The cap of the loop and what it makes of a file: it fails exactly at an error or past the
budget, its buffer is never longer than the budget and one packet, and at the end it holds the
mean of every frame of the track. -/
theorem decode_loop_caps_and_mixes (observed_s : Nat → UInt32 → String) (track : Track)
    (packets : List (NextPacket F)) :
    let (result, all_samples) := decode_loop observed_s track packets []
    ((∃ e, result = .error e) ↔
        (∃ next ∈ packets, Fails track next) ∨
          ∃ seen, seen <+: packets ∧ track.max_samples < (mixed track seen).length) ∧
      (all_samples.length ≤ track.max_samples ∨
        ∃ decoded, NextPacket.packet track.id (.ok decoded) ∈ packets ∧
          all_samples.length ≤ track.max_samples + decoded.frames) ∧
      (result = .ok () → all_samples = mixed track packets) := by
  have h : Ends observed_s track packets _ := decode_loop_ends packets
  revert h
  generalize decode_loop observed_s track packets [] = outcome
  intro h
  cases h with
  | eof hclean =>
    refine ⟨iff_of_false (fun ⟨_, he⟩ => nomatch he) ?_,
      .inl (hclean.within packets List.prefix_rfl), fun _ => rfl⟩
    rintro (⟨next, hnext, hfails⟩ | ⟨seen, hseen, hover⟩)
    · exact hclean.succeeds next hnext hfails
    · exact absurd hover (Nat.not_lt.mpr (hclean.within seen hseen))
  | @failed seen rest next hpackets hseen hnext =>
    refine ⟨iff_of_true ⟨_, rfl⟩ (.inl ⟨next, ?_, hnext⟩),
      .inl (hseen.within seen List.prefix_rfl), fun he => nomatch he⟩
    rw [hpackets]
    exact List.mem_append_right seen List.mem_cons_self
  | @too_long seen rest decoded hpackets hseen hover =>
    refine ⟨iff_of_true ⟨_, rfl⟩ (.inr ⟨seen ++ [.packet track.id (.ok decoded)], ?_, ?_⟩),
      .inr ⟨decoded, ?_, ?_⟩, fun he => nomatch he⟩
    · rw [hpackets]
      exact (List.prefix_append_right_inj seen).mpr ⟨rest, rfl⟩
    · rw [mixed_append, mono_of_track]
      exact hover
    · rw [hpackets]
      exact List.mem_append_right seen List.mem_cons_self
    · have hwithin := hseen.within seen List.prefix_rfl
      rw [List.length_append, length_means]
      omega

end Exact

/-! ## Two channels of rationals -/

def stereo : AudioBuffer ℚ where
  channels := 2
  frames := 2
  samples := [1, 0, 1 / 2, 1 / 4]
  channels_pos := by decide
  length_eq := rfl

def mono : AudioBuffer ℚ where
  channels := 1
  frames := 1
  samples := [-1]
  channels_pos := by decide
  length_eq := rfl

/-- A packet of another track, which does not decode, stands between two of the track. -/
def stereo_then_mono : List (NextPacket ℚ) :=
  [.packet 7 (.ok stereo), .packet 8 (.error "unsupported"), .packet 7 (.ok mono)]

theorem decode_loop_caps_and_mixes_of_stereo :
    decode_loop (fun _ _ => "600") ⟨7, 44100⟩ stereo_then_mono [] =
      (.ok (), mixed ⟨7, 44100⟩ stereo_then_mono) ∧
    mixed ⟨7, 44100⟩ stereo_then_mono = [1 / 2, 3 / 8, -1] := by
  obtain ⟨-, -, hmixed⟩ :=
    decode_loop_caps_and_mixes (fun _ _ => "600") ⟨7, 44100⟩ stereo_then_mono
  have hend : (decode_loop (fun _ _ => "600") ⟨7, 44100⟩ stereo_then_mono []).1 = .ok () := by
    rfl
  exact ⟨Prod.ext hend (hmixed hend), by decide +kernel⟩

end Gigastt.Audio
