import Gigastt.Streaming.Atomic

/-!
# The time columns of the encoder's output

The output is a tensor `[1, ENC_DIM, T]` and, beside it, the length that the encoder reports.
`run_inference` drops the shape and takes the reported length for the number of columns.
-/

namespace Gigastt.Streaming

open Decode

variable {F : Type}

/-- `frame` is column `t` of a flat tensor of `T` columns. -/
def IsColumn (encoded : List F) (T t : Nat) (frame : List F) : Prop :=
  ∀ ch < ENC_DIM, frame[ch]? = encoded[ch * T + t]?

/-- The joiner is given column `t` at each step `t`. -/
def SeesColumns (encoded : List F) (T enc_len : Nat) : Prop :=
  ∀ t < enc_len, ∃ frame, extract_encoder_frame encoded enc_len t = .ok frame ∧
    IsColumn encoded T t frame

theorem column_in_range {T enc_len ch t : Nat} (hle : enc_len ≤ T) (hch : ch < ENC_DIM)
    (ht : t < enc_len) : ch * enc_len + t < ENC_DIM * T :=
  calc ch * enc_len + t < ch * enc_len + enc_len := Nat.add_lt_add_left ht _
    _ = (ch + 1) * enc_len := (Nat.succ_mul ch enc_len).symm
    _ ≤ ENC_DIM * T := Nat.mul_le_mul hch hle

/-- What is extracted is a column of a tensor of `enc_len` columns. -/
theorem extract_returns {encoded : List F} {T enc_len t : Nat}
    (hlen : encoded.length = ENC_DIM * T) (hle : enc_len ≤ T) (ht : t < enc_len) :
    ∃ frame, extract_encoder_frame encoded enc_len t = .ok frame ∧
      IsColumn encoded enc_len t frame := by
  have hin : ∀ ch < ENC_DIM, ch * enc_len + t < encoded.length := by
    intro ch hch
    rw [hlen]
    exact column_in_range hle hch ht
  have hfirst := hin 0 (by decide)
  have hread : ∀ ch ∈ List.range ENC_DIM, index encoded (ch * enc_len + t) =
      .ok (encoded.getD (ch * enc_len + t) (encoded[0 * enc_len + t])) := by
    intro ch hch
    have hlt := hin ch (List.mem_range.mp hch)
    unfold index
    rw [List.getD_eq_getElem?_getD, List.getElem?_eq_getElem hlt]
    rfl
  refine ⟨_, mapM_eq_map hread, ?_⟩
  intro ch hch
  have hlt := hin ch hch
  rw [List.getElem?_map, List.getElem?_range hch, Option.map_some, List.getD_eq_getElem?_getD,
    List.getElem?_eq_getElem hlt, Option.getD_some]

theorem seesColumns_iff {encoded : List F} {T enc_len : Nat} (hlen : encoded.length = ENC_DIM * T)
    (hle : enc_len ≤ T) :
    SeesColumns encoded T enc_len ↔
      ∀ t < enc_len, ∀ ch < ENC_DIM, encoded[ch * enc_len + t]? = encoded[ch * T + t]? := by
  constructor
  · intro hsees t ht ch hch
    obtain ⟨frame, hframe, hcolumn⟩ := hsees t ht
    obtain ⟨frame', hframe', hread⟩ := extract_returns hlen hle ht
    obtain rfl : frame = frame' := Except.ok.inj (hframe.symm.trans hframe')
    rw [← hread ch hch, hcolumn ch hch]
  · intro hsame t ht
    obtain ⟨frame, hframe, hread⟩ := extract_returns hlen hle ht
    refine ⟨frame, hframe, ?_⟩
    intro ch hch
    rw [hread ch hch, hsame t ht ch hch]

/-- The second channel tells the two strides apart. -/
theorem strides_differ {T enc_len : Nat} (hpos : 1 ≤ enc_len) (hle : enc_len ≤ T)
    {encoded : List F} (hlen : encoded.length = ENC_DIM * T)
    (hdistinct : encoded[enc_len]? ≠ encoded[T]?) : ¬ SeesColumns encoded T enc_len := by
  intro hsees
  have hsecond := (seesColumns_iff hlen hle).mp hsees 0 (by omega) 1 (by decide)
  rw [Nat.one_mul, Nat.one_mul, Nat.add_zero, Nat.add_zero] at hsecond
  exact hdistinct hsecond

theorem column_start_in_range {T n : Nat} (hpos : 1 ≤ T) (hle : n ≤ T) : n < ENC_DIM * T := by
  unfold ENC_DIM
  omega

section Joiner

variable [F32 F]

/-- `greedy_decode` after its size check. -/
def walk (decoder : Decoder F) (joiner : Joiner F) (encoded : List F) (encoded_len blank_id : Nat)
    (state : DecoderState F) : Except Fault (DecodeResult F) × DecoderState F :=
  returned do
    let l ← (List.range encoded_len).foldlM
      (decode_frame decoder joiner encoded encoded_len blank_id) (Locals.new state)
    return l.toProgress

/-- The tensor and a reported length of at most its columns get past every check, and each
frame is read in range. -/
structure Admitted (encoded : List F) (enc_len : Nat) : Prop where
  encode : ∀ (features : List F) (num_frames : Nat), features.length = N_MELS * num_frames →
    encode (fun _ _ => some [.f32 encoded, .i32 [enc_len]]) features num_frames =
      .ok (encoded, enc_len)
  greedy_decode : ∀ (decoder : Decoder F) (joiner : Joiner F) (blank_id : Nat)
    (state : DecoderState F), greedy_decode decoder joiner encoded enc_len blank_id state =
      walk decoder joiner encoded enc_len blank_id state
  extract : ∀ t < enc_len, ∃ frame, extract_encoder_frame encoded enc_len t = .ok frame

theorem admitted_of_le {encoded : List F} {T enc_len : Nat} (hlen : encoded.length = ENC_DIM * T)
    (hle : enc_len ≤ T) : Admitted encoded enc_len where
  encode features num_frames hfeatures := encode_frames encoded enc_len hfeatures
  greedy_decode decoder joiner blank_id state := by
    have hsize : ENC_DIM * enc_len ≤ ENC_DIM * T := Nat.mul_le_mul_left _ hle
    unfold Decode.greedy_decode
    rw [if_neg (by omega)]
    rfl
  extract t ht := by
    obtain ⟨frame, hframe, -⟩ := extract_returns hlen hle ht
    exact ⟨frame, hframe⟩

/-- Every such tensor is decoded. Its frames are its columns exactly where the reported length is
the number of columns, both for all the tensors of a shape and for each one that never repeats a
value. -/
theorem sees_columns_iff [Nontrivial F] {T enc_len : Nat} (hpos : 1 ≤ enc_len) (hle : enc_len ≤ T) :
    (∀ encoded : List F, encoded.length = ENC_DIM * T → Admitted encoded enc_len) ∧
    ((∀ encoded : List F, encoded.length = ENC_DIM * T → SeesColumns encoded T enc_len) ↔
      enc_len = T) ∧
    ∀ encoded : List F, encoded.length = ENC_DIM * T → encoded.Nodup →
      (SeesColumns encoded T enc_len ↔ enc_len = T) := by
  have hsame : ∀ encoded : List F, encoded.length = ENC_DIM * T → enc_len = T →
      SeesColumns encoded T enc_len := by
    intro encoded hlen heq
    rw [seesColumns_iff hlen hle, heq]
    exact fun _ _ _ _ => rfl
  have hreported := column_start_in_range (Nat.le_trans hpos hle) hle
  have hreal := column_start_in_range (Nat.le_trans hpos hle) (Nat.le_refl T)
  refine ⟨fun encoded hlen => admitted_of_le hlen hle, ?_, ?_⟩
  · refine ⟨fun hall => ?_, fun heq encoded hlen => hsame encoded hlen heq⟩
    by_contra hne
    obtain ⟨a, b, hab⟩ := exists_pair_ne F
    -- One value marks the place where the reported stride finds the second channel.
    have hlen : ((List.replicate (ENC_DIM * T) a).set enc_len b).length = ENC_DIM * T := by
      rw [List.length_set, List.length_replicate]
    refine strides_differ hpos hle hlen ?_ (hall _ hlen)
    rw [List.getElem?_set_self (by rwa [List.length_replicate]), List.getElem?_set_ne hne,
      List.getElem?_replicate_of_lt hreal]
    exact fun hvalue => hab (Option.some.inj hvalue).symm
  · intro encoded hlen hnodup
    refine ⟨fun hsees => ?_, hsame encoded hlen⟩
    by_contra hne
    refine strides_differ hpos hle hlen (fun hvalue => hne ?_) hsees
    exact (List.getElem?_inj (by omega) hnodup).mp hvalue

end Joiner

/-! ## Two columns, one reported -/

def striped : List Int := channels_first [fun _ => 0, fun _ => 1]

theorem striped_length : striped.length = ENC_DIM * 2 := channels_first_length _

theorem striped_get (ch t : Nat) (hch : ch < ENC_DIM) (ht : t < 2) :
    striped[ch * 2 + t]? = [0, 1][t]? := by
  have hwidth : ∀ ch : Fin ENC_DIM,
      ([fun _ => 0, fun _ => 1].map fun frame : Frame Int => frame ch).length = 2 := fun _ => rfl
  have hhere : ch < (List.finRange ENC_DIM).length := by rwa [List.length_finRange]
  unfold striped channels_first
  rw [getElem?_flatMap hwidth ht, List.getElem?_eq_getElem hhere]
  rfl

/-- With one of the two columns reported, the frame alternates between them. -/
theorem short_length_mixes_columns : Admitted striped 1 ∧ ¬ SeesColumns striped 2 1 := by
  refine ⟨admitted_of_le striped_length (by decide), ?_⟩
  apply strides_differ (by decide) (by decide) striped_length
  have hone : striped[1]? = some 1 := striped_get 0 1 (by decide) (by decide)
  have htwo : striped[2]? = some 0 := striped_get 1 0 (by decide) (by decide)
  rw [hone, htwo]
  decide

theorem sees_columns_of_two : SeesColumns striped 2 2 :=
  (sees_columns_iff (by decide) (by decide)).2.1.mpr rfl striped striped_length

end Gigastt.Streaming
