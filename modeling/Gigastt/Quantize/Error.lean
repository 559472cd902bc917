import Gigastt.Quantize.Closed
import Gigastt.Quantize.Meaning
import Gigastt.Lib.Rounding
import Mathlib.Data.Rat.Floor

/-!
# How far a quantized weight is from the weight

In exact arithmetic half a step of the channel, and nothing in a channel of zeros.
-/

namespace Gigastt.Quantize

open Words Rounding

variable {F R : Type} {overflow_checks : Bool}

/-! ## Exact arithmetic -/

/-- `f32` where no operation of the pass rounds but `round`. The `max` of the order is that of
`F32`: they are one field. -/
class ExactWeights (F : Type) extends F32Weights F, Field F, LinearOrder F,
    IsStrictOrderedRing F, FloorRing F where
  is_zero_iff : ∀ x : F, F32Weights.is_zero x ↔ x = 0
  abs_eq : ∀ x : F, F32Weights.abs x = |x|
  round_eq : ∀ x : F, F32Weights.round x = (round_away x : F)
  clamp_eq : ∀ x low high : F, low ≤ high →
    F32Weights.clamp x low high = if x < low then low else if high < x then high else x
  to_i8_eq : ∀ n : ℤ, -128 ≤ n → n ≤ 127 → F32Weights.to_i8 (n : F) = Int8.ofInt n

section Channel

variable [ExactWeights F]

theorem channel_scale_eq (channel_data : List F) :
    channel_scale channel_data =
      if amplitude channel_data = 0 then 1 else amplitude channel_data / 127 := by
  have hmax : channel_data.foldl (fun m v => F32.max m (F32Weights.abs v)) 0 =
      amplitude channel_data := by
    simp only [ExactWeights.abs_eq]
    rfl
  unfold channel_scale
  rw [hmax]
  by_cases hzero : amplitude channel_data = 0
  · simp [hzero, ExactWeights.is_zero_iff]
  · simp [hzero, ExactWeights.is_zero_iff]

theorem channel_scale_pos (channel_data : List F) : 0 < channel_scale channel_data := by
  rw [channel_scale_eq]
  split
  · exact one_pos
  · rename_i hzero
    have := lt_of_le_of_ne (amplitude_nonneg channel_data) (Ne.symm hzero)
    positivity

/-- The 127 steps on each side reach every value. -/
theorem abs_div_channel_scale_le {channel_data : List F} {v : F} (hv : v ∈ channel_data) :
    |v / channel_scale channel_data| ≤ 127 := by
  apply abs_div_le_of_le_mul (channel_scale_pos channel_data)
  have hle := abs_le_amplitude hv
  rw [channel_scale_eq]
  split
  · linarith
  · rw [mul_div_cancel₀ _ (by norm_num)]
    exact hle

/-! ## One value -/

variable {channel_data : List F} {v : F}

theorem abs_round_away_div_le (hv : v ∈ channel_data) :
    |round_away (v / channel_scale channel_data)| ≤ 127 := by
  apply abs_round_away_le
  exact_mod_cast abs_div_channel_scale_le hv

theorem clamp_round (hv : v ∈ channel_data) :
    F32Weights.clamp (F32Weights.round (v / channel_scale channel_data)) ((-128 : Int) : F)
      ((127 : Int) : F) = F32Weights.round (v / channel_scale channel_data) := by
  obtain ⟨hlow, hhigh⟩ := abs_le.mp (abs_round_away_div_le hv)
  rw [ExactWeights.round_eq, ExactWeights.clamp_eq _ _ _ (Int.cast_le.mpr (by decide)),
    if_neg (not_lt.mpr (Int.cast_le.mpr (by omega))),
    if_neg (not_lt.mpr (Int.cast_le.mpr (by omega)))]

theorem quantize_value_toInt (hv : v ∈ channel_data) :
    (quantize_value (channel_scale channel_data) v).toInt =
      round_away (v / channel_scale channel_data) := by
  obtain ⟨hlow, hhigh⟩ := abs_le.mp (abs_round_away_div_le hv)
  unfold quantize_value
  rw [clamp_round hv, ExactWeights.round_eq, ExactWeights.to_i8_eq _ (by omega) (by omega)]
  exact Int8.toInt_ofInt_of_le (by omega) (by omega)

theorem abs_dequantized_sub_le (hv : v ∈ channel_data) :
    |((quantize_value (channel_scale channel_data) v).toInt : F) * channel_scale channel_data - v| ≤
      channel_scale channel_data / 2 := by
  rw [quantize_value_toInt hv]
  exact abs_grid_sub_le (channel_scale_pos channel_data) v

theorem dequantized_eq_of_zeros (hv : v ∈ channel_data) (hzero : ∀ u ∈ channel_data, u = 0) :
    ((quantize_value (channel_scale channel_data) v).toInt : F) * channel_scale channel_data = v := by
  rw [quantize_value_toInt hv, hzero v hv, zero_div, round_away_zero, Int.cast_zero, zero_mul]

/-- Where the channel is not 0 its scale is at most 1/127 of a bound of its values. -/
theorem abs_dequantized_sub_le_div {m : F} (hv : v ∈ channel_data)
    (hm : ∀ u ∈ channel_data, |u| ≤ m) :
    |((quantize_value (channel_scale channel_data) v).toInt : F) * channel_scale channel_data - v| ≤
      m / 254 := by
  have hnonneg : 0 ≤ m := le_trans (abs_nonneg v) (hm v hv)
  by_cases hzero : amplitude channel_data = 0
  · rw [dequantized_eq_of_zeros hv, sub_self, abs_zero]
    · positivity
    · intro u hu
      exact abs_nonpos_iff.mp (hzero ▸ abs_le_amplitude hu)
  · refine le_trans (abs_dequantized_sub_le hv) ?_
    have hle := amplitude_le hnonneg hm
    rw [channel_scale_eq, if_neg hzero, div_div]
    norm_num
    linarith

/-! ## One weight -/

/-- The byte, the scale and the dequantized value of one element of a channel. -/
structure Near (channel_data : List F) (v : F) (byte : UInt8) (scale dequantized : F) : Prop where
  range : -127 ≤ byte.toInt8.toInt ∧ byte.toInt8.toInt ≤ 127
  unclamped : F32Weights.clamp (F32Weights.round (v / scale)) ((-128 : Int) : F)
    ((127 : Int) : F) = F32Weights.round (v / scale)
  half_step : |dequantized - v| ≤ scale / 2
  bound : ∀ m, (∀ u ∈ channel_data, |u| ≤ m) → |dequantized - v| ≤ m / 254
  zeros : (∀ u ∈ channel_data, u = 0) → dequantized = v

/-- The data of the three tensors, for a consumer that dequantizes along axis 0. -/
structure Accurate (dims : List Int64) (data : List F) (channels : Nat) (bytes : List UInt8)
    (scales : List F) (zeros : List UInt8) : Prop where
  bytes_length : bytes.length = data.length
  scales_length : scales.length = channels
  zeros_eq : zeros = List.replicate channels 0
  element : ∀ j v, data[j]? = some v → ∃ byte scale dequantized,
    bytes[j]? = some byte ∧ scales[j / (data.length / channels)]? = some scale ∧
      (dequantize_linear dims (bytes.map UInt8.toInt8) scales (zeros.map UInt8.toInt8))[j]? =
        some dequantized ∧
      Near (chunk data (data.length / channels) (j / (data.length / channels))) v byte scale
        dequantized

theorem near {channel_data : List F} {v : F} (hv : v ∈ channel_data) :
    Near channel_data v (quantize_value (channel_scale channel_data) v).toUInt8
      (channel_scale channel_data)
      (((quantize_value (channel_scale channel_data) v).toInt : F) *
        channel_scale channel_data) where
  range := by
    rw [Int8.toInt8_toUInt8, quantize_value_toInt hv]
    exact abs_le.mp (abs_round_away_div_le hv)
  unclamped := clamp_round hv
  half_step := abs_dequantized_sub_le hv
  bound _ := abs_dequantized_sub_le_div hv
  zeros := dequantized_eq_of_zeros hv

omit [ExactWeights F] in
theorem mem_chunk {data : List F} {channel_size j : Nat} {v : F} (hpos : 0 < channel_size)
    (hv : data[j]? = some v) : v ∈ chunk data channel_size (j / channel_size) := by
  apply List.mem_of_getElem? (i := j % channel_size)
  rw [chunk, List.getElem?_take_of_lt (Nat.mod_lt j hpos), List.getElem?_drop,
    Nat.div_add_mod', hv]

theorem accurate {dims : List Int64} {data : List F} {channels : Nat} (hpos : 0 < channels)
    (hlength : data.length = channels * (volume dims.tail).toNat) :
    Accurate dims data channels ((quantization data channels).data.map Int8.toUInt8)
      (quantization data channels).scales ((List.replicate channels 0).map Int8.toUInt8) where
  bytes_length := by simp [quantization]
  scales_length := by simp [quantization]
  zeros_eq := List.map_replicate
  element j v hv := by
    obtain ⟨hlt, -⟩ := List.getElem?_eq_some_iff.mp hv
    have hsize : 0 < data.length / channels := by
      rw [hlength, Nat.mul_div_cancel_left _ hpos]
      apply Nat.pos_of_ne_zero
      intro hzero
      rw [hzero, Nat.mul_zero] at hlength
      omega
    have hrow : j / (data.length / channels) < channels := by
      apply Nat.div_lt_of_lt_mul
      rwa [Nat.mul_comm, Nat.mul_div_cancel' ⟨_, hlength⟩]
    have hbytes : ((quantization data channels).data.map Int8.toUInt8).map UInt8.toInt8 =
        (quantization data channels).data := by
      simp [Function.comp_def]
    have hzeros : ((List.replicate channels (0 : Int8)).map Int8.toUInt8).map UInt8.toInt8 =
        List.replicate channels 0 := by simp
    rw [hbytes, hzeros, dequantize_linear_quantization hpos hlength]
    refine ⟨_, _, _, ?_, ?_, ?_, near (mem_chunk hsize hv)⟩
    · simp [quantization, element_scale, hv]
    · simp [quantization, hrow]
    · simp [rounded, element_scale, hv]

/-! ## The pass -/

def stored (tensor : TensorProto F R) : Text × Option (List UInt8) × List F :=
  (text tensor.name, tensor.raw_data, tensor.float_data)

variable [Inhabited R]

omit [ExactWeights F] in
theorem Replaced.map_stored (r : Replaced F R) :
    r.tensors.map stored =
      [(Quantize.quantized r.name, some (r.quantized.data.map Int8.toUInt8), []),
        (scale r.name, none, r.quantized.scales),
        (zero_point r.name, some ((List.replicate r.quantized.channels 0).map Int8.toUInt8), [])] :=
  rfl

/-- The new tensors, where the data fills the shape. -/
def Replaced.Accurate (r : Replaced F R) : Prop :=
  ∀ data, extract_float_data r.tensor = .ok data → (data.length : Int) = volume r.tensor.dims →
    ∃ (channels : Nat) (bytes : List UInt8) (scales : List F) (zeros : List UInt8),
      1 ≤ channels ∧ r.tensor.dims.head?.map Int64.toInt = some (channels : Int) ∧
      r.tensors.map stored =
        [(Quantize.quantized r.name, some bytes, []), (scale r.name, none, scales),
          (zero_point r.name, some zeros, [])] ∧
      Quantize.Accurate r.tensor.dims data channels bytes scales zeros

/-- In exact arithmetic the new tensors of each weight dequantize to the weight, up to half a step
of each channel. -/
theorem quantize_model_accurate {input : Decoded F R} {output : ModelProto F R}
    (hok : quantize_model overflow_checks input = .ok output) :
    ∃ graph graph' kept, ∃ done : List (Replaced F R), input.model.graph = some graph ∧
      output.graph = some graph' ∧
      graph'.initializer = kept ++ done.flatMap Replaced.tensors ∧ kept ⊆ graph.initializer ∧
      (∀ w, w ∈ done.map Replaced.name ↔
        Targeted overflow_checks graph w ∧ QuantizableWeight overflow_checks graph w) ∧
      ∀ r ∈ done, weight graph r.name = some r.tensor ∧ r.Accurate := by
  obtain ⟨graph, graph', done, hin, hout, hwritten⟩ := quantize_model_spec hok
  obtain ⟨names, -, hinit⟩ := hwritten.initializer
  refine ⟨graph, graph', _, done, hin, hout, hinit, ?_, fun w => hwritten.mem_done, ?_⟩
  · exact fun tensor ht => List.mem_of_mem_filter ht
  · intro r hr
    refine ⟨(hwritten.replaced r hr).2.1, fun data hdata hvolume => ?_⟩
    obtain ⟨d, hexact⟩ := hwritten.exact_of_volume (input.fits graph hin) hr hdata hvolume
    have htensors := r.map_stored
    rw [hexact.quantized] at htensors
    exact ⟨d.toUInt64.toNat, _, _, _, hexact.channels_pos,
      by rw [hexact.head, Option.map_some, hexact.channels_eq], htensors,
      accurate hexact.channels_pos hexact.length⟩

end Channel

/-! ## A weight of rationals -/

/-- The number of a bit pattern that is finite. -/
def f32_value (bits : Nat) : ℚ :=
  let magnitude : ℚ :=
    if bits / 2 ^ 23 % 2 ^ 8 = 0 then (bits % 2 ^ 23 : Nat) * 2 ^ (-149 : ℤ)
    else (2 ^ 23 + bits % 2 ^ 23 : Nat) * 2 ^ ((bits / 2 ^ 23 % 2 ^ 8 : Nat) - 150 : ℤ)
  if bits < 2 ^ 31 then magnitude else -magnitude

/-- What the pass does not use is as for `Int`. -/
scoped instance : ExactWeights ℚ where
  __ := (inferInstance : Field ℚ)
  __ := (inferInstance : LinearOrder ℚ)
  __ := (inferInstance : IsStrictOrderedRing ℚ)
  __ := (inferInstance : FloorRing ℚ)
  neg_infinity := -1000000
  exp x := if x = 0 then 1 else 0
  ln _ := 0
  total_cmp := compare
  mel_floor := 0
  from_le_bytes a b c d :=
    f32_value (a.toNat + 256 * b.toNat + 65536 * c.toNat + 16777216 * d.toNat)
  is_zero x := x = 0
  abs x := |x|
  round x := round_away x
  clamp x low high := if x < low then low else if high < x then high else x
  to_i8 x := Int8.ofInt (max (-128) (min 127 (x.num.tdiv x.den)))
  is_zero_iff x := decide_eq_true_iff
  abs_eq _ := rfl
  round_eq _ := rfl
  clamp_eq _ _ _ _ := rfl
  to_i8_eq n hlow hhigh := by simp [hlow, hhigh]

def large_channel : List ℚ := List.replicate 256 (3 / 2) ++ List.replicate 256 1

/-- A channel of zeros, and one of values that are not all on the grid of the largest. -/
def two_channels : List ℚ := List.replicate 512 0 ++ large_channel

theorem two_channels_length : two_channels.length = 1024 := by
  simp only [two_channels, large_channel, List.length_append, List.length_replicate]

theorem two_channels_fit : 4 * two_channels.length ≤ ISIZE_MAX := by
  rw [two_channels_length]
  decide

def two_channels_model : Decoded ℚ Unit := matmul_model [2, 512] two_channels two_channels_fit

theorem two_channels_ne_nil : two_channels ≠ [] :=
  List.ne_nil_of_length_pos (by rw [two_channels_length]; decide)

theorem two_channels_volume : (two_channels.length : Int) = volume [2, 512] := by
  rw [two_channels_length]
  rfl

theorem quantize_two_channels : ∃ d output,
    Fills false (matmul_weight [2, 512] two_channels) two_channels d ∧
      quantize_model false two_channels_model = .ok output := by
  obtain ⟨d, hfills, hok⟩ := quantize_matmul false [2, 512] two_channels_fit
    two_channels_ne_nil two_channels_volume (by simp) nofun rfl
  exact ⟨d, _, hfills, hok⟩

theorem quantize_model_accurate_of_two_channels : ∃ output graph' kept,
    ∃ done : List (Replaced ℚ Unit), quantize_model false two_channels_model = .ok output ∧
      output.graph = some graph' ∧
      graph'.initializer = kept ++ done.flatMap Replaced.tensors ∧ ['w'] ∈ done.map Replaced.name ∧
      ∀ r ∈ done, r.Accurate := by
  obtain ⟨d, output, hfills, hok⟩ := quantize_two_channels
  obtain ⟨graph, graph', kept, done, hin, hout, hinit, -, hdone, haccurate⟩ :=
    quantize_model_accurate hok
  obtain rfl := Option.some.inj hin
  refine ⟨output, graph', kept, done, hok, hout, hinit, (hdone _).mpr ⟨?_, ?_⟩, ?_⟩
  · exact ⟨_, List.mem_cons_self, 1, rfl, rfl⟩
  · exact ⟨matmul_weight [2, 512] two_channels, rfl, two_channels, d, hfills⟩
  · exact fun r hr => (haccurate r hr).2

theorem large_channel_amplitude : amplitude large_channel = 3 / 2 := by
  apply le_antisymm
  · apply amplitude_le (by norm_num)
    intro u hu
    rcases List.mem_append.mp hu with hu | hu <;> rw [List.eq_of_mem_replicate hu] <;> norm_num
  · have hmem : (3 / 2 : ℚ) ∈ large_channel :=
      List.mem_append_left _ (List.mem_replicate.mpr ⟨by decide, rfl⟩)
    have hle := abs_le_amplitude hmem
    rwa [abs_of_pos (by norm_num)] at hle

theorem two_channels_getElem? : two_channels[768]? = some 1 := by
  unfold two_channels large_channel
  rw [List.getElem?_append_right (by rw [List.length_replicate]; decide), List.length_replicate,
    List.getElem?_append_right (by rw [List.length_replicate]), List.length_replicate,
    List.getElem?_replicate, if_pos (by decide)]

theorem large_channel_scale : element_scale two_channels 512 768 = 3 / 254 := by
  have hchunk : chunk two_channels 512 (768 / 512) = large_channel := by
    unfold chunk two_channels
    rw [List.drop_left' List.length_replicate]
    exact List.take_of_length_le (le_of_eq (by
      rw [large_channel, List.length_append, List.length_replicate, List.length_replicate]))
  rw [element_scale, hchunk, channel_scale_eq, large_channel_amplitude]
  norm_num

/-- No multiple of 3/254 is 1. -/
theorem two_channels_round : rounded two_channels 2 ≠ two_channels := by
  intro h
  have hone : (rounded two_channels 2)[768]? = some 1 := by rw [h, two_channels_getElem?]
  unfold rounded at hone
  rw [two_channels_length, List.getElem?_map, List.getElem?_zipIdx, two_channels_getElem?] at hone
  simp only [Option.map_some, Nat.zero_add, Nat.reduceDiv, large_channel_scale,
    Option.some.injEq] at hone
  generalize (quantize_value (3 / 254 : ℚ) 1).toInt = q at hone
  have hthree : (3 * q : ℚ) = 254 := by linarith
  have hint : 3 * q = 254 := by exact_mod_cast hthree
  omega

end Gigastt.Quantize
