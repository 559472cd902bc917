import Gigastt.Quantize.Pass
import Mathlib.Algebra.BigOperators.Ring.List

/-!
# The data of one tensor
-/

namespace Gigastt.Quantize

variable {F R : Type} {overflow_checks : Bool}

/-! ## Data -/

section Data

variable [F32Weights F] {tensor : TensorProto F R} {data : List F}

theorem floats_length (bytes : List UInt8) : (floats bytes : List F).length = bytes.length / 4 := by
  fun_induction floats (F := F) bytes with
  | case1 a b c d rest ih =>
    simp only [List.length_cons, ih]
    omega
  | case2 bytes h =>
    match bytes, h with
    | [], _ => rfl
    | [_], _ => simp
    | [_, _], _ => simp
    | [_, _, _], _ => simp
    | a :: b :: c :: d :: rest, h => exact absurd rfl (h a b c d rest)

theorem extract_float_data_length (h : extract_float_data tensor = .ok data) :
    0 < data.length ∧ (data.length = tensor.float_data.length ∨
      ∃ raw ∈ tensor.raw_data, 4 * data.length = raw.length) := by
  unfold extract_float_data at h
  split at h
  · rename_i hne
    obtain rfl := Except.ok.inj h
    exact ⟨List.length_pos_iff.mpr hne, .inl rfl⟩
  · split at h
    · rename_i byte bytes hraw
      split at h
      · rename_i haligned
        obtain rfl := Except.ok.inj h
        have hlength := floats_length (F := F) (byte :: bytes)
        have hpos : 0 < (byte :: bytes).length := List.length_pos_of_ne_nil (List.cons_ne_nil _ _)
        refine ⟨by omega, .inr ⟨_, hraw, by omega⟩⟩
      · simp at h
    · simp at h

theorem data_fits (h : extract_float_data tensor = .ok data)
    (hfits : tensor.Fits) : 4 * data.length ≤ ISIZE_MAX := by
  rcases (extract_float_data_length h).2 with hlength | ⟨raw, hraw, hlength⟩
  · rw [hlength]
    exact hfits.float_data
  · rw [hlength]
    exact hfits.raw_data raw hraw

end Data

/-! ## Products -/

/-- A scalar is too small. -/
theorem dims_ne_nil {tensor : TensorProto F R} (h : is_target overflow_checks tensor = .ok true) :
    tensor.dims ≠ [] := by
  intro hdims
  unfold is_target at h
  split at h
  · simp at h
  · rw [hdims] at h
    exact absurd (Except.ok.inj h) (by decide)

theorem product_usize_eq {extents : List Nat} (h0 : 0 ∉ extents)
    (hlt : extents.prod < 2 ^ 64) : product_usize overflow_checks extents = .ok extents.prod := by
  have hfold : ∀ product, product * extents.prod < 2 ^ 64 →
      extents.foldlM (fun product d =>
        arithmetic overflow_checks (product * d < 2 ^ 64) (product * d % 2 ^ 64)) product =
      .ok (product * extents.prod) := by
    clear hlt
    induction extents with
    | nil => simp [pure, Except.pure]
    | cons d extents ih =>
      intro product hlt
      rw [List.prod_cons, ← mul_assoc] at hlt
      replace h0 := List.not_mem_of_not_mem_cons h0
      have hrest : 0 < extents.prod := Nat.pos_of_ne_zero (List.prod_ne_zero h0)
      have hfits : product * d < 2 ^ 64 := lt_of_le_of_lt (Nat.le_mul_of_pos_right _ hrest) hlt
      rw [List.foldlM_cons, List.prod_cons, ← mul_assoc, Nat.mod_eq_of_lt hfits, arithmetic]
      simp only [hfits, decide_true, Bool.not_true, Bool.and_false, Bool.false_eq_true, if_false]
      exact ih h0 (product * d) hlt
  rw [product_usize, hfold 1 (by rwa [one_mul]), one_mul]

/-- Wrapped or not, a product with a factor 0 is 0. -/
theorem product_usize_of_zero_mem {extents : List Nat} {n : Nat} (h0 : 0 ∈ extents)
    (h : product_usize overflow_checks extents = .ok n) : n = 0 := by
  have hfold : ∀ product, (0 ∈ extents ∨ product = 0) →
      extents.foldlM (fun product d =>
        arithmetic overflow_checks (product * d < 2 ^ 64) (product * d % 2 ^ 64)) product =
      .ok n → n = 0 := by
    clear h h0
    induction extents with
    | nil =>
      rintro product (h | rfl) hn
      · simp at h
      · exact (Except.ok.inj hn).symm
    | cons d extents ih =>
      intro product h hn
      rw [List.foldlM_cons] at hn
      obtain ⟨product', hproduct', hn⟩ := bind_eq_ok.mp hn
      refine ih product' ?_ hn
      unfold arithmetic at hproduct'
      split at hproduct'
      · simp at hproduct'
      · obtain rfl := Except.ok.inj hproduct'
        rcases h with h | rfl
        · rcases List.mem_cons.mp h with rfl | h
          · simp
          · exact .inl h
        · simp
  exact hfold 1 (.inl h0) h

/-! ## Channels -/

def chunk (data : List F) (channel_size ch : Nat) : List F :=
  (data.drop (ch * channel_size)).take channel_size

/-- Going through the channels is going through the elements. -/
theorem flatMap_channels {α : Type} (data : List F) (channel_size : Nat) (f : Nat → F → α)
    {channels : Nat} (h : channels * channel_size ≤ data.length) :
    ((List.range channels).flatMap fun ch => (chunk data channel_size ch).map (f ch)) =
      (data.take (channels * channel_size)).zipIdx.map fun p => f (p.2 / channel_size) p.1 := by
  induction channels with
  | zero => simp
  | succ channels ih =>
    have hle : channels * channel_size ≤ data.length := by
      rw [Nat.succ_mul] at h
      omega
    rw [List.range_succ, List.flatMap_append, ih hle, Nat.succ_mul, List.take_add,
      List.zipIdx_append, List.map_append]
    congr 1
    rw [List.flatMap_singleton, List.length_take_of_le hle]
    apply List.ext_getElem?
    intro i
    rw [List.getElem?_map, List.getElem?_map, List.getElem?_zipIdx]
    by_cases hi : i < channel_size
    · have hdiv : (channels * channel_size + i) / channel_size = channels := by
        rw [Nat.mul_comm, Nat.mul_add_div (by omega), Nat.div_eq_of_lt hi, Nat.add_zero]
      simp [chunk, hdiv, Function.comp_def]
    · have hlength : (chunk data channel_size channels).length ≤ i :=
        le_trans (List.length_take_le _ _) (not_lt.mp hi)
      have hout : i ≥ (List.take channel_size (List.drop (channels * channel_size) data)).length :=
        hlength
      rw [List.getElem?_eq_none hlength, List.getElem?_eq_none hout]
      rfl

theorem with_capacity_eq {len size : Nat} (h : len * size ≤ ISIZE_MAX) :
    with_capacity len size = .ok () := if_pos h

section Channels

variable [F32Weights F]

/-- The scale and the values, by the number of the element. -/
def element_scale (data : List F) (channel_size j : Nat) : F :=
  channel_scale (chunk data channel_size (j / channel_size))

def quantization (data : List F) (channels : Nat) : Quantized F :=
  let channel_size := data.length / channels
  { channels
    scales := (List.range channels).map fun ch => channel_scale (chunk data channel_size ch)
    data := data.zipIdx.map fun p => quantize_value (element_scale data channel_size p.2) p.1 }

theorem quantize_channels_eq {data : List F} {channels : Nat} (hpos : 0 < channels)
    (hdvd : channels ∣ data.length) (hle : channels ≤ data.length)
    (hfits : 4 * data.length ≤ ISIZE_MAX) :
    quantize_channels data channels = .ok (quantization data channels) := by
  obtain ⟨channel_size, hlength⟩ := hdvd
  have hsize : data.length / channels = channel_size := by
    rw [hlength, Nat.mul_div_cancel_left _ hpos]
  have hrow : ∀ ch ∈ List.range channels, quantize_channel data channel_size ch =
      .ok (channel_scale (chunk data channel_size ch),
        (chunk data channel_size ch).map
          (quantize_value (channel_scale (chunk data channel_size ch)))) := by
    intro ch hch
    have hstop : ch * channel_size + channel_size ≤ data.length := by
      rw [hlength, ← Nat.succ_mul]
      exact Nat.mul_le_mul_right _ (List.mem_range.mp hch)
    rw [quantize_channel, if_pos hstop]
    rfl
  have hdata := flatMap_channels data channel_size
    (fun ch => quantize_value (channel_scale (chunk data channel_size ch))) hlength.symm.le
  rw [← hlength, List.take_length] at hdata
  unfold quantize_channels quantization element_scale
  rw [hsize]
  dsimp only
  rw [with_capacity_eq (by omega), with_capacity_eq (by omega), with_capacity_eq (by omega),
    mapM_eq_map hrow, ← hdata]
  simp only [bind, Except.bind, pure, Except.pure, List.map_map, List.flatMap_map]
  rfl

/-! ## Shapes -/

variable {tensor : TensorProto F R} {data : List F}

def volume (dims : List Int64) : Int := (dims.map Int64.toInt).prod

theorem volume_cons (d : Int64) (dims : List Int64) : volume (d :: dims) = d.toInt * volume dims := by
  rw [volume, List.map_cons, List.prod_cons, volume]

theorem extents_prod {dims : List Int64} (h : ∀ d ∈ dims, 0 ≤ d) :
    ((dims.map Int64.toNatClampNeg).prod : Int) = volume dims := by
  induction dims with
  | nil => rfl
  | cons d dims ih =>
    obtain ⟨hd, hdims⟩ := List.forall_mem_cons.mp h
    rw [List.map_cons, List.prod_cons, Nat.cast_mul, ih hdims, Int64.cast_toNatClampNeg d hd,
      volume_cons]

/-- A negative extent counts as 0, and no data fills that. -/
theorem not_quantizable_of_neg {d : Int64} (hd : d ∈ tensor.dims) (hneg : d < 0) :
    ¬ Quantizable overflow_checks tensor := by
  rintro ⟨data, c, hfills⟩
  have h0 : 0 ∈ tensor.dims.map Int64.toNatClampNeg := by
    have hd0 : d.toInt < 0 := Int64.lt_iff_toInt_lt.mp hneg
    exact List.mem_map.mpr ⟨d, hd, Int.toNat_of_nonpos hd0.le⟩
  have hlength := product_usize_of_zero_mem h0 hfills.product
  have hpos := (extract_float_data_length hfills.extracted).1
  omega

variable (overflow_checks) in
theorem fills_of_volume (hdata : extract_float_data tensor = .ok data)
    (hvolume : (data.length : Int) = volume tensor.dims) (hnonneg : ∀ d ∈ tensor.dims, 0 ≤ d)
    (hdims : tensor.dims ≠ []) (hlt : data.length < 2 ^ 64) :
    ∃ d, Fills overflow_checks tensor data d ∧
      data.length = d.toUInt64.toNat * (volume tensor.dims.tail).toNat := by
  have hpos := (extract_float_data_length hdata).1
  have hprod : (tensor.dims.map Int64.toNatClampNeg).prod = data.length := by
    have := extents_prod hnonneg
    omega
  have h0 : 0 ∉ tensor.dims.map Int64.toNatClampNeg := by
    intro h0
    have := List.prod_eq_zero h0
    omega
  have hproduct : product_usize overflow_checks (tensor.dims.map Int64.toNatClampNeg) =
      .ok data.length := by
    rw [product_usize_eq h0 (hprod ▸ hlt), hprod]
  obtain ⟨d, ds, hds⟩ := List.exists_cons_of_ne_nil hdims
  have hd : 0 ≤ d := hnonneg d (by simp [hds])
  refine ⟨d, ⟨hdata, by simp [hds], ?_, hproduct⟩, ?_⟩
  · rintro rfl
    exact h0 (by simp [hds])
  · have hnat : d.toUInt64.toNat = d.toNatClampNeg := Int64.toNat_toUInt64_of_le hd
    have htail : ∀ e ∈ ds, 0 ≤ e := fun e he => hnonneg e (by simp [hds, he])
    rw [hnat, hds, List.tail_cons, ← extents_prod htail, Int.toNat_natCast, ← hprod, hds,
      List.map_cons, List.prod_cons]

variable (overflow_checks) in
theorem quantize_weight_of_volume (hdata : extract_float_data tensor = .ok data) (hfits : tensor.Fits)
    (hvolume : (data.length : Int) = volume tensor.dims) (hnonneg : ∀ d ∈ tensor.dims, 0 ≤ d)
    (hdims : tensor.dims ≠ []) :
    ∃ d, Fills overflow_checks tensor data d ∧
      data.length = d.toUInt64.toNat * (volume tensor.dims.tail).toNat ∧
      quantize_weight overflow_checks tensor = .ok (some (quantization data d.toUInt64.toNat)) := by
  have hle := data_fits hdata hfits
  have hlt : data.length < 2 ^ 64 := by
    unfold ISIZE_MAX at hle
    omega
  obtain ⟨d, hfills, hlength⟩ := fills_of_volume overflow_checks hdata hvolume hnonneg hdims hlt
  have hdvd : d.toUInt64.toNat ∣ data.length := ⟨_, hlength⟩
  have hpos := Nat.pos_of_ne_zero (mt toUInt64_toNat_eq_zero.mp hfills.nonzero)
  have hchannels := Nat.le_of_dvd (extract_float_data_length hdata).1 hdvd
  refine ⟨d, hfills, hlength, ?_⟩
  rw [hfills.quantize_weight, quantize_channels_eq hpos hdvd hchannels hle]
  rfl

end Channels

end Gigastt.Quantize
