import Gigastt.Quantize.Closed
import Gigastt.Quantize.Tensors
import Mathlib.Data.List.Nodup

/-!
# The pass and the meaning of a graph

Operators mean what an interpretation says. The meaning of the graph that is written is
compared with that of the graph that was read, where the weights that are targets are
rounded to INT8.
-/

namespace Gigastt.Quantize

open Words

variable {F R V : Type} [F32Weights F] {overflow_checks : Bool}

/-! ## Interpretations -/

/-- `DequantizeLinear` along axis 0: element `j` is in row `j / inner`. -/
def dequantize_linear (dims : List Int64) (q : List Int8) (scales : List F) (zeros : List Int8) :
    List F :=
  let inner := (volume dims.tail).toNat
  q.zipIdx.map fun p =>
    ((p.1.toInt - (zeros.getD (p.2 / inner) 0).toInt : Int) : F) * scales.getD (p.2 / inner) 0

/-- The kind of a node is all of it but its inputs. -/
structure Interpretation (F R V : Type) [F32Weights F] [Inhabited R] where
  initializer : TensorProto F R → V
  op : NodeProto R → List V → Option (Nat → V)
  float_tensor : List Int64 → List F → V
  int8_tensor : List Int64 → List Int8 → V
  initializer_float : ∀ name dims data,
    initializer { name, dims, data_type := some FLOAT, float_data := data, rest := default } =
      float_tensor dims data
  initializer_int8 : ∀ name dims raw,
    initializer { name, dims, data_type := some INT8, raw_data := some raw, rest := default } =
      int8_tensor dims (raw.map UInt8.toInt8)
  op_dequantize_linear : ∀ (name : Option Text) (output : List Text) (dims : List Int64) (d : Int64)
    (q : List Int8) (scales : List F) (zeros : List Int8),
    dims.head? = some d → (∀ e ∈ dims, 0 ≤ e) → volume dims = q.length →
    d.toInt = scales.length → d.toInt = zeros.length →
    ∃ results, op { op_type := some "DequantizeLinear".toList, attributes := [axis], name, output
                    rest := default }
        [int8_tensor dims q, float_tensor [d] scales, int8_tensor [d] zeros] = some results ∧
      results 0 = float_tensor dims (dequantize_linear dims q scales zeros)

section Eval

variable [Inhabited R] (I : Interpretation F R V) (inputs : Text → V) (value : TensorProto F R → V)

/-- The start of a run: the graph inputs and the initializers. -/
def start (graph : GraphProto F R) : Text → Option V :=
  Dataflow.assign (fun x => if (value_names graph.input).contains x then some (inputs x) else none)
    (graph.initializer.map fun tensor => (text tensor.name, value tensor))

def evaluate (graph : GraphProto F R) : Option (List V) :=
  Dataflow.eval I.op (start inputs value graph) (graph.node.map flow) (value_names graph.output)

end Eval

/-! ## Weights rounded to INT8 -/

/-- Element `j` is `q_j * scale_(j / channel_size)`. -/
def rounded (data : List F) (channels : Nat) : List F :=
  let channel_size := data.length / channels
  data.zipIdx.map fun p =>
    ((quantize_value (element_scale data channel_size p.2) p.1).toInt : F) *
      element_scale data channel_size p.2

def TensorProto.channels (tensor : TensorProto F R) : Nat := (tensor.dims.headD 0).toUInt64.toNat

variable (overflow_checks) in
open Classical in
/-- Each initializer as it is, but a weight that is a target with its elements rounded. -/
noncomputable def rounded_initializer [Inhabited R] (I : Interpretation F R V) (graph : GraphProto F R)
    (tensor : TensorProto F R) : V :=
  if Targeted overflow_checks graph (text tensor.name) then
    match extract_float_data tensor with
    | .ok data => I.float_tensor tensor.dims (rounded data tensor.channels)
    | .error _ => I.initializer tensor
  else I.initializer tensor

theorem dequantize_linear_quantization {dims : List Int64} {data : List F} {channels : Nat}
    (hpos : 0 < channels) (hlength : data.length = channels * (volume dims.tail).toNat) :
    dequantize_linear dims (quantization data channels).data (quantization data channels).scales
      (List.replicate channels 0) = rounded data channels := by
  have hsize : data.length / channels = (volume dims.tail).toNat := by
    rw [hlength, Nat.mul_div_cancel_left _ hpos]
  unfold dequantize_linear quantization rounded
  rw [hsize]
  dsimp only
  apply List.ext_getElem?
  intro j
  simp only [List.getElem?_map, List.getElem?_zipIdx, Option.map_map]
  cases hj : data[j]? with
  | none => rfl
  | some v =>
    obtain ⟨hlt, -⟩ := List.getElem?_eq_some_iff.mp hj
    have hrow : j / (volume dims.tail).toNat < channels := by
      apply Nat.div_lt_of_lt_mul
      rwa [Nat.mul_comm, ← hlength]
    have hzero : (List.replicate channels (0 : Int8)).getD (j / (volume dims.tail).toNat) 0 = 0 := by
      simp [List.getD_eq_getElem?_getD, hrow]
    have hscale : ((List.range channels).map fun ch =>
        channel_scale (chunk data (volume dims.tail).toNat ch)).getD
          (j / (volume dims.tail).toNat) 0 = element_scale data (volume dims.tail).toNat j := by
      simp [List.getD_eq_getElem?_getD, hrow, element_scale]
    simp only [Option.map_some, Function.comp_apply, Nat.zero_add]
    rw [hzero, hscale, Int8.toInt_zero, Int.sub_zero]

/-! ## Names that the pass makes -/

def suffixes : List Text :=
  ["_quantized".toList, "_scale".toList, "_zero_point".toList, "_dequantized".toList]

def made (w : Text) : List Text := suffixes.map (w ++ ·)

/-- The names of the new initializers of a weight. -/
def made_tensors (w : Text) : List Text := [quantized w, scale w, zero_point w]

/-- No suffix ends another one. -/
theorem eq_of_suffix : ∀ s ∈ suffixes, ∀ s' ∈ suffixes, s <:+ s' → s = s' := by
  decide

theorem append_suffix_inj {s s' w w' : Text} (hs : s ∈ suffixes) (hs' : s' ∈ suffixes)
    (h : w ++ s = w' ++ s') : w = w' ∧ s = s' := by
  have hsame : s = s' := by
    rcases List.suffix_or_suffix_of_suffix (List.suffix_append w s) (h ▸ List.suffix_append w' s')
      with hsuffix | hsuffix
    · exact eq_of_suffix s hs s' hs' hsuffix
    · exact (eq_of_suffix s' hs' s hs hsuffix).symm
  subst hsame
  exact ⟨List.append_cancel_right h, rfl⟩

theorem mem_made {w x : Text} : x ∈ made w ↔ x ∈ made_tensors w ∨ x = dequantized w := by
  simp [made, suffixes, made_tensors, quantized, scale, zero_point, dequantized, or_assoc]

theorem eq_of_mem_made {w w' x : Text} (h : x ∈ made w) (h' : x ∈ made w') : w = w' := by
  obtain ⟨s, hs, rfl⟩ := List.mem_map.mp h
  obtain ⟨s', hs', heq⟩ := List.mem_map.mp h'
  exact (append_suffix_inj hs' hs heq).1.symm

theorem made_nodup (w : Text) : (made w).Nodup :=
  List.Nodup.map (fun _ _ h => List.append_cancel_left h) (by decide)

theorem made_eq (w : Text) : made w = made_tensors w ++ [dequantized w] := rfl

theorem dequantized_not_mem (w w' : Text) : dequantized w ∉ made_tensors w' := by
  intro h
  have hw : dequantized w ∈ made w := mem_made.mpr (.inr rfl)
  obtain rfl := eq_of_mem_made hw (mem_made.mpr (.inl h))
  have hnodup := made_nodup w
  rw [made_eq, List.nodup_append] at hnodup
  exact hnodup.2.2 _ h _ (List.mem_singleton_self _) rfl

theorem made_tensors_nodup {names : List Text} (h : names.Nodup) :
    (names.flatMap made_tensors).Nodup := by
  rw [List.nodup_flatMap]
  constructor
  · intro w _
    have hnodup := made_nodup w
    rw [made_eq, List.nodup_append] at hnodup
    exact hnodup.1
  · refine h.imp fun hne => ?_
    rintro x hx hx'
    exact hne (eq_of_mem_made (mem_made.mpr (.inl hx)) (mem_made.mpr (.inl hx')))

/-! ## Graphs that the pass is for -/

def GraphProto.names (graph : GraphProto F R) : List Text :=
  graph.scope ++ graph.node.flatMap NodeProto.output

variable (overflow_checks) in
structure Ready (graph : GraphProto F R) : Prop where
  closed : graph.Closed
  unique : graph.names.Nodup
  fresh : ∀ w, Targeted overflow_checks graph w → ∀ x ∈ made w, x ∉ graph.names
  data : ∀ w tensor, Targeted overflow_checks graph w → weight graph w = some tensor →
    ∃ data : List F, extract_float_data tensor = .ok data ∧
      (data.length : Int) = volume tensor.dims
  uses : ∀ node ∈ graph.node, ∀ i w, node.input[i]? = some w →
    Targeted overflow_checks graph w → rewires overflow_checks graph node i w
  outputs : ∀ w ∈ value_names graph.output, ¬ Targeted overflow_checks graph w

variable (overflow_checks) in
/-- The graph that is written means what the graph that was read means, with each target
weight rounded. -/
def Preserved [Inhabited R] (graph graph' : GraphProto F R) : Prop :=
  ∀ (V : Type) (I : Interpretation F R V) (inputs : Text → V),
    evaluate I inputs I.initializer graph' =
      evaluate I inputs (rounded_initializer overflow_checks I graph) graph

section Ready

variable {graph graph' : GraphProto F R}

omit [F32Weights F] in
theorem provided_eq_names :
    Dataflow.provided graph.scope (graph.node.map flow) = graph.names := by
  simp [Dataflow.provided, GraphProto.names, List.flatMap_map, flow]

/-- A closed graph reads no name but its own. -/
theorem Ready.input_mem_names (h : Ready overflow_checks graph) {node : NodeProto R}
    (hnode : node ∈ graph.node) {x : Text} (hx : x ∈ node.input) : x ∈ graph.names := by
  rw [← provided_eq_names]
  exact h.closed.ordered.mem_provided (List.mem_map_of_mem hnode) hx

theorem Ready.initializers_nodup (h : Ready overflow_checks graph) :
    (initializer_names graph.initializer).Nodup :=
  (List.nodup_append.mp (List.nodup_append.mp h.unique).1).2.1

/-- Its data fills the shape of a target without negative extents. -/
theorem Ready.fills (h : Ready overflow_checks graph)
    (hfits : ∀ tensor ∈ graph.initializer, tensor.Fits) {w : Text} {tensor : TensorProto F R}
    (hw : Targeted overflow_checks graph w) (htensor : weight graph w = some tensor)
    (hnonneg : ∀ d ∈ tensor.dims, 0 ≤ d) :
    ∃ (data : List F) (d : Int64), Fills overflow_checks tensor data d ∧
      data.length = d.toUInt64.toNat * (volume tensor.dims.tail).toNat ∧
      quantize_weight overflow_checks tensor = .ok (some (quantization data d.toUInt64.toNat)) := by
  obtain ⟨data, hdata, hvolume⟩ := h.data w tensor hw htensor
  obtain ⟨tensor', htensor', htarget⟩ := hw.weight
  obtain rfl := Option.some.inj (htensor.symm.trans htensor')
  exact ⟨data, quantize_weight_of_volume overflow_checks hdata
    (hfits tensor (weight_eq_some htensor).1) hvolume hnonneg (dims_ne_nil htarget)⟩

variable [Inhabited R] {done : List (Replaced F R)}

/-- Where no extent is negative each target is quantized. -/
theorem Written.done_of_nonneg (hwritten : Written overflow_checks graph graph' done)
    (h : Ready overflow_checks graph) (hfits : ∀ tensor ∈ graph.initializer, tensor.Fits)
    {w : Text} {tensor : TensorProto F R} (hw : Targeted overflow_checks graph w)
    (htensor : weight graph w = some tensor) (hnonneg : ∀ d ∈ tensor.dims, 0 ≤ d) :
    w ∈ done.map Replaced.name := by
  obtain ⟨data, d, hfills, -⟩ := h.fills hfits hw htensor hnonneg
  exact hwritten.mem_done.mpr ⟨hw, tensor, htensor, data, d, hfills⟩

/-- The data of a weight, and what the pass made of it. -/
structure Replaced.Exact (r : Replaced F R) (data : List F) (d : Int64) : Prop where
  extracted : extract_float_data r.tensor = .ok data
  head : r.tensor.dims.head? = some d
  pos : 0 < d
  nonneg : ∀ e ∈ r.tensor.dims, 0 ≤ e
  volume : volume r.tensor.dims = data.length
  length : data.length = d.toUInt64.toNat * (Quantize.volume r.tensor.dims.tail).toNat
  quantized : r.quantized = quantization data d.toUInt64.toNat

omit [Inhabited R] in
theorem Replaced.Exact.channels_eq {r : Replaced F R} {data : List F} {d : Int64}
    (h : r.Exact data d) : d.toInt = d.toUInt64.toNat := by
  have hle : 0 ≤ d := Int64.le_of_lt h.pos
  rw [Int64.toNat_toUInt64_of_le hle, Int64.cast_toNatClampNeg d hle]

omit [Inhabited R] in
theorem Replaced.Exact.channels_pos {r : Replaced F R} {data : List F} {d : Int64}
    (h : r.Exact data d) : 0 < d.toUInt64.toNat := by
  have hpos := Int64.lt_iff_toInt_lt.mp h.pos
  rw [h.channels_eq, Int64.toInt_zero] at hpos
  omega

theorem Written.exact_of_volume (hwritten : Written overflow_checks graph graph' done)
    (hfits : ∀ tensor ∈ graph.initializer, tensor.Fits) {r : Replaced F R} (hr : r ∈ done)
    {data : List F} (hdata : extract_float_data r.tensor = .ok data)
    (hvolume : (data.length : Int) = Quantize.volume r.tensor.dims) : ∃ d, r.Exact data d := by
  obtain ⟨-, htensor, hquantize⟩ := hwritten.replaced r hr
  obtain ⟨data', d', hfills', -⟩ := fills_of_quantize_weight hquantize
  have hnonneg : ∀ e ∈ r.tensor.dims, 0 ≤ e := by
    intro e he
    by_contra hneg
    exact not_quantizable_of_neg he (Int64.not_le.mp hneg) ⟨data', d', hfills'⟩
  have hdims : r.tensor.dims ≠ [] := List.ne_nil_of_mem (List.mem_of_head? hfills'.head)
  obtain ⟨d, hfills, hlength, hq⟩ := quantize_weight_of_volume overflow_checks hdata
    (hfits r.tensor (weight_eq_some htensor).1) hvolume hnonneg hdims
  have hle : 0 ≤ d := hnonneg d (List.mem_of_head? hfills.head)
  have hsame := hquantize.symm.trans hq
  exact ⟨d, hfills.extracted, hfills.head, Int64.lt_of_le_of_ne hle (Ne.symm hfills.nonzero),
    hnonneg, hvolume.symm, hlength, Option.some.inj (Except.ok.inj hsame)⟩

theorem Written.exact (hwritten : Written overflow_checks graph graph' done)
    (h : Ready overflow_checks graph) (hfits : ∀ tensor ∈ graph.initializer, tensor.Fits)
    {r : Replaced F R} (hr : r ∈ done) : ∃ data d, r.Exact data d := by
  obtain ⟨hw, htensor, -⟩ := hwritten.replaced r hr
  obtain ⟨data, hdata, hvolume⟩ := h.data r.name r.tensor hw htensor
  exact ⟨data, hwritten.exact_of_volume hfits hr hdata hvolume⟩

end Ready

end Gigastt.Quantize
