import Gigastt.Base
import Gigastt.Words.Code
import Gigastt.Lib.Dataflow

/-!
# The INT8 pass: `quantize.rs`

From the decoded model to the model that is encoded. A message carries in `rest` the
fields that the pass copies and never reads.
-/

namespace Gigastt.Quantize

open Words

def FLOAT : Int32 := 1
def INT8 : Int32 := 3
def QUANTIZABLE_OPS : List Text := ["MatMul".toList, "Conv".toList, "Gemm".toList]
def MIN_ELEMENTS : Nat := 1024

/-- `isize::MAX`, the most bytes that a `Vec` holds. -/
def ISIZE_MAX : Nat := 2 ^ 63 - 1

/-! ## The messages -/

variable {F R : Type}

structure AttributeProto (R : Type) where
  name : Option Text := none
  i : Option Int64 := none
  type : Option Int32 := none
  rest : R
deriving DecidableEq

structure NodeProto (R : Type) where
  input : List Text := []
  output : List Text := []
  name : Option Text := none
  op_type : Option Text := none
  domain : Option Text := none
  overload : Option Text := none
  attributes : List (AttributeProto R) := []
  rest : R
deriving DecidableEq

structure TensorProto (F R : Type) where
  name : Option Text := none
  dims : List Int64 := []
  data_type : Option Int32 := none
  float_data : List F := []
  raw_data : Option (List UInt8) := none
  rest : R
deriving DecidableEq

structure ValueInfoProto (R : Type) where
  name : Option Text := none
  rest : R
deriving DecidableEq

structure GraphProto (F R : Type) where
  node : List (NodeProto R) := []
  initializer : List (TensorProto F R) := []
  input : List (ValueInfoProto R) := []
  output : List (ValueInfoProto R) := []
  rest : R
deriving DecidableEq

structure ModelProto (F R : Type) where
  graph : Option (GraphProto F R) := none
  rest : R
deriving DecidableEq

/-- The vectors of numbers are in memory. -/
structure TensorProto.Fits (tensor : TensorProto F R) : Prop where
  float_data : 4 * tensor.float_data.length ≤ ISIZE_MAX
  raw_data : ∀ raw ∈ tensor.raw_data, raw.length ≤ ISIZE_MAX

/-- What `ModelProto::decode` makes. -/
structure Decoded (F R : Type) where
  model : ModelProto F R
  fits : ∀ graph ∈ model.graph, ∀ tensor ∈ graph.initializer, tensor.Fits

/-- The accessor of an optional string. -/
def text (field : Option Text) : Text := field.getD []

def TensorProto.elem_type (tensor : TensorProto F R) : Int32 := tensor.data_type.getD 0

/-! ## Errors and numbers -/

inductive PassPanic where
  | overflow
  | capacity
  | index
deriving DecidableEq, Repr

inductive PassError where
  | err (message : Text)
  | panic (about : PassPanic)
deriving DecidableEq, Repr

/-- The `f32` operations of the pass. No law is assumed of them. -/
class F32Weights (F : Type) extends F32 F, IntCast F where
  from_le_bytes : UInt8 → UInt8 → UInt8 → UInt8 → F
  is_zero : F → Bool
  abs : F → F
  round : F → F
  clamp : F → F → F → F
  to_i8 : F → Int8

/-- Numbers for runs on fixed inputs, whose weights are 0. -/
instance : F32Weights Int where
  from_le_bytes a b c d := a.toNat + 256 * b.toNat + 65536 * c.toNat + 16777216 * d.toNat
  is_zero x := x == 0
  abs x := x.natAbs
  round x := x
  clamp x low high := max low (min high x)
  to_i8 := Int8.ofInt

/-- `result`, which is wrapped where it is not `exact`. -/
def arithmetic {α : Type} (overflow_checks exact : Bool) (result : α) : Except PassError α :=
  if overflow_checks && !exact then .error (.panic .overflow) else .ok result

def product_i64 (overflow_checks : Bool) (dims : List Int64) : Except PassError Int64 :=
  dims.foldlM (fun product d =>
    arithmetic overflow_checks ((product * d).toInt == product.toInt * d.toInt) (product * d)) 1

def product_usize (overflow_checks : Bool) (extents : List Nat) : Except PassError Nat :=
  extents.foldlM (fun product d =>
    arithmetic overflow_checks (product * d < 2 ^ 64) (product * d % 2 ^ 64)) 1

/-- `Vec::with_capacity`, for elements of `size` bytes. -/
def with_capacity (len size : Nat) : Except PassError Unit :=
  if len * size ≤ ISIZE_MAX then .ok () else .error (.panic .capacity)

/-! ## One tensor -/

section Weights

variable [F32Weights F]

/-- `chunks_exact(4)`, which leaves out what does not fill a chunk. -/
def floats : List UInt8 → List F
  | a :: b :: c :: d :: rest => F32Weights.from_le_bytes a b c d :: floats rest
  | _ => []

def misaligned (tensor : TensorProto F R) (len : Nat) : Text :=
  "Tensor '".toList ++ text tensor.name ++ "' raw_data length ".toList ++ (toString len).toList ++
    " is not aligned to 4 bytes".toList

def no_float_data (tensor : TensorProto F R) : Text :=
  "Tensor '".toList ++ text tensor.name ++ "' has no float data".toList

def extract_float_data (tensor : TensorProto F R) : Except PassError (List F) :=
  if tensor.float_data ≠ [] then .ok tensor.float_data
  else
    match tensor.raw_data with
    | some (byte :: bytes) =>
      if (byte :: bytes).length % 4 = 0 then .ok (floats (byte :: bytes))
      else .error (.err (misaligned tensor (byte :: bytes).length))
    | _ => .error (.err (no_float_data tensor))

structure Quantized (F : Type) where
  channels : Nat
  scales : List F
  data : List Int8
deriving DecidableEq

def channel_scale (channel_data : List F) : F :=
  let abs_max := channel_data.foldl (fun m v => F32.max m (F32Weights.abs v)) 0
  if F32Weights.is_zero abs_max then 1 else abs_max / ((127 : Int) : F)

def quantize_value (scale val : F) : Int8 :=
  F32Weights.to_i8
    (F32Weights.clamp (F32Weights.round (val / scale)) ((-128 : Int) : F) ((127 : Int) : F))

def quantize_channel (float_data : List F) (channel_size ch : Nat) :
    Except PassError (F × List Int8) :=
  let start := ch * channel_size
  let stop := start + channel_size
  if stop ≤ float_data.length then
    let channel_data := (float_data.drop start).take channel_size
    let scale := channel_scale channel_data
    .ok (scale, channel_data.map (quantize_value scale))
  else .error (.panic .index)

def quantize_channels (float_data : List F) (channels : Nat) : Except PassError (Quantized F) := do
  let channel_size := float_data.length / channels
  with_capacity float_data.length 1
  with_capacity channels 4
  with_capacity channels 1
  let rows ← (List.range channels).mapM (quantize_channel float_data channel_size)
  return { channels, scales := rows.map Prod.fst, data := rows.flatMap Prod.snd }

variable (overflow_checks : Bool)

/-- The body of the loop over the targets, up to the new tensors. A tensor may be skipped. -/
def quantize_weight (tensor : TensorProto F R) : Except PassError (Option (Quantized F)) := do
  let float_data ← extract_float_data tensor
  match tensor.dims with
  | [] => return none
  | d :: _ =>
    let channels := d.toUInt64.toNat
    if channels = 0 then return none
    else
      let expected_elements ←
        product_usize overflow_checks (tensor.dims.map Int64.toNatClampNeg)
      if expected_elements ≠ float_data.length then return none
      else some <$> quantize_channels float_data channels

end Weights

/-! ## New tensors and nodes -/

def quantized (weight_name : Text) : Text := weight_name ++ "_quantized".toList
def scale (weight_name : Text) : Text := weight_name ++ "_scale".toList
def zero_point (weight_name : Text) : Text := weight_name ++ "_zero_point".toList
def dequantized (weight_name : Text) : Text := weight_name ++ "_dequantized".toList

section New

variable [Inhabited R]

def axis : AttributeProto R :=
  { name := some "axis".toList, i := some 0, type := some 2, rest := default }

def dequantize_node (weight_name : Text) : NodeProto R where
  op_type := some "DequantizeLinear".toList
  input := [quantized weight_name, scale weight_name, zero_point weight_name]
  output := [dequantized weight_name]
  name := some ("dequant_".toList ++ weight_name)
  attributes := [axis]
  rest := default

def new_tensors (weight_name : Text) (dims : List Int64) (q : Quantized F) :
    List (TensorProto F R) :=
  [{ name := some (quantized weight_name), dims, data_type := some INT8
     raw_data := some (q.data.map Int8.toUInt8), rest := default },
   { name := some (scale weight_name), dims := [Int64.ofNat q.channels], data_type := some FLOAT
     float_data := q.scales, rest := default },
   { name := some (zero_point weight_name), dims := [Int64.ofNat q.channels]
     data_type := some INT8
     raw_data := some ((List.replicate q.channels 0).map Int8.toUInt8), rest := default }]

end New

/-! ## Targets -/

structure Target where
  node_idx : Nat
  input_idx : Nat
  weight_name : Text
  init_idx : Nat
deriving DecidableEq, Repr

/-- Of two initializers with one name the map has the last. -/
def init_map (graph : GraphProto F R) : Text → Option Nat :=
  Dataflow.assign (fun _ => none) (graph.initializer.zipIdx.map fun t => (text t.1.name, t.2))

def initializer_at (graph : GraphProto F R) (init_idx : Nat) :
    Except PassError (TensorProto F R) :=
  match graph.initializer[init_idx]? with
  | some tensor => .ok tensor
  | none => .error (.panic .index)

section Pass

variable (overflow_checks : Bool)

def is_target (tensor : TensorProto F R) : Except PassError Bool :=
  if tensor.elem_type ≠ FLOAT then .ok false
  else do
    let num_elements ← product_i64 overflow_checks tensor.dims
    return 0 < num_elements && MIN_ELEMENTS ≤ num_elements.toUInt64.toNat

def input_target (graph : GraphProto F R) (node_idx : Nat) (input : Text × Nat) :
    Except PassError (Option Target) :=
  if input.2 = 0 then .ok none
  else
    match init_map graph input.1 with
    | none => .ok none
    | some init_idx => do
      let tensor ← initializer_at graph init_idx
      if ← is_target overflow_checks tensor then
        return some { node_idx, input_idx := input.2, weight_name := input.1, init_idx }
      else return none

def node_targets (graph : GraphProto F R) (node : NodeProto R × Nat) :
    Except PassError (List Target) :=
  if text node.1.op_type ∉ QUANTIZABLE_OPS then .ok []
  else (·.reduceOption) <$> node.1.input.zipIdx.mapM (input_target overflow_checks graph node.2)

def collect_targets (graph : GraphProto F R) : Except PassError (List Target) :=
  List.flatten <$> graph.node.zipIdx.mapM (node_targets overflow_checks graph)

/-! ## The pass -/

structure Progress (F R : Type) where
  new_nodes : List (NodeProto R) := []
  new_initializers : List (TensorProto F R) := []
  quantized_names : List Text := []

variable [F32Weights F] [Inhabited R]

/-- The name is in `quantized_names` also when its tensor is then skipped. -/
def quantize_target (graph : GraphProto F R) (p : Progress F R) (target : Target) :
    Except PassError (Progress F R) :=
  let w := target.weight_name
  if w ∈ p.quantized_names then .ok p
  else do
    let tensor ← initializer_at graph target.init_idx
    let p := { p with quantized_names := w :: p.quantized_names }
    match ← quantize_weight overflow_checks tensor with
    | none => return p
    | some q =>
      return { p with
        new_nodes := p.new_nodes ++ [dequantize_node w]
        new_initializers := p.new_initializers ++ new_tensors w tensor.dims q }

def rewire_target (nodes : List (NodeProto R)) (target : Target) : List (NodeProto R) :=
  nodes.modify target.node_idx fun node =>
    { node with input := node.input.set target.input_idx (dequantized target.weight_name) }

def quantize_graph (graph : GraphProto F R) : Except PassError (GraphProto F R) := do
  let targets ← collect_targets overflow_checks graph
  let p ← targets.foldlM (quantize_target overflow_checks graph) {}
  return { graph with
    node := p.new_nodes ++ targets.foldl rewire_target graph.node
    initializer :=
      graph.initializer.filter (text ·.name ∉ p.quantized_names) ++ p.new_initializers }

def quantize_model (input : Decoded F R) : Except PassError (ModelProto F R) :=
  match input.model.graph with
  | none => .error (.err "Model has no graph".toList)
  | some graph => do
    let graph ← quantize_graph overflow_checks graph
    return { input.model with graph := some graph }

end Pass

end Gigastt.Quantize
