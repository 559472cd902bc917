import Gigastt.Quantize.Tensors

/-!
# The pass and closed graphs

A graph is closed when each name that a node reads or the graph gives out is there before.
-/

namespace Gigastt.Quantize

open Words

variable {F R : Type} {overflow_checks : Bool}

/-! ## Graphs as dataflow -/

/-- A node's kind is all of it but its inputs. -/
def flow (node : NodeProto R) : Dataflow.Node Text (NodeProto R) where
  kind := { node with input := [] }
  reads := node.input
  writes := node.output

def value_names (values : List (ValueInfoProto R)) : List Text := values.map (text ·.name)

def initializer_names (tensors : List (TensorProto F R)) : List Text := tensors.map (text ·.name)

def GraphProto.scope (graph : GraphProto F R) : List Text :=
  value_names graph.input ++ initializer_names graph.initializer

def GraphProto.Closed (graph : GraphProto F R) : Prop :=
  Dataflow.Closed graph.scope (graph.node.map flow) (value_names graph.output)

instance (graph : GraphProto F R) : Decidable graph.Closed :=
  inferInstanceAs (Decidable (Dataflow.Closed _ _ _))

def ModelProto.Closed (model : ModelProto F R) : Prop := ∀ graph ∈ model.graph, graph.Closed

theorem ModelProto.closed_iff {model : ModelProto F R} {graph : GraphProto F R}
    (h : model.graph = some graph) : model.Closed ↔ graph.Closed := by
  simp [ModelProto.Closed, h]

/-! ## When the pass keeps a graph closed -/

section Consistent

variable [F32Weights F] (overflow_checks) (graph : GraphProto F R)

def QuantizableWeight (w : Text) : Prop :=
  ∃ tensor, weight graph w = some tensor ∧ Quantizable overflow_checks tensor

/-- The name is there after the nodes `before`, but not as a weight that is a target: it is
another input, initializer or output, or a name that the pass makes. -/
def Visible (before : List (NodeProto R)) (x : Text) : Prop :=
  x ∈ value_names graph.input ∨
  (x ∈ initializer_names graph.initializer ∧ ¬ Targeted overflow_checks graph x) ∨
  (∃ w, Targeted overflow_checks graph w ∧ QuantizableWeight overflow_checks graph w ∧
    x ∈ [quantized w, scale w, zero_point w, dequantized w]) ∨
  ∃ node ∈ before, x ∈ node.output

/-- A weight is quantized where it is rewired, and no use of it is left. A name that is there
in another way makes up for either. -/
structure Consistent : Prop where
  rewired : ∀ (k : Nat) (node : NodeProto R) (i : Nat) (w : Text),
    graph.node[k]? = some node → node.input[i]? = some w → rewires overflow_checks graph node i w →
    QuantizableWeight overflow_checks graph w ∨
      Visible overflow_checks graph (graph.node.take k) (dequantized w)
  kept : ∀ (k : Nat) (node : NodeProto R) (i : Nat) (w : Text),
    graph.node[k]? = some node → node.input[i]? = some w → ¬ rewires overflow_checks graph node i w →
    Targeted overflow_checks graph w → Visible overflow_checks graph (graph.node.take k) w
  outputs : ∀ w ∈ value_names graph.output, Targeted overflow_checks graph w →
    Visible overflow_checks graph graph.node w

end Consistent

/-! ## What is there after the pass -/

section Scope

variable {graph graph' : GraphProto F R}

theorem mem_rewired_input {node : NodeProto R} {x : Text} :
    x ∈ (rewired overflow_checks graph node).input ↔ ∃ i w, node.input[i]? = some w ∧
      x = if rewires overflow_checks graph node i w then dequantized w else w := by
  simp only [rewired, List.mem_iff_getElem?, List.getElem?_mapIdx, Option.map_eq_some_iff]
  grind

variable [F32Weights F] [Inhabited R] {done : List (Replaced F R)}

theorem Written.mem_done (h : Written overflow_checks graph graph' done) {w : Text} :
    w ∈ done.map Replaced.name ↔
      Targeted overflow_checks graph w ∧ QuantizableWeight overflow_checks graph w := by
  constructor
  · intro hw
    obtain ⟨r, hr, rfl⟩ := List.mem_map.mp hw
    obtain ⟨htargeted, hweight, hq⟩ := h.replaced r hr
    obtain ⟨data, d, hfills, -⟩ := fills_of_quantize_weight hq
    exact ⟨htargeted, r.tensor, hweight, data, d, hfills⟩
  · rintro ⟨htargeted, tensor, hweight, hquantizable⟩
    rcases h.skipped w htargeted with hdone | ⟨tensor', hweight', hnone⟩
    · exact hdone
    · obtain rfl := Option.some.inj (hweight.symm.trans hweight')
      exact absurd hquantizable (not_quantizable hnone)

theorem Written.mem_scope (h : Written overflow_checks graph graph' done) {x : Text} :
    x ∈ graph'.scope ↔ x ∈ value_names graph.input ∨
      (x ∈ initializer_names graph.initializer ∧ ¬ Targeted overflow_checks graph x) ∨
      ∃ r ∈ done, x ∈ [quantized r.name, scale r.name, zero_point r.name] := by
  obtain ⟨names, hnames, hinit⟩ := h.initializer
  unfold GraphProto.scope initializer_names
  rw [h.input, hinit]
  simp [hnames, Replaced.tensors, new_tensors, text]
  grind

/-- Before a node of the graph that is written stand the new nodes and what was before it. -/
theorem Written.mem_provided (h : Written overflow_checks graph graph' done)
    (before : List (NodeProto R)) (x : Text) :
    x ∈ Dataflow.provided
        (Dataflow.provided graph'.scope (done.map fun r => flow r.node))
        (before.map fun node => flow (rewired overflow_checks graph node)) ↔
      Visible overflow_checks graph before x := by
  have hmade : (∃ w, Targeted overflow_checks graph w ∧ QuantizableWeight overflow_checks graph w ∧
      x ∈ [quantized w, scale w, zero_point w, dequantized w]) ↔
      (∃ r ∈ done, x ∈ [quantized r.name, scale r.name, zero_point r.name]) ∨
        ∃ r ∈ done, x = dequantized r.name := by
    simp only [← and_assoc, ← h.mem_done, List.mem_map, List.mem_cons, List.not_mem_nil, or_false]
    grind
  unfold Dataflow.provided Visible
  rw [hmade, List.mem_append, List.mem_append, h.mem_scope]
  simp [flow, rewired, Replaced.node, dequantize_node, or_assoc]

/-- The graph that is written is closed when all that its old part reads is there. -/
theorem Written.closed_iff_visible (h : Written overflow_checks graph graph' done) :
    graph'.Closed ↔
      (∀ (k : Nat) (node : NodeProto R), graph.node[k]? = some node →
        ∀ x ∈ (rewired overflow_checks graph node).input,
          Visible overflow_checks graph (graph.node.take k) x) ∧
      ∀ x ∈ value_names graph.output, Visible overflow_checks graph graph.node x := by
  have hnode : graph'.node.map flow =
      (done.map fun r => flow r.node) ++
        graph.node.map fun node => flow (rewired overflow_checks graph node) := by
    rw [h.node, List.map_append, List.map_map, List.map_map]
    rfl
  have hnew : Dataflow.Ordered graph'.scope
      (done.map fun r => flow r.node) := by
    apply Dataflow.ordered_of_scope
    intro n hn x hx
    obtain ⟨r, hr, rfl⟩ := List.mem_map.mp hn
    rw [h.mem_scope]
    exact .inr (.inr ⟨r, hr, hx⟩)
  have hold : Dataflow.Ordered
      (Dataflow.provided graph'.scope (done.map fun r => flow r.node))
      (graph.node.map fun node => flow (rewired overflow_checks graph node)) ↔
      ∀ (k : Nat) (node : NodeProto R), graph.node[k]? = some node →
        ∀ x ∈ (rewired overflow_checks graph node).input,
          Visible overflow_checks graph (graph.node.take k) x := by
    simp only [Dataflow.ordered_iff, List.getElem?_map, ← List.map_take, h.mem_provided,
      Option.map_eq_some_iff, forall_exists_index, and_imp, forall_apply_eq_imp_iff₂]
    rfl
  constructor
  · rintro ⟨hordered, houts⟩
    rw [hnode] at hordered houts
    refine ⟨hold.mp (Dataflow.ordered_append.mp hordered).2, fun x hx => ?_⟩
    rw [← h.mem_provided, ← Dataflow.provided_append]
    exact houts x (h.output ▸ hx)
  · rintro ⟨hreads, houts⟩
    refine ⟨?_, fun x hx => ?_⟩
    · rw [hnode]
      exact Dataflow.ordered_append.mpr ⟨hnew, hold.mpr hreads⟩
    · rw [hnode, Dataflow.provided_append, h.mem_provided]
      exact houts x (h.output ▸ hx)

omit [Inhabited R] in
theorem visible_of_provided {before : List (NodeProto R)} {x : Text}
    (h : x ∈ Dataflow.provided graph.scope (before.map flow))
    (hx : ¬ Targeted overflow_checks graph x) : Visible overflow_checks graph before x := by
  simp only [Dataflow.provided, GraphProto.scope, List.mem_append, List.mem_flatMap,
    List.mem_map] at h
  rcases h with (hinput | hinit) | ⟨n, ⟨node, hnode, rfl⟩, hwrites⟩
  · exact .inl hinput
  · exact .inr (.inl ⟨hinit, hx⟩)
  · exact .inr (.inr (.inr ⟨node, hnode, hwrites⟩))

theorem Written.closed_iff (h : Written overflow_checks graph graph' done) (hclosed : graph.Closed) :
    graph'.Closed ↔ Consistent overflow_checks graph := by
  rw [h.closed_iff_visible]
  constructor
  · rintro ⟨hreads, houts⟩
    refine ⟨fun k node i w hnode hinput hrewires => .inr ?_,
      fun k node i w hnode hinput hrewires _ => ?_, fun w hw _ => houts w hw⟩
    · exact hreads k node hnode _ (mem_rewired_input.mpr ⟨i, w, hinput, by rw [if_pos hrewires]⟩)
    · exact hreads k node hnode _ (mem_rewired_input.mpr ⟨i, w, hinput, by rw [if_neg hrewires]⟩)
  · intro hconsistent
    constructor
    · intro k node hnode x hx
      obtain ⟨i, w, hinput, rfl⟩ := mem_rewired_input.mp hx
      split
      · rename_i hrewires
        rcases hconsistent.rewired k node i w hnode hinput hrewires with hquantizable | hvisible
        · have htargeted : Targeted overflow_checks graph w :=
            ⟨node, List.mem_of_getElem? hnode, i, hinput, hrewires⟩
          exact .inr (.inr (.inl ⟨w, htargeted, hquantizable, by simp⟩))
        · exact hvisible
      · rename_i hrewires
        by_cases htargeted : Targeted overflow_checks graph w
        · exact hconsistent.kept k node i w hnode hinput hrewires htargeted
        · refine visible_of_provided ?_ htargeted
          have hprovided := Dataflow.ordered_iff.mp hclosed.ordered k (flow node)
            (by simp [hnode]) w (List.mem_of_getElem? hinput)
          rwa [← List.map_take] at hprovided
    · intro w hw
      by_cases htargeted : Targeted overflow_checks graph w
      · exact hconsistent.outputs w hw htargeted
      · exact visible_of_provided (hclosed.outs w hw) htargeted

end Scope

/-- A closed model stays closed exactly when the pass treats each of its weights in one way. -/
theorem quantize_closed_iff [F32Weights F] [Inhabited R] {input : Decoded F R}
    {output : ModelProto F R} (hok : quantize_model overflow_checks input = .ok output)
    (hclosed : input.model.Closed) :
    output.Closed ↔ ∀ graph ∈ input.model.graph, Consistent overflow_checks graph := by
  obtain ⟨graph, graph', done, hin, hout, hwritten⟩ := quantize_model_spec hok
  rw [ModelProto.closed_iff hin] at hclosed
  rw [ModelProto.closed_iff hout, hwritten.closed_iff hclosed]
  simp [hin]

/-! ## A graph of one weight -/

def matmul_weight (dims : List Int64) (data : List F) : TensorProto F Unit :=
  { name := some ['w'], dims, data_type := some FLOAT, float_data := data, rest := () }

def matmul_node (w : Text) : NodeProto Unit :=
  { op_type := some "MatMul".toList, input := [['x'], w], output := [['y']], rest := () }

/-- A `MatMul` by one weight. -/
def matmul_graph (dims : List Int64) (data : List F) : GraphProto F Unit where
  node := [matmul_node ['w']]
  initializer := [matmul_weight dims data]
  input := [{ name := some ['x'], rest := () }]
  output := [{ name := some ['y'], rest := () }]
  rest := ()

section Matmul

variable {dims : List Int64} {data : List F}

theorem matmul_closed (dims : List Int64) (data : List F) : (matmul_graph dims data).Closed :=
  of_decide_eq_true rfl

theorem matmul_fits (h : 4 * data.length ≤ ISIZE_MAX) :
    ∀ tensor ∈ (matmul_graph dims data).initializer, tensor.Fits := by
  intro tensor ht
  obtain rfl := List.mem_singleton.mp ht
  exact ⟨h, nofun⟩

def matmul_model (dims : List Int64) (data : List F) (h : 4 * data.length ≤ ISIZE_MAX) :
    Decoded F Unit where
  model := { graph := some (matmul_graph dims data), rest := () }
  fits := by
    intro graph hgraph
    obtain rfl := Option.some.inj hgraph
    exact matmul_fits h

theorem matmul_targeted {w : Text} (h : Targeted overflow_checks (matmul_graph dims data) w) :
    w = ['w'] := by
  obtain ⟨node, hnode, i, hinput, hrewires⟩ := h
  obtain rfl := List.mem_singleton.mp hnode
  have h0 := (rewires_iff.mp hrewires).2.1
  match i, hinput with
  | 0, _ => exact absurd rfl h0
  | 1, hinput => exact (Option.some.inj hinput).symm
  | n + 2, hinput => simp [matmul_node] at hinput

/-- The weight is read at one input, which is rewired. -/
theorem matmul_uses {node : NodeProto Unit} {i : Nat} {w : Text}
    (hnode : node ∈ (matmul_graph dims data).node) (hinput : node.input[i]? = some w)
    (hw : Targeted overflow_checks (matmul_graph dims data) w) :
    rewires overflow_checks (matmul_graph dims data) node i w := by
  have hindex : ∀ j : Nat, [['x'], ['w']][j]? = some ['w'] → j = 1 := by
    intro j hj
    match j, hj with
    | 1, _ => rfl
    | n + 2, hj => simp at hj
  obtain rfl := matmul_targeted hw
  obtain rfl := List.mem_singleton.mp hnode
  obtain ⟨node', hnode', j, hinput', hrewires⟩ := hw
  obtain rfl := List.mem_singleton.mp hnode'
  rwa [hindex i hinput, ← hindex j hinput']

theorem matmul_output_not_targeted :
    ¬ Targeted overflow_checks (matmul_graph dims data) ['y'] :=
  fun hy => absurd (matmul_targeted hy) (by decide)

variable [F32Weights F]

theorem matmul_consistent (h : Quantizable overflow_checks (matmul_weight dims data)) :
    Consistent overflow_checks (matmul_graph dims data) where
  rewired k node i w hnode hinput hrewires := by
    have hw : Targeted overflow_checks (matmul_graph dims data) w :=
      ⟨node, List.mem_of_getElem? hnode, i, hinput, hrewires⟩
    obtain rfl := matmul_targeted hw
    exact .inl ⟨_, rfl, h⟩
  kept k node i w hnode hinput hrewires hw :=
    absurd (matmul_uses (List.mem_of_getElem? hnode) hinput hw) hrewires
  outputs w hw hy := by
    obtain rfl := List.mem_singleton.mp hw
    exact absurd hy matmul_output_not_targeted

variable (overflow_checks dims) in
/-- A weight that is large and filled is replaced. -/
theorem quantize_matmul (hfit : 4 * data.length ≤ ISIZE_MAX) (hne : data ≠ [])
    (hvolume : (data.length : Int) = volume dims) (hnonneg : ∀ d ∈ dims, 0 ≤ d) (hdims : dims ≠ [])
    (htargets : collect_targets overflow_checks (matmul_graph dims data) =
      .ok [⟨0, 1, ['w'], 0⟩]) :
    ∃ d, Fills overflow_checks (matmul_weight dims data) data d ∧
      quantize_model overflow_checks (matmul_model dims data hfit) = .ok
        { graph := some { matmul_graph dims data with
            node := [dequantize_node ['w'], matmul_node (dequantized ['w'])]
            initializer := new_tensors ['w'] dims (quantization data d.toUInt64.toNat) }
          rest := () } := by
  have hdata : extract_float_data (matmul_weight dims data) = .ok data := if_pos hne
  obtain ⟨d, hfills, -, hq⟩ :=
    quantize_weight_of_volume overflow_checks hdata ⟨hfit, nofun⟩ hvolume hnonneg hdims
  have hstep : quantize_target overflow_checks (matmul_graph dims data) {} ⟨0, 1, ['w'], 0⟩ =
      .ok { new_nodes := [dequantize_node ['w']]
            new_initializers := new_tensors ['w'] dims (quantization data d.toUInt64.toNat)
            quantized_names := [['w']] } :=
    bind_eq_ok.mpr ⟨matmul_weight dims data, rfl, bind_eq_ok.mpr ⟨_, hq, rfl⟩⟩
  refine ⟨d, hfills, bind_eq_ok.mpr ⟨_, ?_, rfl⟩⟩
  exact bind_eq_ok.mpr ⟨_, htargets, bind_eq_ok.mpr ⟨_, bind_eq_ok.mpr ⟨_, hstep, rfl⟩, rfl⟩⟩

end Matmul

/-! ## A weight with enough data, and one with too little -/

/-- A weight of 1024 elements. -/
def full_weight : List Int := List.replicate 1024 5

theorem full_length : full_weight.length = 1024 := List.length_replicate

theorem full_fits : 4 * full_weight.length ≤ ISIZE_MAX := by
  rw [full_length]
  decide

def full_model : Decoded Int Unit := matmul_model [1024] full_weight full_fits

/-- A weight of 1024 elements whose data is one number. -/
def short_model : Decoded Int Unit := matmul_model [1024] [0] (by decide)

theorem short_closed : short_model.model.Closed :=
  (ModelProto.closed_iff rfl).mpr (matmul_closed [1024] [0])

/-- The weight is skipped, but removed and rewired. -/
theorem quantize_short_model : quantize_model true short_model =
    .ok { graph := some { matmul_graph [1024] [0] with
      node := [matmul_node (dequantized ['w'])], initializer := [] }, rest := () } := by
  rfl

theorem skipped_weight_dangles : ∃ output, quantize_model true short_model = .ok output ∧
    short_model.model.Closed ∧ ¬ output.Closed := by
  refine ⟨_, quantize_short_model, short_closed, ?_⟩
  rw [ModelProto.closed_iff rfl]
  decide

theorem quantize_closed_iff_of_full_and_short :
    (∃ output, quantize_model true full_model = .ok output ∧ output.Closed ∧
      ∀ graph ∈ full_model.model.graph, Consistent true graph) ∧
    ∃ output, quantize_model true short_model = .ok output ∧
      (output.Closed ↔ ∀ graph ∈ short_model.model.graph, Consistent true graph) := by
  constructor
  · obtain ⟨d, hfills, hok⟩ := quantize_matmul true [1024] full_fits
      (List.ne_nil_of_length_pos (by rw [full_length]; decide)) (by rw [full_length]; rfl)
      (by simp) nofun rfl
    have hconsistent : ∀ graph ∈ full_model.model.graph, Consistent true graph := by
      intro graph hgraph
      obtain rfl := Option.some.inj hgraph
      exact matmul_consistent ⟨_, d, hfills⟩
    have hclosed : full_model.model.Closed :=
      (ModelProto.closed_iff rfl).mpr (matmul_closed [1024] full_weight)
    exact ⟨_, hok, (quantize_closed_iff hok hclosed).mpr hconsistent, hconsistent⟩
  · exact ⟨_, quantize_short_model, quantize_closed_iff quantize_short_model short_closed⟩

end Gigastt.Quantize
