import Gigastt.Quantize.Error
import Gigastt.Quantize.Success

/-!
# The pass preserves the meaning of a graph
-/

namespace Gigastt.Quantize

open Words

variable {F R V : Type} [F32Weights F] [Inhabited R] {overflow_checks : Bool}
  {graph graph' : GraphProto F R} {done : List (Replaced F R)}
  {I : Interpretation F R V} {inputs : Text → V}

/-! ## The start of a run -/

omit [F32Weights F] in
theorem new_tensor_names (done : List (Replaced F R)) :
    initializer_names (done.flatMap Replaced.tensors) =
      (done.map Replaced.name).flatMap made_tensors := by
  simp [initializer_names, List.map_flatMap, List.flatMap_map, Replaced.tensors, new_tensors,
    made_tensors, text]

theorem Written.start_new (hwritten : Written overflow_checks graph graph' done)
    {r : Replaced F R} (hr : r ∈ done) {tensor : TensorProto F R}
    (ht : tensor ∈ r.tensors) :
    start inputs I.initializer graph' (text tensor.name) = some (I.initializer tensor) := by
  obtain ⟨names, -, hinit⟩ := hwritten.initializer
  unfold start
  rw [hinit, List.map_append, Dataflow.assign_append]
  apply Dataflow.assign_of_mem
  · rw [List.map_map]
    change (initializer_names _).Nodup
    rw [new_tensor_names]
    exact made_tensors_nodup hwritten.nodup
  · exact List.mem_map.mpr ⟨tensor, List.mem_flatMap.mpr ⟨r, hr, ht⟩, rfl⟩

omit [Inhabited R] in
theorem start_of_mem (h : Ready overflow_checks graph) {value : TensorProto F R → V}
    {tensor : TensorProto F R} (ht : tensor ∈ graph.initializer) :
    start inputs value graph (text tensor.name) = some (value tensor) := by
  apply Dataflow.assign_of_mem
  · have hnodup := h.initializers_nodup
    unfold initializer_names at hnodup
    rwa [List.map_map]
  · exact List.mem_map.mpr ⟨tensor, ht, rfl⟩

theorem Written.start_old (hwritten : Written overflow_checks graph graph' done)
    (h : Ready overflow_checks graph) {x : Text} (hx : x ∈ graph.names)
    (hnot : ¬ Targeted overflow_checks graph x) :
    start inputs I.initializer graph' x =
      start inputs (rounded_initializer overflow_checks I graph) graph x := by
  obtain ⟨names, hnames, hinit⟩ := hwritten.initializer
  have hnew : ∀ p ∈ (done.flatMap Replaced.tensors).map
      (fun tensor => (text tensor.name, I.initializer tensor)), x ≠ p.1 := by
    rintro p hp rfl
    obtain ⟨tensor, ht, rfl⟩ := List.mem_map.mp hp
    have hmade : text tensor.name ∈ (done.map Replaced.name).flatMap made_tensors := by
      rw [← new_tensor_names]
      exact List.mem_map_of_mem ht
    obtain ⟨w, hw, hmade⟩ := List.mem_flatMap.mp hmade
    exact h.fresh w (hwritten.mem_done.mp hw).1 _ (mem_made.mpr (.inl hmade)) hx
  have hstart : start inputs I.initializer graph' x = Dataflow.assign
      (fun x => if (value_names graph.input).contains x then some (inputs x) else none)
      ((graph.initializer.filter (text ·.name ∉ names)).map
        fun tensor => (text tensor.name, I.initializer tensor)) x := by
    unfold start
    rw [hinit, List.map_append, Dataflow.assign_append, Dataflow.assign_of_not_mem hnew,
      hwritten.input]
  rw [hstart]
  by_cases hmem : x ∈ initializer_names graph.initializer
  · obtain ⟨tensor, ht, rfl⟩ := List.mem_map.mp hmem
    have hkept : tensor ∈ graph.initializer.filter (text ·.name ∉ names) := by
      simp [ht, hnames, hnot]
    have hvalue : rounded_initializer overflow_checks I graph tensor = I.initializer tensor :=
      if_neg hnot
    have hkept_nodup :
        (initializer_names (graph.initializer.filter (text ·.name ∉ names))).Nodup :=
      h.initializers_nodup.sublist (List.filter_sublist.map _)
    rw [start_of_mem h ht, hvalue]
    apply Dataflow.assign_of_mem
    · unfold initializer_names at hkept_nodup
      rwa [List.map_map]
    · exact List.mem_map.mpr ⟨tensor, hkept, rfl⟩
  · unfold start
    rw [Dataflow.assign_of_not_mem, Dataflow.assign_of_not_mem]
    · rintro p hp rfl
      obtain ⟨tensor, ht, rfl⟩ := List.mem_map.mp hp
      exact hmem (List.mem_map_of_mem ht)
    · rintro p hp rfl
      obtain ⟨tensor, ht, rfl⟩ := List.mem_map.mp hp
      exact hmem (List.mem_map_of_mem (List.mem_of_mem_filter ht))

/-! ## The new nodes -/

theorem Replaced.Exact.initializers {r : Replaced F R} {data : List F} {d : Int64}
    (h : r.Exact data d) :
    r.tensors.map I.initializer =
      [I.int8_tensor r.tensor.dims (quantization data d.toUInt64.toNat).data,
        I.float_tensor [d] (quantization data d.toUInt64.toNat).scales,
        I.int8_tensor [d] (List.replicate d.toUInt64.toNat 0)] := by
  have hle : 0 ≤ d := Int64.le_of_lt h.pos
  have hd : Int64.ofNat d.toUInt64.toNat = d := by
    rw [Int64.toNat_toUInt64_of_le hle, Int64.ofNat_toNatClampNeg d hle]
  have hchannels : (quantization data d.toUInt64.toNat).channels = d.toUInt64.toNat := rfl
  unfold Replaced.tensors new_tensors
  rw [h.quantized, hchannels, hd]
  simp [I.initializer_int8, I.initializer_float, Function.comp_def]

/-- Each new node gives the rounded weight. -/
theorem Replaced.Exact.op_node {r : Replaced F R} {data : List F} {d : Int64}
    (h : r.Exact data d) :
    ∃ results, I.op (flow r.node).kind (r.tensors.map I.initializer) = some results ∧
      results 0 = I.float_tensor r.tensor.dims (rounded data d.toUInt64.toNat) := by
  rw [h.initializers, ← dequantize_linear_quantization h.channels_pos h.length]
  apply I.op_dequantize_linear
  · exact h.head
  · exact h.nonneg
  · simp [quantization, h.volume]
  · simp [quantization, h.channels_eq]
  · simp [h.channels_eq]

theorem Written.rounded_eq (hwritten : Written overflow_checks graph graph' done)
    {r : Replaced F R} (hr : r ∈ done) {data : List F} {d : Int64} (h : r.Exact data d) :
    rounded_initializer overflow_checks I graph r.tensor =
      I.float_tensor r.tensor.dims (rounded data d.toUInt64.toNat) := by
  obtain ⟨hw, htensor, -⟩ := hwritten.replaced r hr
  obtain ⟨-, hname⟩ := weight_eq_some htensor
  obtain ⟨ds, hdims⟩ := List.head?_eq_some_iff.mp h.head
  have hchannels : r.tensor.channels = d.toUInt64.toNat := by simp [TensorProto.channels, hdims]
  rw [← hname] at hw
  unfold rounded_initializer
  rw [if_pos hw, h.extracted, hchannels]

theorem Written.reads_new (hwritten : Written overflow_checks graph graph' done)
    {r : Replaced F R} (hr : r ∈ done) :
    (flow r.node).reads.mapM (start inputs I.initializer graph') =
      some (r.tensors.map I.initializer) := by
  have hreads : (flow r.node).reads = r.tensors.map (text ·.name) := rfl
  rw [hreads, List.mapM_map]
  have hsome : ∀ tensors, tensors ⊆ r.tensors →
      tensors.mapM (start inputs I.initializer graph' ∘ (text ·.name)) =
        some (tensors.map I.initializer) := by
    intro tensors hsub
    induction tensors with
    | nil => rfl
    | cons tensor tensors ih =>
      obtain ⟨ht, hsub⟩ := List.cons_subset.mp hsub
      rw [List.mapM_cons, ih hsub, Function.comp_apply, hwritten.start_new hr ht]
      rfl
  exact hsome r.tensors (List.Subset.refl _)

theorem Written.run_new (hwritten : Written overflow_checks graph graph' done)
    (h : Ready overflow_checks graph) (hfits : ∀ tensor ∈ graph.initializer, tensor.Fits) :
    Dataflow.run I.op (start inputs I.initializer graph') (done.map fun r => flow r.node) =
      some (Dataflow.assign (start inputs I.initializer graph') (done.map fun r =>
        (dequantized r.name, rounded_initializer overflow_checks I graph r.tensor))) := by
  rw [Dataflow.run_map (f := fun r =>
    [(dequantized r.name, rounded_initializer overflow_checks I graph r.tensor)])]
  · rw [← List.map_eq_flatMap]
  · intro r _ r' _ x hx hwrites
    obtain rfl := List.mem_singleton.mp hwrites
    exact dequantized_not_mem r'.name r.name hx
  · intro r hr
    obtain ⟨data, d, hexact⟩ := hwritten.exact h hfits hr
    obtain ⟨results, hresults, hvalue⟩ := hexact.op_node (I := I)
    refine ⟨_, results, hwritten.reads_new hr, hresults, ?_⟩
    rw [hwritten.rounded_eq hr hexact, ← hvalue]
    rfl

/-! ## The old nodes -/

variable (overflow_checks graph) in
open Classical in
/-- Where the rounded weight is read. -/
noncomputable def renamed (x : Text) : Text :=
  if Targeted overflow_checks graph x then dequantized x else x

omit [F32Weights F] [Inhabited R] in
theorem renamed_of_targeted {x : Text} (h : Targeted overflow_checks graph x) :
    renamed overflow_checks graph x = dequantized x := if_pos h

omit [F32Weights F] [Inhabited R] in
theorem renamed_of_not {x : Text} (h : ¬ Targeted overflow_checks graph x) :
    renamed overflow_checks graph x = x := if_neg h

omit [Inhabited R] in
theorem flow_rewired (h : Ready overflow_checks graph) {node : NodeProto R}
    (hnode : node ∈ graph.node) :
    flow (rewired overflow_checks graph node) =
      (flow node).rename (renamed overflow_checks graph) := by
  have hreads : (rewired overflow_checks graph node).input =
      node.input.map (renamed overflow_checks graph) := by
    unfold rewired
    rw [List.mapIdx_eq_iff]
    intro i
    rw [List.getElem?_map]
    cases hi : node.input[i]? with
    | none => rfl
    | some w =>
      rw [Option.map_some, Option.map_some, Option.some.injEq]
      by_cases hw : Targeted overflow_checks graph w
      · rw [renamed_of_targeted hw, if_pos (h.uses node hnode i w hi hw)]
      · rw [renamed_of_not hw, if_neg fun hrewires => hw ⟨node, hnode, i, hi, hrewires⟩]
  unfold flow Dataflow.Node.rename
  rw [hreads]
  rfl

omit [F32Weights F] [Inhabited R] in
theorem output_mem_names {node : NodeProto R} (hnode : node ∈ graph.node) {y : Text}
    (hy : y ∈ node.output) : y ∈ graph.names :=
  List.mem_append_right _ (List.mem_flatMap.mpr ⟨node, hnode, hy⟩)

omit [Inhabited R] in
/-- No node writes a weight, nor what is read in its place. -/
theorem Ready.eq_output_iff (h : Ready overflow_checks graph) {node : NodeProto R}
    (hnode : node ∈ graph.node) {x y : Text} (hy : y ∈ node.output) :
    x = y ↔ renamed overflow_checks graph x = y := by
  by_cases hw : Targeted overflow_checks graph x
  · rw [renamed_of_targeted hw]
    obtain ⟨tensor, htensor, -⟩ := hw.weight
    obtain ⟨ht, rfl⟩ := weight_eq_some htensor
    have hscope : text tensor.name ∈ graph.scope :=
      List.mem_append_right _ (List.mem_map_of_mem ht)
    have hne : text tensor.name ≠ y :=
      (List.nodup_append.mp h.unique).2.2 _ hscope y (List.mem_flatMap.mpr ⟨node, hnode, hy⟩)
    have hfresh : dequantized (text tensor.name) ≠ y := by
      rintro rfl
      exact h.fresh _ hw _ (mem_made.mpr (.inr rfl)) (output_mem_names hnode hy)
    simp [hne, hfresh]
  · rw [renamed_of_not hw]

theorem Written.agree (hwritten : Written overflow_checks graph graph' done)
    (h : Ready overflow_checks graph)
    (hdone : ∀ w, Targeted overflow_checks graph w → w ∈ done.map Replaced.name) :
    Dataflow.Agree {x | x ∈ graph.names} (renamed overflow_checks graph)
      (start inputs (rounded_initializer overflow_checks I graph) graph)
      (Dataflow.assign (start inputs I.initializer graph') (done.map fun r =>
        (dequantized r.name, rounded_initializer overflow_checks I graph r.tensor))) := by
  intro x hx
  by_cases hw : Targeted overflow_checks graph x
  · rw [renamed_of_targeted hw]
    obtain ⟨r, hr, rfl⟩ := List.mem_map.mp (hdone x hw)
    obtain ⟨-, htensor, -⟩ := hwritten.replaced r hr
    obtain ⟨ht, hname⟩ := weight_eq_some htensor
    have hnodup : ((done.map fun r => (dequantized r.name,
        rounded_initializer overflow_checks I graph r.tensor)).map Prod.fst).Nodup := by
      have hmap := hwritten.nodup.map (f := dequantized) fun _ _ => List.append_cancel_right
      rw [List.map_map] at hmap ⊢
      exact hmap
    have hold : start inputs (rounded_initializer overflow_checks I graph) graph
        (text r.tensor.name) = some (rounded_initializer overflow_checks I graph r.tensor) :=
      start_of_mem h ht
    rw [hname] at hold
    rw [hold, Dataflow.assign_of_mem hnodup (List.mem_map.mpr ⟨r, hr, rfl⟩)]
  · rw [renamed_of_not hw]
    rw [Dataflow.assign_of_not_mem, hwritten.start_old h hx hw]
    rintro p hp rfl
    obtain ⟨r, hr, rfl⟩ := List.mem_map.mp hp
    exact h.fresh r.name (hwritten.replaced r hr).1 _ (mem_made.mpr (.inr rfl)) hx

theorem Written.preserved (hwritten : Written overflow_checks graph graph' done)
    (h : Ready overflow_checks graph) (hfits : ∀ tensor ∈ graph.initializer, tensor.Fits)
    (hdone : ∀ w, Targeted overflow_checks graph w → w ∈ done.map Replaced.name) :
    Preserved overflow_checks graph graph' := by
  intro V I inputs
  have hold : graph.node.map (fun node => flow (rewired overflow_checks graph node)) =
      (graph.node.map flow).map (Dataflow.Node.rename (renamed overflow_checks graph)) := by
    rw [List.map_map]
    exact List.map_congr_left fun node hnode => flow_rewired h hnode
  have houts : value_names graph.output =
      (value_names graph.output).map (renamed overflow_checks graph) := by
    rw [List.map_congr_left fun w hw => renamed_of_not (h.outputs w hw), List.map_id']
  unfold evaluate
  rw [hwritten.node, List.map_append, List.map_map, List.map_map, Dataflow.eval_append]
  change ((Dataflow.run I.op _ (done.map fun r => flow r.node)).bind fun e' =>
    Dataflow.eval I.op e' (graph.node.map fun node => flow (rewired overflow_checks graph node)) _) = _
  rw [hwritten.run_new h hfits, Option.bind_some, hold, hwritten.output, houts]
  conv_rhs => rw [← houts]
  apply Dataflow.eval_rename (hwritten.agree h hdone)
  · intro n hn x hx
    obtain ⟨node, hnode, rfl⟩ := List.mem_map.mp hn
    exact h.input_mem_names hnode hx
  · intro n hn y hy x _
    obtain ⟨node, hnode, rfl⟩ := List.mem_map.mp hn
    exact h.eq_output_iff hnode hy
  · intro x hx
    show x ∈ graph.names
    rw [← provided_eq_names]
    exact h.closed.outs x hx

/-! ## A weight that is skipped -/

inductive Plain (F : Type) where
  | float (dims : List Int64) (data : List F)
  | int8 (dims : List Int64) (data : List Int8)
  | other

/-- Tensors as they are written, where no operator fails. -/
def plain (F R : Type) [F32Weights F] [Inhabited R] : Interpretation F R (Plain F) where
  initializer tensor :=
    if tensor.data_type = some FLOAT then .float tensor.dims tensor.float_data
    else
      match tensor.raw_data with
      | some raw => .int8 tensor.dims (raw.map UInt8.toInt8)
      | none => .other
  op _ args :=
    match args with
    | [.int8 dims q, .float _ scales, .int8 _ zeros] =>
      some fun _ => .float dims (dequantize_linear dims q scales zeros)
    | _ => some fun _ => .other
  float_tensor := .float
  int8_tensor := .int8
  initializer_float _ _ _ := rfl
  initializer_int8 _ _ _ := rfl
  op_dequantize_linear _ _ _ _ _ _ _ _ _ _ _ _ := ⟨_, rfl, rfl⟩

theorem plain_op_isSome (kind : NodeProto R) (args : List (Plain F)) :
    ((plain F R).op kind args).isSome := by
  unfold plain
  dsimp only
  split <;> rfl

theorem evaluate_isSome (hclosed : graph.Closed) {value : TensorProto F R → V}
    (hop : ∀ kind args, (I.op kind args).isSome) : (evaluate I inputs value graph).isSome := by
  have hstart : ∀ x ∈ graph.scope, (start inputs value graph x).isSome := by
    intro x hx
    apply Dataflow.assign_isSome
    rw [List.map_map]
    rcases List.mem_append.mp hx with hinput | hinit
    · exact .inl (by simp [hinput])
    · exact .inr hinit
  obtain ⟨e, hrun, hsome⟩ := Dataflow.run_isSome hop hclosed.ordered hstart
  unfold evaluate Dataflow.eval
  rw [hrun, Option.bind_some, Dataflow.mapM_isSome]
  exact fun x hx => hsome x (hclosed.outs x hx)

omit [F32Weights F] [Inhabited R] in
theorem start_eq_none {value : TensorProto F R → V} {x : Text} (hx : x ∉ graph.scope) :
    start inputs value graph x = none := by
  obtain ⟨hinput, hinit⟩ := not_or.mp (mt List.mem_append.mpr hx)
  unfold start
  rw [Dataflow.assign_of_not_mem, if_neg (by simpa using hinput)]
  rintro p hp rfl
  obtain ⟨tensor, ht, rfl⟩ := List.mem_map.mp hp
  exact hinit (List.mem_map_of_mem ht)

theorem Written.not_preserved (hwritten : Written overflow_checks graph graph' done)
    (h : Ready overflow_checks graph) {w : Text} (hw : Targeted overflow_checks graph w)
    (hskipped : w ∉ done.map Replaced.name) : ¬ Preserved overflow_checks graph graph' := by
  intro hpreserved
  have hsome : (evaluate (plain F R) (fun _ => .other)
      (rounded_initializer overflow_checks (plain F R) graph) graph).isSome :=
    evaluate_isSome h.closed plain_op_isSome
  rw [← hpreserved (Plain F) (plain F R) (fun _ => .other)] at hsome
  have hfresh : dequantized w ∉ graph.names := h.fresh w hw _ (mem_made.mpr (.inr rfl))
  obtain ⟨node, hnode, i, hinput, hrewires⟩ := hw
  have hread : dequantized w ∈ (flow (rewired overflow_checks graph node)).reads :=
    mem_rewired_input.mpr ⟨i, w, hinput, by rw [if_pos hrewires]⟩
  have hscope : dequantized w ∉ graph'.scope := by
    rw [hwritten.mem_scope]
    rintro (hinput | ⟨hinit, -⟩ | ⟨r, -, hmade⟩)
    · exact hfresh (List.mem_append_left _ (List.mem_append_left _ hinput))
    · exact hfresh (List.mem_append_left _ (List.mem_append_right _ hinit))
    · exact dequantized_not_mem w r.name hmade
  have hwrites : ∀ m ∈ graph'.node.map flow, dequantized w ∉ m.writes := by
    rw [hwritten.node, List.map_append, List.forall_mem_append, List.forall_mem_map,
      List.forall_mem_map, List.forall_mem_map, List.forall_mem_map]
    constructor
    · intro r hr hmem
      have hname : w = r.name := List.append_cancel_right (List.mem_singleton.mp hmem)
      exact hskipped (hname ▸ List.mem_map_of_mem hr)
    · intro m hm hmem
      exact hfresh (output_mem_names hm hmem)
  have hmem : flow (rewired overflow_checks graph node) ∈ graph'.node.map flow := by
    rw [hwritten.node]
    exact List.mem_map_of_mem (List.mem_append_right _ (List.mem_map_of_mem hnode))
  unfold evaluate Dataflow.eval at hsome
  rw [Dataflow.run_eq_none hmem hread (start_eq_none hscope) hwrites] at hsome
  simp at hsome

/-! ## The pass -/

variable (overflow_checks graph) in
/-- No target weight has a negative extent. -/
def Nonnegative : Prop :=
  ∀ w tensor, Targeted overflow_checks graph w → weight graph w = some tensor →
    ∀ d ∈ tensor.dims, 0 ≤ d

theorem Written.preserved_iff (hwritten : Written overflow_checks graph graph' done)
    (h : Ready overflow_checks graph) (hfits : ∀ tensor ∈ graph.initializer, tensor.Fits) :
    Preserved overflow_checks graph graph' ↔ Nonnegative overflow_checks graph := by
  constructor
  · intro hpreserved w tensor hw htensor d hd
    by_contra hneg
    refine hwritten.not_preserved h hw ?_ hpreserved
    rw [hwritten.mem_done]
    rintro ⟨-, tensor', htensor', hquantizable⟩
    obtain rfl := Option.some.inj (htensor.symm.trans htensor')
    exact not_quantizable_of_neg hd (Int64.not_le.mp hneg) hquantizable
  · intro hnonneg
    apply hwritten.preserved h hfits
    intro w hw
    obtain ⟨tensor, htensor, -⟩ := hw.weight
    exact hwritten.done_of_nonneg h hfits hw htensor (hnonneg w tensor hw htensor)

/-- The pass preserves the meaning of a graph that it is for, up to the rounding of the weights,
exactly when no weight that it quantizes has a negative extent. -/
theorem quantize_preserved_iff {input : Decoded F R} {output : ModelProto F R}
    (hok : quantize_model overflow_checks input = .ok output)
    (hgraph : input.model.graph = some graph) (h : Ready overflow_checks graph) :
    ∃ graph', output.graph = some graph' ∧
      (Preserved overflow_checks graph graph' ↔ Nonnegative overflow_checks graph) := by
  obtain ⟨graph₁, graph', done, hin, hout, hwritten⟩ := quantize_model_spec hok
  obtain rfl := Option.some.inj (hgraph.symm.trans hin)
  exact ⟨graph', hout, hwritten.preserved_iff h (input.fits graph hgraph)⟩

/-! ## One weight -/

theorem matmul_ready {dims : List Int64} {data : List F} (hne : data ≠ [])
    (hvolume : (data.length : Int) = volume dims) :
    Ready overflow_checks (matmul_graph dims data) where
  closed := matmul_closed dims data
  unique := of_decide_eq_true rfl
  fresh w hw := by
    rw [matmul_targeted hw]
    exact of_decide_eq_true rfl
  data w tensor _ htensor := by
    obtain rfl := List.mem_singleton.mp (weight_eq_some htensor).1
    exact ⟨data, if_pos hne, hvolume⟩
  uses node hnode i w := matmul_uses hnode
  outputs w hw := by
    obtain rfl := List.mem_singleton.mp hw
    exact matmul_output_not_targeted

theorem zeros_fit : 4 * (List.replicate 1024 (0 : Int)).length ≤ ISIZE_MAX := by
  rw [List.length_replicate]
  decide

/-- With two negative extents the data has the length that the shape asks for, but the pass
skips the weight. -/
theorem negative_extents_not_preserved : ∃ graph',
    quantize_model false (matmul_model [-1, -1024] (List.replicate 1024 0) zeros_fit) =
      .ok { graph := some graph', rest := () } ∧
    Ready false (matmul_graph [-1, -1024] (List.replicate 1024 (0 : Int))) ∧
    ¬ Preserved false (matmul_graph [-1, -1024] (List.replicate 1024 (0 : Int))) graph' := by
  have hlength : (List.replicate 1024 (0 : Int)).length = 1024 := List.length_replicate
  have hready : Ready false (matmul_graph [-1, -1024] (List.replicate 1024 (0 : Int))) :=
    matmul_ready (List.ne_nil_of_length_pos (by rw [hlength]; decide)) (by rw [hlength]; decide)
  obtain ⟨graph', hgraph'⟩ := hready.quantize_graph_isOk (matmul_fits zeros_fit)
  obtain ⟨done, hwritten⟩ := quantize_graph_spec hgraph'
  refine ⟨graph', bind_eq_ok.mpr ⟨graph', hgraph', rfl⟩, hready, ?_⟩
  rw [hwritten.preserved_iff hready (matmul_fits zeros_fit)]
  intro hnonneg
  have hw : Targeted false (matmul_graph [-1, -1024] (List.replicate 1024 (0 : Int))) ['w'] :=
    ⟨_, List.mem_cons_self, 1, rfl, rfl⟩
  obtain ⟨tensor, htensor, -⟩ := hw.weight
  have hle := hnonneg ['w'] tensor hw htensor
  obtain rfl := List.mem_singleton.mp (weight_eq_some htensor).1
  exact absurd (hle (-1) List.mem_cons_self) (by decide)

theorem quantize_preserved_iff_of_two_channels : ∃ output graph',
    quantize_model false two_channels_model = .ok output ∧ output.graph = some graph' ∧
    Preserved false (matmul_graph [2, 512] two_channels) graph' ∧
    Nonnegative false (matmul_graph [2, 512] two_channels) ∧
    rounded two_channels 2 ≠ two_channels := by
  have hnonneg : Nonnegative false (matmul_graph [2, 512] two_channels) := by
    intro w tensor _ htensor
    obtain rfl := List.mem_singleton.mp (weight_eq_some htensor).1
    simp [matmul_weight]
  obtain ⟨-, output, -, hok⟩ := quantize_two_channels
  obtain ⟨graph', hout, hiff⟩ :=
    quantize_preserved_iff hok rfl (matmul_ready two_channels_ne_nil two_channels_volume)
  exact ⟨output, graph', hok, hout, hiff.mpr hnonneg, hnonneg, two_channels_round⟩

end Gigastt.Quantize
