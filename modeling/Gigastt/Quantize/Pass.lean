import Gigastt.Quantize.Code
import Gigastt.Lib.Loop
import Mathlib.Data.List.Induction
import Mathlib.Data.List.ReduceOption

/-!
# What a pass that succeeds has done
-/

namespace Gigastt.Quantize

open Words

variable {F R : Type} {overflow_checks : Bool} {graph : GraphProto F R}

/-! ## Weights, uses and targets -/

/-- The initializer that the map has for a name. -/
def weight (graph : GraphProto F R) (w : Text) : Option (TensorProto F R) :=
  (init_map graph w).bind fun init_idx => graph.initializer[init_idx]?

theorem init_map_eq_some {w : Text} {init_idx : Nat} (h : init_map graph w = some init_idx) :
    ∃ tensor, graph.initializer[init_idx]? = some tensor ∧ text tensor.name = w := by
  rcases Dataflow.mem_of_assign_eq_some h with hmem | hnone
  · obtain ⟨⟨tensor, i⟩, hzip, heq⟩ := List.mem_map.mp hmem
    obtain ⟨rfl, rfl⟩ := Prod.mk.inj heq
    exact ⟨tensor, List.mem_zipIdx_iff_getElem?.mp hzip, rfl⟩
  · exact absurd hnone nofun

theorem weight_eq_some {w : Text} {tensor : TensorProto F R} (h : weight graph w = some tensor) :
    tensor ∈ graph.initializer ∧ text tensor.name = w := by
  obtain ⟨init_idx, hinit, htensor⟩ := Option.bind_eq_some_iff.mp h
  obtain ⟨tensor', htensor', hname⟩ := init_map_eq_some hinit
  obtain rfl : tensor' = tensor := Option.some.inj (htensor'.symm.trans htensor)
  exact ⟨List.mem_of_getElem? htensor, hname⟩

theorem weight_of_init_map {w : Text} {init_idx : Nat} (h : init_map graph w = some init_idx) :
    weight graph w = graph.initializer[init_idx]? := by
  simp [weight, h]

variable (overflow_checks graph)

/-- The name is of a float initializer with enough elements. -/
def large (w : Text) : Bool :=
  match weight graph w with
  | none => false
  | some tensor =>
    match is_target overflow_checks tensor with
    | .ok b => b
    | .error _ => false

/-- A node's input number `input_idx`, of name `w`, is a target. -/
def rewires (node : NodeProto R) (input_idx : Nat) (w : Text) : Bool :=
  QUANTIZABLE_OPS.contains (text node.op_type) && input_idx != 0 && large overflow_checks graph w

/-- Some node has the name at a target. -/
def Targeted (w : Text) : Prop :=
  ∃ node ∈ graph.node, ∃ input_idx,
    node.input[input_idx]? = some w ∧ rewires overflow_checks graph node input_idx w

variable {overflow_checks graph}

theorem large_iff {w : Text} : large overflow_checks graph w ↔
    ∃ tensor, weight graph w = some tensor ∧ is_target overflow_checks tensor = .ok true := by
  unfold large
  cases weight graph w with
  | none => simp
  | some tensor => cases ht : is_target overflow_checks tensor <;> simp [ht]

theorem rewires_iff {node : NodeProto R} {input_idx : Nat} {w : Text} :
    rewires overflow_checks graph node input_idx w ↔
      text node.op_type ∈ QUANTIZABLE_OPS ∧ input_idx ≠ 0 ∧ large overflow_checks graph w := by
  simp [rewires, and_assoc]

theorem Targeted.weight {w : Text} (h : Targeted overflow_checks graph w) :
    ∃ tensor, weight graph w = some tensor ∧ is_target overflow_checks tensor = .ok true := by
  obtain ⟨node, -, i, -, hrewires⟩ := h
  exact large_iff.mp (rewires_iff.mp hrewires).2.2

/-! ## The targets -/

theorem input_target_eq_some {node_idx : Nat} {input : Text × Nat} {target : Target} :
    input_target overflow_checks graph node_idx input = .ok (some target) ↔
      input.2 ≠ 0 ∧ large overflow_checks graph input.1 ∧
        init_map graph input.1 = some target.init_idx ∧ target.node_idx = node_idx ∧
        target.input_idx = input.2 ∧ target.weight_name = input.1 := by
  unfold input_target
  rw [large_iff]
  by_cases h0 : input.2 = 0
  · simp [h0]
  · cases hmap : init_map graph input.1 with
    | none => simp [h0]
    | some init_idx =>
      obtain ⟨tensor, htensor, -⟩ := init_map_eq_some hmap
      cases target
      cases ht : is_target overflow_checks tensor with
      | error e => simp [h0, weight_of_init_map hmap, initializer_at, htensor, ht, bind, Except.bind]
      | ok b =>
        cases b <;>
          simp [h0, weight_of_init_map hmap, initializer_at, htensor, ht, bind, Except.bind, pure,
            Except.pure]
        grind

theorem mem_node_targets {node : NodeProto R × Nat} {targets : List Target}
    (h : node_targets overflow_checks graph node = .ok targets) {target : Target} :
    target ∈ targets ↔ target.node_idx = node.2 ∧
      node.1.input[target.input_idx]? = some target.weight_name ∧
      rewires overflow_checks graph node.1 target.input_idx target.weight_name ∧
      init_map graph target.weight_name = some target.init_idx := by
  rw [rewires_iff]
  unfold node_targets at h
  split at h
  · rename_i hop
    obtain rfl := Except.ok.inj h
    simp [hop]
  · rename_i hop
    obtain ⟨found, hfound, rfl⟩ := map_eq_ok.mp h
    rw [not_not] at hop
    simp only [List.reduceOption_mem_iff, mem_of_mapM_eq_ok hfound, input_target_eq_some, Prod.exists,
      List.mem_zipIdx_iff_getElem?]
    constructor
    · rintro ⟨w, input_idx, hinput, h0, hlarge, hmap, hnode, rfl, rfl⟩
      exact ⟨hnode, hinput, ⟨hop, h0, hlarge⟩, hmap⟩
    · rintro ⟨hnode, hinput, ⟨-, h0, hlarge⟩, hmap⟩
      exact ⟨_, _, hinput, h0, hlarge, hmap, hnode, rfl, rfl⟩

/-- The targets are the uses that are to be rewired. -/
theorem mem_targets {targets : List Target}
    (h : collect_targets overflow_checks graph = .ok targets) {target : Target} :
    target ∈ targets ↔ ∃ node, graph.node[target.node_idx]? = some node ∧
      node.input[target.input_idx]? = some target.weight_name ∧
      rewires overflow_checks graph node target.input_idx target.weight_name ∧
      init_map graph target.weight_name = some target.init_idx := by
  obtain ⟨lists, hlists, rfl⟩ := map_eq_ok.mp h
  rw [List.mem_flatten]
  constructor
  · rintro ⟨l, hl, htarget⟩
    obtain ⟨⟨node, k⟩, hnode, hl⟩ := (mem_of_mapM_eq_ok hlists l).mp hl
    obtain ⟨rfl, hspec⟩ := (mem_node_targets hl).mp htarget
    exact ⟨node, List.mem_zipIdx_iff_getElem?.mp hnode, hspec⟩
  · rintro ⟨node, hnode, hspec⟩
    have hzip : (node, target.node_idx) ∈ graph.node.zipIdx := List.mem_zipIdx_iff_getElem?.mpr hnode
    obtain ⟨l, hl⟩ := mapM_isOk.mp ⟨lists, hlists⟩ _ hzip
    exact ⟨l, (mem_of_mapM_eq_ok hlists l).mpr ⟨_, hzip, hl⟩, (mem_node_targets hl).mpr ⟨rfl, hspec⟩⟩

theorem exists_target {targets : List Target}
    (h : collect_targets overflow_checks graph = .ok targets) {node : NodeProto R}
    {node_idx input_idx : Nat} {w : Text} (hnode : graph.node[node_idx]? = some node)
    (hinput : node.input[input_idx]? = some w)
    (hrewires : rewires overflow_checks graph node input_idx w) :
    ∃ t ∈ targets, t.node_idx = node_idx ∧ t.input_idx = input_idx ∧ t.weight_name = w := by
  obtain ⟨tensor, htensor, -⟩ := large_iff.mp (rewires_iff.mp hrewires).2.2
  obtain ⟨init_idx, hinit, -⟩ := Option.bind_eq_some_iff.mp htensor
  exact ⟨⟨node_idx, input_idx, w, init_idx⟩,
    (mem_targets h).mpr ⟨node, hnode, hinput, hrewires, hinit⟩, rfl, rfl, rfl⟩

theorem targeted_iff {targets : List Target}
    (h : collect_targets overflow_checks graph = .ok targets) {w : Text} :
    Targeted overflow_checks graph w ↔ w ∈ targets.map Target.weight_name := by
  rw [List.mem_map]
  constructor
  · rintro ⟨node, hnode, input_idx, hinput, hrewires⟩
    obtain ⟨node_idx, hnode⟩ := List.getElem?_of_mem hnode
    obtain ⟨t, ht, -, -, hname⟩ := exists_target h hnode hinput hrewires
    exact ⟨t, ht, hname⟩
  · rintro ⟨t, ht, rfl⟩
    obtain ⟨node, hnode, hinput, hrewires, -⟩ := (mem_targets h).mp ht
    exact ⟨node, List.mem_of_getElem? hnode, t.input_idx, hinput, hrewires⟩

/-! ## One tensor -/

section Tensor

variable [F32Weights F] {tensor : TensorProto F R}

variable (overflow_checks tensor) in
/-- The data fills the shape, where a negative extent counts as 0. -/
structure Fills (data : List F) (d : Int64) : Prop where
  extracted : extract_float_data tensor = .ok data
  head : tensor.dims.head? = some d
  nonzero : d ≠ 0
  product : product_usize overflow_checks (tensor.dims.map Int64.toNatClampNeg) = .ok data.length

variable (overflow_checks tensor) in
def Quantizable : Prop := ∃ data d, Fills overflow_checks tensor data d

theorem toUInt64_toNat_eq_zero {d : Int64} : d.toUInt64.toNat = 0 ↔ d = 0 := by
  constructor
  · intro h
    have hzero : d.toUInt64 = 0 := UInt64.toNat_inj.mp h
    rw [← Int64.toInt64_toUInt64 d, hzero]
    rfl
  · rintro rfl
    rfl

theorem Fills.quantize_weight {data : List F} {d : Int64}
    (h : Fills overflow_checks tensor data d) :
    quantize_weight overflow_checks tensor =
      some <$> quantize_channels data d.toUInt64.toNat := by
  obtain ⟨ds, hdims⟩ := List.head?_eq_some_iff.mp h.head
  have hproduct := h.product
  rw [hdims, List.map_cons] at hproduct
  unfold Quantize.quantize_weight
  simp [h.extracted, hdims, toUInt64_toNat_eq_zero, h.nonzero, hproduct, bind, Except.bind]

theorem fills_of_quantize_weight {q : Quantized F}
    (h : quantize_weight overflow_checks tensor = .ok (some q)) :
    ∃ data d, Fills overflow_checks tensor data d ∧
      quantize_channels data d.toUInt64.toNat = .ok q := by
  obtain ⟨data, hdata, h⟩ := bind_eq_ok.mp h
  cases hdims : tensor.dims with
  | nil => simp [hdims, pure, Except.pure] at h
  | cons d ds =>
    rw [hdims] at h
    dsimp only at h
    split at h
    · simp [pure, Except.pure] at h
    · rename_i hzero
      obtain ⟨expected, hproduct, h⟩ := bind_eq_ok.mp h
      split at h
      · simp [pure, Except.pure] at h
      · rename_i hlength
        obtain ⟨q', hq, heq⟩ := map_eq_ok.mp h
        obtain rfl := Option.some.inj heq
        obtain rfl := not_not.mp hlength
        exact ⟨data, d, ⟨hdata, by simp [hdims], fun hd => hzero (toUInt64_toNat_eq_zero.mpr hd),
          by rw [hdims]; exact hproduct⟩, hq⟩

theorem not_quantizable (h : quantize_weight overflow_checks tensor = .ok none) :
    ¬ Quantizable overflow_checks tensor := by
  rintro ⟨data, d, hfills⟩
  rw [hfills.quantize_weight] at h
  obtain ⟨q, -, hq⟩ := map_eq_ok.mp h
  simp at hq

end Tensor

/-! ## Rewiring -/

variable (overflow_checks graph)

def rewired (node : NodeProto R) : NodeProto R :=
  { node with input := node.input.mapIdx fun input_idx w =>
      if rewires overflow_checks graph node input_idx w then dequantized w else w }

variable {overflow_checks graph}

/-- Rewiring one target after the other, each where the name of its weight stands. -/
theorem foldl_rewire_target {nodes : List (NodeProto R)} {targets : List Target}
    (h : ∀ t ∈ targets, ∀ node, nodes[t.node_idx]? = some node →
      node.input[t.input_idx]? = some t.weight_name) :
    targets.foldl rewire_target nodes = nodes.mapIdx fun k node =>
      { node with input := node.input.mapIdx fun i w =>
          if ∃ t ∈ targets, t.node_idx = k ∧ t.input_idx = i then dequantized w else w } := by
  induction targets using List.reverseRecOn with
  | nil =>
    symm
    rw [List.mapIdx_eq_iff]
    intro k
    have hself : ∀ l : List Text, l.mapIdx (fun _ w => w) = l := fun l =>
      List.mapIdx_eq_iff.mpr (by simp)
    simp [hself]
  | append_singleton targets t ih =>
    rw [List.foldl_append, ih fun s hs => h s (List.mem_append_left [t] hs)]
    apply List.ext_getElem?
    intro k
    rw [List.foldl_cons, List.foldl_nil, rewire_target, List.getElem?_modify, List.getElem?_mapIdx,
      List.getElem?_mapIdx]
    cases hnode : nodes[k]? with
    | none => simp
    | some node =>
      simp only [Option.map_some, Option.map_eq_map, Option.some.injEq]
      by_cases hk : t.node_idx = k
      · have hinput := h t (by simp) node (hk ▸ hnode)
        simp only [hk, if_true]
        congr 1
        apply List.ext_getElem?
        intro i
        rw [List.getElem?_set, List.getElem?_mapIdx, List.getElem?_mapIdx]
        by_cases hi : t.input_idx = i
        · subst hi
          simp [hinput, hk]
          exact (List.getElem?_eq_some_iff.mp hinput).1
        · simp [hi]
      · simp [hk]

theorem rewire_targets {targets : List Target}
    (h : collect_targets overflow_checks graph = .ok targets) :
    targets.foldl rewire_target graph.node = graph.node.map (rewired overflow_checks graph) := by
  rw [foldl_rewire_target]
  · rw [List.mapIdx_eq_iff]
    intro k
    rw [List.getElem?_map]
    cases hnode : graph.node[k]? with
    | none => rfl
    | some node =>
      simp only [Option.map_some, Option.some.injEq, rewired]
      congr 1
      rw [List.mapIdx_eq_mapIdx_iff]
      intro i hi
      refine if_congr ?_ rfl rfl
      have hinput := List.getElem?_eq_getElem hi
      constructor
      · intro hrewires
        obtain ⟨t, ht, hk, hi, -⟩ := exists_target h hnode hinput hrewires
        exact ⟨t, ht, hk, hi⟩
      · rintro ⟨t, ht, rfl, rfl⟩
        obtain ⟨node', hnode', hinput', hrewires, -⟩ := (mem_targets h).mp ht
        obtain rfl := Option.some.inj (hnode'.symm.trans hnode)
        rwa [Option.some.inj (hinput.symm.trans hinput')]
  · intro t ht node hnode
    obtain ⟨node', hnode', hinput, -⟩ := (mem_targets h).mp ht
    obtain rfl := Option.some.inj (hnode'.symm.trans hnode)
    exact hinput

/-! ## The loop -/

/-- A weight that got its tensors and its node. -/
structure Replaced (F R : Type) where
  name : Text
  tensor : TensorProto F R
  quantized : Quantized F

section Loop

variable [Inhabited R]

def Replaced.node (r : Replaced F R) : NodeProto R := dequantize_node r.name

def Replaced.tensors (r : Replaced F R) : List (TensorProto F R) :=
  new_tensors r.name r.tensor.dims r.quantized

variable [F32Weights F]

variable (overflow_checks graph) in
/-- After the names `seen`, where `done` are the weights that were not skipped. -/
structure Reached (p : Progress F R) (seen : List Text) (done : List (Replaced F R)) : Prop where
  nodes : p.new_nodes = done.map Replaced.node
  tensors : p.new_initializers = done.flatMap Replaced.tensors
  names : ∀ w, w ∈ p.quantized_names ↔ w ∈ seen
  nodup : (done.map Replaced.name).Nodup
  replaced : ∀ r ∈ done, r.name ∈ seen ∧ weight graph r.name = some r.tensor ∧
    quantize_weight overflow_checks r.tensor = .ok (some r.quantized)
  skipped : ∀ w ∈ seen, w ∈ done.map Replaced.name ∨
    ∃ tensor, weight graph w = some tensor ∧ quantize_weight overflow_checks tensor = .ok none

variable (overflow_checks graph) in
/-- What one target with the weight `w` can do. -/
inductive Treated (p : Progress F R) (w : Text) : Progress F R → Prop where
  | again (hseen : w ∈ p.quantized_names) : Treated p w p
  | skipped {tensor : TensorProto F R} (hnew : w ∉ p.quantized_names)
      (hweight : weight graph w = some tensor)
      (hnone : quantize_weight overflow_checks tensor = .ok none) :
      Treated p w { p with quantized_names := w :: p.quantized_names }
  | replaced {tensor : TensorProto F R} {q : Quantized F} (hnew : w ∉ p.quantized_names)
      (hweight : weight graph w = some tensor)
      (hsome : quantize_weight overflow_checks tensor = .ok (some q)) :
      Treated p w
        { new_nodes := p.new_nodes ++ [dequantize_node w]
          new_initializers := p.new_initializers ++ new_tensors w tensor.dims q
          quantized_names := w :: p.quantized_names }

theorem treated {p p' : Progress F R} {target : Target}
    (hmap : init_map graph target.weight_name = some target.init_idx)
    (hp : quantize_target overflow_checks graph p target = .ok p') :
    Treated overflow_checks graph p target.weight_name p' := by
  obtain ⟨tensor, htensor, -⟩ := init_map_eq_some hmap
  have hweight := (weight_of_init_map hmap).trans htensor
  unfold quantize_target at hp
  dsimp only at hp
  split at hp
  · rename_i hseen
    obtain rfl := Except.ok.inj hp
    exact .again hseen
  · rename_i hnew
    obtain ⟨tensor', htensor', hp⟩ := bind_eq_ok.mp hp
    obtain rfl : tensor = tensor' := by simpa [initializer_at, htensor] using htensor'
    obtain ⟨result, hresult, hp⟩ := bind_eq_ok.mp hp
    cases result with
    | none =>
      obtain rfl := Except.ok.inj hp
      exact .skipped hnew hweight hresult
    | some q =>
      obtain rfl := Except.ok.inj hp
      exact .replaced hnew hweight hresult

theorem Reached.step {p p' : Progress F R} {seen : List Text} {done : List (Replaced F R)}
    (h : Reached overflow_checks graph p seen done) {w : Text}
    (hp : Treated overflow_checks graph p w p') :
    ∃ done', Reached overflow_checks graph p' (seen ++ [w]) done' := by
  cases hp with
  | again hseen =>
    have hmem : ∀ x, x ∈ seen ++ [w] ↔ x ∈ seen := by
      have := (h.names _).mp hseen
      simp only [List.mem_append, List.mem_singleton]
      grind
    exact ⟨done, h.nodes, h.tensors, by simp only [hmem, h.names, implies_true], h.nodup,
      by simpa only [hmem] using h.replaced, by simpa only [hmem] using h.skipped⟩
  | skipped hnew hweight hnone =>
    refine ⟨done, h.nodes, h.tensors, ?_, h.nodup, ?_, ?_⟩
    · simp [h.names, or_comm]
    · intro r hr
      exact (h.replaced r hr).imp_left (List.mem_append_left _)
    · intro x hx
      rcases List.mem_append.mp hx with hx | hx
      · exact h.skipped x hx
      · obtain rfl := List.mem_singleton.mp hx
        exact .inr ⟨_, hweight, hnone⟩
  | @replaced tensor q hnew hweight hsome =>
    refine ⟨done ++ [⟨w, tensor, q⟩], ?_, ?_, ?_, ?_, ?_, ?_⟩
    · simp [h.nodes, Replaced.node]
    · simp [h.tensors, Replaced.tensors]
    · simp [h.names, or_comm]
    · rw [List.map_append, List.map_singleton, List.nodup_append]
      refine ⟨h.nodup, by simp, ?_⟩
      rintro name hname _ hw rfl
      obtain ⟨r, hr, rfl⟩ := List.mem_map.mp hname
      have hname : r.name = w := List.mem_singleton.mp hw
      apply hnew
      rw [h.names, ← hname]
      exact (h.replaced r hr).1
    · intro r hr
      rcases List.mem_append.mp hr with hr | hr
      · exact (h.replaced r hr).imp_left (List.mem_append_left _)
      · obtain rfl := List.mem_singleton.mp hr
        exact ⟨by simp, hweight, hsome⟩
    · intro x hx
      rw [List.map_append, List.map_singleton]
      rcases List.mem_append.mp hx with hx | hx
      · exact (h.skipped x hx).imp_left (List.mem_append_left _)
      · exact .inl (List.mem_append_right _ hx)

theorem Reached.run {targets : List Target} {p p' : Progress F R} {seen : List Text}
    {done : List (Replaced F R)} (h : Reached overflow_checks graph p seen done)
    (hmap : ∀ t ∈ targets, init_map graph t.weight_name = some t.init_idx)
    (hp : targets.foldlM (quantize_target overflow_checks graph) p = .ok p') :
    ∃ done', Reached overflow_checks graph p' (seen ++ targets.map Target.weight_name) done' := by
  induction targets generalizing p seen done with
  | nil =>
    obtain rfl := Except.ok.inj hp
    exact ⟨done, by simpa using h⟩
  | cons t targets ih =>
    rw [List.foldlM_cons] at hp
    obtain ⟨p₁, hp₁, hp⟩ := bind_eq_ok.mp hp
    obtain ⟨done₁, h₁⟩ := h.step (treated (hmap t List.mem_cons_self) hp₁)
    obtain ⟨done', h'⟩ := ih h₁ (fun s hs => hmap s (List.mem_cons_of_mem t hs)) hp
    exact ⟨done', by simpa using h'⟩

/-! ## The graph that is written -/

variable (overflow_checks graph) in
structure Written (graph' : GraphProto F R) (done : List (Replaced F R)) : Prop where
  node : graph'.node = done.map Replaced.node ++ graph.node.map (rewired overflow_checks graph)
  initializer : ∃ names : List Text, (∀ w, w ∈ names ↔ Targeted overflow_checks graph w) ∧
    graph'.initializer =
      graph.initializer.filter (text ·.name ∉ names) ++ done.flatMap Replaced.tensors
  input : graph'.input = graph.input
  output : graph'.output = graph.output
  nodup : (done.map Replaced.name).Nodup
  replaced : ∀ r ∈ done, Targeted overflow_checks graph r.name ∧
    weight graph r.name = some r.tensor ∧
    quantize_weight overflow_checks r.tensor = .ok (some r.quantized)
  skipped : ∀ w, Targeted overflow_checks graph w → w ∈ done.map Replaced.name ∨
    ∃ tensor, weight graph w = some tensor ∧ quantize_weight overflow_checks tensor = .ok none

theorem quantize_graph_spec {graph' : GraphProto F R}
    (h : quantize_graph overflow_checks graph = .ok graph') :
    ∃ done, Written overflow_checks graph graph' done := by
  obtain ⟨targets, htargets, h⟩ := bind_eq_ok.mp h
  obtain ⟨p, hp, h⟩ := bind_eq_ok.mp h
  obtain rfl := Except.ok.inj h
  have hstart : Reached overflow_checks graph {} [] [] :=
    ⟨rfl, rfl, fun _ => Iff.rfl, List.nodup_nil, nofun, nofun⟩
  have hmap : ∀ t ∈ targets, init_map graph t.weight_name = some t.init_idx := by
    intro t ht
    obtain ⟨-, -, -, -, hinit⟩ := (mem_targets htargets).mp ht
    exact hinit
  obtain ⟨done, hdone⟩ := hstart.run hmap hp
  rw [List.nil_append] at hdone
  have htargeted := fun w => targeted_iff htargets (w := w)
  refine ⟨done, ?_, ⟨p.quantized_names, ?_, ?_⟩, rfl, rfl, hdone.nodup, ?_, ?_⟩
  · rw [rewire_targets htargets, hdone.nodes]
  · intro w
    rw [htargeted, hdone.names]
  · rw [hdone.tensors]
  · intro r hr
    rw [htargeted]
    exact hdone.replaced r hr
  · intro w hw
    exact hdone.skipped w ((htargeted w).mp hw)

theorem quantize_model_spec {input : Decoded F R} {output : ModelProto F R}
    (h : quantize_model overflow_checks input = .ok output) :
    ∃ graph graph' done, input.model.graph = some graph ∧ output.graph = some graph' ∧
      Written overflow_checks graph graph' done := by
  unfold quantize_model at h
  cases hgraph : input.model.graph with
  | none => simp [hgraph] at h
  | some graph =>
    rw [hgraph] at h
    obtain ⟨graph', hgraph', h⟩ := bind_eq_ok.mp h
    obtain rfl := Except.ok.inj h
    obtain ⟨done, hdone⟩ := quantize_graph_spec hgraph'
    exact ⟨graph, graph', done, rfl, rfl, hdone⟩

end Loop

end Gigastt.Quantize
