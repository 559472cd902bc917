import Gigastt.Quantize.Success

/-!
# When the pass cannot panic

Extents are any `i64`, and their product is computed twice. Where it leaves `i64` on the
way, a build with overflow checks stops, and one without goes on with another number.
-/

namespace Gigastt.Quantize

open Words

variable {F R : Type} {overflow_checks : Bool} {graph : GraphProto F R}

/-! ## Products -/

/-- Multiplied from left to right, the extents stay in `i64`. -/
def ProductFits (dims : List Int64) : Prop :=
  ∀ front, front <+: dims → -2 ^ 63 ≤ volume front ∧ volume front < 2 ^ 63

theorem exact_iff {a b : Int64} :
    ((a * b).toInt == a.toInt * b.toInt) = true ↔
      -2 ^ 63 ≤ a.toInt * b.toInt ∧ a.toInt * b.toInt < 2 ^ 63 := by
  rw [beq_iff_eq]
  constructor
  · intro h
    rw [← h]
    exact ⟨Int64.le_toInt _, Int64.toInt_lt _⟩
  · rintro ⟨hlow, hhigh⟩
    rw [Int64.toInt_mul]
    exact Int.bmod_eq_of_le (by omega) (by omega)

theorem forall_prefix_cons {α : Type} {p : List α → Prop} {a : α} {l : List α} :
    (∀ front, front <+: a :: l → p front) ↔ p [] ∧ ∀ front, front <+: l → p (a :: front) := by
  constructor
  · intro h
    exact ⟨h [] List.nil_prefix, fun front hfront => h _ (List.cons_prefix_cons.mpr ⟨rfl, hfront⟩)⟩
  · rintro ⟨hnil, hcons⟩ front hfront
    rcases List.prefix_cons_iff.mp hfront with rfl | ⟨rest, rfl, hrest⟩
    · exact hnil
    · exact hcons rest hrest

theorem volume_nil : volume [] = 1 := rfl

theorem empty_product (product : Int64) :
    -2 ^ 63 ≤ product.toInt * volume [] ∧ product.toInt * volume [] < 2 ^ 63 := by
  rw [volume_nil, Int.mul_one]
  exact ⟨Int64.le_toInt _, Int64.toInt_lt _⟩

theorem foldlM_i64_iff (dims : List Int64) (product : Int64) :
    (∃ r, dims.foldlM (fun product d =>
        arithmetic true ((product * d).toInt == product.toInt * d.toInt) (product * d)) product = .ok r) ↔
      ∀ front, front <+: dims →
        -2 ^ 63 ≤ product.toInt * volume front ∧ product.toInt * volume front < 2 ^ 63 := by
  induction dims generalizing product with
  | nil =>
    refine iff_of_true ⟨product, rfl⟩ fun front hfront => ?_
    rw [List.prefix_nil.mp hfront]
    exact empty_product product
  | cons d dims ih =>
    rw [forall_prefix_cons, and_iff_right (empty_product product)]
    simp only [volume_cons, ← Int.mul_assoc]
    rw [List.foldlM_cons]
    cases hexact : (product * d).toInt == product.toInt * d.toInt with
    | false =>
      refine iff_of_false (fun ⟨_, h⟩ => nomatch h) fun h => ?_
      have hone := h [] List.nil_prefix
      rw [volume_nil, Int.mul_one] at hone
      rw [exact_iff.mpr hone] at hexact
      nomatch hexact
    | true =>
      rw [← beq_iff_eq.mp hexact]
      exact ih (product * d)

theorem product_i64_isOk_iff (dims : List Int64) :
    (∃ r, product_i64 true dims = .ok r) ↔ ProductFits dims := by
  unfold product_i64 ProductFits
  rw [foldlM_i64_iff]
  have hone : (1 : Int64).toInt = 1 := rfl
  simp only [hone, Int.one_mul]

theorem product_i64_isOk (overflow_checks : Bool) {dims : List Int64} (h : ProductFits dims) :
    ∃ r, product_i64 overflow_checks dims = .ok r := by
  cases overflow_checks with
  | true => exact (product_i64_isOk_iff dims).mpr h
  | false =>
    unfold product_i64
    rw [foldlM_arithmetic]
    exact ⟨_, rfl⟩

theorem clamped_le_volume (dims : List Int64) :
    (dims.map Int64.toNatClampNeg).prod ≤ (volume dims).natAbs := by
  induction dims with
  | nil => exact Nat.le_refl 1
  | cons d dims ih =>
    rw [List.map_cons, List.prod_cons, volume_cons, Int.natAbs_mul]
    have hd : d.toNatClampNeg ≤ d.toInt.natAbs := by
      change d.toInt.toNat ≤ d.toInt.natAbs
      omega
    exact Nat.mul_le_mul hd ih

/-- The second product is the smaller one, and is computed exactly too. -/
theorem product_usize_of_fits (overflow_checks : Bool) {dims : List Int64} (h : ProductFits dims) :
    product_usize overflow_checks (dims.map Int64.toNatClampNeg) =
      .ok (dims.map Int64.toNatClampNeg).prod := by
  have hlt : ∀ front, front <+: dims → 1 * (front.map Int64.toNatClampNeg).prod < 2 ^ 64 := by
    intro front hfront
    have hclamped := clamped_le_volume front
    have hfits := h front hfront
    omega
  have hfold : ∀ (dims : List Int64) (product : Nat),
      (∀ front, front <+: dims → product * (front.map Int64.toNatClampNeg).prod < 2 ^ 64) →
      (dims.map Int64.toNatClampNeg).foldlM (fun product d =>
        arithmetic overflow_checks (product * d < 2 ^ 64) (product * d % 2 ^ 64)) product =
      .ok (product * (dims.map Int64.toNatClampNeg).prod) := by
    intro dims
    induction dims with
    | nil => simp [pure, Except.pure]
    | cons d dims ih =>
      intro product hlt
      rw [forall_prefix_cons] at hlt
      simp only [List.map_cons, List.prod_cons, ← Nat.mul_assoc] at hlt ⊢
      have hd : product * d.toNatClampNeg < 2 ^ 64 := by simpa using hlt.2 [] List.nil_prefix
      rw [List.foldlM_cons, Nat.mod_eq_of_lt hd, arithmetic]
      simp only [hd, decide_true, Bool.not_true, Bool.and_false, Bool.false_eq_true, if_false]
      exact ih _ hlt.2
  rw [product_usize, hfold dims 1 hlt, Nat.one_mul]

/-! ## Collecting the targets -/

variable (graph) in
/-- A float initializer that some node has where a weight stands. -/
def Candidate (tensor : TensorProto F R) : Prop :=
  ∃ node ∈ graph.node, text node.op_type ∈ QUANTIZABLE_OPS ∧ ∃ (input_idx : Nat) (w : Text),
    node.input[input_idx]? = some w ∧ input_idx ≠ 0 ∧ weight graph w = some tensor ∧ tensor.elem_type = FLOAT

/-- The error of a multiplication that overflows. -/
def Overflows (e : PassError) : Prop := e = .panic .overflow

theorem product_i64_spec (dims : List Int64) :
    ResultSpec (fun _ => True) Overflows (product_i64 overflow_checks dims) := by
  refine foldlM_spec (fun d _ product _ => ?_) 1 trivial
  unfold arithmetic
  split
  · exact .error rfl
  · exact .ok trivial

theorem is_target_isOk_iff {tensor : TensorProto F R} :
    (∃ b, is_target overflow_checks tensor = .ok b) ↔
      (tensor.elem_type = FLOAT → ∃ r, product_i64 overflow_checks tensor.dims = .ok r) := by
  unfold is_target
  split_ifs with hfloat
  · exact iff_of_true ⟨false, rfl⟩ fun h => absurd h hfloat
  · rw [not_not] at hfloat
    simp only [bind_eq_ok, hfloat, forall_const]
    constructor
    · rintro ⟨_, r, hr, -⟩
      exact ⟨r, hr⟩
    · rintro ⟨r, hr⟩
      exact ⟨_, r, hr, rfl⟩

theorem input_target_isOk_iff {node_idx : Nat} {input : Text × Nat} :
    (∃ t, input_target overflow_checks graph node_idx input = .ok t) ↔
      (input.2 ≠ 0 → ∀ tensor, weight graph input.1 = some tensor →
        ∃ b, is_target overflow_checks tensor = .ok b) := by
  unfold input_target
  split_ifs with hzero
  · exact iff_of_true ⟨none, rfl⟩ fun h => absurd hzero h
  · cases hmap : init_map graph input.1 with
    | none => exact iff_of_true ⟨none, rfl⟩ fun _ tensor h => by simp [weight, hmap] at h
    | some init_idx =>
      obtain ⟨tensor, htensor, -⟩ := init_map_eq_some hmap
      have hweight : weight graph input.1 = some tensor := (weight_of_init_map hmap).trans htensor
      have hinit : initializer_at graph init_idx = .ok tensor := by
        unfold initializer_at
        rw [htensor]
      simp only [bind_eq_ok]
      constructor
      · rintro ⟨_, tensor', htensor', b, hb, -⟩ - tensor'' hweight'
        rw [hinit] at htensor'
        obtain rfl := Except.ok.inj htensor'
        obtain rfl := Option.some.inj (hweight.symm.trans hweight')
        exact ⟨b, hb⟩
      · intro h
        obtain ⟨b, hb⟩ := h hzero tensor hweight
        cases b with
        | true => exact ⟨_, tensor, hinit, true, hb, rfl⟩
        | false => exact ⟨_, tensor, hinit, false, hb, rfl⟩

theorem node_targets_isOk_iff {node : NodeProto R × Nat} :
    (∃ ts, node_targets overflow_checks graph node = .ok ts) ↔
      (text node.1.op_type ∈ QUANTIZABLE_OPS → ∀ input ∈ node.1.input.zipIdx,
        ∃ t, input_target overflow_checks graph node.2 input = .ok t) := by
  unfold node_targets
  by_cases hop : text node.1.op_type ∈ QUANTIZABLE_OPS
  · rw [if_neg (not_not.mpr hop)]
    simp only [hop, forall_const, ← mapM_isOk, map_eq_ok]
    exact ⟨fun ⟨_, found, h, _⟩ => ⟨found, h⟩, fun ⟨found, h⟩ => ⟨_, found, h, rfl⟩⟩
  · rw [if_pos hop]
    exact iff_of_true ⟨[], rfl⟩ fun h => absurd h hop

/-- The targets are collected unless the product of some candidate overflows. -/
theorem collect_targets_isOk_iff :
    (∃ targets, collect_targets overflow_checks graph = .ok targets) ↔
      ∀ tensor, Candidate graph tensor → ∃ r, product_i64 overflow_checks tensor.dims = .ok r := by
  have hcollect : (∃ targets, collect_targets overflow_checks graph = .ok targets) ↔
      ∀ node ∈ graph.node.zipIdx, ∃ ts, node_targets overflow_checks graph node = .ok ts := by
    unfold collect_targets
    simp only [map_eq_ok, ← mapM_isOk]
    exact ⟨fun ⟨_, lists, h, _⟩ => ⟨lists, h⟩, fun ⟨lists, h⟩ => ⟨_, lists, h, rfl⟩⟩
  simp only [hcollect, node_targets_isOk_iff, input_target_isOk_iff, is_target_isOk_iff]
  constructor
  · rintro h tensor ⟨node, hnode, hop, input_idx, w, hinput, hidx, hweight, hfloat⟩
    obtain ⟨node_idx, hnode⟩ := List.getElem?_of_mem hnode
    exact h (node, node_idx) (List.mem_zipIdx_iff_getElem?.mpr hnode) hop (w, input_idx)
      (List.mem_zipIdx_iff_getElem?.mpr hinput) hidx tensor hweight hfloat
  · intro h node hnode hop input hinput hidx tensor hweight hfloat
    exact h tensor ⟨node.1, List.mem_of_getElem? (List.mem_zipIdx_iff_getElem?.mp hnode), hop, input.2,
      input.1, List.mem_zipIdx_iff_getElem?.mp hinput, hidx, hweight, hfloat⟩

variable (overflow_checks graph) in
theorem collect_targets_spec :
    ResultSpec (fun _ => True) Overflows (collect_targets overflow_checks graph) := by
  have his_target : ∀ tensor : TensorProto F R,
      ResultSpec (fun _ => True) Overflows (is_target overflow_checks tensor) := by
    intro tensor
    unfold is_target
    split_ifs
    · exact .ok trivial
    · exact (product_i64_spec tensor.dims).bind fun _ _ => .ok trivial
  have hinput : ∀ node_idx input,
      ResultSpec (fun _ => True) Overflows (input_target overflow_checks graph node_idx input) := by
    intro node_idx input
    unfold input_target
    split_ifs
    · exact .ok trivial
    · cases hmap : init_map graph input.1 with
      | none => exact .ok trivial
      | some init_idx =>
        obtain ⟨tensor, htensor, -⟩ := init_map_eq_some hmap
        dsimp only [initializer_at]
        rw [htensor]
        refine (his_target tensor).bind fun b _ => ?_
        cases b with
        | true => exact .ok trivial
        | false => exact .ok trivial
  have hnode : ∀ node, ResultSpec (fun _ => True) Overflows (node_targets overflow_checks graph node) := by
    intro node
    unfold node_targets
    split
    · exact .ok trivial
    · exact (mapM_spec fun input _ => hinput node.2 input).map fun _ _ => trivial
  unfold collect_targets
  exact (mapM_spec fun node _ => hnode node).map fun _ _ => trivial

/-! ## Weights -/

section Weights

variable [F32Weights F] {tensor : TensorProto F R}

def Refuses (e : PassError) : Prop := ∃ message, e = .err message

omit [F32Weights F] in
theorem Candidate.of_target {target : Target} {targets : List Target}
    (h : collect_targets overflow_checks graph = .ok targets) (ht : target ∈ targets) :
    ∃ tensor, initializer_at graph target.init_idx = .ok tensor ∧ tensor ∈ graph.initializer ∧
      Candidate graph tensor := by
  obtain ⟨node, hnode, hinput, hrewires, hmap⟩ := (mem_targets h).mp ht
  obtain ⟨hop, hidx, hlarge⟩ := rewires_iff.mp hrewires
  obtain ⟨tensor, hweight, htarget⟩ := large_iff.mp hlarge
  have hinit := (weight_of_init_map hmap).symm.trans hweight
  refine ⟨tensor, ?_, (weight_eq_some hweight).1, node, List.mem_of_getElem? hnode, hop,
    target.input_idx, target.weight_name, hinput, hidx, hweight, ?_⟩
  · unfold initializer_at
    rw [hinit]
  · unfold is_target at htarget
    split_ifs at htarget with hfloat
    · nomatch htarget
    · exact not_not.mp hfloat

/-- As many channels as there are lie in the data, and fill it. -/
theorem Fills.channels {data : List F} {d : Int64} (h : Fills overflow_checks tensor data d)
    (hfits : ProductFits tensor.dims) :
    0 < d.toUInt64.toNat ∧ d.toUInt64.toNat ∣ data.length ∧ d.toUInt64.toNat ≤ data.length := by
  have hlength : (tensor.dims.map Int64.toNatClampNeg).prod = data.length :=
    Except.ok.inj ((product_usize_of_fits overflow_checks hfits).symm.trans h.product)
  have hpos := (extract_float_data_length h.extracted).1
  obtain ⟨ds, hdims⟩ := List.head?_eq_some_iff.mp h.head
  rw [hdims, List.map_cons, List.prod_cons] at hlength
  have hd : 0 < d.toNatClampNeg := by
    refine Nat.pos_of_ne_zero fun hzero => ?_
    rw [hzero, Nat.zero_mul] at hlength
    omega
  have hnat : d.toUInt64.toNat = d.toNatClampNeg := by
    refine Int64.toNat_toUInt64_of_le (Int64.le_iff_toInt_le.mpr ?_)
    change 0 < d.toInt.toNat at hd
    change 0 ≤ d.toInt
    omega
  have hdvd : d.toNatClampNeg ∣ data.length := ⟨_, hlength.symm⟩
  rw [hnat]
  exact ⟨hd, hdvd, Nat.le_of_dvd hpos hdvd⟩

theorem extract_float_data_spec (tensor : TensorProto F R) :
    ResultSpec (fun _ => True) Refuses (extract_float_data tensor) := by
  unfold extract_float_data
  split
  · exact .ok trivial
  · split
    · split
      · exact .ok trivial
      · exact .error ⟨_, rfl⟩
    · exact .error ⟨_, rfl⟩

theorem quantize_weight_spec (overflow_checks : Bool) (hdims : ProductFits tensor.dims) (hfits : tensor.Fits) :
    ResultSpec (fun _ => True) Refuses (quantize_weight overflow_checks tensor) := by
  unfold quantize_weight
  cases hdata : extract_float_data tensor with
  | error e =>
    have h := extract_float_data_spec tensor
    rw [hdata] at h
    cases h with
    | error h => exact .error h
  | ok data =>
    rw [product_usize_of_fits overflow_checks hdims]
    cases htensor : tensor.dims with
    | nil => exact .ok trivial
    | cons d ds =>
      dsimp only [bind, Except.bind]
      split_ifs with hzero hlength
      · exact .ok trivial
      · exact .ok trivial
      · have hfills : Fills overflow_checks tensor data d :=
          { extracted := hdata
            head := by rw [htensor]; rfl
            nonzero := fun hd => hzero (toUInt64_toNat_eq_zero.mpr hd)
            product := by rw [product_usize_of_fits overflow_checks hdims, htensor, not_not.mp hlength] }
        obtain ⟨hpos, hdvd, hle⟩ := hfills.channels hdims
        rw [quantize_channels_eq hpos hdvd hle (data_fits hdata hfits)]
        exact .ok trivial

/-! ## The pass -/

variable [Inhabited R]

theorem quantize_target_spec {targets : List Target} (h : collect_targets overflow_checks graph = .ok targets)
    (hdims : ∀ tensor, Candidate graph tensor → ProductFits tensor.dims)
    (hfits : ∀ tensor ∈ graph.initializer, tensor.Fits) {target : Target} (ht : target ∈ targets)
    (p : Progress F R) :
    ResultSpec (fun _ => True) Refuses (quantize_target overflow_checks graph p target) := by
  obtain ⟨tensor, hinit, hmem, hcandidate⟩ := Candidate.of_target h ht
  unfold quantize_target
  dsimp only
  split_ifs
  · exact .ok trivial
  · rw [hinit]
    refine (quantize_weight_spec overflow_checks (hdims tensor hcandidate) (hfits tensor hmem)).bind fun q _ => ?_
    cases q with
    | none => exact .ok trivial
    | some q => exact .ok trivial

theorem quantize_graph_spec_of_fits (overflow_checks : Bool)
    (hdims : ∀ tensor, Candidate graph tensor → ProductFits tensor.dims)
    (hfits : ∀ tensor ∈ graph.initializer, tensor.Fits) :
    ResultSpec (fun _ => True) Refuses (quantize_graph overflow_checks graph) := by
  obtain ⟨targets, htargets⟩ := collect_targets_isOk_iff.mpr fun tensor hcandidate =>
    product_i64_isOk overflow_checks (hdims tensor hcandidate)
  unfold quantize_graph
  rw [htargets]
  change ResultSpec _ _ (targets.foldlM (quantize_target overflow_checks graph) {} >>= _)
  have hrun : ResultSpec (fun _ => True) Refuses (targets.foldlM (quantize_target overflow_checks graph) {}) :=
    foldlM_spec (fun target ht p _ => quantize_target_spec htargets hdims hfits ht p) {} trivial
  exact hrun.bind fun p _ => .ok trivial

theorem quantize_model_spec_of_fits (overflow_checks : Bool) {input : Decoded F R}
    (h : ∀ graph ∈ input.model.graph, ∀ tensor, Candidate graph tensor → ProductFits tensor.dims) :
    ResultSpec (fun _ => True) Refuses (quantize_model overflow_checks input) := by
  unfold quantize_model
  cases hgraph : input.model.graph with
  | none => exact .error ⟨_, rfl⟩
  | some graph =>
    have hgraph_spec := quantize_graph_spec_of_fits overflow_checks (h graph hgraph) (input.fits graph hgraph)
    exact hgraph_spec.bind fun graph' _ => .ok trivial

/-- Neither build panics, and no buffer is larger than the data that goes in it. The build
with overflow checks panics exactly where a multiplication overflows, or something worse. -/
structure PanicFree (input : Decoded F R) : Prop where
  returns : ∀ overflow_checks about, quantize_model overflow_checks input ≠ .error (.panic about)
  capacities : ∀ graph ∈ input.model.graph, ∀ overflow_checks w tensor data d,
    Targeted overflow_checks graph w → weight graph w = some tensor →
      Fills overflow_checks tensor data d → d.toUInt64.toNat ≤ data.length

/-- The pass is free of panics exactly if the extents of every float initializer in a
weight's place can be multiplied in `i64`. -/
theorem quantize_panic_free_iff (input : Decoded F R) :
    PanicFree input ↔ ∀ graph ∈ input.model.graph, ∀ tensor, Candidate graph tensor →
      ProductFits tensor.dims := by
  constructor
  · intro h graph hgraph tensor hcandidate
    have hreturns := h.returns true
    have hcollect : ∃ targets, collect_targets true graph = .ok targets := by
      cases hcollect : collect_targets true graph with
      | ok targets => exact ⟨targets, rfl⟩
      | error e =>
        have hspec := collect_targets_spec true graph
        rw [hcollect] at hspec
        obtain rfl : e = .panic .overflow := by
          cases hspec with
          | error he => exact he
        refine absurd ?_ (hreturns .overflow)
        unfold quantize_model quantize_graph
        rw [Option.mem_def.mp hgraph]
        dsimp only
        rw [hcollect]
        rfl
    exact (product_i64_isOk_iff tensor.dims).mp (collect_targets_isOk_iff.mp hcollect tensor hcandidate)
  · intro h
    refine ⟨fun overflow_checks about heq => ?_, ?_⟩
    · have hspec := quantize_model_spec_of_fits overflow_checks h
      rw [heq] at hspec
      cases hspec with
      | error he =>
        obtain ⟨message, hmessage⟩ := he
        nomatch hmessage
    · intro graph hgraph overflow_checks w tensor data d htargeted hweight hfills
      obtain ⟨node, hnode, input_idx, hinput, hrewires⟩ := htargeted
      obtain ⟨hop, hidx, hlarge⟩ := rewires_iff.mp hrewires
      obtain ⟨tensor', hweight', htarget⟩ := large_iff.mp hlarge
      obtain rfl := Option.some.inj (hweight.symm.trans hweight')
      have hfloat : tensor.elem_type = FLOAT := by
        unfold is_target at htarget
        split_ifs at htarget with hne
        · nomatch htarget
        · exact not_not.mp hne
      exact (hfills.channels (h graph hgraph tensor
        ⟨node, hnode, hop, input_idx, w, hinput, hidx, hweight, hfloat⟩)).2.2

end Weights

/-! ## A shape that wraps around -/

/-- Three times the first extent is `2 ^ 64 + 1025`. -/
def wrapping_tensor : TensorProto Int Unit where
  name := some ['w']
  dims := [6148914691236517547, 3]
  data_type := some FLOAT
  float_data := List.replicate 1025 0
  rest := ()

def wrapping_model : Decoded Int Unit where
  model :=
    { graph := some
        { node := [{ input := [['x'], ['w']], op_type := some "MatMul".toList, rest := () }]
          initializer := [wrapping_tensor]
          rest := () }
      rest := () }
  fits := by
    rintro graph ⟨⟩ tensor htensor
    rw [List.mem_singleton.mp htensor]
    exact ⟨by decide +kernel, nofun⟩

/-- The product is 1025 in both types without overflow checks, and there is room for no
vector of that many channels. -/
theorem wrapping_model_panics :
    quantize_model true wrapping_model = .error (.panic .overflow) ∧
      quantize_model false wrapping_model = .error (.panic .capacity) := by
  decide +kernel

theorem quantize_not_panic_free : ¬ ∀ input : Decoded Int Unit, PanicFree input :=
  fun h => (h wrapping_model).returns true .overflow wrapping_model_panics.1

end Gigastt.Quantize
