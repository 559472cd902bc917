import Gigastt.Quantize.Meaning

/-!
# When the pass succeeds

Without overflow checks only a target without readable data stops it.
-/

namespace Gigastt.Quantize

open Words

variable {F R : Type} {graph : GraphProto F R}

theorem foldlM_arithmetic {α β : Type} (exact : β → α → Bool) (result : β → α → β) (as : List α)
    (b : β) : as.foldlM (fun b a => arithmetic false (exact b a) (result b a)) b =
      .ok (as.foldl result b) := by
  induction as generalizing b with
  | nil => rfl
  | cons a as ih =>
    rw [List.foldlM_cons, List.foldl_cons]
    exact ih (result b a)

theorem is_target_isOk (tensor : TensorProto F R) : ∃ b, is_target false tensor = .ok b := by
  unfold is_target product_i64
  split
  · exact ⟨false, rfl⟩
  · rw [foldlM_arithmetic]
    exact ⟨_, rfl⟩

theorem input_target_isOk (graph : GraphProto F R) (node_idx : Nat) (input : Text × Nat) :
    ∃ target, input_target false graph node_idx input = .ok target := by
  unfold input_target
  split
  · exact ⟨none, rfl⟩
  · cases hmap : init_map graph input.1 with
    | none => exact ⟨none, rfl⟩
    | some init_idx =>
      obtain ⟨tensor, htensor, -⟩ := init_map_eq_some hmap
      obtain ⟨b, hb⟩ := is_target_isOk tensor
      simp only [initializer_at, htensor, bind, Except.bind, hb]
      cases b <;> exact ⟨_, rfl⟩

theorem collect_targets_isOk (graph : GraphProto F R) :
    ∃ targets, collect_targets false graph = .ok targets := by
  have hnode : ∀ node ∈ graph.node.zipIdx, ∃ targets, node_targets false graph node = .ok targets := by
    intro node _
    unfold node_targets
    split
    · exact ⟨[], rfl⟩
    · obtain ⟨found, hfound⟩ := mapM_isOk.mpr fun input (_ : input ∈ node.1.input.zipIdx) =>
        input_target_isOk graph node.2 input
      exact ⟨_, map_eq_ok.mpr ⟨found, hfound, rfl⟩⟩
  obtain ⟨lists, hlists⟩ := mapM_isOk.mpr hnode
  exact ⟨_, map_eq_ok.mpr ⟨lists, hlists, rfl⟩⟩

variable [F32Weights F]

theorem quantize_weight_of_not_quantizable {tensor : TensorProto F R} {data : List F}
    (hdata : extract_float_data tensor = .ok data) (h : ¬ Quantizable false tensor) :
    quantize_weight false tensor = .ok none := by
  have hproduct : ∃ n, product_usize false (tensor.dims.map Int64.toNatClampNeg) = .ok n := by
    unfold product_usize
    rw [foldlM_arithmetic]
    exact ⟨_, rfl⟩
  obtain ⟨expected, hexpected⟩ := hproduct
  refine bind_eq_ok.mpr ⟨data, hdata, ?_⟩
  cases hdims : tensor.dims with
  | nil => rfl
  | cons d ds =>
    rw [hdims] at hexpected
    dsimp only
    split
    · rfl
    · rename_i hzero
      refine bind_eq_ok.mpr ⟨expected, hexpected, ?_⟩
      split
      · rfl
      · rename_i hlength
        obtain rfl := not_not.mp hlength
        have hproduct : product_usize false (tensor.dims.map Int64.toNatClampNeg) =
            .ok data.length := by rw [hdims, hexpected]
        exact absurd ⟨data, d, hdata, by simp [hdims], fun hd => hzero (by rw [hd]; rfl), hproduct⟩ h

theorem Ready.quantize_weight_isOk (h : Ready false graph)
    (hfits : ∀ tensor ∈ graph.initializer, tensor.Fits) {w : Text} {tensor : TensorProto F R}
    (hw : Targeted false graph w) (htensor : weight graph w = some tensor) :
    ∃ q, quantize_weight false tensor = .ok q := by
  obtain ⟨data, hdata, -⟩ := h.data w tensor hw htensor
  by_cases hquantizable : Quantizable false tensor
  · have hnonneg : ∀ d ∈ tensor.dims, 0 ≤ d := by
      intro d hd
      by_contra hneg
      exact not_quantizable_of_neg hd (Int64.not_le.mp hneg) hquantizable
    obtain ⟨_, _, -, -, hq⟩ := h.fills hfits hw htensor hnonneg
    exact ⟨_, hq⟩
  · exact ⟨none, quantize_weight_of_not_quantizable hdata hquantizable⟩

variable [Inhabited R]

theorem Ready.quantize_graph_isOk (h : Ready false graph)
    (hfits : ∀ tensor ∈ graph.initializer, tensor.Fits) :
    ∃ graph', quantize_graph false graph = .ok graph' := by
  obtain ⟨targets, htargets⟩ := collect_targets_isOk graph
  have hstep : ∀ t ∈ targets, ∀ p : Progress F R, ∃ p', quantize_target false graph p t = .ok p' := by
    intro t ht p
    obtain ⟨node, hnode, hinput, hrewires, hmap⟩ := (mem_targets htargets).mp ht
    have hw : Targeted false graph t.weight_name :=
      ⟨node, List.mem_of_getElem? hnode, t.input_idx, hinput, hrewires⟩
    obtain ⟨tensor, htensor, -⟩ := init_map_eq_some hmap
    obtain ⟨q, hq⟩ :=
      h.quantize_weight_isOk hfits hw ((weight_of_init_map hmap).trans htensor)
    unfold quantize_target
    dsimp only
    split
    · exact ⟨p, rfl⟩
    · simp only [initializer_at, htensor, hq, bind, Except.bind]
      cases q <;> exact ⟨_, rfl⟩
  have hrun : ∀ p : Progress F R, ∃ p', targets.foldlM (quantize_target false graph) p = .ok p' := by
    clear htargets
    induction targets with
    | nil => exact fun p => ⟨p, rfl⟩
    | cons t targets ih =>
      intro p
      obtain ⟨p₁, hp₁⟩ := hstep t List.mem_cons_self p
      obtain ⟨p', hp'⟩ := ih (fun s hs => hstep s (List.mem_cons_of_mem t hs)) p₁
      rw [List.foldlM_cons]
      exact ⟨p', bind_eq_ok.mpr ⟨p₁, hp₁, hp'⟩⟩
  obtain ⟨p, hp⟩ := hrun {}
  exact ⟨_, bind_eq_ok.mpr ⟨targets, htargets, bind_eq_ok.mpr ⟨p, hp, rfl⟩⟩⟩

end Gigastt.Quantize
