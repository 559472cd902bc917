import Mathlib.Data.List.Basic
import Mathlib.Logic.Function.Basic

/-!
# Named dataflow graphs

A node reads and writes values by name, and a list of nodes runs in order on an
environment. A node may fail, and then so does the run.
-/

namespace Gigastt.Dataflow

variable {α κ V : Type*}

structure Node (α κ : Type*) where
  kind : κ
  reads : List α
  writes : List α

/-! ## Order -/

/-- What is there after the nodes. -/
def provided (scope : List α) (ns : List (Node α κ)) : List α := scope ++ ns.flatMap Node.writes

/-- Each node reads what the scope or an earlier node provides. -/
def Ordered : List α → List (Node α κ) → Prop
  | _, [] => True
  | scope, n :: ns => (∀ x ∈ n.reads, x ∈ scope) ∧ Ordered (scope ++ n.writes) ns

instance decidableOrdered [DecidableEq α] :
    (scope : List α) → (ns : List (Node α κ)) → Decidable (Ordered scope ns)
  | _, [] => isTrue trivial
  | scope, n :: ns =>
    have := decidableOrdered (scope ++ n.writes) ns
    inferInstanceAs (Decidable ((∀ x ∈ n.reads, x ∈ scope) ∧ Ordered (scope ++ n.writes) ns))

structure Closed (scope : List α) (ns : List (Node α κ)) (outs : List α) : Prop where
  ordered : Ordered scope ns
  outs : ∀ x ∈ outs, x ∈ provided scope ns

instance [DecidableEq α] (scope : List α) (ns : List (Node α κ)) (outs : List α) :
    Decidable (Closed scope ns outs) :=
  decidable_of_iff (Ordered scope ns ∧ ∀ x ∈ outs, x ∈ provided scope ns)
    ⟨fun h => ⟨h.1, h.2⟩, fun h => ⟨h.ordered, h.outs⟩⟩

theorem provided_cons (scope : List α) (n : Node α κ) (ns : List (Node α κ)) :
    provided scope (n :: ns) = provided (scope ++ n.writes) ns := by
  simp [provided]

theorem provided_append (scope : List α) (ns ms : List (Node α κ)) :
    provided scope (ns ++ ms) = provided (provided scope ns) ms := by
  simp [provided]

theorem ordered_append {scope : List α} {ns ms : List (Node α κ)} :
    Ordered scope (ns ++ ms) ↔ Ordered scope ns ∧ Ordered (provided scope ns) ms := by
  induction ns generalizing scope with
  | nil => simp [Ordered, provided]
  | cons n ns ih => rw [List.cons_append, Ordered, Ordered, ih, provided_cons, and_assoc]

/-- The order, node by node. -/
theorem ordered_iff {scope : List α} {ns : List (Node α κ)} :
    Ordered scope ns ↔ ∀ (k : Nat) (n : Node α κ), ns[k]? = some n →
      ∀ x ∈ n.reads, x ∈ provided scope (ns.take k) := by
  induction ns generalizing scope with
  | nil => simp [Ordered]
  | cons m ms ih =>
    rw [Ordered, ih]
    constructor
    · rintro ⟨hm, hms⟩ k n hk
      cases k with
      | zero =>
        obtain rfl : m = n := by simpa using hk
        simpa [provided] using hm
      | succ k =>
        rw [List.take_succ_cons, provided_cons]
        exact hms k n (by simpa using hk)
    · intro h
      refine ⟨?_, fun k n hk => ?_⟩
      · simpa [provided] using h 0 m rfl
      · have := h (k + 1) n (by simpa using hk)
        rwa [List.take_succ_cons, provided_cons] at this

theorem Ordered.mem_provided {scope : List α} {ns : List (Node α κ)} (h : Ordered scope ns)
    {n : Node α κ} (hn : n ∈ ns) {x : α} (hx : x ∈ n.reads) : x ∈ provided scope ns := by
  obtain ⟨k, hk⟩ := List.getElem?_of_mem hn
  rcases List.mem_append.mp (ordered_iff.mp h k n hk x hx) with hscope | hwrites
  · exact List.mem_append_left _ hscope
  · obtain ⟨m, hm, hx⟩ := List.mem_flatMap.mp hwrites
    exact List.mem_append_right _ (List.mem_flatMap.mpr ⟨m, List.mem_of_mem_take hm, hx⟩)

theorem ordered_of_scope {scope : List α} {ns : List (Node α κ)}
    (h : ∀ n ∈ ns, ∀ x ∈ n.reads, x ∈ scope) : Ordered scope ns := by
  rw [ordered_iff]
  intro k n hk x hx
  exact List.mem_append_left _ (h n (List.mem_of_getElem? hk) x hx)

/-! ## Environments -/

section Env

variable [DecidableEq α]

def assign (e : α → Option V) : List (α × V) → α → Option V
  | [] => e
  | (x, v) :: rest => assign (Function.update e x (some v)) rest

theorem assign_append (e : α → Option V) (l l' : List (α × V)) :
    assign e (l ++ l') = assign (assign e l) l' := by
  induction l generalizing e with
  | nil => rfl
  | cons p l ih => exact ih _

/-- Two names that no assignment tells apart. -/
theorem assign_congr {e e' : α → Option V} {l : List (α × V)} {x x' : α} (h : e x = e' x')
    (hl : ∀ p ∈ l, x = p.1 ↔ x' = p.1) : assign e l x = assign e' l x' := by
  induction l generalizing e e' with
  | nil => exact h
  | cons p l ih =>
    refine ih ?_ fun q hq => hl q (List.mem_cons_of_mem p hq)
    have hp := hl p List.mem_cons_self
    simp only [Function.update_apply, hp, h]

theorem assign_of_not_mem {e : α → Option V} {l : List (α × V)} {x : α} (h : ∀ p ∈ l, x ≠ p.1) :
    assign e l x = e x := by
  induction l generalizing e with
  | nil => rfl
  | cons p l ih =>
    rw [assign, ih fun q hq => h q (List.mem_cons_of_mem p hq)]
    exact Function.update_of_ne (h p List.mem_cons_self) _ _

theorem assign_of_mem {e : α → Option V} {l : List (α × V)} (hl : (l.map Prod.fst).Nodup)
    {x : α} {v : V} (h : (x, v) ∈ l) : assign e l x = some v := by
  induction l generalizing e with
  | nil => simp at h
  | cons p l ih =>
    obtain ⟨hp, hrest⟩ := List.nodup_cons.mp hl
    rcases List.mem_cons.mp h with rfl | h
    · rw [assign, assign_of_not_mem]
      · exact Function.update_self _ _ _
      · rintro q hq heq
        exact hp (List.mem_map.mpr ⟨q, hq, heq.symm⟩)
    · exact ih hrest h

theorem mem_of_assign_eq_some {e : α → Option V} {l : List (α × V)} {x : α} {v : V}
    (h : assign e l x = some v) : (x, v) ∈ l ∨ e x = some v := by
  induction l generalizing e with
  | nil => exact .inr h
  | cons p l ih =>
    rcases ih h with hmem | hp
    · exact .inl (List.mem_cons_of_mem p hmem)
    · by_cases hx : x = p.1
      · subst hx
        rw [Function.update_self, Option.some.injEq] at hp
        subst hp
        exact .inl List.mem_cons_self
      · rw [Function.update_of_ne hx] at hp
        exact .inr hp

theorem assign_isSome {e : α → Option V} {l : List (α × V)} {x : α}
    (h : (e x).isSome ∨ x ∈ l.map Prod.fst) : (assign e l x).isSome := by
  induction l generalizing e with
  | nil => simpa [assign] using h
  | cons p l ih =>
    refine ih ?_
    by_cases hx : x = p.1
    · left
      simp [hx]
    · rw [Function.update_of_ne hx]
      simpa [hx] using h

/-! ## Reads -/

omit [DecidableEq α] in
theorem mapM_isSome {e : α → Option V} {xs : List α} :
    (xs.mapM e).isSome ↔ ∀ x ∈ xs, (e x).isSome := by
  induction xs with
  | nil => simp
  | cons x xs ih => cases hx : e x <;> cases hxs : xs.mapM e <;> simp_all

omit [DecidableEq α] in
theorem mapM_rename {β : Type*} {e : α → Option V} {e' : β → Option V} {ρ : α → β} {xs : List α}
    (h : ∀ x ∈ xs, e' (ρ x) = e x) : (xs.map ρ).mapM e' = xs.mapM e := by
  induction xs with
  | nil => rfl
  | cons x xs ih =>
    rw [List.map_cons, List.mapM_cons, List.mapM_cons, h x List.mem_cons_self,
      ih fun y hy => h y (List.mem_cons_of_mem x hy)]

/-! ## Runs -/

variable (op : κ → List V → Option (Nat → V))

/-- What a node assigns, where `results i` is its output number `i`. -/
def Node.results (n : Node α κ) (results : Nat → V) : List (α × V) :=
  n.writes.zipIdx.map fun y => (y.1, results y.2)

/-- A node takes its outputs in order, and fails when it reads a name that has no value. -/
def run : (α → Option V) → List (Node α κ) → Option (α → Option V)
  | e, [] => some e
  | e, n :: ns =>
    (n.reads.mapM e).bind fun args =>
      (op n.kind args).bind fun results => run (assign e (n.results results)) ns

def eval (e : α → Option V) (ns : List (Node α κ)) (outs : List α) : Option (List V) :=
  (run op e ns).bind fun e => outs.mapM e

variable {op}

omit [DecidableEq α] in
@[simp]
theorem map_fst_results (n : Node α κ) (results : Nat → V) :
    (n.results results).map Prod.fst = n.writes := by
  simp [Node.results, Function.comp_def]

omit [DecidableEq α] in
theorem fst_mem_writes {n : Node α κ} {results : Nat → V} {p : α × V}
    (h : p ∈ n.results results) : p.1 ∈ n.writes := by
  rw [← map_fst_results n results]
  exact List.mem_map_of_mem h

theorem run_append (e : α → Option V) (ns ms : List (Node α κ)) :
    run op e (ns ++ ms) = (run op e ns).bind fun e' => run op e' ms := by
  induction ns generalizing e with
  | nil => rfl
  | cons n ns ih => simp [run, ih, Option.bind_assoc]

theorem eval_append (e : α → Option V) (ns ms : List (Node α κ)) (outs : List α) :
    eval op e (ns ++ ms) outs = (run op e ns).bind fun e' => eval op e' ms outs := by
  simp [eval, run_append, Option.bind_assoc]

theorem run_cons_of_eq_some {e : α → Option V} {n : Node α κ} {ns : List (Node α κ)}
    {args : List V} {results : Nat → V} (hargs : n.reads.mapM e = some args)
    (hop : op n.kind args = some results) :
    run op e (n :: ns) = run op (assign e (n.results results)) ns := by
  simp [run, hargs, hop]

/-- A run that comes to a node that reads a name without a value fails. -/
theorem run_eq_none {e : α → Option V} {ns : List (Node α κ)} {n : Node α κ} {x : α}
    (hn : n ∈ ns) (hx : x ∈ n.reads) (he : e x = none) (hw : ∀ m ∈ ns, x ∉ m.writes) :
    run op e ns = none := by
  induction ns generalizing e with
  | nil => simp at hn
  | cons m ms ih =>
    unfold run
    rw [Option.bind_eq_none_iff]
    intro args hargs
    rw [Option.bind_eq_none_iff]
    intro results _
    rcases List.mem_cons.mp hn with rfl | hn
    · have hread := mapM_isSome.mp (Option.isSome_of_mem hargs) x hx
      simp [he] at hread
    · refine ih hn ?_ fun m hm => hw m (List.mem_cons_of_mem _ hm)
      rw [assign_of_not_mem, he]
      rintro p hp rfl
      exact hw m List.mem_cons_self (fst_mem_writes hp)

/-- Nodes that read nothing that one of them writes all work on the first environment. -/
theorem run_map {ι : Type*} {l : List ι} {node : ι → Node α κ} {f : ι → List (α × V)}
    {e : α → Option V} (hreads : ∀ i ∈ l, ∀ j ∈ l, ∀ x ∈ (node i).reads, x ∉ (node j).writes)
    (hop : ∀ i ∈ l, ∃ args results, (node i).reads.mapM e = some args ∧
      op (node i).kind args = some results ∧ (node i).results results = f i) :
    run op e (l.map node) = some (assign e (l.flatMap f)) := by
  induction l generalizing e with
  | nil => rfl
  | cons i l ih =>
    obtain ⟨args, results, hargs, hresults, hf⟩ := hop i List.mem_cons_self
    rw [List.map_cons, run_cons_of_eq_some hargs hresults, List.flatMap_cons, assign_append, hf]
    apply ih
    · intro j hj k hk
      exact hreads j (List.mem_cons_of_mem i hj) k (List.mem_cons_of_mem i hk)
    · intro j hj
      obtain ⟨args, results', hargs, hresults', hfj⟩ := hop j (List.mem_cons_of_mem i hj)
      refine ⟨args, results', ?_, hresults', hfj⟩
      rw [← hargs, ← List.map_id (node j).reads, mapM_rename, List.map_id]
      intro x hx
      apply assign_of_not_mem
      rw [← hf]
      rintro p hp rfl
      exact hreads j (List.mem_cons_of_mem i hj) i List.mem_cons_self _ hx (fst_mem_writes hp)

/-- Nodes in order that cannot fail give everything that they provide a value. -/
theorem run_isSome {scope : List α} {e : α → Option V} {ns : List (Node α κ)}
    (hop : ∀ kind args, (op kind args).isSome) (hns : Ordered scope ns)
    (he : ∀ x ∈ scope, (e x).isSome) :
    ∃ e', run op e ns = some e' ∧ ∀ x ∈ provided scope ns, (e' x).isSome := by
  induction ns generalizing scope e with
  | nil => exact ⟨e, rfl, by simpa [provided] using he⟩
  | cons n ns ih =>
    obtain ⟨hreads, hns⟩ := hns
    obtain ⟨args, hargs⟩ := Option.isSome_iff_exists.mp
      (mapM_isSome.mpr fun x hx => he x (hreads x hx))
    obtain ⟨results, hresults⟩ := Option.isSome_iff_exists.mp (hop n.kind args)
    rw [run_cons_of_eq_some hargs hresults, provided_cons]
    apply ih hns
    intro x hx
    apply assign_isSome
    rw [map_fst_results]
    exact (List.mem_append.mp hx).imp_left (he x)

/-! ## Two runs -/

def Node.rename (ρ : α → α) (n : Node α κ) : Node α κ := { n with reads := n.reads.map ρ }

/-- Reading through `ρ`, `e'` is as good as `e` for the names in `S`. -/
def Agree (S : Set α) (ρ : α → α) (e e' : α → Option V) : Prop := ∀ x ∈ S, e' (ρ x) = e x

theorem Agree.assign {S : Set α} {ρ : α → α} {e e' : α → Option V} {l : List (α × V)}
    (h : Agree S ρ e e') (hl : ∀ p ∈ l, ∀ x ∈ S, x = p.1 ↔ ρ x = p.1) :
    Agree S ρ (assign e l) (assign e' l) := by
  intro x hx
  apply (assign_congr (h x hx).symm _).symm
  intro p hp
  exact hl p hp x hx

/-- Renamed nodes do as the nodes do, when `ρ` moves no name onto or off a name that is written. -/
theorem run_rename {S : Set α} {ρ : α → α} {e e' : α → Option V} {ns : List (Node α κ)}
    (h : Agree S ρ e e') (hreads : ∀ n ∈ ns, ∀ x ∈ n.reads, x ∈ S)
    (hwrites : ∀ n ∈ ns, ∀ y ∈ n.writes, ∀ x ∈ S, x = y ↔ ρ x = y) :
    Option.Rel (Agree S ρ) (run op e ns) (run op e' (ns.map (Node.rename ρ))) := by
  induction ns generalizing e e' with
  | nil => exact .some h
  | cons n ns ih =>
    have hargs : (n.rename ρ).reads.mapM e' = n.reads.mapM e :=
      mapM_rename fun x hx => h x (hreads n List.mem_cons_self x hx)
    rw [List.map_cons, run, run, hargs]
    cases n.reads.mapM e with
    | none => exact .none
    | some args =>
      change Option.Rel _ ((op n.kind args).bind _) ((op n.kind args).bind _)
      cases op n.kind args with
      | none => exact .none
      | some results =>
        apply ih _ (fun m hm => hreads m (List.mem_cons_of_mem n hm))
          fun m hm => hwrites m (List.mem_cons_of_mem n hm)
        apply h.assign
        intro p hp
        exact hwrites n List.mem_cons_self p.1 (fst_mem_writes hp)

theorem eval_rename {S : Set α} {ρ : α → α} {e e' : α → Option V} {ns : List (Node α κ)}
    {outs : List α} (h : Agree S ρ e e') (hreads : ∀ n ∈ ns, ∀ x ∈ n.reads, x ∈ S)
    (hwrites : ∀ n ∈ ns, ∀ y ∈ n.writes, ∀ x ∈ S, x = y ↔ ρ x = y) (houts : ∀ x ∈ outs, x ∈ S) :
    eval op e' (ns.map (Node.rename ρ)) (outs.map ρ) = eval op e ns outs := by
  have hrun : Option.Rel (Agree S ρ) (run op e ns) (run op e' (ns.map (Node.rename ρ))) :=
    run_rename h hreads hwrites
  unfold eval
  generalize run op e ns = end_e at hrun ⊢
  generalize run op e' (ns.map (Node.rename ρ)) = end_e' at hrun ⊢
  cases hrun with
  | none => rfl
  | some hagree => exact mapM_rename fun x hx => hagree x (houts x hx)

end Env

end Gigastt.Dataflow
