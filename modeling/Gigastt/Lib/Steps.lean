import Mathlib.Algebra.BigOperators.Group.List.Basic
import Mathlib.Tactic.Abel

/-!
# Runs of a step system

A system is a partial step function: `step s a` is the state after action `a`, or
`none` when `a` cannot be taken in `s`. A run is a list of actions.
-/

namespace Gigastt.Steps

variable {σ α : Type*}

def run (step : σ → α → Option σ) : σ → List α → Option σ
  | s, [] => some s
  | s, a :: as => (step s a).bind fun s' => run step s' as

/-- Each action of the run meets `P` in the state it is taken in. -/
def EachStep (step : σ → α → Option σ) (P : σ → α → Prop) : σ → List α → Prop
  | _, [] => True
  | s, a :: as => P s a ∧ ∀ s', step s a = some s' → EachStep step P s' as

/-- Each state of the run has `Q`, the first and the last one included. -/
def Throughout (step : σ → α → Option σ) (Q : σ → Prop) : σ → List α → Prop
  | s, [] => Q s
  | s, a :: as => Q s ∧ ∀ s', step s a = some s' → Throughout step Q s' as

variable {step : σ → α → Option σ} {P : σ → α → Prop}

theorem run_cons_eq_some {s t : σ} {a : α} {as : List α} :
    run step s (a :: as) = some t ↔ ∃ s', step s a = some s' ∧ run step s' as = some t := by
  simp [run, Option.bind_eq_some_iff]

theorem eachStep_cons {s s' : σ} {a : α} {as : List α} (h : step s a = some s') :
    EachStep step P s (a :: as) ↔ P s a ∧ EachStep step P s' as := by
  simp [EachStep, h]

instance EachStep.decidable [∀ s a, Decidable (P s a)] :
    ∀ (s : σ) (as : List α), Decidable (EachStep step P s as)
  | _, [] => .isTrue trivial
  | s, a :: as =>
    match h : step s a with
    | none => decidable_of_iff (P s a) (by simp [EachStep, h])
    | some s' =>
      have := EachStep.decidable s' as
      decidable_of_iff (P s a ∧ EachStep step P s' as) (by simp [EachStep, h])

/-! ## Invariants -/

/-- What every step that meets `P` keeps, a run of such steps keeps. -/
theorem inv_of_eachStep (I : σ → Prop)
    (keep : ∀ s a s', P s a → step s a = some s' → I s → I s')
    {s t : σ} {as : List α} (hrun : run step s as = some t) (hP : EachStep step P s as)
    (h0 : I s) : I t := by
  induction as generalizing s with
  | nil => cases hrun; exact h0
  | cons a as ih =>
    obtain ⟨s', hs, hrest⟩ := run_cons_eq_some.mp hrun
    obtain ⟨ha, hP'⟩ := (eachStep_cons hs).mp hP
    exact ih hrest hP' (keep s a s' ha hs h0)

theorem eachStep_of_forall (h : ∀ s a, P s a) (s : σ) (as : List α) : EachStep step P s as := by
  induction as generalizing s with
  | nil => trivial
  | cons a as ih => exact ⟨h s a, fun s' _ => ih s'⟩

theorem EachStep.and {P' : σ → α → Prop} {s : σ} {as : List α} (h : EachStep step P s as)
    (h' : EachStep step P' s as) : EachStep step (fun s a => P s a ∧ P' s a) s as := by
  induction as generalizing s with
  | nil => trivial
  | cons a as ih => exact ⟨⟨h.1, h'.1⟩, fun s' hs => ih (h.2 s' hs) (h'.2 s' hs)⟩

/-- What an invariant says of the next step holds of each step of a run. -/
theorem eachStep_of_inv (I : σ → Prop) (keep : ∀ s a s', step s a = some s' → I s → I s')
    (h : ∀ s a, I s → P s a) {s : σ} (h0 : I s) (as : List α) : EachStep step P s as := by
  induction as generalizing s with
  | nil => trivial
  | cons a as ih => exact ⟨h s a h0, fun s' hs => ih (keep s a s' hs h0)⟩

theorem inv_of_run (I : σ → Prop) (keep : ∀ s a s', step s a = some s' → I s → I s')
    {s t : σ} {as : List α} (hrun : run step s as = some t) (h0 : I s) : I t :=
  inv_of_eachStep (P := fun _ _ => True) I (fun s a s' _ => keep s a s') hrun
    (eachStep_of_forall (fun _ _ => trivial) s as) h0

theorem eachStep_of_mem {p : α → Prop} {as : List α} (h : ∀ a ∈ as, p a) (s : σ) :
    EachStep step (fun _ a => p a) s as := by
  induction as generalizing s with
  | nil => trivial
  | cons a as ih =>
    exact ⟨h a List.mem_cons_self, fun s' _ => ih (fun b hb => h b (List.mem_cons_of_mem a hb)) s'⟩

/-- A mark that exactly the actions with `p` leave shows whether the run had one. -/
theorem mark_of_run (Q : σ → Prop) (p : α → Prop)
    (keep : ∀ s a s', step s a = some s' → (Q s' ↔ Q s ∨ p a))
    {s t : σ} {as : List α} (hrun : run step s as = some t) : Q t ↔ Q s ∨ ∃ a ∈ as, p a := by
  induction as generalizing s with
  | nil => cases hrun; simp
  | cons a as ih =>
    obtain ⟨s', hs, hrest⟩ := run_cons_eq_some.mp hrun
    rw [ih hrest, keep s a s' hs]
    simp only [List.mem_cons, exists_eq_or_imp, or_assoc]

/-! ## Properties a run can lose -/

theorem throughout_cons {Q : σ → Prop} {s s' : σ} {a : α} {as : List α} (h : step s a = some s') :
    Throughout step Q s (a :: as) ↔ Q s ∧ Throughout step Q s' as := by
  simp [Throughout, h]

theorem Throughout.head {Q : σ → Prop} {s : σ} {as : List α} (h : Throughout step Q s as) : Q s := by
  cases as with
  | nil => exact h
  | cons a as => exact h.1

theorem Throughout.imp {Q Q' : σ → Prop} {R : σ → α → Prop} (I : σ → Prop)
    (keep : ∀ s a s', R s a → step s a = some s' → I s → I s') (h : ∀ s, I s → Q s → Q' s)
    {s : σ} {as : List α} (hQ : Throughout step Q s as) (hR : EachStep step R s as) (h0 : I s) :
    Throughout step Q' s as := by
  induction as generalizing s with
  | nil => exact h s h0 hQ
  | cons a as ih =>
    exact ⟨h s h0 hQ.1, fun s' hs => ih (hQ.2 s' hs) (hR.2 s' hs) (keep s a s' hR.1 hs h0)⟩

/-- What every step that meets `P` keeps holds in each state of a run of such steps. -/
theorem throughout_of_eachStep {Q : σ → Prop} (I : σ → Prop)
    (keep : ∀ s a s', P s a → step s a = some s' → I s → I s') (h : ∀ s, I s → Q s)
    {s : σ} {as : List α} (hP : EachStep step P s as) (h0 : I s) : Throughout step Q s as := by
  induction as generalizing s with
  | nil => exact h s h0
  | cons a as ih => exact ⟨h s h0, fun s' hs => ih (hP.2 s' hs) (keep s a s' hP.1 hs h0)⟩

/-- When exactly the steps with `P` keep `Q`, a run has `Q` all along iff each of its steps
has `P`. -/
theorem throughout_iff_eachStep {Q : σ → Prop} {R : σ → α → Prop} (I : σ → Prop)
    (keep : ∀ s a s', R s a → step s a = some s' → I s → I s')
    (hstep : ∀ s a s', R s a → step s a = some s' → I s → Q s → (Q s' ↔ P s a))
    {s t : σ} {as : List α} (hrun : run step s as = some t) (hR : EachStep step R s as)
    (h0 : I s) (hQ : Q s) : Throughout step Q s as ↔ EachStep step P s as := by
  induction as generalizing s with
  | nil => simp [Throughout, EachStep, hQ]
  | cons a as ih =>
    obtain ⟨s', hs, hrest⟩ := run_cons_eq_some.mp hrun
    obtain ⟨ha, hR'⟩ := (eachStep_cons hs).mp hR
    rw [throughout_cons hs, eachStep_cons hs]
    have hiff := hstep s a s' ha hs h0 hQ
    constructor
    · rintro ⟨-, hall⟩
      exact ⟨hiff.mp hall.head, (ih hrest hR' (keep s a s' ha hs h0) hall.head).mp hall⟩
    · rintro ⟨hP, hall⟩
      have hQ' := hiff.mpr hP
      exact ⟨hQ, (ih hrest hR' (keep s a s' ha hs h0) hQ').mpr hall⟩

/-! ## Properties a run must reach -/

/-- Every run of fine steps from the state gets to `Q`, and none is stuck before. -/
inductive Inevitable (step : σ → α → Option σ) (fine : σ → α → Prop) (Q : σ → Prop) : σ → Prop
  | now {s} (h : Q s) : Inevitable step fine Q s
  | later {s} (can : ∃ a s', fine s a ∧ step s a = some s')
      (all : ∀ a s', fine s a → step s a = some s' → Inevitable step fine Q s') :
      Inevitable step fine Q s

/-- Fine steps that lower a well-founded measure until `Q` holds get there. -/
theorem inevitable_of_measure {μ : Type*} (lt : μ → μ → Prop) (wf : WellFounded lt) (m : σ → μ)
    {fine : σ → α → Prop} {Q : σ → Prop} (I : σ → Prop)
    (can : ∀ s, I s → Q s ∨ ∃ a s', fine s a ∧ step s a = some s')
    (keep : ∀ s a s', fine s a → step s a = some s' → I s → Q s ∨ (I s' ∧ lt (m s') (m s)))
    {s : σ} (h0 : I s) : Inevitable step fine Q s := by
  induction hm : m s using wf.induction generalizing s with
  | _ n ih =>
    subst hm
    by_cases hQ : Q s
    · exact .now hQ
    · refine .later ((can s h0).resolve_left hQ) fun a s' ha hs => ?_
      obtain ⟨hI, hlt⟩ := (keep s a s' ha hs h0).resolve_left hQ
      exact ih (m s') hlt hI rfl

/-! ## What a run leaves behind -/

/-- The events of the run's steps, in order. -/
def trace {ε : Type*} (step : σ → α → Option σ) (events : σ → α → List ε) : σ → List α → List ε
  | _, [] => []
  | s, a :: as => events s a ++ (step s a).elim [] fun s' => trace step events s' as

theorem run_append {s t : σ} {as bs : List α} :
    run step s (as ++ bs) = some t ↔ ∃ s', run step s as = some s' ∧ run step s' bs = some t := by
  induction as generalizing s with
  | nil => simp [run]
  | cons a as ih =>
    simp only [List.cons_append, run_cons_eq_some, ih]
    constructor
    · rintro ⟨s₁, hs₁, s₂, hs₂, ht⟩
      exact ⟨s₂, ⟨s₁, hs₁, hs₂⟩, ht⟩
    · rintro ⟨s₂, ⟨s₁, hs₁, hs₂⟩, ht⟩
      exact ⟨s₁, hs₁, s₂, hs₂, ht⟩

/-- A run with a step has a last one. -/
theorem run_last {s t : σ} {as : List α} (h : run step s as = some t) :
    (as = [] ∧ s = t) ∨ ∃ before a s', as = before ++ [a] ∧ run step s before = some s' ∧
      step s' a = some t := by
  rcases List.eq_nil_or_concat as with rfl | ⟨before, a, rfl⟩
  · exact .inl ⟨rfl, Option.some.inj h⟩
  · rw [List.concat_eq_append, run_append] at h
    obtain ⟨s', hs', h⟩ := h
    obtain ⟨t', ht, h⟩ := run_cons_eq_some.mp h
    cases h
    exact .inr ⟨before, a, s', List.concat_eq_append, hs', ht⟩

theorem trace_cons {ε : Type*} {events : σ → α → List ε} {s s' : σ} {a : α} {as : List α}
    (h : step s a = some s') :
    trace step events s (a :: as) = events s a ++ trace step events s' as := by
  simp [trace, h]

/-- An invariant over the state and the events so far. -/
theorem inv_of_trace {ε : Type*} {events : σ → α → List ε} (I : List ε → σ → Prop)
    (keep : ∀ past s a s', P s a → step s a = some s' → I past s → I (past ++ events s a) s')
    {s t : σ} {as : List α} (hrun : run step s as = some t) (hP : EachStep step P s as)
    {past : List ε} (h0 : I past s) : I (past ++ trace step events s as) t := by
  induction as generalizing s past with
  | nil =>
    cases hrun
    rw [trace, List.append_nil]
    exact h0
  | cons a as ih =>
    obtain ⟨s', hs, hrest⟩ := run_cons_eq_some.mp hrun
    obtain ⟨ha, hP'⟩ := (eachStep_cons hs).mp hP
    rw [trace_cons hs, ← List.append_assoc]
    exact ih hrest hP' (keep past s a s' ha hs h0)

/-- Some `y` among the events has an `x` before it. -/
def Before {ε : Type*} (x y : ε) (events : List ε) : Prop :=
  ∃ before after, events = before ++ y :: after ∧ x ∈ before

theorem before_append_singleton {ε : Type*} {x y e : ε} {events : List ε} :
    Before x y (events ++ [e]) ↔ Before x y events ∨ (e = y ∧ x ∈ events) := by
  constructor
  · rintro ⟨before, after, h, hx⟩
    rcases List.eq_nil_or_concat after with rfl | ⟨after, z, rfl⟩
    · obtain ⟨rfl, hy⟩ := List.append_inj' h rfl
      exact .inr ⟨List.singleton_inj.mp hy, hx⟩
    · rw [List.concat_eq_append, ← List.cons_append, ← List.append_assoc] at h
      exact .inl ⟨before, after, (List.append_inj' h rfl).1, hx⟩
  · rintro (⟨before, after, rfl, hx⟩ | ⟨rfl, hx⟩)
    · exact ⟨before, after ++ [e], by simp, hx⟩
    · exact ⟨events, [], rfl, hx⟩

/-- A reading that each step moves on by its action is a fold over the actions of a run. -/
theorem read_of_run {ρ : Type*} {step : σ → α → Option σ} (read : σ → ρ) (tick : ρ → α → ρ)
    (h : ∀ s a s', step s a = some s' → read s' = tick (read s) a) {s t : σ} {as : List α}
    (hrun : run step s as = some t) : read t = as.foldl tick (read s) := by
  induction as generalizing s with
  | nil => cases hrun; rfl
  | cons a as ih =>
    obtain ⟨s', hs, hrest⟩ := run_cons_eq_some.mp hrun
    rw [ih hrest, h s a s' hs, List.foldl_cons]

/-! ## Sums over the parts of a state -/

/-- Replacing entry `i` swaps its share of the sum. -/
@[simp]
theorem sum_map_set {β M : Type*} [AddCommMonoid M] (f : β → M) {l : List β} {i : Nat} {a : β}
    (b : β) (h : l[i]? = some a) : ((l.set i b).map f).sum + f a = (l.map f).sum + f b := by
  induction l generalizing i with
  | nil => simp at h
  | cons x xs ih =>
    cases i with
    | zero =>
      obtain rfl : x = a := by simpa using h
      simp only [List.set_cons_zero, List.map_cons, List.sum_cons]
      abel
    | succ i =>
      simp only [List.set_cons_succ, List.map_cons, List.sum_cons]
      rw [add_assoc, ih (by simpa using h), add_assoc]

end Gigastt.Steps
