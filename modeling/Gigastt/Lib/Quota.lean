import Mathlib.Algebra.Order.Group.Defs
import Mathlib.Algebra.Order.Monoid.Defs
import Mathlib.Order.Defs.LinearOrder

/-!
# Quotas over time windows

A timed system grants units and refills as time passes. What it grants in a window is
bounded by what it can hold and what the window refills.
-/

namespace Gigastt

variable {σ ε τ K : Type*} [LinearOrder τ]

/-- `level t s` is what the state `s` holds at time `t`. -/
structure Meter (σ ε τ K : Type*) where
  step : τ → σ → ε → σ
  grants : τ → σ → ε → K
  level : τ → σ → K
  refill : τ → τ → K

namespace Meter

variable [AddCommMonoid K]

/-- What is granted in the window by the events of a run. -/
def granted (m : Meter σ ε τ K) (t₁ t₂ : τ) : σ → List (τ × ε) → K
  | _, [] => 0
  | s, (t, e) :: rest =>
    (if t₁ ≤ t ∧ t ≤ t₂ then m.grants t s e else 0) + m.granted t₁ t₂ (m.step t s e) rest

theorem granted_of_late {m : Meter σ ε τ K} {t₁ t₂ : τ} {s : σ} {run : List (τ × ε)}
    (h : ∀ p ∈ run, t₂ < p.1) : m.granted t₁ t₂ s run = 0 := by
  induction run generalizing s with
  | nil => rfl
  | cons p run ih =>
    obtain ⟨hp, hrun⟩ := List.forall_mem_cons.mp h
    have hout : ¬ (t₁ ≤ p.1 ∧ p.1 ≤ t₂) := fun hin => absurd hin.2 (not_le_of_gt hp)
    rw [granted, if_neg hout, ih hrun, add_zero]

variable [PartialOrder K] [IsOrderedAddMonoid K]

/-- The rules of a meter that holds at most `cap`. -/
structure Lawful (m : Meter σ ε τ K) (I : τ → σ → Prop) (cap : K) : Prop where
  level_nonneg : ∀ {t s}, I t s → 0 ≤ m.level t s
  level_le : ∀ {t s}, I t s → m.level t s ≤ cap
  wait : ∀ {t t' s}, t ≤ t' → I t s → I t' s
  level_wait : ∀ {t t' s}, t ≤ t' → I t s → m.level t' s ≤ m.level t s + m.refill t t'
  keep : ∀ {t s} e, I t s → I t (m.step t s e)
  grants_nonneg : ∀ t s e, 0 ≤ m.grants t s e
  pay : ∀ {t s} e, I t s → m.grants t s e + m.level t (m.step t s e) ≤ m.level t s
  refill_nonneg : ∀ {t t'}, t ≤ t' → 0 ≤ m.refill t t'
  refill_add : ∀ {t t' t''}, t ≤ t' → t' ≤ t'' → m.refill t t' + m.refill t' t'' = m.refill t t''

namespace Lawful

variable {m : Meter σ ε τ K} {I : τ → σ → Prop} {cap : K}

/-- From inside the window on. -/
theorem granted_le_level (h : m.Lawful I cap) {t₁ t₂ t : τ} (ht : t ≤ t₂) {s : σ} (hs : I t s)
    {run : List (τ × ε)} (hsorted : run.Pairwise (·.1 ≤ ·.1)) (hlate : ∀ p ∈ run, t ≤ p.1) :
    m.granted t₁ t₂ s run ≤ m.level t s + m.refill t t₂ := by
  induction run generalizing t s with
  | nil => exact add_nonneg (h.level_nonneg hs) (h.refill_nonneg ht)
  | cons p run ih =>
    obtain ⟨hp, hrun⟩ := List.pairwise_cons.mp hsorted
    have htp := hlate p List.mem_cons_self
    by_cases hin : p.1 ≤ t₂
    · have hs' := h.wait htp hs
      have hrest := ih hin (h.keep p.2 hs') hrun hp
      calc m.granted t₁ t₂ s (p :: run)
          ≤ m.grants p.1 s p.2 + (m.level p.1 (m.step p.1 s p.2) + m.refill p.1 t₂) := by
            unfold granted
            split
            · exact add_le_add le_rfl hrest
            · exact add_le_add (h.grants_nonneg p.1 s p.2) hrest
        _ ≤ m.level p.1 s + m.refill p.1 t₂ := by
            rw [← add_assoc]
            exact add_le_add_left (h.pay p.2 hs') _
        _ ≤ m.level t s + m.refill t p.1 + m.refill p.1 t₂ :=
            add_le_add_left (h.level_wait htp hs) _
        _ = m.level t s + m.refill t t₂ := by rw [add_assoc, h.refill_add htp hin]
    · have hall : ∀ q ∈ p :: run, t₂ < q.1 := by
        intro q hq
        rcases List.mem_cons.mp hq with rfl | hq
        · exact lt_of_not_ge hin
        · exact lt_of_lt_of_le (lt_of_not_ge hin) (hp q hq)
      rw [granted_of_late hall]
      exact add_nonneg (h.level_nonneg hs) (h.refill_nonneg ht)

/-- In any window of a run. -/
theorem granted_le (h : m.Lawful I cap) {t₀ t₁ t₂ : τ} (h₀ : t₀ ≤ t₁) (h₁ : t₁ ≤ t₂) {s : σ}
    (hs : I t₀ s) {run : List (τ × ε)} (hsorted : run.Pairwise (·.1 ≤ ·.1))
    (hlate : ∀ p ∈ run, t₀ ≤ p.1) : m.granted t₁ t₂ s run ≤ cap + m.refill t₁ t₂ := by
  induction run generalizing t₀ s with
  | nil => exact add_nonneg ((h.level_nonneg hs).trans (h.level_le hs)) (h.refill_nonneg h₁)
  | cons p run ih =>
    by_cases hin : t₁ ≤ p.1
    · have hs₁ := h.wait h₀ hs
      have hlate₁ : ∀ q ∈ p :: run, t₁ ≤ q.1 := by
        intro q hq
        rcases List.mem_cons.mp hq with rfl | hq
        · exact hin
        · exact hin.trans ((List.pairwise_cons.mp hsorted).1 q hq)
      exact (h.granted_le_level h₁ hs₁ hsorted hlate₁).trans
        (add_le_add (h.level_le hs₁) le_rfl)
    · obtain ⟨hp, hrun⟩ := List.pairwise_cons.mp hsorted
      have hs' := h.keep p.2 (h.wait (hlate p List.mem_cons_self) hs)
      rw [granted, if_neg fun hin' => hin hin'.1, zero_add]
      exact ih (le_of_lt (lt_of_not_ge hin)) hs' hrun hp

end Lawful

end Meter

end Gigastt
