import Mathlib.Algebra.Order.Round
import Mathlib.Data.List.Induction
import Mathlib.Tactic.FieldSimp
import Mathlib.Tactic.Linarith
import Mathlib.Tactic.Ring

/-!
# Rounding to a grid

A value divided by a step, rounded half away from zero and multiplied by the step.
-/

namespace Gigastt.Rounding

variable {K : Type*} [Field K] [LinearOrder K]

/-! ## The largest absolute value -/

def amplitude (l : List K) : K := l.foldl (fun m v => max m |v|) 0

theorem amplitude_concat (l : List K) (v : K) : amplitude (l ++ [v]) = max (amplitude l) |v| := by
  rw [amplitude, List.foldl_append, List.foldl_cons, List.foldl_nil, amplitude]

theorem amplitude_nonneg (l : List K) : 0 ≤ amplitude l := by
  induction l using List.reverseRecOn with
  | nil => exact le_refl 0
  | append_singleton l v ih =>
    rw [amplitude_concat]
    exact le_max_of_le_left ih

theorem abs_le_amplitude {l : List K} {v : K} (h : v ∈ l) : |v| ≤ amplitude l := by
  induction l using List.reverseRecOn with
  | nil => simp at h
  | append_singleton l u ih =>
    rw [amplitude_concat]
    rcases List.mem_append.mp h with h | h
    · exact le_max_of_le_left (ih h)
    · obtain rfl := List.mem_singleton.mp h
      exact le_max_right _ _

theorem amplitude_le {l : List K} {m : K} (hm : 0 ≤ m) (h : ∀ v ∈ l, |v| ≤ m) :
    amplitude l ≤ m := by
  induction l using List.reverseRecOn with
  | nil => exact hm
  | append_singleton l u ih =>
    rw [amplitude_concat]
    apply max_le
    · exact ih fun v hv => h v (List.mem_append_left _ hv)
    · exact h u (by simp)

variable [IsStrictOrderedRing K]

theorem abs_div_le_of_le_mul {step v b : K} (hstep : 0 < step) (h : |v| ≤ b * step) :
    |v / step| ≤ b := by
  rwa [abs_div, abs_of_pos hstep, div_le_iff₀ hstep]

/-! ## Half away from zero -/

variable [FloorRing K]

/-- `round` alone takes a half up, also below zero. -/
def round_away (x : K) : ℤ := if 0 ≤ x then round x else -round (-x)

theorem abs_sub_round_away (x : K) : |x - round_away x| ≤ 1 / 2 := by
  unfold round_away
  split
  · exact abs_sub_round x
  · have h := abs_sub_round (-x)
    rw [← abs_neg] at h
    push_cast
    rwa [neg_sub, sub_neg_eq_add, add_comm, ← sub_neg_eq_add] at h

theorem round_away_zero : round_away (0 : K) = 0 := by
  rw [round_away, if_pos le_rfl, round_zero]

theorem abs_round_away_le {x : K} {n : ℤ} (h : |x| ≤ n) : |round_away x| ≤ n := by
  have hround := abs_sub_round_away x
  rw [abs_le] at h hround ⊢
  have hlow : ((-n - 1 : ℤ) : K) < round_away x := by
    push_cast
    linarith
  have hhigh : (round_away x : K) < ((n + 1 : ℤ) : K) := by
    push_cast
    linarith
  have := Int.cast_lt.mp hlow
  have := Int.cast_lt.mp hhigh
  omega

/-! ## Steps -/

/-- The nearest point of the grid is at most half a step away. -/
theorem abs_grid_sub_le {step : K} (hstep : 0 < step) (v : K) :
    |(round_away (v / step) : K) * step - v| ≤ step / 2 := by
  have heq : (round_away (v / step) : K) * step - v = -((v / step - round_away (v / step)) * step) := by
    field_simp
    ring
  rw [heq, abs_neg, abs_mul, abs_of_pos hstep]
  calc |v / step - round_away (v / step)| * step
      ≤ 1 / 2 * step := mul_le_mul_of_nonneg_right (abs_sub_round_away _) hstep.le
    _ = step / 2 := by ring

end Gigastt.Rounding
