import Gigastt.RateLimit.Bound
import Mathlib.Tactic.Ring

/-!
# Admissions in a time window

The bound of a token bucket, with the background passes running. A pass breaks it where it
drops a bucket that is not full.
-/

namespace Gigastt.RateLimit

inductive Action where
  | check (ip : IpAddr)
  | evict_pass
deriving DecidableEq

/-- The decision, and the limiter after it. -/
def RateLimiter.act (limiter : RateLimiter ℚ) (clock : Clock) : Action → Bool × RateLimiter ℚ
  | .check ip => limiter.check clock ip
  | .evict_pass => (false, limiter.evict_pass clock)

/-- The requests of `ip` that a run admits from `t₁` to `t₂`. -/
def admitted (epoch : Int) (ip : IpAddr) (t₁ t₂ : Nat) :
    RateLimiter ℚ → List (Nat × Action) → Nat
  | _, [] => 0
  | limiter, (t, action) :: rest =>
    let (allowed, after) := limiter.act (clock epoch t) action
    (if (t₁ ≤ t ∧ t ≤ t₂) ∧ action = .check ip ∧ allowed then 1 else 0) +
      admitted epoch ip t₁ t₂ after rest

/-! ## The limiter as a meter -/

/-- What the address `ip` has at the limiter. -/
def meter (epoch : Int) (rate : ℚ) (ip : IpAddr) : Meter (RateLimiter ℚ) Action Nat ℚ where
  step t limiter action := (limiter.act (clock epoch t) action).2
  grants t limiter action :=
    if action = .check ip ∧ (limiter.act (clock epoch t) action).1 then 1 else 0
  level t limiter := limiter.level ip t
  refill t₁ t₂ := (ms t₂ - ms t₁) * rate

theorem admitted_eq_granted (epoch : Int) (rate : ℚ) (ip : IpAddr) (t₁ t₂ : Nat)
    (limiter : RateLimiter ℚ) (run : List (Nat × Action)) :
    (admitted epoch ip t₁ t₂ limiter run : ℚ) =
      (meter epoch rate ip).granted t₁ t₂ limiter run := by
  induction run generalizing limiter with
  | nil => rfl
  | cons p run ih =>
    unfold admitted Meter.granted
    rw [← ih]
    push_cast
    congr 1
    by_cases hin : t₁ ≤ p.1 ∧ p.1 ≤ t₂
    · simp [meter, hin]
    · simp [hin]

variable {epoch : Int} {cap : Nat} {rate : ℚ} {t : Nat} {limiter : RateLimiter ℚ}

theorem RateLimiter.Sound.act_spec (h : limiter.Sound epoch cap rate t) (hrate : 0 ≤ rate)
    (hcap : cap ≤ 300000 * rate) (action : Action) (ip : IpAddr) :
    (limiter.act (clock epoch t) action).2.Sound epoch cap rate t ∧
      (meter epoch rate ip).grants t limiter action +
        (limiter.act (clock epoch t) action).2.level ip t = limiter.level ip t := by
  cases action with
  | check other =>
    obtain ⟨allowed, after, hcheck, hsound, -, hlevel, hothers⟩ := h.check_spec hrate other
    have hact : limiter.act (clock epoch t) (.check other) = (allowed, after) := hcheck
    simp only [meter, hact]
    refine ⟨hsound, ?_⟩
    by_cases hip : other = ip
    · subst hip
      rw [hlevel]
      simp
    · rw [hothers ip (Ne.symm hip)]
      simp [hip]
  | evict_pass =>
    refine ⟨h.evict_pass (clock epoch t), ?_⟩
    simp [meter, RateLimiter.act, h.evict_pass_level hrate hcap]

theorem meter_lawful (epoch : Int) (ip : IpAddr) (hrate : 0 ≤ rate)
    (hcap : cap ≤ 300000 * rate) :
    (meter epoch rate ip).Lawful (fun t limiter => limiter.Sound epoch cap rate t) (cap : ℚ) where
  level_nonneg h := h.level_nonneg hrate
  level_le h := h.level_le
  wait ht h := h.later ht
  level_wait ht h := h.level_wait hrate ht
  keep action h := (h.act_spec hrate hcap action ip).1
  grants_nonneg t limiter action := by
    unfold meter
    dsimp only
    split <;> norm_num
  pay action h := (h.act_spec hrate hcap action ip).2.le
  refill_nonneg ht := mul_nonneg (sub_nonneg.mpr (ms_mono ht)) hrate
  refill_add _ _ := by
    simp only [meter]
    ring

theorem RateLimiter.new_sound (rpm burst : Nat) (epoch : Int) (t : Nat) :
    (RateLimiter.new rpm burst : RateLimiter ℚ).Sound epoch (max burst 1)
      (((max 1 (min rpm MAX_RPM) : Nat) : ℚ) / 60000) t :=
  ⟨rfl, by simp [RateLimiter.new], fun _ _ h => nomatch h⟩

/-! ## A pass that gives away a burst -/

/-- Requests of one moment. -/
theorem admitted_replicate {epoch : Int} {ip : IpAddr} {t₁ t₂ : Nat} (ht₁ : t₁ ≤ t) (ht₂ : t ≤ t₂)
    (hrate : 0 ≤ rate) (rest : List (Nat × Action)) {n : Nat}
    (h : limiter.Sound epoch cap rate t) (hn : n ≤ limiter.level ip t) :
    ∃ after, after.Sound epoch cap rate t ∧ after.level ip t = limiter.level ip t - n ∧
      admitted epoch ip t₁ t₂ limiter (List.replicate n (t, .check ip) ++ rest) =
        n + admitted epoch ip t₁ t₂ after rest := by
  induction n generalizing limiter with
  | zero => exact ⟨limiter, h, by simp, by simp⟩
  | succ n ih =>
    push_cast at hn
    obtain ⟨allowed, after, hcheck, hsound, hallowed, hlevel, -⟩ := h.check_spec hrate ip
    obtain rfl : allowed = true := hallowed.mpr (by have := Nat.cast_nonneg (α := ℚ) n; linarith)
    rw [if_pos rfl] at hlevel
    obtain ⟨last, hlast, hlast_level, hadmitted⟩ := ih hsound (by rw [hlevel]; linarith)
    refine ⟨last, hlast, ?_, ?_⟩
    · rw [hlast_level, hlevel]
      push_cast
      ring
    · rw [List.replicate_succ, List.cons_append, admitted]
      simp only [RateLimiter.act, hcheck, hadmitted, ht₁, ht₂, and_self, if_true]
      ring

/-- A burst, a pass just over 300 s later and the burst again. -/
def bursts (ip : IpAddr) (n : Nat) : List (Nat × Action) :=
  List.replicate n (999999, .check ip) ++
    (300001000000, .evict_pass) :: List.replicate n (300001000000, .check ip)

theorem bursts_sorted (ip : IpAddr) (n : Nat) : (bursts ip n).Pairwise (·.1 ≤ ·.1) := by
  unfold bursts
  rw [List.pairwise_append, List.pairwise_cons]
  refine ⟨List.pairwise_replicate.mpr (.inr le_rfl),
    ⟨?_, List.pairwise_replicate.mpr (.inr le_rfl)⟩, ?_⟩
  · intro p hp
    rw [List.eq_of_mem_replicate hp]
  · intro p hp q hq
    rw [List.eq_of_mem_replicate hp]
    rcases List.mem_cons.mp hq with rfl | hq
    · norm_num
    · rw [List.eq_of_mem_replicate hq]
      norm_num

theorem admitted_bursts (rpm burst : Nat) (ip : IpAddr) :
    admitted 0 ip 999999 300001000000 (RateLimiter.new rpm burst) (bursts ip (max burst 1)) =
      max burst 1 + max burst 1 := by
  have hspan : 999999 ≤ 300001000000 := by norm_num
  have hrate : (0 : ℚ) ≤ ((max 1 (min rpm MAX_RPM) : Nat) : ℚ) / 60000 := by positivity
  have hnew := RateLimiter.new_sound rpm burst 0 999999
  have hfull : (RateLimiter.new rpm burst : RateLimiter ℚ).level ip 999999 = (max burst 1 : Nat) := rfl
  obtain ⟨drained, hdrained, -, hfirst⟩ := admitted_replicate le_rfl hspan hrate
    ((300001000000, .evict_pass) :: List.replicate (max burst 1) (300001000000, .check ip)) hnew
    hfull.ge
  -- Every bucket was last seen in the first millisecond.
  have hstale : ∀ last ≤ 999999,
      unix_ms (0 + (last : Nat)) < unix_ms (0 + (300001000000 : Nat)) - 300 * 1000 := by
    intro last hlast
    unfold unix_ms
    split
    · omega
    · split
      · omega
      · omega
  have hevicted := (hdrained.later hspan).evict_pass (clock 0 300001000000)
  have hagain := hdrained.evict_pass_full hstale ip
  obtain ⟨last, -, -, hsecond⟩ := admitted_replicate hspan le_rfl hrate [] hevicted hagain.ge
  rw [List.append_nil] at hsecond
  unfold bursts
  rw [hfirst, admitted]
  simp [RateLimiter.act, hsecond, admitted]

/-! ## The bound -/

/-- What `rpm` and `burst` promise of a window. -/
def rate_bound (rpm burst t₁ t₂ : Nat) : ℚ :=
  max burst 1 + (ms t₂ - ms t₁) * (min rpm MAX_RPM : Nat) / 60000

def visitor : IpAddr := .V4 (192, 0, 2, 1)

/-- 300 s refill the burst. -/
theorem burst_le_refill {rpm burst : Nat} (h : max burst 1 ≤ 5 * min rpm MAX_RPM) :
    ((max burst 1 : Nat) : ℚ) ≤ 300000 * ((min rpm MAX_RPM : Nat) / 60000) := by
  have hcast : ((max burst 1 : Nat) : ℚ) ≤ (5 * min rpm MAX_RPM : Nat) := Nat.cast_le.mpr h
  rw [Nat.cast_mul] at hcast
  push_cast at hcast ⊢
  linarith

/-- Where two bursts fit in the time between the `bursts`, 300 s refill one. -/
theorem refill_of_bursts {rpm burst : Nat}
    (h : ((max burst 1 + max burst 1 : Nat) : ℚ) ≤
      (max burst 1 : Nat) + (ms 300001000000 - ms 999999) * ((min rpm MAX_RPM : Nat) / 60000)) :
    max burst 1 ≤ 5 * min rpm MAX_RPM := by
  have hmax : ((min rpm MAX_RPM : Nat) : ℚ) ≤ (60000 : Nat) :=
    Nat.cast_le.mpr (min_le_right rpm MAX_RPM)
  by_contra hburst
  have hlt : ((5 * min rpm MAX_RPM + 1 : Nat) : ℚ) ≤ (max burst 1 : Nat) :=
    Nat.cast_le.mpr (by omega)
  unfold ms at h
  push_cast at hmax hlt h
  linarith

/-- A pass keeps the rate exactly when 300 s refill the burst. -/
theorem admitted_le_rate_bound_iff (rpm burst : Nat) (hrpm : 1 ≤ rpm) :
    (∀ (epoch : Int) (ip : IpAddr) (t₁ t₂ : Nat) (run : List (Nat × Action)), t₁ ≤ t₂ →
      run.Pairwise (·.1 ≤ ·.1) →
        (admitted epoch ip t₁ t₂ (RateLimiter.new rpm burst) run : ℚ) ≤
          rate_bound rpm burst t₁ t₂) ↔
      max burst 1 ≤ 5 * min rpm MAX_RPM := by
  have hrpm' : max 1 (min rpm MAX_RPM) = min rpm MAX_RPM :=
    max_eq_right (le_min hrpm (by decide))
  constructor
  · intro h
    have hbursts := h 0 visitor 999999 300001000000 (bursts visitor (max burst 1)) (by norm_num)
      (bursts_sorted visitor (max burst 1))
    rw [admitted_bursts, rate_bound, mul_div_assoc] at hbursts
    exact refill_of_bursts (by push_cast at hbursts ⊢; exact hbursts)
  · intro hburst epoch ip t₁ t₂ run ht hsorted
    have hnew := RateLimiter.new_sound rpm burst epoch 0
    rw [hrpm'] at hnew
    have hrate : (0 : ℚ) ≤ (min rpm MAX_RPM : Nat) / 60000 := by positivity
    have hgranted := (meter_lawful epoch ip hrate (burst_le_refill hburst)).granted_le (Nat.zero_le t₁) ht hnew hsorted
      (fun _ _ => Nat.zero_le _)
    rw [admitted_eq_granted]
    refine hgranted.trans_eq ?_
    unfold rate_bound meter
    dsimp only
    rw [mul_div_assoc]

/-! ## Two limiters with the default burst -/

/-- 20 requests of one address in 300 s, at one a minute and a burst of 10. -/
theorem burst_given_away :
    (bursts visitor 10).Pairwise (·.1 ≤ ·.1) ∧
      rate_bound 1 10 999999 300001000000 <
        admitted 0 visitor 999999 300001000000 (RateLimiter.new 1 10) (bursts visitor 10) := by
  refine ⟨bursts_sorted visitor 10, ?_⟩
  have hadmitted := admitted_bursts 1 10 visitor
  rw [max_eq_left (by decide : 1 ≤ 10)] at hadmitted
  rw [hadmitted]
  norm_num [rate_bound, ms, MAX_RPM]

theorem admitted_le_rate_bound_thirty :
    (admitted 0 visitor 0 300001000000 (RateLimiter.new 30 10) (bursts visitor 10) : ℚ) ≤
      rate_bound 30 10 0 300001000000 :=
  (admitted_le_rate_bound_iff 30 10 (by decide)).mpr (by decide) 0 visitor 0 300001000000
    (bursts visitor 10) (by decide) (bursts_sorted visitor 10)

end Gigastt.RateLimit
