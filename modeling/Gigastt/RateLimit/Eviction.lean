import Gigastt.RateLimit.Window

/-!
# When the eviction of stale buckets can be seen

The passes are there to bound the memory. A limiter with them answers as one without them
exactly when a bucket is full again before it is stale.
-/

namespace Gigastt.RateLimit

/-- The answers of a run: when, to whom and what. -/
def answers (epoch : Int) : RateLimiter ℚ → List (Nat × Action) → List (Nat × IpAddr × Bool)
  | _, [] => []
  | limiter, (t, .check ip) :: rest =>
    let (allowed, after) := limiter.check (clock epoch t) ip
    (t, ip, allowed) :: answers epoch after rest
  | limiter, (t, .evict_pass) :: rest => answers epoch (limiter.evict_pass (clock epoch t)) rest

/-- The run without the passes. -/
def without_passes (run : List (Nat × Action)) : List (Nat × Action) :=
  run.filter (·.2 ≠ .evict_pass)

@[simp]
theorem without_passes_check (t : Nat) (ip : IpAddr) (run : List (Nat × Action)) :
    without_passes ((t, .check ip) :: run) = (t, .check ip) :: without_passes run := by
  simp [without_passes]

@[simp]
theorem without_passes_pass (t : Nat) (run : List (Nat × Action)) :
    without_passes ((t, .evict_pass) :: run) = without_passes run := by
  simp [without_passes]

variable {epoch : Int} {cap : Nat} {rate : ℚ} {t t' : Nat} {limiter other : RateLimiter ℚ}

/-! ## Levels decide -/

theorem TokenBucket.Sound.level_later {bucket : TokenBucket ℚ} (h : bucket.Sound epoch cap rate t)
    (hrate : 0 ≤ rate) (ht : t ≤ t') :
    bucket.level t' = min (bucket.level t + (ms t' - ms t) * rate) cap := by
  have hwait : 0 ≤ (ms t' - ms t) * rate := mul_nonneg (sub_nonneg.mpr (ms_mono ht)) hrate
  have hcap : (cap : ℚ) ≤ cap + (ms t' - ms t) * rate := le_add_of_nonneg_right hwait
  rw [h.level_eq, (h.later ht).level_eq, ← min_add_add_right, min_assoc, min_eq_right hcap]
  congr 1
  ring

theorem RateLimiter.Sound.level_later (h : limiter.Sound epoch cap rate t) (hrate : 0 ≤ rate)
    (ht : t ≤ t') (ip : IpAddr) :
    limiter.level ip t' = min (limiter.level ip t + (ms t' - ms t) * rate) cap := by
  unfold RateLimiter.level
  cases hbucket : limiter.buckets ip with
  | none =>
    have hwait : 0 ≤ (ms t' - ms t) * rate := mul_nonneg (sub_nonneg.mpr (ms_mono ht)) hrate
    rw [Option.map_none, Option.getD_none, h.capacity]
    exact (min_eq_right (le_add_of_nonneg_right hwait)).symm
  | some bucket => exact (h.buckets ip bucket hbucket).level_later hrate ht

/-- The two limiters have the same for every address. -/
def SameLevels (t : Nat) (limiter other : RateLimiter ℚ) : Prop :=
  ∀ ip, limiter.level ip t = other.level ip t

theorem SameLevels.later (h : SameLevels t limiter other) (hs : limiter.Sound epoch cap rate t)
    (hs' : other.Sound epoch cap rate t) (hrate : 0 ≤ rate) (ht : t ≤ t') :
    SameLevels t' limiter other := by
  intro ip
  rw [hs.level_later hrate ht, hs'.level_later hrate ht, h ip]

/-- A request is answered alike, and leaves the two alike. -/
theorem SameLevels.check (h : SameLevels t limiter other) (hs : limiter.Sound epoch cap rate t)
    (hs' : other.Sound epoch cap rate t) (hrate : 0 ≤ rate) (ip : IpAddr) :
    ∃ allowed after after', limiter.check (clock epoch t) ip = (allowed, after) ∧
      other.check (clock epoch t) ip = (allowed, after') ∧ after.Sound epoch cap rate t ∧
      after'.Sound epoch cap rate t ∧ SameLevels t after after' := by
  obtain ⟨allowed, after, hcheck, hsound, hallowed, hlevel, hothers⟩ := hs.check_spec hrate ip
  obtain ⟨allowed', after', hcheck', hsound', hallowed', hlevel', hothers'⟩ :=
    hs'.check_spec hrate ip
  rw [← h ip] at hallowed' hlevel'
  obtain rfl : allowed' = allowed := Bool.eq_iff_iff.mpr (hallowed'.trans hallowed.symm)
  refine ⟨allowed', after, after', hcheck, hcheck', hsound, hsound', fun ip' => ?_⟩
  by_cases hip : ip' = ip
  · rw [hip, hlevel, hlevel']
  · rw [hothers ip' hip, hothers' ip' hip, h ip']

/-- The simulation: what a pass drops was full. -/
theorem answers_sameLevels (hrate : 0 ≤ rate) (hcap : cap ≤ 300000 * rate)
    {run : List (Nat × Action)} (hrun : run.Pairwise (·.1 ≤ ·.1)) (hfrom : ∀ e ∈ run, t ≤ e.1)
    (hs : limiter.Sound epoch cap rate t) (hs' : other.Sound epoch cap rate t)
    (h : SameLevels t limiter other) :
    answers epoch limiter run = answers epoch other (without_passes run) := by
  induction run generalizing t limiter other with
  | nil => rfl
  | cons e run ih =>
    obtain ⟨now, action⟩ := e
    obtain ⟨hlater, hrest⟩ := List.pairwise_cons.mp hrun
    have ht : t ≤ now := hfrom _ List.mem_cons_self
    have hnow := h.later hs hs' hrate ht
    cases action with
    | check ip =>
      obtain ⟨allowed, after, after', hcheck, hcheck', hsound, hsound', halike⟩ :=
        hnow.check (hs.later ht) (hs'.later ht) hrate ip
      rw [without_passes_check, answers, answers, hcheck, hcheck']
      exact congrArg _ (ih hrest hlater hsound hsound' halike)
    | evict_pass =>
      rw [without_passes_pass, answers]
      refine ih hrest hlater ((hs.later ht).evict_pass _) (hs'.later ht) fun ip => ?_
      rw [(hs.later ht).evict_pass_level hrate hcap ip, hnow ip]

/-! ## A pass that is seen -/

/-- What a run admits is in its answers. -/
theorem admitted_eq_of_answers {run run' : List (Nat × Action)} (ip : IpAddr) (t₁ t₂ : Nat)
    (h : answers epoch limiter run = answers epoch other run') :
    admitted epoch ip t₁ t₂ limiter run = admitted epoch ip t₁ t₂ other run' := by
  have hcount : ∀ (limiter : RateLimiter ℚ) (run : List (Nat × Action)),
      admitted epoch ip t₁ t₂ limiter run = (answers epoch limiter run).countP
        fun a => (t₁ ≤ a.1 ∧ a.1 ≤ t₂) ∧ a.2.1 = ip ∧ a.2.2 := by
    intro limiter run
    induction run generalizing limiter with
    | nil => rfl
    | cons e run ih =>
      obtain ⟨now, action⟩ := e
      cases action with
      | check ip' =>
        rw [admitted, answers, List.countP_cons, RateLimiter.act]
        dsimp only
        rw [ih, Nat.add_comm]
        congr 1
        simp
      | evict_pass =>
        rw [admitted, answers, RateLimiter.act]
        dsimp only
        rw [ih]
        simp
  rw [hcount, hcount, h]

/-- Without passes, an address is admitted what it has and what the time adds. -/
theorem admitted_le_of_checks (hrate : 0 ≤ rate) (ip : IpAddr) (t₁ : Nat) {t₂ : Nat}
    {run : List (Nat × Action)} (hrun : run.Pairwise (·.1 ≤ ·.1))
    (hspan : ∀ e ∈ run, t ≤ e.1 ∧ e.1 ≤ t₂) (ht : t ≤ t₂) (hs : limiter.Sound epoch cap rate t) :
    (admitted epoch ip t₁ t₂ limiter (without_passes run) : ℚ) ≤
      limiter.level ip t + (ms t₂ - ms t) * rate := by
  induction run generalizing t limiter with
  | nil =>
    have hwait : 0 ≤ (ms t₂ - ms t) * rate := mul_nonneg (sub_nonneg.mpr (ms_mono ht)) hrate
    simpa [without_passes, admitted] using add_nonneg (hs.level_nonneg hrate) hwait
  | cons e run ih =>
    obtain ⟨now, action⟩ := e
    obtain ⟨hlater, hrest⟩ := List.pairwise_cons.mp hrun
    obtain ⟨⟨hfrom, hto⟩, hothers⟩ := List.forall_mem_cons.mp hspan
    cases action with
    | check ip' =>
      obtain ⟨allowed, after, hcheck, hsound, -, hlevel, hkept⟩ :=
        (hs.later hfrom).check_spec hrate ip'
      have hih := ih hrest (fun e he => ⟨hlater e he, (hothers e he).2⟩) hto hsound
      have hwait : limiter.level ip now ≤ limiter.level ip t + (ms now - ms t) * rate :=
        hs.level_wait hrate hfrom
      rw [without_passes_check, admitted, RateLimiter.act, hcheck]
      push_cast
      by_cases hip : ip' = ip
      · subst hip
        rw [hlevel] at hih
        cases allowed
        · simp only [Bool.false_eq_true, and_false, if_false] at hih ⊢
          linarith
        · have hone : (if (t₁ ≤ now ∧ now ≤ t₂) ∧ Action.check ip' = .check ip' ∧ true = true
              then (1 : ℚ) else 0) ≤ 1 := by
            split_ifs
            · exact le_rfl
            · exact zero_le_one
          rw [if_pos rfl] at hih
          linarith
      · rw [hkept ip (Ne.symm hip)] at hih
        simp [hip]
        linarith
    | evict_pass =>
      rw [without_passes_pass]
      exact ih hrest hothers ht hs

/-- The passes cannot be seen in any answer exactly when 300 s refill the burst. -/
theorem eviction_unseen_iff (rpm burst : Nat) (hrpm : 1 ≤ rpm) :
    (∀ (epoch : Int) (run : List (Nat × Action)), run.Pairwise (·.1 ≤ ·.1) →
      answers epoch (RateLimiter.new rpm burst) run =
        answers epoch (RateLimiter.new rpm burst) (without_passes run)) ↔
      max burst 1 ≤ 5 * min rpm MAX_RPM := by
  have hrpm' : max 1 (min rpm MAX_RPM) = min rpm MAX_RPM :=
    max_eq_right (le_min hrpm (by decide))
  have hnew := fun epoch t => RateLimiter.new_sound rpm burst epoch t
  rw [hrpm'] at hnew
  have hrate : (0 : ℚ) ≤ (min rpm MAX_RPM : Nat) / 60000 := by positivity
  constructor
  · intro h
    have hsame := admitted_eq_of_answers visitor 999999 300001000000
      (h 0 (bursts visitor (max burst 1)) (bursts_sorted visitor (max burst 1)))
    rw [admitted_bursts] at hsame
    have hspan : ∀ e ∈ bursts visitor (max burst 1), 999999 ≤ e.1 ∧ e.1 ≤ 300001000000 := by
      intro e he
      rcases List.mem_append.mp he with he | he
      · rw [List.eq_of_mem_replicate he]
        norm_num
      · rcases List.mem_cons.mp he with rfl | he
        · norm_num
        · rw [List.eq_of_mem_replicate he]
          norm_num
    have hbound := admitted_le_of_checks hrate visitor 999999
      (bursts_sorted visitor (max burst 1)) hspan (by norm_num) (hnew 0 999999)
    rw [← hsame] at hbound
    have hfull : (RateLimiter.new rpm burst : RateLimiter ℚ).level visitor 999999 = (max burst 1 : Nat) :=
      rfl
    rw [hfull] at hbound
    exact refill_of_bursts hbound
  · intro hburst epoch run hrun
    exact answers_sameLevels hrate (burst_le_refill hburst) hrun (fun _ _ => Nat.zero_le _) (hnew epoch 0) (hnew epoch 0)
      fun _ => rfl

/-- At 30 a minute and a burst of 10, a pass after 300 s changes no answer. -/
theorem eviction_unseen_thirty :
    answers 0 (RateLimiter.new 30 10) (bursts visitor 10) =
      answers 0 (RateLimiter.new 30 10) (without_passes (bursts visitor 10)) :=
  (eviction_unseen_iff 30 10 (by decide)).mpr (by decide) 0 _ (bursts_sorted visitor 10)

end Gigastt.RateLimit
