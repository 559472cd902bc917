import Gigastt.RateLimit.Code
import Gigastt.Lib.Quota
import Mathlib.Algebra.Order.Field.Rat
import Mathlib.Data.Rat.Cast.Order
import Mathlib.Tactic.Linarith
import Mathlib.Tactic.Positivity
import Mathlib.Tactic.FieldSimp

/-!
# What an address has at the limiter

In exact arithmetic, with both clocks running together. A request takes from the level of
its address, time adds to it, and a pass must not.
-/

namespace Gigastt.RateLimit

/-! ## Exact arithmetic -/

@[simp]
theorem f64_min (x y : ℚ) : F64.min x y = min x y := rfl

@[simp]
theorem f64_le (x y : ℚ) : F64.le x y = decide (x ≤ y) := rfl

@[simp]
theorem f64_lt (x y : ℚ) : F64.lt x y = decide (x < y) := rfl

def ms (nanos : Nat) : ℚ := nanos / 1000000

theorem elapsed_ms (nanos : Nat) :
    (as_secs_f64 nanos : ℚ) * ((1000 : Nat) : ℚ) = ms nanos := by
  have hdiv : ((nanos / 1000000000 * 1000000000 + nanos % 1000000000 : Nat) : ℚ) = nanos := by
    rw [Nat.div_add_mod']
  push_cast at hdiv
  unfold as_secs_f64 ms
  push_cast
  linarith

theorem ms_lt {a b : Nat} (h : a < b) : ms a < ms b := by
  have hcast : (a : ℚ) < b := Nat.cast_lt.mpr h
  unfold ms
  linarith

theorem ms_mono {a b : Nat} (h : a ≤ b) : ms a ≤ ms b := by
  have hcast : (a : ℚ) ≤ b := Nat.cast_le.mpr h
  unfold ms
  linarith

theorem ms_sub {a b : Nat} (h : a ≤ b) : ms (b - a) = ms b - ms a := by
  unfold ms
  rw [Nat.cast_sub h]
  linarith

/-! ## One bucket -/

def clock (epoch : Int) (t : Nat) : Clock := ⟨t, epoch + t⟩

/-- What the limiter of a run has in a bucket at time `t`. The clocks are `epoch` apart. -/
structure TokenBucket.Sound (epoch : Int) (cap : Nat) (rate : ℚ) (t : Nat)
    (bucket : TokenBucket ℚ) : Prop where
  capacity : bucket.capacity = cap
  refill_per_ms : bucket.refill_per_ms = rate
  nonneg : 0 ≤ bucket.tokens
  le : bucket.tokens ≤ cap
  last_refill : bucket.last_refill ≤ t
  last_seen : bucket.last_seen_ms = unix_ms (epoch + bucket.last_refill)

variable {epoch : Int} {cap : Nat} {rate : ℚ} {t t' : Nat} {bucket : TokenBucket ℚ}

theorem TokenBucket.Sound.later (h : bucket.Sound epoch cap rate t) (ht : t ≤ t') :
    bucket.Sound epoch cap rate t' :=
  ⟨h.capacity, h.refill_per_ms, h.nonneg, h.le, h.last_refill.trans ht, h.last_seen⟩

theorem TokenBucket.Sound.refill_eq (h : bucket.Sound epoch cap rate t) :
    bucket.refill t = { bucket with
      tokens := min (bucket.tokens + (ms t - ms bucket.last_refill) * rate) cap
      last_refill := t } := by
  unfold TokenBucket.refill
  dsimp only
  rw [elapsed_ms, ms_sub h.last_refill, f64_lt, Nat.cast_zero]
  rcases h.last_refill.lt_or_eq with hlt | heq
  · have hpos : 0 < ms t - ms bucket.last_refill := sub_pos.mpr (ms_lt hlt)
    simp [hpos, h.refill_per_ms, h.capacity]
  · obtain ⟨capacity, refill_per_ms, tokens, last_refill, last_seen_ms⟩ := bucket
    obtain rfl : last_refill = t := heq
    have hle : tokens ≤ cap := h.le
    simp [hle]

/-- The tokens that are there at time `t`. -/
def TokenBucket.level (bucket : TokenBucket ℚ) (t : Nat) : ℚ := (bucket.refill t).tokens

theorem TokenBucket.Sound.level_eq (h : bucket.Sound epoch cap rate t) :
    bucket.level t = min (bucket.tokens + (ms t - ms bucket.last_refill) * rate) cap := by
  unfold TokenBucket.level
  rw [h.refill_eq]

theorem TokenBucket.Sound.level_nonneg (h : bucket.Sound epoch cap rate t) (hrate : 0 ≤ rate) :
    0 ≤ bucket.level t := by
  rw [h.level_eq]
  have hwait : 0 ≤ (ms t - ms bucket.last_refill) * rate :=
    mul_nonneg (sub_nonneg.mpr (ms_mono h.last_refill)) hrate
  exact le_min (add_nonneg h.nonneg hwait) (Nat.cast_nonneg cap)

theorem TokenBucket.Sound.level_le (h : bucket.Sound epoch cap rate t) : bucket.level t ≤ cap := by
  rw [h.level_eq]
  exact min_le_right _ _

theorem TokenBucket.Sound.level_wait (h : bucket.Sound epoch cap rate t) (hrate : 0 ≤ rate)
    (ht : t ≤ t') : bucket.level t' ≤ bucket.level t + (ms t' - ms t) * rate := by
  rw [h.level_eq, (h.later ht).level_eq, ← min_add_add_right]
  have hwait : 0 ≤ (ms t' - ms t) * rate := mul_nonneg (sub_nonneg.mpr (ms_mono ht)) hrate
  apply min_le_min
  · linarith
  · linarith

/-- The bucket after a request that leaves `tokens`. -/
theorem TokenBucket.Sound.refilled (h : bucket.Sound epoch cap rate t) {tokens : ℚ}
    (h0 : 0 ≤ tokens) (hcap : tokens ≤ cap) :
    let after : TokenBucket ℚ :=
      { bucket.refill t with tokens, last_seen_ms := unix_ms (epoch + t) }
    after.Sound epoch cap rate t ∧ after.level t = tokens := by
  intro after
  have hafter : after = { bucket with tokens, last_refill := t, last_seen_ms := unix_ms (epoch + t) } := by
    simp only [after, h.refill_eq]
  have hsound : after.Sound epoch cap rate t := by
    rw [hafter]
    exact ⟨h.capacity, h.refill_per_ms, h0, hcap, le_rfl, rfl⟩
  refine ⟨hsound, ?_⟩
  rw [hsound.level_eq, hafter]
  simp [hcap]

/-- What a request does to its bucket. -/
theorem TokenBucket.Sound.try_consume_spec (h : bucket.Sound epoch cap rate t)
    (hrate : 0 ≤ rate) :
    ∃ allowed after, bucket.try_consume (clock epoch t) = (allowed, after) ∧
      after.Sound epoch cap rate t ∧ (allowed = true ↔ 1 ≤ bucket.level t) ∧
      after.level t = bucket.level t - (if allowed then 1 else 0) := by
  have hnonneg := h.level_nonneg hrate
  have hle := h.level_le
  unfold TokenBucket.try_consume clock
  dsimp only
  by_cases hone : 1 ≤ bucket.level t
  · obtain ⟨hsound, hlevel⟩ := h.refilled (sub_nonneg.mpr hone) (by linarith)
    refine ⟨true, _, if_pos ?_, ?_, iff_of_true rfl hone, ?_⟩
    · rw [f64_le, Nat.cast_one]
      exact decide_eq_true hone
    · simpa [TokenBucket.level] using hsound
    · simpa [TokenBucket.level] using hlevel
  · obtain ⟨hsound, hlevel⟩ := h.refilled hnonneg hle
    refine ⟨false, _, if_neg ?_, hsound, iff_of_false Bool.false_ne_true hone, ?_⟩
    · rw [f64_le, Nat.cast_one, decide_eq_true_eq]
      exact hone
    · rw [if_neg Bool.false_ne_true, sub_zero]
      exact hlevel

/-! ## Stale buckets -/

/-- A bucket that a pass drops was not touched for more than 300 s. -/
theorem idle_of_stale {last : Nat} (hlast : last ≤ t)
    (h : unix_ms (epoch + last) < unix_ms (epoch + t) - 300 * 1000) :
    300000 * 1000000 < t - last := by
  unfold unix_ms at h
  split at h
  · split at h
    · omega
    · omega
  · split at h
    · omega
    · omega

theorem TokenBucket.Sound.full_of_stale (h : bucket.Sound epoch cap rate t) (hrate : 0 ≤ rate)
    (hcap : cap ≤ 300000 * rate) (hstale : bucket.last_seen_ms < unix_ms (epoch + t) - 300 * 1000) :
    bucket.level t = cap := by
  rw [h.last_seen] at hstale
  have hidle := idle_of_stale h.last_refill hstale
  have hms : 300000 ≤ ms t - ms bucket.last_refill := by
    rw [← ms_sub h.last_refill]
    have := ms_mono hidle.le
    unfold ms at this ⊢
    push_cast at this
    linarith
  have hrefill : 300000 * rate ≤ (ms t - ms bucket.last_refill) * rate :=
    mul_le_mul_of_nonneg_right hms hrate
  rw [h.level_eq]
  apply min_eq_right
  have := h.nonneg
  linarith

/-! ## The limiter -/

structure RateLimiter.Sound (epoch : Int) (cap : Nat) (rate : ℚ) (t : Nat)
    (limiter : RateLimiter ℚ) : Prop where
  capacity : limiter.capacity = cap
  refill_per_ms : limiter.refill_per_ms = rate
  buckets : ∀ ip bucket, limiter.buckets ip = some bucket → bucket.Sound epoch cap rate t

/-- An address without a bucket has a full one. -/
def RateLimiter.level (limiter : RateLimiter ℚ) (ip : IpAddr) (t : Nat) : ℚ :=
  ((limiter.buckets ip).map (·.level t)).getD limiter.capacity

variable {limiter : RateLimiter ℚ} {ip : IpAddr}

theorem RateLimiter.Sound.later (h : limiter.Sound epoch cap rate t) (ht : t ≤ t') :
    limiter.Sound epoch cap rate t' :=
  ⟨h.capacity, h.refill_per_ms, fun ip bucket hbucket => (h.buckets ip bucket hbucket).later ht⟩

theorem RateLimiter.Sound.entry_spec (h : limiter.Sound epoch cap rate t) (ip : IpAddr) :
    (limiter.entry (clock epoch t) ip).Sound epoch cap rate t ∧
      (limiter.entry (clock epoch t) ip).level t = limiter.level ip t := by
  unfold RateLimiter.entry RateLimiter.level
  cases hbucket : limiter.buckets ip with
  | none =>
    have hnew : (TokenBucket.new limiter.capacity limiter.refill_per_ms (clock epoch t)).Sound
        epoch cap rate t := by
      rw [h.capacity, h.refill_per_ms]
      exact ⟨rfl, rfl, Nat.cast_nonneg cap, le_rfl, le_rfl, rfl⟩
    refine ⟨hnew, ?_⟩
    rw [Option.getD_none, hnew.level_eq]
    simp [TokenBucket.new, clock, h.capacity]
  | some bucket => exact ⟨h.buckets ip bucket hbucket, rfl⟩

theorem RateLimiter.Sound.level_nonneg (h : limiter.Sound epoch cap rate t) (hrate : 0 ≤ rate) :
    0 ≤ limiter.level ip t := by
  obtain ⟨hsound, hlevel⟩ := h.entry_spec ip
  rw [← hlevel]
  exact hsound.level_nonneg hrate

theorem RateLimiter.Sound.level_le (h : limiter.Sound epoch cap rate t) :
    limiter.level ip t ≤ cap := by
  obtain ⟨hsound, hlevel⟩ := h.entry_spec ip
  rw [← hlevel]
  exact hsound.level_le

theorem RateLimiter.Sound.level_wait (h : limiter.Sound epoch cap rate t) (hrate : 0 ≤ rate)
    (ht : t ≤ t') : limiter.level ip t' ≤ limiter.level ip t + (ms t' - ms t) * rate := by
  unfold RateLimiter.level
  cases hbucket : limiter.buckets ip with
  | none =>
    have hwait : 0 ≤ (ms t' - ms t) * rate := mul_nonneg (sub_nonneg.mpr (ms_mono ht)) hrate
    simpa using hwait
  | some bucket => exact (h.buckets ip bucket hbucket).level_wait hrate ht

/-- A request is paid from the level of its own address. -/
theorem RateLimiter.Sound.check_spec (h : limiter.Sound epoch cap rate t) (hrate : 0 ≤ rate)
    (ip : IpAddr) :
    ∃ allowed after, limiter.check (clock epoch t) ip = (allowed, after) ∧
      after.Sound epoch cap rate t ∧ (allowed = true ↔ 1 ≤ limiter.level ip t) ∧
      after.level ip t = limiter.level ip t - (if allowed then 1 else 0) ∧
      ∀ other, other ≠ ip → after.level other t = limiter.level other t := by
  obtain ⟨hentry, hlevel⟩ := h.entry_spec ip
  have hupdate : ∀ bucket : TokenBucket ℚ, bucket.Sound epoch cap rate t →
      let after := { limiter with buckets := Function.update limiter.buckets ip (some bucket) }
      after.Sound epoch cap rate t ∧ after.level ip t = bucket.level t ∧
        ∀ other, other ≠ ip → after.level other t = limiter.level other t := by
    intro bucket hbucket after
    refine ⟨⟨h.capacity, h.refill_per_ms, ?_⟩, ?_, ?_⟩
    · intro other b hb
      by_cases hother : other = ip
      · subst hother
        simp only [after, Function.update_self, Option.some.injEq] at hb
        exact hb ▸ hbucket
      · simp only [after, Function.update_of_ne hother] at hb
        exact h.buckets other b hb
    · simp [after, RateLimiter.level]
    · intro other hother
      simp [after, RateLimiter.level, Function.update_of_ne hother]
  obtain ⟨allowed, bucket, htry, hbucket, hallowed, hafter⟩ := hentry.try_consume_spec hrate
  obtain ⟨hsound, hip, hothers⟩ := hupdate bucket hbucket
  rw [hlevel] at hallowed hafter
  unfold RateLimiter.check
  rw [htry]
  exact ⟨allowed, _, rfl, hsound, hallowed, hip.trans hafter, hothers⟩

theorem RateLimiter.Sound.evict_pass (h : limiter.Sound epoch cap rate t) (clock : Clock) :
    (limiter.evict_pass clock).Sound epoch cap rate t := by
  refine ⟨h.capacity, h.refill_per_ms, ?_⟩
  intro ip bucket hbucket
  exact h.buckets ip bucket (Option.eq_some_of_filter_eq_some hbucket)

/-- What a pass does to an address: it drops a stale bucket or leaves it. -/
theorem RateLimiter.Sound.evict_pass_cases (h : limiter.Sound epoch cap rate t) (ip : IpAddr)
    (now : Nat) :
    (∃ bucket, limiter.buckets ip = some bucket ∧
      bucket.last_seen_ms < unix_ms (epoch + now) - 300 * 1000 ∧
      (limiter.evict_pass (clock epoch now)).level ip now = cap) ∨
    ((∀ bucket, limiter.buckets ip = some bucket →
        ¬ bucket.last_seen_ms < unix_ms (epoch + now) - 300 * 1000) ∧
      (limiter.evict_pass (clock epoch now)).level ip now = limiter.level ip now) := by
  unfold RateLimiter.evict_pass RateLimiter.evict_stale RateLimiter.level clock
  dsimp only
  cases limiter.buckets ip with
  | none => exact .inr ⟨fun _ hsome => (nomatch hsome), rfl⟩
  | some bucket =>
    by_cases hseen : bucket.last_seen_ms < unix_ms (epoch + now) - 300 * 1000
    · refine .inl ⟨bucket, rfl, hseen, ?_⟩
      have hdrop : ¬ decide (unix_ms (epoch + now) - 300 * 1000 ≤ bucket.last_seen_ms) = true := by
        rw [decide_eq_true_eq]
        exact not_le.mpr hseen
      rw [Option.filter_some, if_neg hdrop]
      simp [h.capacity]
    · refine .inr ⟨?_, ?_⟩
      · rintro b ⟨⟩
        exact hseen
      · rw [Option.filter_some, if_pos (decide_eq_true (not_lt.mp hseen))]

/-- A pass gives nothing away when a bucket is full again before it is stale. -/
theorem RateLimiter.Sound.evict_pass_level (h : limiter.Sound epoch cap rate t) (hrate : 0 ≤ rate)
    (hcap : cap ≤ 300000 * rate) (ip : IpAddr) :
    (limiter.evict_pass (clock epoch t)).level ip t = limiter.level ip t := by
  rcases h.evict_pass_cases ip t with ⟨bucket, hbucket, hstale, hlevel⟩ | ⟨-, hlevel⟩
  · rw [hlevel, RateLimiter.level, hbucket]
    exact ((h.buckets ip bucket hbucket).full_of_stale hrate hcap hstale).symm
  · exact hlevel

/-- A pass that finds every bucket stale leaves a full one to every address. -/
theorem RateLimiter.Sound.evict_pass_full (h : limiter.Sound epoch cap rate t)
    (hstale : ∀ last ≤ t, unix_ms (epoch + last) < unix_ms (epoch + t') - 300 * 1000)
    (ip : IpAddr) : (limiter.evict_pass (clock epoch t')).level ip t' = cap := by
  rcases h.evict_pass_cases ip t' with ⟨-, -, -, hlevel⟩ | ⟨hkept, hlevel⟩
  · exact hlevel
  · have hnone : limiter.buckets ip = none := by
      rw [Option.eq_none_iff_forall_not_mem]
      intro bucket hbucket
      have hsound := h.buckets ip bucket hbucket
      apply hkept bucket hbucket
      rw [hsound.last_seen]
      exact hstale bucket.last_refill hsound.last_refill
    rw [hlevel, RateLimiter.level, hnone, Option.map_none, Option.getD_none, h.capacity]

end Gigastt.RateLimit
