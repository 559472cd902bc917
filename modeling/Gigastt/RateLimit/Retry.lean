import Gigastt.RateLimit.Window

/-!
# When a rejected request may be sent again

Any wall clock: a request and a pass read it, and only a pass uses what they read.
-/

namespace Gigastt.RateLimit

/-- The wait of a `Retry-After: 60`, in nanoseconds. -/
def RETRY_AFTER : Nat := 60 * 1000000000

/-! ## One bucket -/

/-- A bucket that was last used at the clock `p`. -/
structure TokenBucket.Touched (cap : Nat) (rate : ℚ) (p : Clock) (bucket : TokenBucket ℚ) :
    Prop where
  capacity : bucket.capacity = cap
  refill_per_ms : bucket.refill_per_ms = rate
  nonneg : 0 ≤ bucket.tokens
  le : bucket.tokens ≤ cap
  last_refill : bucket.last_refill = p.instant
  last_seen : bucket.last_seen_ms = unix_ms p.wall

variable {cap : Nat} {rate : ℚ} {p c : Clock} {t t' : Nat} {bucket : TokenBucket ℚ}

theorem TokenBucket.Touched.sound (h : bucket.Touched cap rate p) (ht : p.instant ≤ t) :
    bucket.Sound (p.wall - p.instant) cap rate t :=
  ⟨h.capacity, h.refill_per_ms, h.nonneg, h.le, h.last_refill.trans_le ht, by
    rw [h.last_seen, h.last_refill, sub_add_cancel]⟩

theorem TokenBucket.Touched.level_eq (h : bucket.Touched cap rate p) (ht : p.instant ≤ t) :
    bucket.level t = min (bucket.tokens + (ms t - ms p.instant) * rate) cap := by
  rw [(h.sound ht).level_eq, h.last_refill]

theorem wait_nonneg (hrate : 0 ≤ rate) (ht : t ≤ t') : 0 ≤ (ms t' - ms t) * rate :=
  mul_nonneg (sub_nonneg.mpr (ms_mono ht)) hrate

theorem TokenBucket.Touched.level_mono (h : bucket.Touched cap rate p) (hrate : 0 ≤ rate)
    (ht : p.instant ≤ t) (htt : t ≤ t') : bucket.level t ≤ bucket.level t' := by
  rw [h.level_eq ht, h.level_eq (ht.trans htt)]
  apply min_le_min_right
  have := wait_nonneg hrate htt
  linarith

theorem TokenBucket.Touched.wait_le_level (h : bucket.Touched cap rate p) (ht : p.instant ≤ t) :
    min ((ms t - ms p.instant) * rate) cap ≤ bucket.level t := by
  rw [h.level_eq ht]
  apply min_le_min_right
  have := h.nonneg
  linarith

/-- Waiting in two parts is waiting once. -/
theorem TokenBucket.Touched.level_add (h : bucket.Touched cap rate p) (hrate : 0 ≤ rate)
    (ht : p.instant ≤ t) (htt : t ≤ t') :
    min (bucket.level t + (ms t' - ms t) * rate) cap = bucket.level t' := by
  have hwait := wait_nonneg hrate htt
  rw [h.level_eq ht, h.level_eq (ht.trans htt), ← min_add_add_right, min_assoc,
    min_eq_right (by linarith : (cap : ℚ) ≤ cap + (ms t' - ms t) * rate)]
  congr 1
  ring

theorem TokenBucket.Touched.try_consume_spec (h : bucket.Touched cap rate p) (hrate : 0 ≤ rate)
    (hp : p.instant ≤ c.instant) :
    ∃ allowed after, bucket.try_consume c = (allowed, after) ∧ after.Touched cap rate c ∧
      (allowed = true ↔ 1 ≤ bucket.level c.instant) ∧
      after.tokens = bucket.level c.instant - (if allowed then 1 else 0) := by
  have hsound := h.sound hp
  have hnonneg := hsound.level_nonneg hrate
  have hle := hsound.level_le
  have htouched : ∀ tokens : ℚ, 0 ≤ tokens → tokens ≤ cap →
      TokenBucket.Touched cap rate c
        { bucket.refill c.instant with tokens, last_seen_ms := unix_ms c.wall } := by
    intro tokens h0 hcap
    rw [hsound.refill_eq]
    exact ⟨h.capacity, h.refill_per_ms, h0, hcap, rfl, rfl⟩
  unfold TokenBucket.try_consume
  dsimp only
  by_cases hone : 1 ≤ bucket.level c.instant
  · refine ⟨true, _, if_pos ?_, htouched (bucket.level c.instant - 1) (by linarith) (by linarith),
      iff_of_true rfl hone, ?_⟩
    · rw [f64_le, Nat.cast_one]
      exact decide_eq_true hone
    · simp [TokenBucket.level]
  · refine ⟨false, _, if_neg ?_, htouched (bucket.level c.instant) hnonneg hle,
      iff_of_false Bool.false_ne_true hone, ?_⟩
    · rw [f64_le, Nat.cast_one, decide_eq_true_eq]
      exact hone
    · simp [TokenBucket.level]

/-- A rejected request only writes down what time has added. -/
theorem TokenBucket.Touched.rejected (h : bucket.Touched cap rate p) (hrate : 0 ≤ rate)
    (hp : p.instant ≤ c.instant) {after : TokenBucket ℚ}
    (hreject : bucket.try_consume c = (false, after)) (ht : c.instant ≤ t) :
    after.level t = bucket.level t := by
  obtain ⟨allowed, after', htry, htouched, -, htokens⟩ := h.try_consume_spec hrate hp
  obtain ⟨rfl, rfl⟩ := Prod.mk.inj (hreject.symm.trans htry)
  rw [htouched.level_eq ht, htokens, if_neg Bool.false_ne_true, sub_zero, h.level_add hrate hp ht]

/-! ## The limiter -/

/-- A limiter that was last used at one of the clocks `past` for each of its addresses. -/
structure RateLimiter.Live (cap : Nat) (rate : ℚ) (past : List Clock) (limiter : RateLimiter ℚ) :
    Prop where
  capacity : limiter.capacity = cap
  refill_per_ms : limiter.refill_per_ms = rate
  buckets : ∀ ip bucket, limiter.buckets ip = some bucket → ∃ p ∈ past, bucket.Touched cap rate p

variable {past : List Clock} {limiter : RateLimiter ℚ} {ip : IpAddr}

theorem RateLimiter.new_live (rpm burst : Nat) :
    (RateLimiter.new rpm burst : RateLimiter ℚ).Live (max burst 1)
      (((max 1 (min rpm MAX_RPM) : Nat) : ℚ) / 60000) [] :=
  ⟨rfl, by simp [RateLimiter.new], fun _ _ h => nomatch h⟩

theorem RateLimiter.Live.entry_spec (h : limiter.Live cap rate past) (hrate : 0 ≤ rate)
    (hpast : ∀ p ∈ past, p.instant ≤ c.instant) (ip : IpAddr) :
    ∃ p, p.instant ≤ c.instant ∧ (limiter.entry c ip).Touched cap rate p ∧
      ∀ t, c.instant ≤ t → (limiter.entry c ip).level t = limiter.level ip t := by
  unfold RateLimiter.entry RateLimiter.level
  cases hbucket : limiter.buckets ip with
  | none =>
    have hnew : (TokenBucket.new limiter.capacity limiter.refill_per_ms c).Touched cap rate c := by
      rw [h.capacity, h.refill_per_ms]
      exact ⟨rfl, rfl, Nat.cast_nonneg cap, le_rfl, rfl, rfl⟩
    refine ⟨c, le_rfl, hnew, fun t ht => ?_⟩
    rw [Option.getD_none, hnew.level_eq ht]
    have := wait_nonneg hrate ht
    simpa [TokenBucket.new, h.capacity] using this
  | some bucket =>
    obtain ⟨p, hp, htouched⟩ := h.buckets ip bucket hbucket
    exact ⟨p, hpast p hp, htouched, fun _ _ => rfl⟩

theorem RateLimiter.Live.level_mono (h : limiter.Live cap rate past) (hrate : 0 ≤ rate)
    (hpast : ∀ p ∈ past, p.instant ≤ t) (htt : t ≤ t') :
    limiter.level ip t ≤ limiter.level ip t' := by
  unfold RateLimiter.level
  cases hbucket : limiter.buckets ip with
  | none => exact le_rfl
  | some bucket =>
    obtain ⟨p, hp, htouched⟩ := h.buckets ip bucket hbucket
    exact htouched.level_mono hrate (hpast p hp) htt

theorem RateLimiter.Live.check_spec (h : limiter.Live cap rate past) (hrate : 0 ≤ rate)
    (hpast : ∀ p ∈ past, p.instant ≤ c.instant) (ip : IpAddr) :
    ∃ allowed after, limiter.check c ip = (allowed, after) ∧ after.Live cap rate (past ++ [c]) ∧
      (allowed = true ↔ 1 ≤ limiter.level ip c.instant) ∧
      (allowed = false → ∀ t, c.instant ≤ t → after.level ip t = limiter.level ip t) ∧
      ∀ other, other ≠ ip → after.buckets other = limiter.buckets other := by
  obtain ⟨p, hp, hentry, hlevel⟩ := h.entry_spec hrate hpast ip
  obtain ⟨allowed, bucket, htry, hbucket, hallowed, -⟩ := hentry.try_consume_spec hrate hp
  rw [hlevel _ le_rfl] at hallowed
  unfold RateLimiter.check
  rw [htry]
  refine ⟨allowed, _, rfl, ⟨h.capacity, h.refill_per_ms, ?_⟩, hallowed, ?_, ?_⟩
  · intro other b hb
    by_cases hother : other = ip
    · subst hother
      simp only [Function.update_self, Option.some.injEq] at hb
      exact ⟨c, by simp, hb ▸ hbucket⟩
    · simp only [Function.update_of_ne hother] at hb
      obtain ⟨q, hq, htouched⟩ := h.buckets other b hb
      exact ⟨q, List.mem_append_left _ hq, htouched⟩
  · rintro rfl t ht
    rw [← hlevel t ht, ← hentry.rejected hrate hp htry ht]
    simp [RateLimiter.level]
  · intro other hother
    exact Function.update_of_ne hother _ _

theorem RateLimiter.Live.evict_pass (h : limiter.Live cap rate past) :
    (limiter.evict_pass c).Live cap rate (past ++ [c]) := by
  refine ⟨h.capacity, h.refill_per_ms, ?_⟩
  intro ip bucket hbucket
  obtain ⟨p, hp, htouched⟩ := h.buckets ip bucket (Option.eq_some_of_filter_eq_some hbucket)
  exact ⟨p, List.mem_append_left _ hp, htouched⟩

/-- A pass keeps the bucket of an address, or drops one that is stale by the wall clock. -/
theorem evict_pass_buckets (limiter : RateLimiter ℚ) (c : Clock) (ip : IpAddr) :
    (limiter.evict_pass c).buckets ip = limiter.buckets ip ∨
      ((limiter.evict_pass c).buckets ip = none ∧ ∃ bucket, limiter.buckets ip = some bucket ∧
        bucket.last_seen_ms < unix_ms c.wall - 300 * 1000) := by
  unfold RateLimiter.evict_pass RateLimiter.evict_stale
  dsimp only
  cases limiter.buckets ip with
  | none => exact .inl rfl
  | some bucket =>
    rw [Option.filter_some]
    split
    · exact .inl rfl
    · rename_i hdrop
      rw [decide_eq_true_eq, not_le] at hdrop
      exact .inr ⟨rfl, bucket, rfl, hdrop⟩

/-! ## Runs -/

def RateLimiter.run (limiter : RateLimiter ℚ) (events : List (Clock × Action)) : RateLimiter ℚ :=
  events.foldl (fun limiter e => (limiter.act e.1 e.2).2) limiter

def InOrder (events : List (Clock × Action)) : Prop :=
  events.Pairwise fun e e' => e.1.instant ≤ e'.1.instant

/-- No request of `ip` is admitted. -/
def Refused (ip : IpAddr) : RateLimiter ℚ → List (Clock × Action) → Prop
  | _, [] => True
  | limiter, (c, action) :: rest =>
    (action = .check ip → (limiter.act c action).1 = false) ∧ Refused ip (limiter.act c action).2 rest

def without (ip : IpAddr) (events : List (Clock × Action)) : List (Clock × Action) :=
  events.filter fun e => e.2 ≠ .check ip

/-- An advance of the wall clock that makes a bucket stale takes at least the time of a
`Retry-After`. -/
def Steady (clocks : List Clock) : Prop :=
  clocks.Pairwise fun p q =>
    unix_ms q.wall ≤ unix_ms p.wall + 300 * 1000 ∨ p.instant + RETRY_AFTER ≤ q.instant

/-- Clocks that run together. -/
theorem steady_clock (epoch : Int) {times : List Nat} (h : times.Pairwise (· ≤ ·)) :
    Steady (times.map (clock epoch)) := by
  rw [Steady, List.pairwise_map]
  refine h.imp fun {a b} hab => ?_
  by_cases hwait : a + RETRY_AFTER ≤ b
  · exact .inr hwait
  · left
    unfold RETRY_AFTER at hwait
    unfold unix_ms clock
    dsimp only
    split
    · omega
    · split
      · omega
      · omega

variable {events : List (Clock × Action)}

theorem RateLimiter.Live.act (h : limiter.Live cap rate past) (hrate : 0 ≤ rate)
    (hpast : ∀ p ∈ past, p.instant ≤ c.instant) (action : Action) :
    (limiter.act c action).2.Live cap rate (past ++ [c]) := by
  cases action with
  | check ip =>
    obtain ⟨allowed, after, hcheck, hafter, -⟩ := h.check_spec hrate hpast ip
    have hact : limiter.act c (.check ip) = (allowed, after) := hcheck
    rw [hact]
    exact hafter
  | evict_pass => exact h.evict_pass

theorem RateLimiter.Live.run (h : limiter.Live cap rate past) (hrate : 0 ≤ rate)
    (hsorted : (past ++ events.map Prod.fst).Pairwise (·.instant ≤ ·.instant)) :
    (limiter.run events).Live cap rate (past ++ events.map Prod.fst) := by
  induction events generalizing limiter past with
  | nil => simpa [RateLimiter.run] using h
  | cons e events ih =>
    have hpast : ∀ p ∈ past, p.instant ≤ e.1.instant := fun p hp =>
      (List.pairwise_append.mp hsorted).2.2 p hp e.1 (by simp)
    have hrest := ih (h.act hrate hpast e.2) (by simpa using hsorted)
    simpa [RateLimiter.run] using hrest

theorem RateLimiter.level_congr {limiter' : RateLimiter ℚ}
    (hcapacity : limiter'.capacity = limiter.capacity)
    (hbuckets : limiter'.buckets ip = limiter.buckets ip) :
    limiter'.level ip t = limiter.level ip t := by
  rw [RateLimiter.level, RateLimiter.level, hcapacity, hbuckets]

theorem RateLimiter.level_of_none (h : limiter.buckets ip = none) :
    limiter.level ip t = limiter.capacity := by
  rw [RateLimiter.level, h, Option.map_none, Option.getD_none]

theorem RateLimiter.Live.level_le (h : limiter.Live cap rate past)
    (hpast : ∀ p ∈ past, p.instant ≤ t) : limiter.level ip t ≤ cap := by
  cases hbucket : limiter.buckets ip with
  | none => rw [RateLimiter.level_of_none hbucket, h.capacity]
  | some bucket =>
    obtain ⟨p, hp, htouched⟩ := h.buckets ip bucket hbucket
    rw [RateLimiter.level, hbucket]
    exact (htouched.sound (hpast p hp)).level_le

/-- A request that is rejected takes nothing, and a pass can only fill up. -/
theorem RateLimiter.Live.level_le_act (h : limiter.Live cap rate past) (hrate : 0 ≤ rate)
    (hpast : ∀ p ∈ past, p.instant ≤ c.instant) (ht : c.instant ≤ t) {action : Action}
    (hreject : action = .check ip → (limiter.act c action).1 = false) :
    limiter.level ip t ≤ (limiter.act c action).2.level ip t := by
  cases action with
  | check other =>
    obtain ⟨allowed, after, hcheck, hafter, -, hlevel, hothers⟩ := h.check_spec hrate hpast other
    have hact : limiter.act c (.check other) = (allowed, after) := hcheck
    rw [hact] at hreject ⊢
    by_cases hip : other = ip
    · subst hip
      exact (hlevel (hreject rfl) t ht).ge
    · have hcapacity : after.capacity = limiter.capacity := hafter.capacity.trans h.capacity.symm
      exact (RateLimiter.level_congr hcapacity (hothers ip (Ne.symm hip))).ge
  | evict_pass =>
    rcases evict_pass_buckets limiter c ip with hkept | ⟨hnone, -⟩
    · have hlevel : (limiter.evict_pass c).level ip t = limiter.level ip t :=
        RateLimiter.level_congr rfl hkept
      exact hlevel.ge
    · have hfull : (limiter.evict_pass c).level ip t = cap :=
        (RateLimiter.level_of_none hnone).trans (congrArg Nat.cast h.capacity)
      exact (h.level_le fun p hp => (hpast p hp).trans ht).trans hfull.ge

theorem RateLimiter.Live.level_le_run (h : limiter.Live cap rate past) (hrate : 0 ≤ rate)
    (hsorted : (past ++ events.map Prod.fst).Pairwise (·.instant ≤ ·.instant))
    (hrefused : Refused ip limiter events) (ht : ∀ e ∈ events, e.1.instant ≤ t) :
    limiter.level ip t ≤ (limiter.run events).level ip t := by
  induction events generalizing limiter past with
  | nil => exact le_rfl
  | cons e events ih =>
    obtain ⟨hhead, htail⟩ := List.forall_mem_cons.mp ht
    obtain ⟨hreject, hrest⟩ := hrefused
    have hpast : ∀ p ∈ past, p.instant ≤ e.1.instant := fun p hp =>
      (List.pairwise_append.mp hsorted).2.2 p hp e.1 (by simp)
    have hstep := h.level_le_act hrate hpast hhead hreject
    exact hstep.trans (ih (h.act hrate hpast e.2) (by simpa using hsorted) hrest htail)

theorem RateLimiter.Live.check_run_iff (h : limiter.Live cap rate past) (hrate : 0 ≤ rate)
    (hsorted : (past ++ events.map Prod.fst).Pairwise (·.instant ≤ ·.instant))
    (hlast : ∀ p ∈ past ++ events.map Prod.fst, p.instant ≤ c.instant) (ip : IpAddr) :
    ((limiter.run events).check c ip).1 ↔ 1 ≤ (limiter.run events).level ip c.instant := by
  obtain ⟨allowed, after, hcheck, -, hallowed, -⟩ := (h.run hrate hsorted).check_spec hrate hlast ip
  rw [hcheck]
  exact hallowed

/-- What an address has before its requests decides, as long as it is refused. -/
theorem RateLimiter.Live.admitted_of_level (h : limiter.Live cap rate past) (hrate : 0 ≤ rate)
    (hsorted : (past ++ events.map Prod.fst).Pairwise (·.instant ≤ ·.instant))
    (hlast : ∀ p ∈ past ++ events.map Prod.fst, p.instant ≤ c.instant)
    (hrefused : Refused ip limiter events) (hone : 1 ≤ limiter.level ip c.instant) :
    ((limiter.run events).check c ip).1 := by
  have hrun := h.level_le_run hrate hsorted hrefused fun e he =>
    hlast e.1 (List.mem_append_right _ (List.mem_map_of_mem he))
  exact (h.check_run_iff hrate hsorted hlast ip).mpr (hone.trans hrun)

/-- What is stale for a pass at `c`. -/
def Stale (limiter : RateLimiter ℚ) (ip : IpAddr) (c : Clock) : Prop :=
  ∃ bucket, limiter.buckets ip = some bucket ∧
    bucket.last_seen_ms < unix_ms c.wall - 300 * 1000

theorem act_buckets (limiter : RateLimiter ℚ) (c : Clock) {action : Action}
    (h : action ≠ .check ip) :
    (limiter.act c action).2.buckets ip = limiter.buckets ip ∨ Stale limiter ip c := by
  cases action with
  | check other =>
    have hip : ip ≠ other := by
      rintro rfl
      exact h rfl
    exact .inl (Function.update_of_ne hip _ _)
  | evict_pass => exact (evict_pass_buckets limiter c ip).imp_right And.right

/-- Without its requests the bucket of an address stays, or is stale for a pass. -/
theorem run_buckets (limiter : RateLimiter ℚ) (h : ∀ e ∈ events, e.2 ≠ .check ip) :
    (limiter.run events).buckets ip = limiter.buckets ip ∨
      ∃ e ∈ events, Stale limiter ip e.1 := by
  induction events generalizing limiter with
  | nil => exact .inl rfl
  | cons e events ih =>
    obtain ⟨hhead, htail⟩ := List.forall_mem_cons.mp h
    rcases act_buckets limiter e.1 hhead with hsame | hstale
    · rcases ih (limiter.act e.1 e.2).2 htail with hrest | ⟨e', he', hstale⟩
      · exact .inl (hrest.trans hsame)
      · unfold Stale at hstale ⊢
        rw [hsame] at hstale
        exact .inr ⟨e', List.mem_cons_of_mem _ he', hstale⟩
    · exact .inr ⟨e, List.mem_cons_self, hstale⟩

/-! ## After 60 seconds -/

/-- At a token a minute or more. -/
theorem one_le_wait {rpm : Nat} (hrpm : 1 ≤ rpm) (hcap : 1 ≤ cap)
    (ht : t + RETRY_AFTER ≤ t') : 1 ≤ min ((ms t' - ms t) * ((rpm : ℚ) / 60000)) cap := by
  have hms : 60000 ≤ ms t' - ms t := by
    rw [← ms_sub (by omega)]
    have hcast : ((RETRY_AFTER : Nat) : ℚ) ≤ (t' - t : Nat) := Nat.cast_le.mpr (by omega)
    unfold RETRY_AFTER at hcast
    unfold ms
    push_cast at hcast
    linarith
  have hrpm' : (1 : ℚ) ≤ rpm := Nat.one_le_cast.mpr hrpm
  apply le_min
  · calc (1 : ℚ) ≤ rpm := hrpm'
      _ = 60000 * (rpm / 60000) := by ring
      _ ≤ _ := mul_le_mul_of_nonneg_right hms (by positivity)
  · exact Nat.one_le_cast.mpr hcap

section Wait

variable {rpm : Nat} (hrpm : 1 ≤ rpm) (hcap : 1 ≤ cap)

include hrpm hcap

theorem TokenBucket.Touched.one_le_level (h : bucket.Touched cap ((rpm : ℚ) / 60000) p)
    (ht : p.instant + RETRY_AFTER ≤ t) : 1 ≤ bucket.level t :=
  (one_le_wait hrpm hcap ht).trans (h.wait_le_level (by omega))

theorem RateLimiter.Live.one_le_level (h : limiter.Live cap ((rpm : ℚ) / 60000) past)
    (hpast : ∀ p ∈ past, p.instant + RETRY_AFTER ≤ t) : 1 ≤ limiter.level ip t := by
  cases hbucket : limiter.buckets ip with
  | none =>
    rw [RateLimiter.level_of_none hbucket, h.capacity]
    exact Nat.one_le_cast.mpr hcap
  | some bucket =>
    obtain ⟨p, hp, htouched⟩ := h.buckets ip bucket hbucket
    rw [RateLimiter.level, hbucket]
    exact htouched.one_le_level hrpm hcap (hpast p hp)

/-- A pass that finds a bucket stale comes when it has a token again. -/
theorem RateLimiter.Live.one_le_level_of_run (h : limiter.Live cap ((rpm : ℚ) / 60000) past)
    (hsorted : (past ++ events.map Prod.fst).Pairwise (·.instant ≤ ·.instant))
    (hsteady : Steady (past ++ events.map Prod.fst)) (hquiet : ∀ e ∈ events, e.2 ≠ .check ip)
    (ht : ∀ e ∈ events, e.1.instant ≤ t) (hone : 1 ≤ (limiter.run events).level ip t) :
    1 ≤ limiter.level ip t := by
  rcases run_buckets limiter hquiet with hsame | ⟨e, he, bucket, hbucket, hstale⟩
  · have hlive := h.run (by positivity) hsorted
    rwa [RateLimiter.level_congr (hlive.capacity.trans h.capacity.symm) hsame] at hone
  · obtain ⟨p, hp, htouched⟩ := h.buckets ip bucket hbucket
    rw [htouched.last_seen] at hstale
    have hwait := (List.pairwise_append.mp hsteady).2.2 p hp e.1 (List.mem_map_of_mem he)
    have hlate := ht e he
    rw [RateLimiter.level, hbucket]
    exact htouched.one_le_level hrpm hcap (by omega)

end Wait

/-- A rejected address is admitted 60 s later, whatever it is refused and whatever passes run in
between. It never waits longer for the requests that are rejected: not longer than if nothing had
happened, nor than if all but its own requests had. -/
theorem retry_after_sound (rpm burst : Nat) (ip : IpAddr) (pre mid : List (Clock × Action))
    (c c' : Clock) (horder : InOrder (pre ++ (c, .check ip) :: mid ++ [(c', .check ip)]))
    (hrefused : Refused ip ((RateLimiter.new rpm burst).run pre) ((c, .check ip) :: mid)) :
    let limiter := (RateLimiter.new rpm burst).run pre
    let events := (c, .check ip) :: mid
    (c.instant + RETRY_AFTER ≤ c'.instant → ((limiter.run events).check c' ip).1) ∧
      ((limiter.check c' ip).1 → ((limiter.run events).check c' ip).1) ∧
      (Steady ((pre ++ events).map Prod.fst) →
        ((limiter.run (without ip events)).check c' ip).1 → ((limiter.run events).check c' ip).1) := by
  intro limiter events
  have hrpm : 1 ≤ max 1 (min rpm MAX_RPM) := le_max_left _ _
  have hcap : 1 ≤ max burst 1 := le_max_right _ _
  have hrate : 0 ≤ ((max 1 (min rpm MAX_RPM) : Nat) : ℚ) / 60000 := by positivity
  obtain ⟨hsorted, -, hend⟩ := List.pairwise_append.mp horder
  have hmap : (pre.map Prod.fst ++ events.map Prod.fst).Pairwise (·.instant ≤ ·.instant) := by
    rw [← List.map_append, List.pairwise_map]
    exact hsorted
  have hlast : ∀ p ∈ pre.map Prod.fst ++ events.map Prod.fst, p.instant ≤ c'.instant := by
    rw [← List.map_append, List.forall_mem_map]
    exact fun e he => hend e he _ (List.mem_singleton_self _)
  have hpre : limiter.Live _ _ (pre.map Prod.fst) :=
    (RateLimiter.new_live rpm burst).run hrate (List.pairwise_append.mp hmap).1
  refine ⟨?_, ?_, ?_⟩
  · intro hwait
    apply hpre.admitted_of_level hrate hmap hlast hrefused
    apply hpre.one_le_level hrpm hcap
    rw [List.forall_mem_map]
    intro e he
    exact (Nat.add_le_add_right ((List.pairwise_append.mp hsorted).2.2 e he _ List.mem_cons_self)
      RETRY_AFTER).trans hwait
  · intro hother
    apply hpre.admitted_of_level hrate hmap hlast hrefused
    have hpast : ∀ p ∈ pre.map Prod.fst, p.instant ≤ c'.instant := fun p hp =>
      hlast p (List.mem_append_left _ hp)
    obtain ⟨allowed, after, hcheck, -, hallowed, -⟩ := hpre.check_spec hrate hpast ip
    rw [hcheck] at hother
    exact hallowed.mp hother
  · intro hsteady hother
    apply hpre.admitted_of_level hrate hmap hlast hrefused
    rw [List.map_append] at hsteady
    -- The run without the address's requests is a part of the run with them.
    have hsub : (pre.map Prod.fst ++ (without ip events).map Prod.fst).Sublist
        (pre.map Prod.fst ++ events.map Prod.fst) :=
      (List.filter_sublist.map Prod.fst).append_left _
    have hlast' : ∀ p ∈ pre.map Prod.fst ++ (without ip events).map Prod.fst,
        p.instant ≤ c'.instant := fun p hp => hlast p (hsub.subset hp)
    apply hpre.one_le_level_of_run hrpm hcap (hmap.sublist hsub) (hsteady.sublist hsub)
    · intro e he
      simpa using (List.mem_filter.mp he).2
    · exact fun e he => hlast' e.1 (List.mem_append_right _ (List.mem_map_of_mem he))
    · exact (hpre.check_run_iff hrate (hmap.sublist hsub) hlast' ip).mp hother

/-- One token, at one a minute: taken, and asked for in vain with a pass at work. -/
def one_token : RateLimiter ℚ := (RateLimiter.new 1 1).run [(clock 0 0, .check visitor)]

def in_vain : List (Clock × Action) :=
  [(clock 0 1000000000, .check visitor), (clock 0 2000000000, .evict_pass),
    (clock 0 59500000000, .check visitor)]

theorem retry_after_sound_of_one :
    ((one_token.run in_vain).check (clock 0 61000000000) visitor).1 ∧
      ((one_token.check (clock 0 61000000000) visitor).1 →
        ((one_token.run in_vain).check (clock 0 61000000000) visitor).1) ∧
      (((one_token.run (without visitor in_vain)).check (clock 0 61000000000) visitor).1 →
        ((one_token.run in_vain).check (clock 0 61000000000) visitor).1) := by
  obtain ⟨hwait, hkeep, hnever⟩ := retry_after_sound 1 1 visitor [(clock 0 0, .check visitor)]
    [(clock 0 2000000000, .evict_pass), (clock 0 59500000000, .check visitor)]
    (clock 0 1000000000) (clock 0 61000000000)
    (by unfold InOrder; decide)
    ⟨fun _ => by decide +kernel, nofun, fun _ => by decide +kernel, trivial⟩
  exact ⟨hwait (by decide), hkeep,
    hnever (steady_clock 0 (by decide : [0, 1000000000, 2000000000, 59500000000].Pairwise (· ≤ ·)))⟩

end Gigastt.RateLimit
