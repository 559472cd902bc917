import Gigastt.Streaming.Resample
import Gigastt.Lib.Steps
import Mathlib.Data.Rat.Floor

/-!
# The ratio of the cached resampler

A resampler is reused by its chunk size alone. Nothing asks what its ratio is.
-/

namespace Gigastt.Streaming

variable {F R : Type}

/-! ## Calls -/

/-- The arguments of `resample_with_cache`. -/
structure Call (F : Type) where
  samples : List F
  from_rate : UInt32
  to_rate : UInt32
deriving DecidableEq

def Call.ratio (call : Call F) : ℚ := call.to_rate.toNat / call.from_rate.toNat

/-- The call gets past the early returns. -/
def Call.resamples (call : Call F) : Bool :=
  !(call.samples.isEmpty || call.from_rate == 0 || call.to_rate == 0) &&
    call.from_rate != call.to_rate

/-- The resampler that `process` is run on. -/
def Rubato.reached (rubato : Rubato F R) (cache : Option R) (call : Call F) : Option R :=
  if call.resamples then
    (rubato.resampler call.ratio call.samples.length cache).1.toOption
  else none

/-- The cache after the call. -/
def Rubato.step [F32Pcm F] (rubato : Rubato F R) (cache : Option R) (call : Call F) :
    Option (Option R) :=
  some (resample_with_cache rubato call.samples call.from_rate call.to_rate cache).2

section Reached

variable [F32Pcm F] {rubato : Rubato F R} {cache : Option R} {call : Call F}

theorem resample_with_cache_of_resamples (h : call.resamples) :
    resample_with_cache rubato call.samples call.from_rate call.to_rate cache =
      let samples := call.samples.map fun s => if F32Pcm.is_finite s then s else 0
      match rubato.resampler call.ratio call.samples.length cache with
      | (.error e, cache) => (.error e, cache)
      | (.ok resampler, _) =>
        match rubato.process resampler [samples] with
        | (.error e, resampler) => (.error (.err ["Resampling failed: " ++ e]), some resampler)
        | (.ok out, resampler) => (.ok (out.head?.getD []), some resampler) := by
  obtain ⟨hearly, hrates⟩ := Bool.and_eq_true_iff.mp h
  unfold resample_with_cache
  rw [if_neg (by simpa using hearly), if_neg (by simpa using hrates)]
  dsimp only
  rw [List.length_map]
  rfl

theorem resample_with_cache_of_not_resamples (h : call.resamples = false) :
    (resample_with_cache rubato call.samples call.from_rate call.to_rate cache).2 = cache := by
  unfold resample_with_cache
  split
  · rfl
  · rename_i hearly
    rw [if_pos]
    simpa [Call.resamples, hearly] using h

/-- The call is the run of `process` on the resampler that it reaches. -/
theorem resample_with_cache_of_reached {resampler : R}
    (h : rubato.reached cache call = some resampler) :
    resample_with_cache rubato call.samples call.from_rate call.to_rate cache =
      match rubato.process resampler
        [call.samples.map fun s => if F32Pcm.is_finite s then s else 0] with
      | (.error e, resampler) => (.error (.err ["Resampling failed: " ++ e]), some resampler)
      | (.ok out, resampler) => (.ok (out.head?.getD []), some resampler) := by
  unfold Rubato.reached at h
  split at h
  · rename_i hresamples
    rw [resample_with_cache_of_resamples hresamples]
    cases hresampler : rubato.resampler call.ratio call.samples.length cache with
    | mk result cache' =>
      rw [hresampler] at h
      cases result with
      | error e => simp [Except.toOption] at h
      | ok r =>
        obtain rfl : r = resampler := by simpa [Except.toOption] using h
        rfl
  · simp at h

/-- A call that reaches none does not depend on `process`. -/
theorem resample_with_cache_of_not_reached (h : rubato.reached cache call = none)
    (process : R → List (List F) → Except String (List (List F)) × R) :
    resample_with_cache { rubato with process } call.samples call.from_rate call.to_rate cache =
      resample_with_cache rubato call.samples call.from_rate call.to_rate cache := by
  by_cases hresamples : call.resamples
  · rw [Rubato.reached, if_pos hresamples] at h
    rw [resample_with_cache_of_resamples hresamples, resample_with_cache_of_resamples hresamples]
    have hsame : ({ rubato with process } : Rubato F R).resampler call.ratio call.samples.length
        cache = rubato.resampler call.ratio call.samples.length cache := rfl
    rw [hsame]
    cases hresampler : rubato.resampler call.ratio call.samples.length cache with
    | mk result cache' =>
      rw [hresampler] at h
      cases result with
      | error e => rfl
      | ok r => simp [Except.toOption] at h
  · unfold resample_with_cache
    split
    · rfl
    · rename_i hearly
      have hrates : call.from_rate = call.to_rate := by
        simpa [Call.resamples, hearly] using hresamples
      rw [if_pos hrates, if_pos hrates]

end Reached

/-! ## The crate -/

/-- What the crate promises: the chunk size given at creation bounds the later ones, and the
ratio stays. -/
structure Rubato.Lawful (rubato : Rubato F R) (ratio : R → ℚ) (max_chunk : R → Nat) : Prop where
  new : ∀ q n r, rubato.new q n = .ok r → ratio r = q ∧ max_chunk r = n
  accepts : ∀ r n, (rubato.set_chunk_size r n).1 ↔ 1 ≤ n ∧ n ≤ max_chunk r
  set_chunk_size : ∀ r n, ratio (rubato.set_chunk_size r n).2 = ratio r ∧
    max_chunk (rubato.set_chunk_size r n).2 = max_chunk r
  process : ∀ r waves, ratio (rubato.process r waves).2 = ratio r ∧
    max_chunk (rubato.process r waves).2 = max_chunk r

variable {rubato : Rubato F R} {ratio : R → ℚ} {max_chunk : R → Nat}

variable (rubato ratio) in
/-- If `process` is run, the resampler has the ratio of the call. -/
def OwnRatio (cache : Option R) (call : Call F) : Prop :=
  ∀ resampler, rubato.reached cache call = some resampler → ratio resampler = call.ratio

variable (ratio max_chunk) in
/-- The samples fit a cached resampler of another ratio. -/
def Stale (cache : Option R) (call : Call F) : Prop :=
  call.resamples ∧ ∃ r, cache = some r ∧ call.samples.length ≤ max_chunk r ∧ ratio r ≠ call.ratio

theorem Call.one_le_length {call : Call F} (h : call.resamples) : 1 ≤ call.samples.length := by
  obtain ⟨hearly, -⟩ := Bool.and_eq_true_iff.mp h
  apply List.length_pos_of_ne_nil
  rintro hnil
  simp [hnil] at hearly

/-- A new resampler in place of the cached one. -/
def Rubato.fresh (rubato : Rubato F R) (q : ℚ) (n : Nat) (cache : Option R) :
    Except Fault R × Option R :=
  match rubato.new q n with
  | .ok r => (.ok r, some r)
  | .error e => (.error (.err ["Resampler init failed: " ++ e]), cache)

theorem Rubato.resampler_none (q : ℚ) (n : Nat) :
    rubato.resampler q n none = rubato.fresh q n none := rfl

theorem Rubato.resampler_some (q : ℚ) (n : Nat) (r : R) :
    rubato.resampler q n (some r) =
      if (rubato.set_chunk_size r n).1 then
        (.ok (rubato.set_chunk_size r n).2, some (rubato.set_chunk_size r n).2)
      else rubato.fresh q n (some (rubato.set_chunk_size r n).2) := by
  unfold Rubato.resampler Rubato.fresh
  dsimp only
  generalize rubato.set_chunk_size r n = p
  obtain ⟨accepted, r'⟩ := p
  cases accepted <;> rfl

/-- A new resampler has the ratio it is asked for. -/
theorem Rubato.Lawful.fresh_ratio (h : rubato.Lawful ratio max_chunk) {q : ℚ} {n : Nat}
    {cache : Option R} {resampler : R}
    (hr : (rubato.fresh q n cache).1.toOption = some resampler) : ratio resampler = q := by
  unfold Rubato.fresh at hr
  cases hnew : rubato.new q n with
  | error e => simp [hnew, Except.toOption] at hr
  | ok r =>
    obtain rfl : r = resampler := by simpa [hnew, Except.toOption] using hr
    exact (h.new q n r hnew).1

/-- The cached resampler is taken if the samples fit, whatever the ratio. -/
theorem Rubato.Lawful.resampler_cached (h : rubato.Lawful ratio max_chunk) {q : ℚ} {n : Nat}
    (hn : 1 ≤ n) {r : R} (hfits : n ≤ max_chunk r) :
    ∃ r', (rubato.resampler q n (some r)).1.toOption = some r' ∧ ratio r' = ratio r := by
  have haccepts := (h.accepts r n).mpr ⟨hn, hfits⟩
  refine ⟨(rubato.set_chunk_size r n).2, ?_, (h.set_chunk_size r n).1⟩
  rw [Rubato.resampler_some, if_pos haccepts]
  rfl

theorem Rubato.Lawful.resampler_new (h : rubato.Lawful ratio max_chunk) {q : ℚ} {n : Nat}
    {cache : Option R} (hfits : ∀ r, cache = some r → ¬ n ≤ max_chunk r) {resampler : R}
    (hr : (rubato.resampler q n cache).1.toOption = some resampler) : ratio resampler = q := by
  cases cache with
  | none =>
    rw [Rubato.resampler_none] at hr
    exact h.fresh_ratio hr
  | some r =>
    have hrefuses := mt (h.accepts r n).mp fun haccepts => hfits r rfl haccepts.2
    rw [Rubato.resampler_some, if_neg hrefuses] at hr
    exact h.fresh_ratio hr

/-- One call. -/
theorem Rubato.Lawful.own_ratio_iff (h : rubato.Lawful ratio max_chunk) (cache : Option R)
    (call : Call F) : OwnRatio rubato ratio cache call ↔ ¬ Stale ratio max_chunk cache call := by
  unfold OwnRatio Rubato.reached
  by_cases hresamples : call.resamples
  · rw [if_pos hresamples]
    by_cases hfits : ∃ r, cache = some r ∧ call.samples.length ≤ max_chunk r
    · obtain ⟨r, rfl, hfits⟩ := hfits
      obtain ⟨r', hr', hratio⟩ :=
        h.resampler_cached (q := call.ratio) (Call.one_le_length hresamples) hfits
      constructor
      · rintro hown ⟨-, _, hsame, -, hne⟩
        obtain rfl := Option.some.inj hsame
        exact hne (hratio ▸ hown r' hr')
      · intro hfresh resampler hresampler
        obtain rfl := Option.some.inj (hr'.symm.trans hresampler)
        by_contra hne
        exact hfresh ⟨hresamples, r, rfl, hfits, hratio ▸ hne⟩
    · have hnone : ∀ r, cache = some r → ¬ call.samples.length ≤ max_chunk r :=
        fun r hr hle => hfits ⟨r, hr, hle⟩
      refine iff_of_true (fun resampler hr => h.resampler_new hnone hr) ?_
      rintro ⟨-, r, hr, hle, -⟩
      exact hnone r hr hle
  · rw [if_neg hresamples]
    refine iff_of_true (fun _ hr => nomatch hr) ?_
    rintro ⟨hresamples', -⟩
    exact hresamples hresamples'

/-- Every call of a run gets a resampler of its own ratio exactly when none is let in by its
size to one of another ratio. -/
theorem own_ratio_run_iff [F32Pcm F] (h : rubato.Lawful ratio max_chunk) (calls : List (Call F)) :
    Steps.EachStep rubato.step (OwnRatio rubato ratio) none calls ↔
      Steps.EachStep rubato.step (fun cache call => ¬ Stale ratio max_chunk cache call) none
        calls := by
  have hsame : OwnRatio rubato ratio = fun cache call => ¬ Stale ratio max_chunk cache call := by
    funext cache call
    exact propext (h.own_ratio_iff cache call)
  rw [hsame]

/-! ## Rates that stay -/

variable (ratio) in
/-- A cached resampler has the ratio `q`. -/
def CachedAt (q : ℚ) (cache : Option R) : Prop := ∀ r, cache = some r → ratio r = q

theorem Rubato.Lawful.resampler_at (h : rubato.Lawful ratio max_chunk) {q : ℚ} {n : Nat}
    {cache : Option R} (hcache : CachedAt ratio q cache) :
    (∀ r, (rubato.resampler q n cache).1.toOption = some r → ratio r = q) ∧
      CachedAt ratio q (rubato.resampler q n cache).2 := by
  have hfresh : ∀ {cache : Option R}, CachedAt ratio q cache →
      (∀ r, (rubato.fresh q n cache).1.toOption = some r → ratio r = q) ∧
        CachedAt ratio q (rubato.fresh q n cache).2 := by
    intro cache hcache
    refine ⟨fun r hr => h.fresh_ratio hr, ?_⟩
    unfold Rubato.fresh
    cases hnew : rubato.new q n with
    | error e => exact hcache
    | ok r =>
      rintro _ ⟨⟩
      exact (h.new q n r hnew).1
  cases cache with
  | none => exact hfresh hcache
  | some r =>
    have hratio : ratio (rubato.set_chunk_size r n).2 = q :=
      (h.set_chunk_size r n).1.trans (hcache r rfl)
    have hset : CachedAt ratio q (some (rubato.set_chunk_size r n).2) := by
      rintro _ ⟨⟩
      exact hratio
    rw [Rubato.resampler_some]
    split
    · refine ⟨?_, hset⟩
      rintro _ ⟨⟩
      exact hratio
    · exact hfresh hset

theorem Rubato.Lawful.step_at [F32Pcm F] (h : rubato.Lawful ratio max_chunk) {cache : Option R}
    {call : Call F} (hcache : CachedAt ratio call.ratio cache) :
    CachedAt ratio call.ratio
      (resample_with_cache rubato call.samples call.from_rate call.to_rate cache).2 := by
  by_cases hresamples : call.resamples
  · obtain ⟨hresampler, hcache'⟩ := h.resampler_at (n := call.samples.length) hcache
    rw [resample_with_cache_of_resamples hresamples]
    dsimp only
    cases hlookup : rubato.resampler call.ratio call.samples.length cache with
    | mk result cache' =>
      rw [hlookup] at hresampler hcache'
      cases result with
      | error e => exact hcache'
      | ok r =>
        have hratio := hresampler r rfl
        have hprocess := (h.process r
          [call.samples.map fun s => if F32Pcm.is_finite s then s else 0]).1
        cases hrun : rubato.process r
            [call.samples.map fun s => if F32Pcm.is_finite s then s else 0] with
        | mk out r' =>
          rw [hrun] at hprocess
          have hlast : CachedAt ratio call.ratio (some r') := by
            rintro _ ⟨⟩
            exact hprocess.trans hratio
          dsimp only
          rw [hrun]
          cases out <;> exact hlast
  · rw [resample_with_cache_of_not_resamples (Bool.not_eq_true _ ▸ hresamples)]
    exact hcache

/-- Calls of one ratio, as of a session whose rate is set once, get resamplers of that ratio. -/
theorem own_ratio_of_one_ratio [F32Pcm F] (h : rubato.Lawful ratio max_chunk) {q : ℚ}
    {calls : List (Call F)} (hq : ∀ call ∈ calls, call.ratio = q) :
    Steps.EachStep rubato.step (OwnRatio rubato ratio) none calls := by
  have hstart : CachedAt ratio q (none : Option R) := fun _ h => nomatch h
  generalize (none : Option R) = cache at hstart
  induction calls generalizing cache with
  | nil => trivial
  | cons call calls ih =>
    obtain ⟨hcall, hcalls⟩ := List.forall_mem_cons.mp hq
    refine (Steps.eachStep_cons rfl).mpr ⟨?_, ih hcalls _ ?_⟩
    · intro resampler hr
      unfold Rubato.reached at hr
      split at hr
      · rw [hcall] at hr ⊢
        exact (h.resampler_at hstart).1 resampler hr
      · simp at hr
    · rw [← hcall] at hstart ⊢
      exact h.step_at hstart

/-! ## A client that changes its rate -/

/-- A resampler of silence: its ratio and its largest chunk. -/
def silence : Rubato Int (ℚ × Nat) where
  new q n := .ok (q, n)
  set_chunk_size r n := (1 ≤ n ∧ n ≤ r.2, r)
  process r waves := (.ok (waves.map fun w => List.replicate ⌊w.length * r.1⌋.toNat 0), r)

theorem silence_lawful : silence.Lawful Prod.fst Prod.snd where
  new _ _ _ h := Except.ok.inj h ▸ ⟨rfl, rfl⟩
  accepts _ _ := decide_eq_true_iff
  set_chunk_size _ _ := ⟨rfl, rfl⟩
  process _ _ := ⟨rfl, rfl⟩

/-- 1/4 ms at 48 kHz, then 1/4 ms at 8 kHz. -/
def rate_change : List (Call Int) :=
  [{ samples := List.replicate 12 0, from_rate := 48000, to_rate := 16000 },
    { samples := List.replicate 2 0, from_rate := 8000, to_rate := 16000 }]

theorem rate_change_keeps_ratio :
    ¬ Steps.EachStep silence.step (OwnRatio silence Prod.fst) none rate_change := by
  intro h
  obtain ⟨-, h⟩ := (Steps.eachStep_cons rfl).mp h
  obtain ⟨hown, -⟩ := (Steps.eachStep_cons rfl).mp h
  have hratio : (16000 / 48000 : ℚ) = (16000 : Nat) / (8000 : Nat) :=
    hown (16000 / 48000, 12) rfl
  norm_num at hratio

/-- The second chunk does not fit the resampler of the first, and the third has the ratio of the
second. -/
def longer_chunk : List (Call Int) :=
  [{ samples := List.replicate 12 0, from_rate := 48000, to_rate := 16000 },
    { samples := List.replicate 24 0, from_rate := 8000, to_rate := 16000 },
    { samples := List.replicate 6 0, from_rate := 8000, to_rate := 16000 }]

theorem own_ratio_of_longer_chunk :
    Steps.EachStep silence.step (OwnRatio silence Prod.fst) none longer_chunk := by
  refine (own_ratio_run_iff silence_lawful longer_chunk).mpr ?_
  refine (Steps.eachStep_cons rfl).mpr ⟨?_, (Steps.eachStep_cons rfl).mpr ⟨?_,
    (Steps.eachStep_cons rfl).mpr ⟨?_, trivial⟩⟩⟩
  · rintro ⟨-, r, hr, -⟩
    cases hr
  · rintro ⟨-, r, hr, hfits, -⟩
    obtain rfl : ((16000 / 48000 : ℚ), 12) = r := Option.some.inj hr
    exact absurd hfits (by decide)
  · rintro ⟨-, r, hr, -, hratio⟩
    obtain rfl : ((16000 / 8000 : ℚ), 24) = r := Option.some.inj hr
    exact hratio rfl

end Gigastt.Streaming
