import Gigastt.Metrics.Code
import Gigastt.Lib.Loop
import Mathlib.Data.List.GetD

/-!
# Histograms under any order of calls

The bounds belong to the family and the counts to the series. A series falls out of step when
a call puts a longer bucket list on its family. Counts are below 2^64 throughout.
-/

namespace Gigastt.Metrics

open Steps Words

variable {V : Type} [F64 V]

/-! ## Finite numbers -/

/-- What `f64` guarantees of finite numbers. -/
structure FiniteOrder (V : Type) [F64 V] (finite : V → Prop) : Prop where
  comparable : ∀ a b : V, finite a → finite b → F64.partial_cmp a b ≠ none
  total : ∀ a b : V, finite a → finite b → F64.le a b ∨ F64.le b a
  trans : ∀ a b c : V, finite a → finite b → finite c → F64.le a b → F64.le b c → F64.le a c
  defaults_finite : ∀ b ∈ (DEFAULT_BUCKETS : List V), finite b
  defaults_sorted : (DEFAULT_BUCKETS : List V).Pairwise fun a b => F64.le a b

variable {finite : V → Prop}

theorem F64.le_iff {a b : V} (h : F64.partial_cmp a b ≠ none) :
    F64.le a b ↔ (F64.partial_cmp a b).getD .eq ≠ .gt := by
  unfold F64.le
  cases hcmp : F64.partial_cmp a b with
  | none => exact absurd hcmp h
  | some o => cases o <;> simp

theorem normalised_sublist (buckets : List V) :
    List.Sublist (normalised buckets)
      (buckets.insertionSort fun a b => (F64.partial_cmp a b).getD .eq ≠ .gt) :=
  List.destutter_sublist ..

theorem normalised_finite {buckets : List V} (h : ∀ b ∈ buckets, finite b) :
    ∀ b ∈ normalised buckets, finite b := by
  intro b hb
  exact h b ((List.mem_insertionSort _).mp ((normalised_sublist buckets).subset hb))

theorem normalised_sorted (order : FiniteOrder V finite) {buckets : List V}
    (h : ∀ b ∈ buckets, finite b) : (normalised buckets).Pairwise fun a b => F64.le a b := by
  refine List.Pairwise.sublist (normalised_sublist buckets) ?_
  -- The sort goes on among finite numbers, and there the order is total.
  have hle : ∀ a b : { b : V // finite b },
      F64.le a.1 b.1 ↔ (F64.partial_cmp a.1 b.1).getD .eq ≠ .gt :=
    fun a b => F64.le_iff (order.comparable a b a.2 b.2)
  have htotal : Std.Total fun a b : { b : V // finite b } =>
      (F64.partial_cmp a.1 b.1).getD .eq ≠ .gt :=
    ⟨fun a b => by rw [← hle, ← hle]; exact order.total a b a.2 b.2⟩
  have htrans : IsTrans _ fun a b : { b : V // finite b } =>
      (F64.partial_cmp a.1 b.1).getD .eq ≠ .gt :=
    ⟨fun a b c => by rw [← hle, ← hle, ← hle]; exact order.trans a b c a.2 b.2 c.2⟩
  obtain ⟨l, rfl⟩ : ∃ l : List { b : V // finite b }, l.map Subtype.val = buckets :=
    ⟨buckets.attach.map fun b => ⟨b.1, h b.1 b.2⟩, by simp⟩
  rw [← List.map_insertionSort (fun a b : { b : V // finite b } =>
    (F64.partial_cmp a.1 b.1).getD .eq ≠ .gt) _ _ _ fun _ _ _ _ => Iff.rfl]
  rw [List.pairwise_map]
  exact (List.pairwise_insertionSort _ l).imp fun hab => (hle _ _).mpr hab

/-! ## One observation -/

/-- What an observation adds to the count of bound `i`. -/
def bump (value : V) (buckets : List V) (i : Nat) : Nat :=
  if buckets[i]?.any (F64.le value) then 1 else 0

theorem bump_le_one (value : V) (buckets : List V) (i : Nat) : bump value buckets i ≤ 1 := by
  unfold bump
  split <;> omega

/-- A value that is below a bound is below the later ones. -/
theorem bump_mono (order : FiniteOrder V finite) {value : V} {buckets : List V}
    (hvalue : finite value) (hfinite : ∀ b ∈ buckets, finite b)
    (hsorted : buckets.Pairwise fun a b => F64.le a b) {i j : Nat} (hij : i ≤ j)
    (hj : j < buckets.length) : bump value buckets i ≤ bump value buckets j := by
  have hi : i < buckets.length := by omega
  unfold bump
  rw [List.getElem?_eq_getElem hi, List.getElem?_eq_getElem hj]
  simp only [Option.any_some]
  by_cases hle : F64.le value buckets[i]
  · have hle' : F64.le value buckets[j] := by
      rcases Nat.eq_or_lt_of_le hij with rfl | hlt
      · exact hle
      · have hmem := hfinite _ (List.getElem_mem hi)
        exact order.trans _ _ _ hvalue hmem (hfinite _ (List.getElem_mem hj)) hle
          (List.pairwise_iff_getElem.mp hsorted i j hi hj hlt)
    rw [if_pos hle, if_pos hle']
  · rw [if_neg hle]
    exact Nat.zero_le _

/-- Bound `i` comes first, and the others follow it. -/
theorem bump_cons (value upper : V) (buckets : List V) (i j : Nat) :
    (if i ≤ j then bump value (upper :: buckets) (j - i) else 0) =
      (if i = j then bump value [upper] 0 else 0) +
        if i + 1 ≤ j then bump value buckets (j - (i + 1)) else 0 := by
  rcases Nat.lt_trichotomy i j with hlt | rfl | hgt
  · obtain ⟨k, rfl⟩ := Nat.exists_eq_add_of_lt hlt
    have hk : i + k + 1 - i = k + 1 := by omega
    have hk' : i + k + 1 - (i + 1) = k := by omega
    rw [if_pos (by omega), if_neg (by omega), if_pos (by omega), hk, hk', Nat.zero_add]
    rfl
  · rw [if_pos (Nat.le_refl i), if_pos rfl, if_neg (by omega), Nat.sub_self]
    rfl
  · rw [if_neg (by omega), if_neg (by omega), if_neg (by omega)]

theorem getD_set (counts : List Nat) {i c : Nat} (h : counts[i]? = some c) (j : Nat) :
    (counts.set i (c + 1)).getD j 0 = counts.getD j 0 + if i = j then 1 else 0 := by
  obtain ⟨hi, -⟩ := List.getElem?_eq_some_iff.mp h
  rw [List.getD_eq_getElem?_getD, List.getD_eq_getElem?_getD, List.getElem?_set]
  by_cases hij : i = j
  · subst hij
    rw [if_pos rfl, if_pos hi, if_pos rfl, h]
    rfl
  · rw [if_neg hij, if_neg hij, Nat.add_zero]

/-- With a count for each bound, the loop does not panic. -/
theorem count_buckets_spec (value : V) {buckets : List V} {i : Nat} {counts : List Nat}
    (h : i + buckets.length ≤ counts.length) :
    ∃ counts', count_buckets value buckets i counts = .ok counts' ∧
      counts'.length = counts.length ∧
      ∀ j, counts'.getD j 0 = counts.getD j 0 + if i ≤ j then bump value buckets (j - i) else 0 := by
  induction buckets generalizing i counts with
  | nil => exact ⟨counts, rfl, rfl, fun j => by simp [bump]⟩
  | cons upper buckets ih =>
    rw [List.length_cons] at h
    obtain ⟨c, hc⟩ : ∃ c, counts[i]? = some c := ⟨_, List.getElem?_eq_getElem (by omega)⟩
    unfold count_buckets
    by_cases hle : F64.le value upper
    · have hset : i + 1 + buckets.length ≤ (counts.set i (c + 1)).length := by
        rw [List.length_set]
        omega
      obtain ⟨counts', hrest, hlen, hcounts⟩ := ih hset
      refine ⟨counts', ?_, by rw [hlen, List.length_set], fun j => ?_⟩
      · simp only [if_pos hle, index, hc]
        exact hrest
      · have hfirst : bump value [upper] 0 = 1 := by simp [bump, hle]
        rw [hcounts, getD_set counts hc, bump_cons, hfirst, Nat.add_assoc]
    · have hnext : i + 1 + buckets.length ≤ counts.length := by omega
      obtain ⟨counts', hrest, hlen, hcounts⟩ := ih hnext
      refine ⟨counts', ?_, hlen, fun j => ?_⟩
      · simp only [if_neg hle]
        exact hrest
      · have hfirst : bump value [upper] 0 = 0 := by simp [bump, hle]
        rw [hcounts, bump_cons, hfirst]
        simp

/-! ## Counts that fit the bounds -/

/-- There is a count for each of `n` bounds, and they do not decrease. -/
def Fits (n : Nat) (counts : List Nat) : Prop :=
  n ≤ counts.length ∧ ∀ i j, i ≤ j → j < n → counts.getD i 0 ≤ counts.getD j 0

theorem getD_zeros (n i : Nat) : (List.replicate n 0).getD i 0 = 0 := by
  rw [List.getD_eq_getElem?_getD, List.getElem?_replicate]
  split <;> rfl

theorem fits_zeros (n : Nat) : Fits n (List.replicate n 0) := by
  refine ⟨by simp, fun i j _ _ => ?_⟩
  rw [getD_zeros]
  exact Nat.zero_le _

theorem fits_iff_take {n : Nat} {counts : List Nat} :
    Fits n counts ↔ n ≤ counts.length ∧ (counts.take n).Pairwise (· ≤ ·) := by
  refine and_congr_right fun hlen => ?_
  rw [List.pairwise_iff_getElem]
  simp only [List.length_take, List.getElem_take]
  constructor
  · intro h i j hi hj hij
    have hmono := h i j (Nat.le_of_lt hij) (by omega)
    rwa [List.getD_eq_getElem _ _ (by omega), List.getD_eq_getElem _ _ (by omega)] at hmono
  · intro h i j hij hj
    rcases Nat.eq_or_lt_of_le hij with rfl | hlt
    · exact Nat.le_refl _
    · rw [List.getD_eq_getElem _ _ (by omega), List.getD_eq_getElem _ _ (by omega)]
      exact h i j (by omega) (by omega) hlt

theorem map_snd_zip_take {α β : Type} {l : List α} {l' : List β} (h : l.length ≤ l'.length) :
    (l.zip l').map (·.2) = l'.take l.length := by
  induction l generalizing l' with
  | nil => rfl
  | cons a l ih =>
    cases l' with
    | nil => simp at h
    | cons b l' =>
      rw [List.length_cons, List.length_cons] at h
      rw [List.zip_cons_cons, List.map_cons, ih (by omega), List.length_cons, List.take_succ_cons]

theorem le_length_lengthened (n : Nat) (counts : List Nat) : n ≤ (lengthened n counts).length := by
  unfold lengthened
  split
  · rw [List.length_append, List.length_replicate]
    omega
  · omega

theorem getD_le_of_forall {n : Nat} {counts : List Nat} (h : ∀ c ∈ counts, c ≤ n) (i : Nat) :
    counts.getD i 0 ≤ n := by
  rw [List.getD_eq_getElem?_getD]
  cases hc : counts[i]? with
  | none => exact Nat.zero_le n
  | some c => exact h c (List.mem_of_getElem? hc)

theorem forall_of_getD_le {n : Nat} {counts : List Nat} (h : ∀ i, counts.getD i 0 ≤ n) :
    ∀ c ∈ counts, c ≤ n := by
  intro c hc
  obtain ⟨i, hi⟩ := List.getElem?_of_mem hc
  have hle := h i
  rw [List.getD_eq_getElem?_getD, hi] at hle
  exact hle

theorem getD_lengthened (n : Nat) (counts : List Nat) (i : Nat) :
    (lengthened n counts).getD i 0 = counts.getD i 0 := by
  unfold lengthened
  split
  · rw [List.getD_eq_getElem?_getD, List.getD_eq_getElem?_getD, List.getElem?_append]
    split
    · rfl
    · rename_i hlen
      rw [List.getElem?_replicate, List.getElem?_eq_none (by omega)]
      split <;> rfl
  · rfl

/-- An observation is counted without a panic. -/
theorem record_spec (series : HistogramSeries V) (buckets : List V) (value : V) :
    ∃ counts, series.record buckets value =
        .ok { counts, sum := series.sum + value, count := series.count + 1 } ∧
      count_buckets value buckets 0 (lengthened buckets.length series.counts) = .ok counts ∧
      buckets.length ≤ counts.length ∧
      ∀ i, counts.getD i 0 = series.counts.getD i 0 + bump value buckets i := by
  have hlen := le_length_lengthened buckets.length series.counts
  obtain ⟨counts, hok, hlength, hcounts⟩ := count_buckets_spec value (i := 0) (by simpa using hlen)
  refine ⟨counts, ?_, hok, hlength ▸ hlen, fun i => ?_⟩
  · unfold HistogramSeries.record
    rw [hok]
    rfl
  · rw [hcounts i, getD_lengthened, if_pos (Nat.zero_le i), Nat.sub_zero]

theorem fits_bumped (order : FiniteOrder V finite) {value : V} {buckets : List V}
    {counts counts' : List Nat} (hvalue : finite value) (hfinite : ∀ b ∈ buckets, finite b)
    (hsorted : buckets.Pairwise fun a b => F64.le a b) (hlen : buckets.length ≤ counts'.length)
    (hcounts : ∀ i, counts'.getD i 0 = counts.getD i 0 + bump value buckets i)
    (h : Fits buckets.length counts) : Fits buckets.length counts' := by
  refine ⟨hlen, fun i j hij hj => ?_⟩
  rw [hcounts, hcounts]
  exact Nat.add_le_add (h.2 i j hij hj) (bump_mono order hvalue hfinite hsorted hij hj)

/-! ## What a rendering shows -/

omit [F64 V] in
theorem mapM_shown {series : HistogramSeries V} {buckets : List V} {k : Nat}
    (h : k + buckets.length ≤ series.counts.length) :
    ((buckets.zipIdx k).mapM fun (upper, i) => do
        let c ← index series.counts i
        pure (upper, c)) = .ok (buckets.zip (series.counts.drop k)) := by
  induction buckets generalizing k with
  | nil => rfl
  | cons upper buckets ih =>
    rw [List.length_cons] at h
    have hk : k < series.counts.length := by omega
    rw [List.zipIdx_cons, List.mapM_cons, ih (by omega), List.drop_eq_getElem_cons hk]
    simp only [index, List.getElem?_eq_getElem hk]
    rfl

omit [F64 V] in
theorem shown_eq {series : HistogramSeries V} {buckets : List V}
    (h : buckets.length ≤ series.counts.length) :
    series.shown buckets = .ok (buckets.zip series.counts) :=
  mapM_shown (k := 0) (by simpa using h)

omit [F64 V] in
theorem le_length_of_shown {series : HistogramSeries V} {buckets : List V} {shown : List (V × Nat)}
    (h : series.shown buckets = .ok shown) : buckets.length ≤ series.counts.length := by
  by_contra hlen
  obtain ⟨upper, hupper⟩ : ∃ upper, buckets[series.counts.length]? = some upper :=
    ⟨_, List.getElem?_eq_getElem (by omega)⟩
  have hlast : (upper, series.counts.length) ∈ buckets.zipIdx :=
    List.mem_zipIdx_iff_getElem?.mpr hupper
  obtain ⟨_, hok⟩ := mapM_isOk.mp ⟨shown, h⟩ _ hlast
  simp [index, bind, Except.bind] at hok

omit [F64 V] in
theorem mem_sorted {K B : Type} [DecidableEq K] {cmp : K → K → Ordering}
    {map : AList fun _ : K => B} {k : K} {b : B} :
    (k, b) ∈ sorted cmp map ↔ map.lookup k = some b := by
  unfold sorted
  rw [List.mem_map]
  constructor
  · rintro ⟨e, he, heq⟩
    obtain ⟨rfl, rfl⟩ := Prod.mk.inj heq
    exact AList.mem_lookup_iff.mpr ((List.mem_insertionSort _).mp he)
  · intro h
    exact ⟨⟨k, b⟩, (List.mem_insertionSort _).mpr (AList.mem_lookup_iff.mp h), rfl⟩

/-! ## Registries -/

def Call.Finite (finite : V → Prop) : Call V → Prop
  | .register_histogram _ _ buckets => ∀ b ∈ buckets, finite b
  | .histogram_record _ _ value => finite value
  | _ => True

/-- Whether the call records an observation for the series. -/
def Call.observes (name : Text) (labels : Labels) : Call V → Bool
  | .histogram_record n l _ => n = name ∧ sort_labels l = labels
  | _ => false

namespace MetricsRegistry

def EachSeries (r : MetricsRegistry V)
    (p : Text → HistogramFamily V → Labels → HistogramSeries V → Prop) : Prop :=
  ∀ name labels series, (r.family name).series.lookup labels = some series →
    p name (r.family name) labels series

/-- In a rendering after these calls, each series has a count for each bound of its family. The
counts do not decrease and are at most the one of `+Inf`, which is the number of observations. -/
def Valid (r : MetricsRegistry V) (calls : List (Call V)) : Prop :=
  r.EachSeries fun name family labels series =>
    ∃ shown, series.shown family.buckets = .ok shown ∧
      shown.map (·.1) = family.buckets ∧ (shown.map (·.2)).Pairwise (· ≤ ·) ∧
      (∀ c ∈ shown.map (·.2), c ≤ series.count) ∧
      series.count = calls.countP (Call.observes name labels)

/-- Bounds that the call puts on a family fit the series that the family has. An observation
that brings the default bounds counts on top of its own series, whatever the length of that. -/
def Keeps (r : MetricsRegistry V) : Call V → Prop
  | .register_histogram name _ buckets =>
    ∀ labels series, (r.family name).series.lookup labels = some series →
      Fits (normalised buckets).length series.counts
  | .histogram_record name labels value =>
    (r.family name).buckets = [] →
      ∀ labels' series, (r.family name).series.lookup labels' = some series →
        if labels' = sort_labels labels then
          ∀ i j, i ≤ j → j < (DEFAULT_BUCKETS : List V).length →
            series.counts.getD i 0 + bump value DEFAULT_BUCKETS i ≤
              series.counts.getD j 0 + bump value DEFAULT_BUCKETS j
        else Fits (DEFAULT_BUCKETS : List V).length series.counts
  | _ => True

/-- What holds after any calls with finite numbers. -/
structure Inv (finite : V → Prop) (r : MetricsRegistry V) (calls : List (Call V)) : Prop where
  finite : ∀ name, ∀ b ∈ (r.family name).buckets, finite b
  sorted : ∀ name, (r.family name).buckets.Pairwise fun a b => F64.le a b
  counts_le : r.EachSeries fun _ _ _ series => ∀ c ∈ series.counts, c ≤ series.count
  observed : ∀ name labels, ((r.family name).series.lookup labels).elim 0 (·.count) =
    calls.countP (Call.observes name labels)

variable {r : MetricsRegistry V} {calls : List (Call V)}

theorem inv_new : (new : MetricsRegistry V).Inv finite [] :=
  ⟨nofun, fun _ => .nil, nofun, fun _ _ => rfl⟩

/-- Only the first two of the things that `Valid` says can fail. -/
theorem Inv.valid_iff (hinv : r.Inv finite calls) :
    r.Valid calls ↔ r.EachSeries fun _ family _ series => Fits family.buckets.length series.counts := by
  constructor
  · intro h name labels series hs
    obtain ⟨shown, hshown, -, hmono, -, -⟩ := h name labels series hs
    have hlen := le_length_of_shown hshown
    rw [shown_eq hlen] at hshown
    obtain rfl := Except.ok.inj hshown
    rw [map_snd_zip_take hlen] at hmono
    exact fits_iff_take.mpr ⟨hlen, hmono⟩
  · intro h name labels series hs
    obtain ⟨hlen, hmono⟩ := fits_iff_take.mp (h name labels series hs)
    refine ⟨_, shown_eq hlen, List.map_fst_zip hlen, ?_, ?_, ?_⟩
    · rwa [map_snd_zip_take hlen]
    · rw [map_snd_zip_take hlen]
      exact fun c hc => hinv.counts_le name labels series hs c (List.mem_of_mem_take hc)
    · have hobserved := hinv.observed name labels
      rw [hs] at hobserved
      exact hobserved

/-! ## What a call does to the histograms -/

/-- The bounds under which an observation is recorded. -/
def bounds (r : MetricsRegistry V) (name : Text) : List V :=
  if (r.family name).buckets.isEmpty then DEFAULT_BUCKETS else (r.family name).buckets

/-- The series that an observation goes to, before it. -/
def target (r : MetricsRegistry V) (name : Text) (labels : Labels) : HistogramSeries V :=
  ((r.family name).series.lookup (sort_labels labels)).getD (.new (r.bounds name))

theorem bounds_of_nil {r : MetricsRegistry V} {name : Text} (h : (r.family name).buckets = []) :
    r.bounds name = DEFAULT_BUCKETS := by
  simp [bounds, h]

theorem bounds_of_ne_nil {r : MetricsRegistry V} {name : Text} (h : (r.family name).buckets ≠ []) :
    r.bounds name = (r.family name).buckets := by
  simp [bounds, h]

theorem target_of_none {r : MetricsRegistry V} {name : Text} {labels : Labels}
    (h : (r.family name).series.lookup (sort_labels labels) = none) :
    r.target name labels = .new (r.bounds name) := by
  simp [target, h]

theorem target_of_some {r : MetricsRegistry V} {name : Text} {labels : Labels}
    {series : HistogramSeries V}
    (h : (r.family name).series.lookup (sort_labels labels) = some series) :
    r.target name labels = series := by
  simp [target, h]

/-- The registry with a family in place of the one of that name. -/
def put (r : MetricsRegistry V) (name : Text) (family : HistogramFamily V) : MetricsRegistry V :=
  { r with histograms := r.histograms.insert name family }

omit [F64 V] in
theorem family_put_self (r : MetricsRegistry V) (name : Text) (family : HistogramFamily V) :
    (r.put name family).family name = family := by
  simp [MetricsRegistry.family, put]

omit [F64 V] in
theorem family_put_of_ne (r : MetricsRegistry V) {name name' : Text} (family : HistogramFamily V)
    (h : name' ≠ name) : (r.put name family).family name' = r.family name' := by
  simp [MetricsRegistry.family, put, AList.lookup_insert_ne h]

omit [F64 V] in
/-- The family of the name is the only one that changes. -/
theorem eachSeries_put {r : MetricsRegistry V} {name : Text} {family : HistogramFamily V}
    {p : Text → HistogramFamily V → Labels → HistogramSeries V → Prop} :
    (r.put name family).EachSeries p ↔
      (∀ labels series, family.series.lookup labels = some series → p name family labels series) ∧
      ∀ name', name' ≠ name → ∀ labels series,
        (r.family name').series.lookup labels = some series → p name' (r.family name') labels series := by
  constructor
  · intro h
    constructor
    · intro labels series hs
      have hname := h name labels series
      rw [family_put_self] at hname
      exact hname hs
    · intro name' hne labels series hs
      have hname := h name' labels series
      rw [family_put_of_ne r family hne] at hname
      exact hname hs
  · rintro ⟨hself, hothers⟩ name' labels series hs
    by_cases hne : name' = name
    · subst hne
      rw [family_put_self] at hs ⊢
      exact hself labels series hs
    · rw [family_put_of_ne r family hne] at hs ⊢
      exact hothers name' hne labels series hs

theorem register_histogram_eq (r : MetricsRegistry V) (name help : Text) (buckets : List V) :
    r.register_histogram name help buckets =
      r.put name { r.family name with help, buckets := normalised buckets } := rfl

theorem histogram_record_spec (r : MetricsRegistry V) (name : Text) (labels : Labels) (value : V) :
    ∃ series, (r.target name labels).record (r.bounds name) value = .ok series ∧
      r.histogram_record name labels value =
        .ok (r.put name { r.family name with
          buckets := r.bounds name
          series := (r.family name).series.insert (sort_labels labels) series }) ∧
      series.count = (r.target name labels).count + 1 ∧
      (r.bounds name).length ≤ series.counts.length ∧
      ∀ i, series.counts.getD i 0 =
        (r.target name labels).counts.getD i 0 + bump value (r.bounds name) i := by
  obtain ⟨counts, hok, -, hlen, hcounts⟩ := record_spec (r.target name labels) (r.bounds name) value
  refine ⟨_, hok, ?_, rfl, hlen, hcounts⟩
  have hrecord := hok
  unfold target bounds at hrecord
  unfold histogram_record
  simp only [hrecord]
  rfl

/-! ## One call -/

theorem Inv.put (hinv : r.Inv finite calls) {c : Call V} {name : Text}
    {family : HistogramFamily V} (hfinite : ∀ b ∈ family.buckets, finite b)
    (hsorted : family.buckets.Pairwise fun a b => F64.le a b)
    (hcounts : ∀ labels series, family.series.lookup labels = some series →
      ∀ n ∈ series.counts, n ≤ series.count)
    (hobserved : ∀ labels, (family.series.lookup labels).elim 0 (·.count) =
      ((r.family name).series.lookup labels).elim 0 (·.count) +
        (c.observes name labels).toNat)
    (hothers : ∀ name', name' ≠ name → ∀ labels, c.observes name' labels = false) :
    (r.put name family).Inv finite (calls ++ [c]) := by
  refine ⟨fun name' => ?_, fun name' => ?_, eachSeries_put.mpr ⟨hcounts, fun name' _ =>
    hinv.counts_le name'⟩, fun name' labels => ?_⟩
  · by_cases hne : name' = name
    · rw [hne, family_put_self]
      exact hfinite
    · rw [family_put_of_ne r family hne]
      exact hinv.finite name'
  · by_cases hne : name' = name
    · rw [hne, family_put_self]
      exact hsorted
    · rw [family_put_of_ne r family hne]
      exact hinv.sorted name'
  · rw [List.countP_append, ← hinv.observed name' labels, List.countP_singleton]
    by_cases hne : name' = name
    · rw [hne, family_put_self, hobserved]
      cases c.observes name labels <;> rfl
    · rw [family_put_of_ne r family hne, hothers name' hne labels]
      rfl

/-- A call that leaves the histograms alone. -/
theorem Inv.of_eq (hinv : r.Inv finite calls) {r' : MetricsRegistry V} {c : Call V}
    (h : r'.histograms = r.histograms) (hc : ∀ name labels, c.observes name labels = false) :
    r'.Inv finite (calls ++ [c]) := by
  have hfamily : r'.family = r.family := by
    funext name
    unfold MetricsRegistry.family
    rw [h]
  refine ⟨?_, ?_, ?_, fun name labels => ?_⟩
  · rw [hfamily]
    exact hinv.finite
  · rw [hfamily]
    exact hinv.sorted
  · unfold EachSeries
    rw [hfamily]
    exact hinv.counts_le
  · rw [hfamily, hinv.observed, List.countP_append, List.countP_singleton, hc]
    rfl

theorem Inv.register (hinv : r.Inv finite calls) (order : FiniteOrder V finite) {name help : Text}
    {buckets : List V} (hfinite : ∀ b ∈ buckets, finite b) :
    (r.register_histogram name help buckets).Inv finite
      (calls ++ [.register_histogram name help buckets]) := by
  rw [register_histogram_eq]
  exact hinv.put (normalised_finite hfinite) (normalised_sorted order hfinite)
    (hinv.counts_le name) (fun labels => rfl) (fun _ _ _ => rfl)

theorem Inv.bounds_finite (hinv : r.Inv finite calls) (order : FiniteOrder V finite) (name : Text) :
    ∀ b ∈ r.bounds name, finite b := by
  unfold bounds
  split
  · exact order.defaults_finite
  · exact hinv.finite name

theorem Inv.bounds_sorted (hinv : r.Inv finite calls) (order : FiniteOrder V finite) (name : Text) :
    (r.bounds name).Pairwise fun a b => F64.le a b := by
  unfold bounds
  split
  · exact order.defaults_sorted
  · exact hinv.sorted name

theorem Inv.target_le (hinv : r.Inv finite calls) (name : Text) (labels : Labels) (i : Nat) :
    (r.target name labels).counts.getD i 0 ≤ (r.target name labels).count := by
  unfold target
  cases hs : (r.family name).series.lookup (sort_labels labels) with
  | none => exact Nat.le_of_eq (getD_zeros _ i)
  | some series => exact getD_le_of_forall (hinv.counts_le name _ series hs) i

theorem Inv.record (hinv : r.Inv finite calls) (order : FiniteOrder V finite) {name : Text}
    {labels : Labels} {value : V} {series : HistogramSeries V}
    (hcount : series.count = (r.target name labels).count + 1)
    (hcounts : ∀ i, series.counts.getD i 0 =
      (r.target name labels).counts.getD i 0 + bump value (r.bounds name) i) :
    (r.put name { r.family name with
      buckets := r.bounds name
      series := (r.family name).series.insert (sort_labels labels) series }).Inv finite
        (calls ++ [.histogram_record name labels value]) := by
  refine hinv.put (hinv.bounds_finite order name) (hinv.bounds_sorted order name) ?_ ?_ ?_
  · intro labels' series' hs
    by_cases hne : labels' = sort_labels labels
    · subst hne
      rw [AList.lookup_insert] at hs
      obtain rfl := Option.some.inj hs
      refine forall_of_getD_le fun i => ?_
      rw [hcounts, hcount]
      exact Nat.add_le_add (hinv.target_le name labels i) (bump_le_one ..)
    · rw [AList.lookup_insert_ne hne] at hs
      exact hinv.counts_le name labels' series' hs
  · intro labels'
    by_cases hne : labels' = sort_labels labels
    · subst hne
      simp only [AList.lookup_insert, Option.elim_some, hcount, Call.observes]
      unfold target
      cases (r.family name).series.lookup (sort_labels labels) <;> simp [HistogramSeries.new]
    · simp [AList.lookup_insert_ne hne, Call.observes, Ne.symm hne]
  · intro name' hne labels'
    simp [Call.observes, Ne.symm hne]

theorem Inv.valid_register (hinv : r.Inv finite calls) (order : FiniteOrder V finite)
    {name help : Text} {buckets : List V} (hfinite : ∀ b ∈ buckets, finite b)
    (hvalid : r.Valid calls) :
    (r.register_histogram name help buckets).Valid
      (calls ++ [.register_histogram name help buckets]) ↔
    r.Keeps (.register_histogram name help buckets) := by
  have hfits := hinv.valid_iff.mp hvalid
  rw [(hinv.register order hfinite).valid_iff, register_histogram_eq, eachSeries_put]
  exact and_iff_left fun name' _ => hfits name'

/-- The series that an observation went to. -/
theorem Keeps.recorded {name : Text} {labels : Labels} {value : V} {series : HistogramSeries V}
    (hkeeps : r.Keeps (.histogram_record name labels value))
    (hfits : r.EachSeries fun _ family _ series => Fits family.buckets.length series.counts)
    (hlen : (r.bounds name).length ≤ series.counts.length)
    (hcounts : ∀ i, series.counts.getD i 0 =
      (r.target name labels).counts.getD i 0 + bump value (r.bounds name) i)
    (hbumped : Fits (r.bounds name).length (r.target name labels).counts →
      Fits (r.bounds name).length series.counts) :
    Fits (r.bounds name).length series.counts := by
  cases hold : (r.family name).series.lookup (sort_labels labels) with
  | none =>
    -- The series is new, so its counts start at zero.
    rw [target_of_none hold] at hbumped
    exact hbumped (fits_zeros _)
  | some old =>
    by_cases hempty : (r.family name).buckets = []
    · have hkept := hkeeps hempty _ old hold
      rw [if_pos rfl] at hkept
      refine ⟨hlen, fun i j hij hj => ?_⟩
      rw [bounds_of_nil hempty] at hj
      rw [hcounts, hcounts, target_of_some hold, bounds_of_nil hempty]
      exact hkept i j hij hj
    · refine hbumped ?_
      rw [bounds_of_ne_nil hempty, target_of_some hold]
      exact hfits name _ old hold

/-- The other series of its family. -/
theorem Keeps.others {name : Text} {labels labels' : Labels} {value : V} {old : HistogramSeries V}
    (hkeeps : r.Keeps (.histogram_record name labels value))
    (hfits : r.EachSeries fun _ family _ series => Fits family.buckets.length series.counts)
    (hne : labels' ≠ sort_labels labels) (hs : (r.family name).series.lookup labels' = some old) :
    Fits (r.bounds name).length old.counts := by
  by_cases hempty : (r.family name).buckets = []
  · have hkept := hkeeps hempty labels' old hs
    rw [if_neg hne] at hkept
    rw [bounds_of_nil hempty]
    exact hkept
  · rw [bounds_of_ne_nil hempty]
    exact hfits name labels' old hs

theorem Inv.valid_record (hinv : r.Inv finite calls) (order : FiniteOrder V finite) {name : Text}
    {labels : Labels} {value : V} {series : HistogramSeries V} (hvalue : finite value)
    (hvalid : r.Valid calls)
    (hcount : series.count = (r.target name labels).count + 1)
    (hlen : (r.bounds name).length ≤ series.counts.length)
    (hcounts : ∀ i, series.counts.getD i 0 =
      (r.target name labels).counts.getD i 0 + bump value (r.bounds name) i) :
    (r.put name { r.family name with
      buckets := r.bounds name
      series := (r.family name).series.insert (sort_labels labels) series }).Valid
        (calls ++ [.histogram_record name labels value]) ↔
    r.Keeps (.histogram_record name labels value) := by
  have hfits := hinv.valid_iff.mp hvalid
  have hbumped : Fits (r.bounds name).length (r.target name labels).counts →
      Fits (r.bounds name).length series.counts :=
    fits_bumped order hvalue (hinv.bounds_finite order name) (hinv.bounds_sorted order name) hlen
      hcounts
  rw [(hinv.record order hcount hcounts).valid_iff, eachSeries_put]
  rw [and_iff_left (fun name' _ => hfits name')]
  constructor
  · intro h hempty labels' old hs
    rw [bounds_of_nil hempty] at h
    by_cases hne : labels' = sort_labels labels
    · subst hne
      rw [if_pos rfl]
      intro i j hij hj
      have hfit := (h _ series (AList.lookup_insert _)).2 i j hij hj
      rwa [hcounts, hcounts, target_of_some hs, bounds_of_nil hempty] at hfit
    · rw [if_neg hne]
      exact h labels' old (by rw [AList.lookup_insert_ne hne]; exact hs)
  · intro hkeeps labels' new hs
    by_cases hne : labels' = sort_labels labels
    · subst hne
      rw [AList.lookup_insert] at hs
      obtain rfl := Option.some.inj hs
      exact hkeeps.recorded hfits hlen hcounts hbumped
    · rw [AList.lookup_insert_ne hne] at hs
      exact hkeeps.others hfits hne hs

/-! ## Renderings -/

/-- A rendering does not panic when each series has enough counts. -/
theorem render_isOk (h : r.EachSeries fun _ family _ series =>
      ∃ shown, series.shown family.buckets = .ok shown) : ∃ text, r.render_prometheus = .ok text := by
  have hfamily : ∀ e ∈ sorted str_cmp r.histograms, ∃ text, e.2.render e.1 = .ok text := by
    rintro ⟨name, family⟩ hname
    obtain rfl : r.family name = family := by simp [MetricsRegistry.family, mem_sorted.mp hname]
    have hseries : ∀ e ∈ sorted labels_cmp (r.family name).series,
        ∃ text, e.2.render name (r.family name).buckets e.1 = .ok text := by
      rintro ⟨labels, series⟩ hlabels
      obtain ⟨shown, hshown⟩ := h name labels series (mem_sorted.mp hlabels)
      unfold HistogramSeries.render
      rw [hshown]
      exact ⟨_, rfl⟩
    obtain ⟨lines, hlines⟩ := mapM_isOk.mpr hseries
    unfold HistogramFamily.render
    exact ⟨_, bind_eq_ok.mpr ⟨lines, hlines, rfl⟩⟩
  obtain ⟨histograms, hrender⟩ := mapM_isOk.mpr hfamily
  unfold render_prometheus
  exact ⟨_, bind_eq_ok.mpr ⟨histograms, hrender, rfl⟩⟩

/-! ## Any sequence of calls -/

/-- A call with finite numbers goes through on a valid registry. It leaves a valid one iff it
keeps the series in step. -/
theorem step_spec (order : FiniteOrder V finite) (hinv : r.Inv finite calls)
    (hvalid : r.Valid calls) {c : Call V} (hc : c.Finite finite) :
    ∃ r', r.step c = some r' ∧ r'.Inv finite (calls ++ [c]) ∧
      (r'.Valid (calls ++ [c]) ↔ r.Keeps c) := by
  have hother : ∀ r' : MetricsRegistry V, r'.histograms = r.histograms →
      (∀ name labels, c.observes name labels = false) → r.Keeps c →
      r'.Inv finite (calls ++ [c]) ∧ (r'.Valid (calls ++ [c]) ↔ r.Keeps c) := by
    intro r' hsame hquiet hkeeps
    have hinv' := hinv.of_eq hsame hquiet
    have hfamily : r'.family = r.family := by
      funext name
      unfold MetricsRegistry.family
      rw [hsame]
    refine ⟨hinv', iff_of_true ?_ hkeeps⟩
    rw [hinv'.valid_iff]
    unfold EachSeries
    rw [hfamily]
    exact hinv.valid_iff.mp hvalid
  cases c with
  | register_counter name help => exact ⟨_, rfl, hother _ rfl (fun _ _ => rfl) trivial⟩
  | counter_inc name labels delta => exact ⟨_, rfl, hother _ rfl (fun _ _ => rfl) trivial⟩
  | register_gauge name help => exact ⟨_, rfl, hother _ rfl (fun _ _ => rfl) trivial⟩
  | gauge_set name labels value => exact ⟨_, rfl, hother _ rfl (fun _ _ => rfl) trivial⟩
  | gauge_inc name labels delta => exact ⟨_, rfl, hother _ rfl (fun _ _ => rfl) trivial⟩
  | register_histogram name help buckets =>
    exact ⟨_, rfl, hinv.register order hc, hinv.valid_register order hc hvalid⟩
  | histogram_record name labels value =>
    obtain ⟨series, -, hrecord, hcount, hlen, hcounts⟩ :=
      histogram_record_spec r name labels value
    exact ⟨_, congrArg Except.toOption hrecord, hinv.record order hcount hcounts,
      hinv.valid_record order hc hvalid hcount hlen hcounts⟩
  | render_prometheus =>
    obtain ⟨text, htext⟩ := render_isOk fun name labels series hs =>
      (hvalid name labels series hs).imp fun _ h => h.1
    exact ⟨r, congrArg (fun result => (result.map fun _ => r).toOption) htext,
      hother r rfl (fun _ _ => rfl) trivial⟩

theorem valid_prefixes_iff (order : FiniteOrder V finite) (hinv : r.Inv finite calls)
    (hvalid : r.Valid calls) {as : List (Call V)} (hfinite : ∀ c ∈ as, c.Finite finite) :
    (∀ before, before <+: as → ∃ r', run step r before = some r' ∧ r'.Valid (calls ++ before)) ↔
      EachStep step Keeps r as := by
  induction as generalizing r calls with
  | nil =>
    refine iff_of_true (fun before hbefore => ?_) trivial
    rw [List.prefix_nil.mp hbefore, List.append_nil]
    exact ⟨r, rfl, hvalid⟩
  | cons c as ih =>
    rw [List.forall_mem_cons] at hfinite
    obtain ⟨r', hstep, hinv', hiff⟩ := step_spec order hinv hvalid hfinite.1
    have hrun : ∀ before t, run step r (c :: before) = some t ↔ run step r' before = some t := by
      intro before t
      rw [run_cons_eq_some, hstep]
      simp
    rw [eachStep_cons hstep]
    constructor
    · intro h
      obtain ⟨t, ht, hvalid'⟩ := h [c] (by simp)
      obtain rfl := Option.some.inj ((hrun [] t).mp ht)
      refine ⟨hiff.mp hvalid', (ih hinv' hvalid' hfinite.2).mp fun before hbefore => ?_⟩
      obtain ⟨t, ht, hv⟩ := h (c :: before) (List.cons_prefix_cons.mpr ⟨rfl, hbefore⟩)
      rw [List.append_assoc]
      exact ⟨t, (hrun before t).mp ht, hv⟩
    · rintro ⟨hkeeps, hrest⟩ before hbefore
      cases before with
      | nil =>
        rw [List.append_nil]
        exact ⟨r, rfl, hvalid⟩
      | cons b before =>
        obtain ⟨rfl, hrest'⟩ := List.cons_prefix_cons.mp hbefore
        obtain ⟨t, ht, hv⟩ := (ih hinv' (hiff.mpr hkeeps) hfinite.2).mpr hrest before hrest'
        rw [List.append_assoc] at hv
        exact ⟨t, (hrun before t).mpr ht, hv⟩

end MetricsRegistry

/-- No call panics and every rendering is valid, in each state of a run, iff its calls keep the
series in step with the bounds. -/
theorem histograms_valid_iff (order : FiniteOrder V finite) {as : List (Call V)}
    (hfinite : ∀ c ∈ as, c.Finite finite) :
    (∀ before, before <+: as →
      ∃ r, run MetricsRegistry.step .new before = some r ∧ r.Valid before) ↔
    EachStep MetricsRegistry.step MetricsRegistry.Keeps .new as :=
  MetricsRegistry.valid_prefixes_iff order MetricsRegistry.inv_new nofun hfinite

/-! ## Two registrations -/

theorem le_int (a b : Int) : F64.le a b ↔ a ≤ b := by
  rcases Int.lt_trichotomy a b with h | rfl | h
  · simp [F64.le, F64.partial_cmp, h, Int.le_of_lt h]
  · simp [F64.le, F64.partial_cmp]
  · have hne : ¬ a < b := by omega
    have hne' : a ≠ b := by omega
    have hle : ¬ a ≤ b := by omega
    simp [F64.le, F64.partial_cmp, hne, hne', hle]

theorem int_order : FiniteOrder Int fun _ => True where
  comparable _ _ _ _ := nofun
  total a b _ _ := by
    rw [le_int, le_int]
    exact Int.le_total a b
  trans a b c _ _ _ := by
    rw [le_int, le_int, le_int]
    exact Int.le_trans
  defaults_finite _ _ := trivial
  defaults_sorted := by decide

/-- A histogram with one bound, one observation below it, and a second bound. -/
def registered_twice : List (Call Int) :=
  [.register_histogram ['h'] [] [1.0], .histogram_record ['h'] [] 0.5,
    .register_histogram ['h'] [] [1.0, 2.0]]

/-- The second list has the first of two bounds. -/
def registered_shorter : List (Call Int) :=
  [.register_histogram ['h'] [] [1.0, 2.0], .histogram_record ['h'] [] 0.5,
    .register_histogram ['h'] [] [1.0], .render_prometheus]

theorem histograms_valid_before :
    ∃ r, run MetricsRegistry.step .new registered_shorter = some r ∧ r.Valid registered_shorter := by
  refine (histograms_valid_iff int_order ?_).mpr ?_ _ (List.prefix_refl _)
  · intro c _
    cases c <;> first | trivial | exact fun _ _ => trivial
  · refine (eachStep_cons rfl).mpr ⟨nofun, (eachStep_cons rfl).mpr ⟨fun h => ?_, ?_⟩⟩
    · exact absurd h (by decide)
    · refine (eachStep_cons rfl).mpr ⟨fun labels series hs => ?_, (eachStep_cons rfl).mpr ⟨trivial, trivial⟩⟩
      change ((∅ : AList fun _ : Labels => HistogramSeries Int).insert []
        { counts := [1, 1], sum := 500, count := 1 }).lookup labels = some series at hs
      by_cases hlabels : labels = []
      · subst hlabels
        rw [AList.lookup_insert] at hs
        obtain rfl := Option.some.inj hs
        exact fits_iff_take.mpr ⟨by decide, by decide⟩
      · rw [AList.lookup_insert_ne hlabels, AList.lookup_empty] at hs
        cases hs

/-- The next scrape panics. After another observation it does not, but the counts decrease. -/
theorem scrape_after_second_registration :
    (∃ r, run MetricsRegistry.step .new registered_twice = some r ∧
      r.call .render_prometheus = .error (.panic .index)) ∧
    ∃ r, run MetricsRegistry.step .new (registered_twice ++ [.histogram_record ['h'] [] 0.5]) = some r ∧
      ∃ series, (r.family ['h']).series.lookup [] = some series ∧
        series.shown (r.family ['h']).buckets = .ok [(1.0, 2), (2.0, 1)] :=
  ⟨⟨_, rfl, rfl⟩, _, rfl, _, rfl, rfl⟩

end Gigastt.Metrics
