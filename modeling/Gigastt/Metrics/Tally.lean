import Gigastt.Metrics.Scrape

/-!
# What a scrape adds up

Each kind of family has a lock of its own, and a call takes that of its kind. A scrape takes
the three one after the other, so it may see a counter from before a call and a histogram from
after the next one. What is said here is of a scrape that no call runs beside. It is a
function of the order of the calls: each series once, with what the calls on it add up to.
-/

namespace Gigastt.Metrics

open Words Steps TextFormat

variable {V : Type} [F64 V]

/-! ## What one call adds -/

section Ticks

variable (name : Text) (labels : Labels)

omit [F64 V] in
def gauge_tick (n : Int64) : Call V → Int64
  | .gauge_set name' labels' value =>
    if name' = name ∧ sort_labels labels' = labels then value else n
  | .gauge_inc name' labels' delta =>
    if name' = name ∧ sort_labels labels' = labels then n + delta else n
  | _ => n

def sum_tick (sum : V) : Call V → V
  | .histogram_record name' labels' value =>
    if name' = name ∧ sort_labels labels' = labels then sum + value else sum
  | _ => sum

/-- An observation of the series that is at most `upper`. -/
def Call.within (upper : V) : Call V → Bool
  | .histogram_record name' labels' value =>
    name' = name ∧ sort_labels labels' = labels ∧ F64.le value upper
  | _ => false

end Ticks

/-! ## What the calls add up to -/

section Tally

variable {R : Type} (of_int : Int → R) (of_float : V → R)

end Tally

/-! ## Readings of a registry -/

namespace MetricsRegistry

section Readings

variable (r : MetricsRegistry V) (name : Text) (labels : Labels)

omit [F64 V] in
def gauge_reading : Int64 :=
  ((r.gauges.lookup name).bind (·.values.lookup labels)).getD 0

def observed_sum : V := ((r.family name).series.lookup labels).elim 0 (·.sum)

def observed_count : Nat := ((r.family name).series.lookup labels).elim 0 (·.count)

end Readings

end MetricsRegistry

/-- Updating one value of one family changes no other. -/
theorem lookup_entry {K L A B : Type} [DecidableEq K] [DecidableEq L]
    (map : AList fun _ : K => A) (values : A → AList fun _ : L => B) (k k' : K) (l l' : L)
    (init : A) (zero : B) (update : B → B) (put : A → (AList fun _ : L => B) → A)
    (hinit : values init = ∅) (hput : ∀ a m, values (put a m) = m) :
    (((entry map k' init fun a => put a (entry (values a) l' zero update)).lookup k).bind
        fun a => (values a).lookup l).getD zero =
      if k' = k ∧ l' = l then update (((map.lookup k).bind fun a => (values a).lookup l).getD zero)
      else ((map.lookup k).bind fun a => (values a).lookup l).getD zero := by
  unfold entry
  have hread : ∀ l, ((values ((map.lookup k').getD init)).lookup l).getD zero =
      ((map.lookup k').bind fun a => (values a).lookup l).getD zero := by
    intro l
    cases map.lookup k' with
    | none => simp [hinit]
    | some a => rfl
  by_cases hk : k' = k
  · subst hk
    rw [AList.lookup_insert, Option.bind_some, hput]
    by_cases hl : l' = l
    · subst hl
      rw [AList.lookup_insert, if_pos ⟨rfl, rfl⟩, hread]
      rfl
    · rw [AList.lookup_insert_ne (Ne.symm hl), if_neg fun h => hl h.2, hread]
  · rw [AList.lookup_insert_ne (Ne.symm hk), if_neg fun h => hk h.1]

/-- Nor does an update that leaves the values of its family alone. -/
theorem lookup_entry_same {K L A B : Type} [DecidableEq K] [DecidableEq L]
    (map : AList fun _ : K => A) (values : A → AList fun _ : L => B) (k k' : K) (l : L)
    (init : A) (update : A → A) (hinit : values init = ∅)
    (hupdate : ∀ a, values (update a) = values a) :
    ((entry map k' init update).lookup k).bind (fun a => (values a).lookup l) =
      (map.lookup k).bind fun a => (values a).lookup l := by
  unfold entry
  by_cases hk : k' = k
  · subst hk
    rw [AList.lookup_insert, Option.bind_some, hupdate]
    cases map.lookup k' with
    | none => simp [hinit]
    | some a => rfl
  · rw [AList.lookup_insert_ne (Ne.symm hk)]

namespace MetricsRegistry

variable {r r' : MetricsRegistry V} {c : Call V} {name : Text} {labels : Labels}

theorem gauge_reading_call (h : r.call c = .ok r') :
    r'.gauge_reading name labels = gauge_tick name labels (r.gauge_reading name labels) c := by
  cases c with
  | gauge_set name' labels' value =>
    obtain rfl := Except.ok.inj h
    exact lookup_entry r.gauges GaugeFamily.values name name' labels (sort_labels labels')
      .default 0 (fun _ => value) (fun f m => { f with values := m }) rfl fun _ _ => rfl
  | gauge_inc name' labels' delta =>
    obtain rfl := Except.ok.inj h
    exact lookup_entry r.gauges GaugeFamily.values name name' labels (sort_labels labels')
      .default 0 (· + delta) (fun f m => { f with values := m }) rfl fun _ _ => rfl
  | register_gauge name' help =>
    obtain rfl := Except.ok.inj h
    exact congrArg (Option.getD · 0) (lookup_entry_same r.gauges GaugeFamily.values name name'
      labels .default (fun f => { f with help }) rfl fun _ => rfl)
  | histogram_record name' labels' value =>
    obtain ⟨series, -, hrecord, -⟩ := histogram_record_spec r name' labels' value
    obtain rfl := Except.ok.inj (hrecord.symm.trans h)
    rfl
  | render_prometheus =>
    obtain ⟨text, -, rfl⟩ := map_eq_ok.mp h
    rfl
  | _ =>
    obtain rfl := Except.ok.inj h
    rfl

omit [F64 V] in
/-- What an observation leaves in a series. -/
theorem lookup_recorded {name' : Text} {labels' : Labels} {buckets : List V}
    {series : HistogramSeries V} :
    ((r.put name' { r.family name' with
        buckets, series := (r.family name').series.insert (sort_labels labels') series }).family
          name).series.lookup labels =
      if name' = name ∧ sort_labels labels' = labels then some series
      else (r.family name).series.lookup labels := by
  by_cases hname : name' = name
  · subst hname
    rw [family_put_self]
    by_cases hlabels : sort_labels labels' = labels
    · subst hlabels
      rw [if_pos ⟨rfl, rfl⟩]
      exact AList.lookup_insert _
    · rw [if_neg fun h => hlabels h.2]
      exact AList.lookup_insert_ne (Ne.symm hlabels)
  · rw [if_neg fun h => hname h.1, family_put_of_ne r _ (Ne.symm hname)]

/-- The histograms are what the calls so far add up to. -/
structure Tallied (log : List (Call V)) (r : MetricsRegistry V) : Prop where
  in_step : r.InStep
  sum : ∀ name labels, r.observed_sum name labels = log.foldl (sum_tick name labels) 0
  count : ∀ name labels, r.observed_count name labels = log.countP (Call.observes name labels)
  counts : r.EachSeries fun name family labels series => ∀ i upper, family.buckets[i]? = some upper →
    series.counts.getD i 0 = log.countP (Call.within name labels upper)

variable {log : List (Call V)}

theorem recorded_sum {series series' : HistogramSeries V} {buckets : List V} {value : V}
    (h : series.record buckets value = .ok series') : series'.sum = series.sum + value := by
  obtain ⟨counts, hok, -⟩ := record_spec series buckets value
  obtain rfl := Except.ok.inj (hok.symm.trans h)
  rfl

theorem target_sum (r : MetricsRegistry V) (name : Text) (labels : Labels) :
    (r.target name labels).sum = r.observed_sum name (sort_labels labels) := by
  unfold target observed_sum
  cases (r.family name).series.lookup (sort_labels labels) <;> rfl

theorem target_count (r : MetricsRegistry V) (name : Text) (labels : Labels) :
    (r.target name labels).count = r.observed_count name (sort_labels labels) := by
  unfold target observed_count
  cases (r.family name).series.lookup (sort_labels labels) <;> rfl

theorem observes_of_within {upper : V} (h : c.within name labels upper) :
    c.observes name labels := by
  cases c <;> simp_all [Call.within, Call.observes]

/-- A series starts with the calls that were made before it, and none of them was on it. -/
theorem Tallied.target_counts (h : Tallied log r) {i : Nat} {upper : V}
    (hupper : (r.bounds name)[i]? = some upper) :
    (r.target name labels).counts.getD i 0 = log.countP (Call.within name (sort_labels labels) upper) := by
  cases hs : (r.family name).series.lookup (sort_labels labels) with
  | none =>
    have hnone : log.countP (Call.observes name (sort_labels labels)) = 0 := by
      rw [← h.count, observed_count, hs]
      rfl
    have hwithin : log.countP (Call.within name (sort_labels labels) upper) ≤
        log.countP (Call.observes name (sort_labels labels)) :=
      List.countP_mono_left fun c _ => observes_of_within
    rw [target_of_none hs, show (HistogramSeries.new (r.bounds name)).counts.getD i 0 = 0 from getD_zeros _ i]
    omega
  | some series =>
    rw [target_of_some hs]
    rw [bounds_of_ne_nil (h.in_step name _ series hs).1] at hupper
    exact h.counts name _ series hs i upper hupper

theorem Tallied.record (h : Tallied log r) {value : V} {series : HistogramSeries V}
    (hok : (r.target name labels).record (r.bounds name) value = .ok series)
    (hcount : series.count = (r.target name labels).count + 1)
    (hlen : (r.bounds name).length ≤ series.counts.length)
    (hcounts : ∀ i, series.counts.getD i 0 =
      (r.target name labels).counts.getD i 0 + bump value (r.bounds name) i) :
    Tallied (log ++ [.histogram_record name labels value])
      (r.put name { r.family name with
        buckets := r.bounds name
        series := (r.family name).series.insert (sort_labels labels) series }) := by
  refine ⟨h.in_step.record hlen, fun name' labels' => ?_, fun name' labels' => ?_, ?_⟩
  · rw [observed_sum, lookup_recorded, List.foldl_append, ← h.sum name' labels']
    by_cases hsame : name = name' ∧ sort_labels labels = labels'
    · obtain ⟨rfl, rfl⟩ := hsame
      simp [sum_tick, recorded_sum hok, target_sum]
    · simp only [if_neg hsame, List.foldl_cons, List.foldl_nil, sum_tick]
      rfl
  · rw [observed_count, lookup_recorded, List.countP_append, ← h.count name' labels']
    by_cases hsame : name = name' ∧ sort_labels labels = labels'
    · obtain ⟨rfl, rfl⟩ := hsame
      simp [Call.observes, hcount, target_count]
    · simp only [if_neg hsame, List.countP_singleton, Call.observes, decide_eq_true_eq]
      rfl
  · refine eachSeries_put.mpr ⟨fun labels' new hs i upper hupper => ?_, fun name' hne labels' old hs i
      upper hupper => ?_⟩
    · rw [List.countP_append, List.countP_singleton]
      by_cases hsame : labels' = sort_labels labels
      · subst hsame
        rw [AList.lookup_insert] at hs
        obtain rfl := Option.some.inj hs
        rw [hcounts, h.target_counts hupper]
        simp [bump, hupper, Call.within]
      · rw [AList.lookup_insert_ne hsame] at hs
        have hold := h.counts name labels' new hs i upper
        rw [← bounds_of_ne_nil (h.in_step name labels' new hs).1] at hold
        rw [hold hupper, if_neg (by simp [Call.within, Ne.symm hsame]), Nat.add_zero]
    · rw [List.countP_append, List.countP_singleton, ← h.counts name' labels' old hs i upper hupper,
        if_neg (by simp [Call.within, Ne.symm hne]), Nat.add_zero]

/-- A call that leaves the histograms alone. -/
theorem Tallied.of_eq (h : Tallied log r) (hsame : r'.histograms = r.histograms)
    (hc : ∀ name labels, c.observes name labels = false) : Tallied (log ++ [c]) r' := by
  have hfamily : r'.family = r.family := by
    funext name
    unfold MetricsRegistry.family
    rw [hsame]
  have hsum : ∀ name labels (sum : V), sum_tick name labels sum c = sum := by
    intro name labels sum
    cases c with
    | histogram_record name' labels' value =>
      have hquiet := hc name labels
      simp only [Call.observes, decide_eq_false_iff_not] at hquiet
      exact if_neg hquiet
    | _ => rfl
  have hwithin : ∀ name labels upper, ¬ c.within name labels upper := by
    intro name labels upper h
    have hquiet := hc name labels
    rw [observes_of_within h] at hquiet
    cases hquiet
  refine ⟨?_, fun name labels => ?_, fun name labels => ?_, ?_⟩
  · unfold InStep EachSeries
    rw [hfamily]
    exact h.in_step
  · rw [observed_sum, hfamily, List.foldl_append, ← h.sum, List.foldl_cons, hsum]
    rfl
  · rw [observed_count, hfamily, List.countP_append, ← h.count, List.countP_singleton, hc]
    rfl
  · unfold EachSeries
    rw [hfamily]
    intro name labels series hs i upper hupper
    rw [List.countP_append, List.countP_singleton, if_neg (hwithin name labels upper), Nat.add_zero]
    exact h.counts name labels series hs i upper hupper

theorem Tallied.register (h : Tallied log r) {help : Text} {buckets : List V}
    (hfirst : (r.family name).series = ∅) :
    Tallied (log ++ [.register_histogram name help buckets])
      (r.register_histogram name help buckets) := by
  have hseries : ∀ name', ((r.register_histogram name help buckets).family name').series =
      (r.family name').series := by
    intro name'
    rw [register_histogram_eq]
    by_cases hne : name' = name
    · rw [hne, family_put_self]
    · rw [family_put_of_ne r _ hne]
  refine ⟨h.in_step.call (c := .register_histogram name help buckets) hfirst rfl,
    fun name' labels => ?_, fun name' labels => ?_, ?_⟩
  · rw [observed_sum, hseries, List.foldl_append, ← h.sum]
    rfl
  · rw [observed_count, hseries, List.countP_append, ← h.count]
    rfl
  · rw [register_histogram_eq]
    refine eachSeries_put.mpr ⟨fun labels series hs => ?_, fun name' _ labels series hs i upper hupper => ?_⟩
    · rw [hfirst, AList.lookup_empty] at hs
      cases hs
    · rw [List.countP_append, h.counts name' labels series hs i upper hupper]
      rfl

theorem Tallied.call (h : Tallied log r) (hc : r.RegistersFirst c) (hok : r.call c = .ok r') :
    Tallied (log ++ [c]) r' := by
  cases c with
  | histogram_record name labels value =>
    obtain ⟨series, hseries, hrecord, hcount, hlen, hcounts⟩ := histogram_record_spec r name labels value
    obtain rfl := Except.ok.inj (hrecord.symm.trans hok)
    exact h.record hseries hcount hlen hcounts
  | register_histogram name help buckets =>
    obtain rfl := Except.ok.inj hok
    exact h.register hc
  | render_prometheus =>
    obtain ⟨text, -, rfl⟩ := map_eq_ok.mp hok
    exact h.of_eq rfl fun _ _ => rfl
  | _ =>
    obtain rfl := Except.ok.inj hok
    exact h.of_eq rfl fun _ _ => rfl

section Samples

variable {as : List (Call V)}

theorem gauge_reading_of_run (hrun : run step .new as = some r) :
    r.gauge_reading name labels = as.foldl (gauge_tick name labels) 0 :=
  read_of_run (fun r => r.gauge_reading name labels) (gauge_tick name labels)
    (fun _ _ _ h => gauge_reading_call (call_of_step h)) hrun

/-- The series of the families of one kind. -/
def keys_of {F B : Type} (kind : Kind) (values : F → AList fun _ : Labels => B)
    (map : AList fun _ : Text => F) : List (Kind × Text × Labels) :=
  (pairs map).flatMap fun (name, f) => (pairs (values f)).map fun (labels, _) => (kind, name, labels)

omit [F64 V] in
def keys (r : MetricsRegistry V) : List (Kind × Text × Labels) :=
  keys_of .counter CounterFamily.values r.counters ++ keys_of .gauge GaugeFamily.values r.gauges ++
    keys_of .histogram HistogramFamily.series r.histograms

variable {R : Type} {of_int : Int → R} {of_float : V → R}

end Samples

end MetricsRegistry

end Gigastt.Metrics
