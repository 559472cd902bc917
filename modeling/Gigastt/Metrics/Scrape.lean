import Gigastt.Metrics.Coherence

/-!
# Scrapes of a registry in use

The registries that calls lead to have well-formed names, so their renderings can be read.
Each label set that a call gave turns up in the samples, and no other does.
-/

namespace Gigastt.Metrics

open Steps Words TextFormat

/-! ## Registries that calls lead to -/

section Calls

variable {V : Type} [F64 V] {r r' : MetricsRegistry V} {c : Call V}

/-- The call has well-formed names and help texts. Label values may be anything. -/
def Call.Named : Call V → Prop
  | .register_counter name help | .register_gauge name help | .register_histogram name help _ =>
    isMetricName name ∧ '\n' ∉ help
  | .counter_inc name labels _ | .gauge_set name labels _ | .gauge_inc name labels _
  | .histogram_record name labels _ => isMetricName name ∧ NamedLabels labels
  | .render_prometheus => True

theorem sort_labels_perm (labels : Labels) : (sort_labels labels).Perm labels :=
  List.perm_insertionSort _ _

theorem NamedLabels.sort {labels : Labels} (h : NamedLabels labels) : NamedLabels (sort_labels labels) := by
  have hmem := fun l => (sort_labels_perm labels).mem_iff (a := l)
  refine ⟨fun l hl => h.names l ((hmem l).mp hl), fun l hl => h.not_le l ((hmem l).mp hl), ?_⟩
  exact ((sort_labels_perm labels).map _).nodup_iff.mpr h.nodup

theorem forall_lookup_insert {K B : Type} [DecidableEq K] {map : AList fun _ : K => B}
    {p : K → B → Prop} (h : ∀ k b, map.lookup k = some b → p k b) {key : K} {new : B}
    (hnew : p key new) : ∀ k b, (map.insert key new).lookup k = some b → p k b := by
  intro k b hb
  by_cases hk : k = key
  · subst hk
    rw [AList.lookup_insert] at hb
    rwa [← Option.some.inj hb]
  · rw [AList.lookup_insert_ne hk] at hb
    exact h k b hb

theorem NamedFamily.insert {B : Type} {name help : Text} {values : AList fun _ : Labels => B}
    (h : NamedFamily name help values) {labels : Labels} (hlabels : NamedLabels labels) (b : B) :
    NamedFamily name help (values.insert (sort_labels labels) b) :=
  { name := h.name
    help := h.help
    labels := forall_lookup_insert (p := fun l _ => NamedLabels l) h.labels hlabels.sort
    sorted := forall_lookup_insert (p := fun l _ => SortedLabels l) h.sorted (sort_labels_sorted labels) }

theorem NamedFamily.empty {B : Type} {name help : Text} (hname : isMetricName name)
    (hhelp : '\n' ∉ help) : NamedFamily name help (∅ : AList fun _ : Labels => B) :=
  ⟨hname, hhelp, nofun, nofun⟩

namespace MetricsRegistry

omit [F64 V] in
theorem Named.counter (h : r.Named) {name : Text} (hname : isMetricName name) :
    NamedFamily name ((r.counters.lookup name).getD .default).help
      ((r.counters.lookup name).getD .default).values := by
  cases hfamily : r.counters.lookup name with
  | none => exact .empty hname nofun
  | some family => exact h.counters name family hfamily

omit [F64 V] in
theorem Named.gauge (h : r.Named) {name : Text} (hname : isMetricName name) :
    NamedFamily name ((r.gauges.lookup name).getD .default).help
      ((r.gauges.lookup name).getD .default).values := by
  cases hfamily : r.gauges.lookup name with
  | none => exact .empty hname nofun
  | some family => exact h.gauges name family hfamily

omit [F64 V] in
theorem Named.histogram (h : r.Named) {name : Text} (hname : isMetricName name) :
    NamedFamily name (r.family name).help (r.family name).series := by
  unfold MetricsRegistry.family
  cases hfamily : r.histograms.lookup name with
  | none => exact .empty hname nofun
  | some family => exact h.histograms name family hfamily

theorem Named.call (h : r.Named) (hc : c.Named) (hok : r.call c = .ok r') : r'.Named := by
  cases c with
  | register_counter name help =>
    obtain rfl := Except.ok.inj hok
    have hfamily := h.counter hc.1
    exact ⟨forall_lookup_insert h.counters ⟨hc.1, hc.2, hfamily.labels, hfamily.sorted⟩, h.gauges, h.histograms⟩
  | counter_inc name labels delta =>
    obtain rfl := Except.ok.inj hok
    have hfamily := (h.counter hc.1).insert hc.2
    exact ⟨forall_lookup_insert h.counters (hfamily _), h.gauges, h.histograms⟩
  | register_gauge name help =>
    obtain rfl := Except.ok.inj hok
    have hfamily := h.gauge hc.1
    exact ⟨h.counters, forall_lookup_insert h.gauges ⟨hc.1, hc.2, hfamily.labels, hfamily.sorted⟩, h.histograms⟩
  | gauge_set name labels value =>
    obtain rfl := Except.ok.inj hok
    have hfamily := (h.gauge hc.1).insert hc.2
    exact ⟨h.counters, forall_lookup_insert h.gauges (hfamily _), h.histograms⟩
  | gauge_inc name labels delta =>
    obtain rfl := Except.ok.inj hok
    have hfamily := (h.gauge hc.1).insert hc.2
    exact ⟨h.counters, forall_lookup_insert h.gauges (hfamily _), h.histograms⟩
  | register_histogram name help buckets =>
    obtain rfl := Except.ok.inj hok
    have hfamily := h.histogram hc.1
    exact ⟨h.counters, h.gauges, forall_lookup_insert h.histograms ⟨hc.1, hc.2, hfamily.labels, hfamily.sorted⟩⟩
  | histogram_record name labels value =>
    obtain ⟨series, -, hrecord, -⟩ := histogram_record_spec r name labels value
    obtain rfl := Except.ok.inj (hrecord.symm.trans hok)
    have hfamily := (h.histogram hc.1).insert hc.2 series
    exact ⟨h.counters, h.gauges, forall_lookup_insert h.histograms hfamily⟩
  | render_prometheus =>
    obtain ⟨text, -, rfl⟩ := map_eq_ok.mp hok
    exact h

end MetricsRegistry

/-! ## Label sets -/

inductive Kind where
  | counter
  | gauge
  | histogram
deriving DecidableEq, Repr

/-- The name and the labels that a call is made with. -/
def Call.target : Call V → Option (Kind × Text × Labels)
  | .counter_inc name labels _ => some (.counter, name, labels)
  | .gauge_set name labels _ | .gauge_inc name labels _ => some (.gauge, name, labels)
  | .histogram_record name labels _ => some (.histogram, name, labels)
  | _ => none

/-- The series that it writes to. -/
def Call.key (c : Call V) : Option (Kind × Text × Labels) :=
  c.target.map fun (kind, name, labels) => (kind, name, sort_labels labels)

/-- The sample belongs to this series, with its labels in any order. -/
def Shows {R : Type} (s : Sample R) : Kind × Text × Labels → Prop
  | (.counter, name, labels) | (.gauge, name, labels) => s.name = name ∧ s.labels.Perm labels
  | (.histogram, name, labels) =>
    (s.name = name ++ "_sum".toList ∨ s.name = name ++ "_count".toList) ∧ s.labels.Perm labels ∨
      s.name = name ++ "_bucket".toList ∧ ∃ upper, s.labels.Perm (labels ++ [("le".toList, upper)])

theorem shows_sorted {R : Type} {s : Sample R} {kind : Kind} {name : Text} {labels : Labels} :
    Shows s (kind, name, sort_labels labels) ↔ Shows s (kind, name, labels) := by
  have hperm := sort_labels_perm labels
  have hsame : ∀ l : Labels, l.Perm (sort_labels labels) ↔ l.Perm labels :=
    fun l => ⟨fun h => h.trans hperm, fun h => h.trans hperm.symm⟩
  have hle : ∀ (l : Labels) more, l.Perm (sort_labels labels ++ more) ↔ l.Perm (labels ++ more) :=
    fun l more => ⟨fun h => h.trans (hperm.append_right more),
      fun h => h.trans (hperm.append_right more).symm⟩
  cases kind <;> simp only [Shows, hsame, hle]

namespace MetricsRegistry

/-- The registry has this series. -/
def Has (r : MetricsRegistry V) : Kind × Text × Labels → Prop
  | (.counter, name, labels) => labels ∈ ((r.counters.lookup name).getD .default).values
  | (.gauge, name, labels) => labels ∈ ((r.gauges.lookup name).getD .default).values
  | (.histogram, name, labels) => labels ∈ (r.family name).series

/-- A family that gets a new version has one more label set in it. -/
theorem mem_insert_getD {F B : Type} (values : F → AList fun _ : Labels => B)
    {map : AList fun _ : Text => F} {init new : F} {name : Text} {labels : Labels} {b : B}
    (hnew : values new = (values ((map.lookup name).getD init)).insert labels b) (n : Text)
    (l : Labels) :
    l ∈ values (((map.insert name new).lookup n).getD init) ↔
      l ∈ values ((map.lookup n).getD init) ∨ (name, labels) = (n, l) := by
  by_cases hn : n = name
  · subst hn
    rw [AList.lookup_insert, Option.getD_some, hnew, AList.mem_insert, or_comm]
    simp [eq_comm]
  · rw [AList.lookup_insert_ne hn]
    simp [Ne.symm hn]

theorem mem_insert_getD_same {F B : Type} (values : F → AList fun _ : Labels => B)
    {map : AList fun _ : Text => F} {init new : F} {name : Text}
    (hnew : values new = values ((map.lookup name).getD init)) (n : Text) (l : Labels) :
    l ∈ values (((map.insert name new).lookup n).getD init) ↔
      l ∈ values ((map.lookup n).getD init) := by
  by_cases hn : n = name
  · subst hn
    rw [AList.lookup_insert, Option.getD_some, hnew]
  · rw [AList.lookup_insert_ne hn]

section Writes

variable {name : Text} {labels : Labels}

omit [F64 V] in
theorem has_insert_counter {new : CounterFamily} {value : UInt64}
    (hnew : new.values = ((r.counters.lookup name).getD .default).values.insert labels value)
    (key : Kind × Text × Labels) :
    ({ r with counters := r.counters.insert name new } : MetricsRegistry V).Has key ↔
      r.Has key ∨ some (.counter, name, labels) = some key := by
  obtain ⟨kind, n, l⟩ := key
  cases kind with
  | counter => simpa [Has] using mem_insert_getD CounterFamily.values hnew n l
  | gauge => simp [Has]
  | histogram => simp [Has, MetricsRegistry.family]

omit [F64 V] in
theorem has_insert_gauge {new : GaugeFamily} {value : Int64}
    (hnew : new.values = ((r.gauges.lookup name).getD .default).values.insert labels value)
    (key : Kind × Text × Labels) :
    ({ r with gauges := r.gauges.insert name new } : MetricsRegistry V).Has key ↔
      r.Has key ∨ some (.gauge, name, labels) = some key := by
  obtain ⟨kind, n, l⟩ := key
  cases kind with
  | counter => simp [Has]
  | gauge => simpa [Has] using mem_insert_getD GaugeFamily.values hnew n l
  | histogram => simp [Has, MetricsRegistry.family]

omit [F64 V] in
theorem has_put {family : HistogramFamily V} {series : HistogramSeries V}
    (hnew : family.series = (r.family name).series.insert labels series)
    (key : Kind × Text × Labels) :
    (r.put name family).Has key ↔ r.Has key ∨ some (.histogram, name, labels) = some key := by
  obtain ⟨kind, n, l⟩ := key
  cases kind with
  | counter => simp [Has, put]
  | gauge => simp [Has, put]
  | histogram => simpa [Has, MetricsRegistry.family, put] using mem_insert_getD HistogramFamily.series hnew n l

omit [F64 V] in
/-- Families whose label sets stay. -/
theorem has_congr {r' : MetricsRegistry V}
    (hcounters : ∀ n l, l ∈ ((r'.counters.lookup n).getD .default).values ↔
      l ∈ ((r.counters.lookup n).getD .default).values)
    (hgauges : ∀ n l, l ∈ ((r'.gauges.lookup n).getD .default).values ↔
      l ∈ ((r.gauges.lookup n).getD .default).values)
    (hhistograms : ∀ n l, l ∈ (r'.family n).series ↔ l ∈ (r.family n).series)
    (key : Kind × Text × Labels) : r'.Has key ↔ r.Has key := by
  obtain ⟨kind, n, l⟩ := key
  cases kind with
  | counter => exact hcounters n l
  | gauge => exact hgauges n l
  | histogram => exact hhistograms n l

end Writes

/-- A call adds the series it writes to, and no other. -/
theorem has_call (hok : r.call c = .ok r') (key : Kind × Text × Labels) :
    r'.Has key ↔ r.Has key ∨ c.key = some key := by
  cases c with
  | register_counter name help =>
    obtain rfl := Except.ok.inj hok
    refine Iff.trans ?_ (or_iff_left nofun).symm
    refine has_congr ?_ ?_ ?_ key
    · exact mem_insert_getD_same CounterFamily.values rfl
    · exact fun _ _ => Iff.rfl
    · exact fun _ _ => Iff.rfl
  | counter_inc name labels delta =>
    obtain rfl := Except.ok.inj hok
    exact has_insert_counter rfl key
  | register_gauge name help =>
    obtain rfl := Except.ok.inj hok
    refine Iff.trans ?_ (or_iff_left nofun).symm
    refine has_congr ?_ ?_ ?_ key
    · exact fun _ _ => Iff.rfl
    · exact mem_insert_getD_same GaugeFamily.values rfl
    · exact fun _ _ => Iff.rfl
  | gauge_set name labels value =>
    obtain rfl := Except.ok.inj hok
    exact has_insert_gauge rfl key
  | gauge_inc name labels delta =>
    obtain rfl := Except.ok.inj hok
    exact has_insert_gauge rfl key
  | register_histogram name help buckets =>
    obtain rfl := Except.ok.inj hok
    refine Iff.trans ?_ (or_iff_left nofun).symm
    refine has_congr ?_ ?_ ?_ key
    · exact fun _ _ => Iff.rfl
    · exact fun _ _ => Iff.rfl
    · exact mem_insert_getD_same HistogramFamily.series rfl
  | histogram_record name labels value =>
    obtain ⟨series, -, hrecord, -⟩ := histogram_record_spec r name labels value
    obtain rfl := Except.ok.inj (hrecord.symm.trans hok)
    exact has_put rfl key
  | render_prometheus =>
    obtain ⟨text, -, rfl⟩ := map_eq_ok.mp hok
    exact (or_iff_left nofun).symm

theorem call_of_step (h : r.step c = some r') : r.call c = .ok r' := by
  unfold step at h
  cases hc : r.call c with
  | error e =>
    rw [hc] at h
    cases h
  | ok r'' =>
    rw [hc] at h
    exact congrArg Except.ok (Option.some.inj h)

omit [F64 V] in
theorem not_has_new (key : Kind × Text × Labels) : ¬ (new : MetricsRegistry V).Has key := by
  obtain ⟨kind, name, labels⟩ := key
  cases kind with
  | counter => exact AList.notMem_empty _
  | gauge => exact AList.notMem_empty _
  | histogram => exact AList.notMem_empty _

/-- The registry has the series that the calls wrote to. -/
theorem has_of_run {as : List (Call V)} (hrun : run step .new as = some r)
    (key : Kind × Text × Labels) : r.Has key ↔ ∃ c ∈ as, c.key = some key := by
  have hmark := mark_of_run (fun r : MetricsRegistry V => r.Has key) (fun c => c.key = some key)
    (fun r c r' h => has_call (call_of_step h) key) hrun
  rw [hmark, or_iff_right (not_has_new key)]

theorem named_of_run {as : List (Call V)} (hrun : run step .new as = some r)
    (hnamed : ∀ c ∈ as, c.Named) : r.Named :=
  inv_of_eachStep (fun r : MetricsRegistry V => r.Named)
    (fun _ _ _ hc h hr => hr.call hc (call_of_step h)) hrun (eachStep_of_mem hnamed _)
    ⟨nofun, nofun, nofun⟩

omit [F64 V] in
theorem mem_getD_iff {F B : Type} (values : F → AList fun _ : Labels => B)
    {map : AList fun _ : Text => F} {init : F} (hinit : values init = ∅) (name : Text)
    (labels : Labels) :
    labels ∈ values ((map.lookup name).getD init) ↔
      ∃ f, (name, f) ∈ pairs map ∧ ∃ b, (labels, b) ∈ pairs (values f) := by
  simp only [mem_pairs]
  rw [← AList.lookup_isSome, Option.isSome_iff_exists]
  cases map.lookup name with
  | none => simp [hinit]
  | some f => simp

variable {R : Type} {of_int : Int → R} {of_float : V → R}

/-- The samples are those of the series. -/
theorem has_of_mem_samples {s : Sample R} (hs : s ∈ r.samples of_int of_float) :
    ∃ key, r.Has key ∧ Shows s key := by
  simp only [samples, List.mem_append, List.mem_flatMap, List.mem_map, Prod.exists] at hs
  rcases hs with (⟨name, family, hfamily, labels, value, hvalue, rfl⟩ |
    ⟨name, family, hfamily, labels, value, hvalue, rfl⟩) |
    ⟨name, family, hfamily, labels, series, hseries, hs⟩
  · exact ⟨(.counter, name, labels),
      (mem_getD_iff CounterFamily.values rfl name labels).mpr ⟨family, hfamily, value, hvalue⟩,
      rfl, .refl _⟩
  · exact ⟨(.gauge, name, labels),
      (mem_getD_iff GaugeFamily.values rfl name labels).mpr ⟨family, hfamily, value, hvalue⟩,
      rfl, .refl _⟩
  · refine ⟨(.histogram, name, labels),
      (mem_getD_iff HistogramFamily.series rfl name labels).mpr ⟨family, hfamily, series, hseries⟩, ?_⟩
    simp only [HistogramSeries.samples, List.mem_append, List.mem_map, List.mem_cons,
      List.not_mem_nil, or_false, Prod.exists] at hs
    rcases hs with ⟨upper, c, -, rfl⟩ | rfl | rfl | rfl
    · exact .inr ⟨rfl, _, .refl _⟩
    · exact .inr ⟨rfl, _, .refl _⟩
    · exact .inl ⟨.inl rfl, .refl _⟩
    · exact .inl ⟨.inr rfl, .refl _⟩

theorem exists_sample_of_has {key : Kind × Text × Labels} (h : r.Has key) :
    ∃ s ∈ r.samples of_int of_float, Shows s key := by
  obtain ⟨kind, name, labels⟩ := key
  simp only [samples, List.mem_append, List.mem_flatMap, List.mem_map, Prod.exists]
  cases kind with
  | counter =>
    obtain ⟨family, hfamily, value, hvalue⟩ := (mem_getD_iff CounterFamily.values rfl _ _).mp h
    exact ⟨_, .inl (.inl ⟨name, family, hfamily, labels, value, hvalue, rfl⟩), rfl, .refl _⟩
  | gauge =>
    obtain ⟨family, hfamily, value, hvalue⟩ := (mem_getD_iff GaugeFamily.values rfl _ _).mp h
    exact ⟨_, .inl (.inr ⟨name, family, hfamily, labels, value, hvalue, rfl⟩), rfl, .refl _⟩
  | histogram =>
    obtain ⟨family, hfamily, series, hseries⟩ := (mem_getD_iff HistogramFamily.series rfl _ _).mp h
    refine ⟨{ name := name ++ "_count".toList, labels, value := of_int series.count },
      .inr ⟨name, family, hfamily, labels, series, hseries, ?_⟩, .inl ⟨.inr rfl, .refl _⟩⟩
    simp [HistogramSeries.samples]

/-! ## Renderings that go through -/

/-- A histogram gets its bounds before its first series. -/
def RegistersFirst (r : MetricsRegistry V) : Call V → Prop
  | .register_histogram name _ _ => (r.family name).series = ∅
  | _ => True

/-- Each family with a series has bounds, and the series has a count for each of them. -/
def InStep (r : MetricsRegistry V) : Prop :=
  r.EachSeries fun _ family _ series =>
    family.buckets ≠ [] ∧ family.buckets.length ≤ series.counts.length

theorem bounds_ne_nil (r : MetricsRegistry V) (name : Text) : r.bounds name ≠ [] := by
  unfold bounds
  split
  · exact List.cons_ne_nil _ _
  · rename_i h
    simpa using h

theorem InStep.record (h : r.InStep) {name : Text} {labels : Labels} {series : HistogramSeries V}
    (hlen : (r.bounds name).length ≤ series.counts.length) :
    (r.put name { r.family name with
      buckets := r.bounds name
      series := (r.family name).series.insert (sort_labels labels) series }).InStep := by
  refine eachSeries_put.mpr ⟨fun labels' new hs => ⟨r.bounds_ne_nil name, ?_⟩, fun name' _ => h name'⟩
  by_cases hne : labels' = sort_labels labels
  · subst hne
    rw [AList.lookup_insert] at hs
    rwa [← Option.some.inj hs]
  · rw [AList.lookup_insert_ne hne] at hs
    obtain ⟨hbuckets, hcounts⟩ := h name labels' new hs
    rwa [bounds_of_ne_nil hbuckets]

theorem InStep.call (h : r.InStep) (hc : r.RegistersFirst c) (hok : r.call c = .ok r') :
    r'.InStep := by
  cases c with
  | register_counter name help =>
    obtain rfl := Except.ok.inj hok
    exact h
  | counter_inc name labels delta =>
    obtain rfl := Except.ok.inj hok
    exact h
  | register_gauge name help =>
    obtain rfl := Except.ok.inj hok
    exact h
  | gauge_set name labels value =>
    obtain rfl := Except.ok.inj hok
    exact h
  | gauge_inc name labels delta =>
    obtain rfl := Except.ok.inj hok
    exact h
  | register_histogram name help buckets =>
    obtain rfl := Except.ok.inj hok
    rw [register_histogram_eq]
    refine eachSeries_put.mpr ⟨fun labels series hs => ?_, fun name' _ => h name'⟩
    have hnone : (r.family name).series.lookup labels = none := by
      rw [show (r.family name).series = ∅ from hc]
      exact AList.lookup_empty labels
    rw [hnone] at hs
    cases hs
  | histogram_record name labels value =>
    obtain ⟨series, -, hrecord, -, hlen, -⟩ := histogram_record_spec r name labels value
    obtain rfl := Except.ok.inj (hrecord.symm.trans hok)
    exact h.record hlen
  | render_prometheus =>
    obtain ⟨text, -, rfl⟩ := map_eq_ok.mp hok
    exact h

theorem InStep.render_isOk (h : r.InStep) : ∃ text, r.render_prometheus = .ok text :=
  MetricsRegistry.render_isOk fun name labels series hs =>
    ⟨_, shown_eq (h name labels series hs).2⟩

theorem inStep_of_run {as : List (Call V)} (hrun : run step .new as = some r)
    (hfirst : EachStep step RegistersFirst .new as) : r.InStep :=
  inv_of_eachStep (fun r : MetricsRegistry V => r.InStep)
    (fun _ _ _ hc h hr => hr.call hc (call_of_step h)) hrun hfirst nofun

end MetricsRegistry

/-- The text of a registry in use is read back as its samples iff the format has no objection
to its help texts, its names and its bounds. The samples are those of the series that the
calls wrote to, under the labels that the calls gave. -/
theorem exposition_read_iff {R : Type} {read : Text → Option R} {of_int : Int → R}
    {of_float : V → R} (hnumbers : ReadsNumbers read of_int of_float) {as : List (Call V)}
    (hnamed : ∀ c ∈ as, c.Named) (hrun : run MetricsRegistry.step .new as = some r) :
    (∀ text, r.render_prometheus = .ok text →
      ((∃ parsed, parse read text = some parsed ∧ parsed.Perm (r.samples of_int of_float) ∧
        (∀ s ∈ parsed, ∃ c ∈ as, ∃ t, c.target = some t ∧ Shows s t) ∧
        ∀ c ∈ as, ∀ t, c.target = some t → ∃ s ∈ parsed, Shows s t) ↔ r.Clear)) ∧
    (EachStep MetricsRegistry.step MetricsRegistry.RegistersFirst .new as →
      ∃ text, r.render_prometheus = .ok text) := by
  refine ⟨fun text htext => ?_, fun hfirst => (MetricsRegistry.inStep_of_run hrun hfirst).render_isOk⟩
  have hregistry := MetricsRegistry.named_of_run hrun hnamed
  constructor
  · rintro ⟨parsed, hparsed, -⟩
    exact MetricsRegistry.clear_of_parse hnumbers hregistry htext hparsed
  · intro hclear
    obtain ⟨parsed, hparsed, hperm⟩ := MetricsRegistry.parse_of_clear hnumbers hregistry hclear htext
    refine ⟨parsed, hparsed, hperm, fun s hs => ?_, fun c hc t ht => ?_⟩
    · obtain ⟨key, hhas, hshows⟩ := MetricsRegistry.has_of_mem_samples (hperm.mem_iff.mp hs)
      obtain ⟨c, hc, hkey⟩ := (MetricsRegistry.has_of_run hrun key).mp hhas
      obtain ⟨⟨kind, name, labels⟩, ht, rfl⟩ := Option.map_eq_some_iff.mp hkey
      exact ⟨c, hc, _, ht, shows_sorted.mp hshows⟩
    · obtain ⟨kind, name, labels⟩ := t
      have hkey : c.key = some (kind, name, sort_labels labels) := by
        unfold Call.key
        rw [ht]
        rfl
      obtain ⟨s, hs, hshows⟩ := MetricsRegistry.exists_sample_of_has
        ((MetricsRegistry.has_of_run hrun _).mpr ⟨c, hc, hkey⟩)
      exact ⟨s, hperm.mem_iff.mpr hs, shows_sorted.mp hshows⟩

end Calls

/-! ## Numbers of thousandths -/

/-- A decimal number without a sign, as thousandths. -/
def read_magnitude (text : Text) : Option Nat :=
  let whole := text.takeWhile Char.isDigit
  let fraction := (text.dropWhile Char.isDigit).drop 1
  if text.dropWhile Char.isDigit = (if fraction.isEmpty then [] else '.' :: fraction) ∧
      whole ≠ [] ∧ fraction.length ≤ 3 ∧ fraction.all Char.isDigit then
    some (Nat.ofDigitChars 10 (whole ++ fraction ++ List.replicate (3 - fraction.length) '0') 0)
  else none

def read_thousandths : Text → Option Int
  | '-' :: text => (read_magnitude text).map fun n : Nat => -(n : Int)
  | text => (read_magnitude text).map Int.ofNat

/-- The zeros at the end of a text can be put back. -/
theorem strip_zeros (text : Text) :
    (text.reverse.dropWhile (· = '0')).reverse ++
      List.replicate (text.length - (text.reverse.dropWhile (· = '0')).reverse.length) '0' = text := by
  have hsplit := List.takeWhile_append_dropWhile (p := fun c : Char => decide (c = '0')) (l := text.reverse)
  have hzeros : text.reverse.takeWhile (· = '0') =
      List.replicate (text.reverse.takeWhile (· = '0')).length '0' := by
    refine List.eq_replicate_of_mem fun c hc => ?_
    simpa using List.mem_takeWhile_imp hc
  have hlen := congrArg List.length hsplit
  rw [List.length_append, List.length_reverse] at hlen
  have hcount : text.length - (text.reverse.dropWhile (· = '0')).reverse.length =
      (text.reverse.takeWhile (· = '0')).length := by
    rw [List.length_reverse]
    omega
  rw [hcount]
  have hrev := congrArg List.reverse hsplit
  rw [List.reverse_append, List.reverse_reverse, hzeros, List.reverse_replicate] at hrev
  exact hrev

/-- The last three digits of a number. -/
def last_digits (n : Nat) : Text := [n / 100 % 10, n / 10 % 10, n % 10].map Nat.digitChar

theorem last_digits_value (n : Nat) : Nat.ofDigitChars 10 (last_digits n) 0 = n % 1000 := by
  have hdigit : ∀ k, k % 10 < 10 := fun k => Nat.mod_lt k (by decide)
  simp only [last_digits, List.map_cons, List.map_nil,
    Nat.ofDigitChars_cons_digitChar_of_lt_ten (hdigit _), Nat.ofDigitChars_nil]
  omega

theorem isDigit_of_mem_last_digits {n : Nat} : ∀ c ∈ last_digits n, c.isDigit := by
  intro c hc
  obtain ⟨k, hk, rfl⟩ := List.mem_map.mp hc
  have hlt : k < 10 := by
    simp only [List.mem_cons, List.not_mem_nil, or_false] at hk
    omega
  rw [Nat.isDigit_digitChar]
  exact decide_eq_true hlt

/-- What a display puts after the point. -/
def fraction (n : Nat) : Text := ((last_digits n).reverse.dropWhile (· = '0')).reverse

theorem isDigit_of_mem_fraction {n : Nat} : ∀ c ∈ fraction n, c.isDigit := by
  intro c hc
  unfold fraction at hc
  rw [List.mem_reverse] at hc
  exact isDigit_of_mem_last_digits c (List.mem_reverse.mp ((List.dropWhile_sublist _).subset hc))

def decimals (n : Nat) : Text :=
  display_nat (n / 1000) ++ if (fraction n).isEmpty then [] else '.' :: fraction n

theorem display_thousandths_eq (z : Int) :
    display_thousandths z = (if z < 0 then ['-'] else []) ++ decimals z.natAbs :=
  List.append_assoc ..

theorem read_magnitude_decimals (n : Nat) : read_magnitude (decimals n) = some n := by
  have hwhole : (decimals n).takeWhile Char.isDigit = display_nat (n / 1000) := by
    unfold decimals
    rw [List.takeWhile_append_of_pos isDigit_of_mem_display_nat]
    split <;> simp
  have hrest : (decimals n).dropWhile Char.isDigit =
      if (fraction n).isEmpty then [] else '.' :: fraction n := by
    unfold decimals
    rw [List.dropWhile_append_of_pos isDigit_of_mem_display_nat]
    split <;> simp
  have hfraction : ((decimals n).dropWhile Char.isDigit).drop 1 = fraction n := by
    rw [hrest]
    split
    · rename_i h
      rw [List.isEmpty_iff.mp h]
      rfl
    · rfl
  have hstrip := strip_zeros (last_digits n)
  have hlen := congrArg List.length hstrip
  rw [List.length_append] at hlen
  have hthree : (fraction n).length ≤ (last_digits n).length := by
    unfold fraction
    omega
  have hvalue : Nat.ofDigitChars 10
      (display_nat (n / 1000) ++ fraction n ++ List.replicate (3 - (fraction n).length) '0') 0 = n := by
    have hdigits : fraction n ++ List.replicate (3 - (fraction n).length) '0' = last_digits n := hstrip
    rw [List.append_assoc, hdigits, Nat.ofDigitChars_append, Nat.ofDigitChars_eq_ofDigitChars_zero,
      last_digits_value]
    unfold display_nat
    rw [Nat.ofDigitChars_ten_toDigits]
    have hlength : (last_digits n).length = 3 := rfl
    rw [hlength]
    omega
  unfold read_magnitude
  simp only [hfraction, hwhole, hvalue]
  exact if_pos ⟨hrest, Nat.toDigits_ne_nil, hthree, List.all_eq_true.mpr isDigit_of_mem_fraction⟩

theorem mem_display_thousandths {z : Int} : ∀ c ∈ display_thousandths z,
    c.isDigit ∨ c = '-' ∨ c = '.' := by
  intro c hc
  rw [display_thousandths_eq, List.mem_append] at hc
  rcases hc with hc | hc
  · split at hc
    · simp at hc
      simp [hc]
    · simp at hc
  · rcases List.mem_append.mp hc with hc | hc
    · exact .inl (isDigit_of_mem_display_nat c hc)
    · split at hc
      · simp at hc
      · rcases List.mem_cons.mp hc with rfl | hc
        · simp
        · exact .inl (isDigit_of_mem_fraction c hc)

theorem decimals_ne_minus (n : Nat) (rest : Text) : decimals n ≠ '-' :: rest := by
  intro h
  cases hwhole : display_nat (n / 1000) with
  | nil => exact absurd hwhole Nat.toDigits_ne_nil
  | cons c whole =>
    have hdigit : c.isDigit := isDigit_of_mem_display_nat c (hwhole ▸ List.mem_cons_self)
    unfold decimals at h
    rw [hwhole] at h
    obtain ⟨rfl, -⟩ := List.cons.inj h
    exact absurd hdigit (by decide)

theorem read_thousandths_display (z : Int) : read_thousandths (display_thousandths z) = some z := by
  rw [display_thousandths_eq]
  split
  · have hminus : -(z.natAbs : Int) = z := by omega
    rw [List.singleton_append, read_thousandths, read_magnitude_decimals, Option.map_some, hminus]
  · have hplus : (z.natAbs : Int) = z := by omega
    rw [List.nil_append, read_thousandths]
    · rw [read_magnitude_decimals, Option.map_some, Int.ofNat_eq_natCast, hplus]
    · exact decimals_ne_minus z.natAbs

theorem display_thousandths_mul (z : Int) : display_thousandths (1000 * z) = display_int z := by
  have hn : (1000 * z).natAbs = 1000 * z.natAbs := by omega
  have hfraction : fraction (1000 * z.natAbs) = [] := by
    have h : ∀ k, k = 0 → Nat.digitChar k = '0' := fun k hk => hk ▸ rfl
    have hzeros : last_digits (1000 * z.natAbs) = ['0', '0', '0'] := by
      simp only [last_digits, List.map_cons, List.map_nil]
      rw [h _ (by omega), h _ (by omega), h _ (by omega)]
    unfold fraction
    rw [hzeros]
    rfl
  rw [display_thousandths_eq, decimals, hn, hfraction, Nat.mul_div_cancel_left _ (by decide)]
  unfold display_int
  by_cases hz : z < 0
  · rw [if_pos (by omega), if_pos hz]
    simp
  · rw [if_neg (by omega), if_neg hz]
    simp

theorem reads_thousandths :
    ReadsNumbers read_thousandths (fun z => 1000 * z) (fun v : Int => v) where
  int z := by
    rw [← display_thousandths_mul]
    exact read_thousandths_display _
  float := read_thousandths_display
  float_word z := by
    refine ⟨fun h => ?_, fun c hc => ?_⟩
    · have hread := read_thousandths_display z
      rw [show display_thousandths z = [] from h] at hread
      exact absurd hread nofun
    · rcases mem_display_thousandths c hc with hc | rfl | rfl
      · exact word_of_isDigit hc
      · decide
      · decide
  float_escape z := by
    refine escape_eq_self fun c hc => ?_
    rcases mem_display_thousandths c hc with hc | rfl | rfl
    · refine ⟨?_, ?_, ?_⟩ <;> (rintro rfl; revert hc; decide)
    · decide
    · decide

/-! ## Scrapes -/

/-- One name in two kinds has two type lines. -/
def clashing : List (Call Int) := [.counter_inc "x".toList [] 1, .gauge_set "x".toList [] 2]

/-- A backslash in a help text is written as it is. -/
def unescaped : List (Call Int) :=
  [.register_counter "x".toList "in a\\d".toList, .counter_inc "x".toList [] 1]

/-- The names are well formed, and yet the rendering cannot be read. -/
def Refused (as : List (Call Int)) : Prop :=
  (∀ c ∈ as, c.Named) ∧ ∃ r, run MetricsRegistry.step .new as = some r ∧
    ∃ text, r.render_prometheus = .ok text ∧ parse read_thousandths text = none

theorem refused_renderings : Refused clashing ∧ Refused unescaped := by
  have hlabels : NamedLabels [] := ⟨nofun, nofun, .nil⟩
  constructor
  · refine ⟨?_, _, rfl, _, rfl, ?_⟩
    · simp only [clashing, List.forall_mem_cons]
      exact ⟨⟨by decide, hlabels⟩, ⟨by decide, hlabels⟩, nofun⟩
    · decide
  · refine ⟨?_, _, rfl, _, rfl, ?_⟩
    · simp only [unescaped, List.forall_mem_cons]
      exact ⟨⟨by decide, by decide⟩, ⟨by decide, hlabels⟩, nofun⟩
    · decide

/-- Calls of a server, one with a path that tries to close its label set. -/
def served : List (Call Int) :=
  [.register_counter "requests".toList "Requests by path, \\\\ and all".toList,
    .counter_inc "requests".toList [("path".toList, "/a\"\x7d 1\n\x7b\\,".toList)] 2,
    .gauge_set "sessions".toList [] (-3),
    .register_histogram "seconds".toList "Durations".toList [1.0, 2.5],
    .histogram_record "seconds".toList [("method".toList, "GET".toList)] 1.5]

theorem exposition_read_iff_served :
    ∃ r, run MetricsRegistry.step .new served = some r ∧ r.Clear ∧
      ∃ text, r.render_prometheus = .ok text ∧
        ∃ parsed, parse read_thousandths text = some parsed ∧
          parsed.Perm (r.samples (fun z => 1000 * z) fun v => v) := by
  have hnamed : ∀ c ∈ served, c.Named := by
    unfold served
    simp only [List.forall_mem_cons]
    refine ⟨⟨by decide, by decide⟩, ⟨by decide, ⟨by decide, by decide, by decide⟩⟩,
      ⟨by decide, ⟨nofun, nofun, .nil⟩⟩, ⟨by decide, by decide⟩,
      ⟨by decide, ⟨by decide, by decide, by decide⟩⟩, nofun⟩
  obtain ⟨r, hrun⟩ : ∃ r, run MetricsRegistry.step .new served = some r := ⟨_, rfl⟩
  have hclear : r.Clear := by
    obtain rfl := Option.some.inj hrun
    refine .of_histograms (by decide) (by decide) ?_
    decide
  obtain ⟨hparse, hok⟩ := exposition_read_iff reads_thousandths hnamed hrun
  have hfirst : EachStep MetricsRegistry.step MetricsRegistry.RegistersFirst .new served := by
    refine (eachStep_cons rfl).mpr ⟨trivial, (eachStep_cons rfl).mpr ⟨trivial, ?_⟩⟩
    refine (eachStep_cons rfl).mpr ⟨trivial, (eachStep_cons rfl).mpr ⟨?_, ?_⟩⟩
    · rfl
    · exact (eachStep_cons rfl).mpr ⟨trivial, trivial⟩
  obtain ⟨text, htext⟩ := hok hfirst
  obtain ⟨parsed, hparsed, hperm, -⟩ := (hparse text htext).mpr hclear
  exact ⟨r, hrun, hclear, text, htext, parsed, hparsed, hperm⟩

end Gigastt.Metrics
