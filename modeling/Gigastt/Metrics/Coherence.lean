import Gigastt.Metrics.Exposition
import Mathlib.Data.Char
import Mathlib.Data.List.Lex

/-!
# When a scraper takes a rendering

The format has rules between lines, which a rendering keeps when the names of the families
differ. Samples of one family never clash, since the label sets are sorted.
-/

namespace Gigastt.Metrics

open Words TextFormat

/-! ## Sorted labels -/

theorem str_cmp_eq_gt {a b : Text} : str_cmp a b = .gt ↔ b < a := by
  fun_induction str_cmp a b with
  | case1 => simp
  | case2 => simp
  | case3 => simp
  | case4 c cs ds ih => simp [ih]
  | case5 c cs d ds hne hlt =>
    have hc : c < d := hlt
    simp [List.cons_lt_cons_iff, hc.asymm, Ne.symm hne]
  | case6 c cs d ds hne hlt =>
    have hd : d < c := lt_of_le_of_ne (not_lt.mp hlt) (Ne.symm hne)
    simp [List.cons_lt_cons_iff, hd]

theorem str_cmp_ne_gt {a b : Text} : str_cmp a b ≠ .gt ↔ a ≤ b := by
  rw [Ne, str_cmp_eq_gt, not_lt]

theorem sort_labels_sorted (labels : Labels) : SortedLabels (sort_labels labels) := by
  have htotal : Std.Total fun a b : Text × Text => str_cmp a.1 b.1 ≠ .gt :=
    ⟨fun a b => by simpa only [str_cmp_ne_gt] using le_total a.1 b.1⟩
  have htrans : IsTrans (Text × Text) fun a b => str_cmp a.1 b.1 ≠ .gt :=
    ⟨fun a b c => by simpa only [str_cmp_ne_gt] using le_trans⟩
  exact List.pairwise_insertionSort _ labels

/-- Sorted label sets with the same labels are equal. -/
theorem eq_of_perm {labels labels' : Labels} (h : NamedLabels labels) (hs : SortedLabels labels)
    (hs' : SortedLabels labels') (hperm : labels.Perm labels') : labels = labels' := by
  refine hperm.eq_of_pairwise (fun a b ha hb hab hba => ?_) hs hs'
  have hname : a.1 = b.1 := le_antisymm (str_cmp_ne_gt.mp hab) (str_cmp_ne_gt.mp hba)
  exact List.inj_on_of_nodup_map h.nodup ha (hperm.mem_iff.mpr hb) hname

theorem perm_of_with_le {labels labels' : Labels} (h : NamedLabels labels) (h' : NamedLabels labels')
    {upper upper' : Text}
    (hperm : (labels ++ [("le".toList, upper)]).Perm (labels' ++ [("le".toList, upper')])) :
    labels.Perm labels' := by
  have hkeep : ∀ (l : Labels) upper, (∀ label ∈ l, label.1 ≠ "le".toList) →
      (l ++ [("le".toList, upper)]).filter (·.1 ≠ "le".toList) = l := by
    intro l upper hl
    rw [List.filter_append, List.filter_eq_self.mpr fun label hlabel => by simpa using hl label hlabel]
    simp
  have hfilter := hperm.filter (·.1 ≠ "le".toList)
  rwa [hkeep labels upper h.not_le, hkeep labels' upper' h'.not_le] at hfilter

/-! ## Samples of one family -/

theorem mem_histogramParts {part : Text} :
    part ∈ histogramParts ↔ part = "_bucket".toList ∨ part = "_sum".toList ∨ part = "_count".toList := by
  simp [histogramParts]

theorem map_fst_pairs {K B : Type} (map : AList fun _ : K => B) : (pairs map).map (·.1) = map.keys := by
  unfold pairs
  rw [List.map_map]
  rfl

theorem sorted_keys_perm {K B : Type} (cmp : K → K → Ordering) (map : AList fun _ : K => B) :
    ((sorted cmp map).map (·.1)).Perm map.keys := by
  rw [← map_fst_pairs]
  exact (sorted_perm cmp map).map _

/-- The label sets of a family, in the order of its lines. -/
theorem sorted_pairwise_ne {B : Type} [DecidableEq Labels] (values : AList fun _ : Labels => B) :
    (sorted labels_cmp values).Pairwise fun a b => a.1 ≠ b.1 :=
  List.pairwise_map.mp ((sorted_keys_perm labels_cmp values).nodup_iff.mpr values.keys_nodup)

section Families

variable {V R : Type} [F64 V] {of_int : Int → R} {of_float : V → R} {name help : Text}

theorem not_perm_of_mem {B : Type} {values : AList fun _ : Labels => B}
    (h : NamedFamily name help values) {a b : Labels × B} (ha : a ∈ sorted labels_cmp values)
    (hb : b ∈ sorted labels_cmp values) (hne : a.1 ≠ b.1) : ¬ a.1.Perm b.1 := fun hperm =>
  hne (eq_of_perm (h.labels _ _ (mem_sorted.mp ha)) (h.sorted _ _ (mem_sorted.mp ha))
    (h.sorted _ _ (mem_sorted.mp hb)) hperm)

theorem apart_values {B : Type} {values : AList fun _ : Labels => B} {kind : Text}
    {number : B → Int} (h : NamedFamily name help values) :
    (valuesBlock of_int name help kind values number).samples.Pairwise Apart := by
  unfold valuesBlock
  rw [List.pairwise_map]
  refine (sorted_pairwise_ne values).imp_of_mem fun ha hb hne hsame => ?_
  exact not_perm_of_mem h ha hb hne hsame.2

/-- A bucket with its upper bound and its count. -/
def bucketSample (of_int : Int → R) (name : Text) (labels : Labels) (bucket : Text × Nat) : Sample R :=
  { name := name ++ "_bucket".toList
    labels := labels ++ [("le".toList, bucket.1)]
    value := of_int bucket.2 }

theorem apart_buckets {labels : Labels} {bucket bucket' : Text × Nat} :
    Apart (bucketSample of_int name labels bucket) (bucketSample of_int name labels bucket') ↔
      bucket.1 ≠ bucket'.1 := by
  simp [Apart, bucketSample, List.perm_append_left_iff]

/-- The texts of the bounds of a histogram. -/
def bound_texts (buckets : List V) : List Text := buckets.map fmt_f64_prom ++ ["+Inf".toList]

/-- The bounds of a series and the counts that its lines give. -/
def bucket_texts (buckets : List V) (series : HistogramSeries V) : List (Text × Nat) :=
  (buckets.zip series.counts).map (Prod.map fmt_f64_prom id) ++ [("+Inf".toList, series.count)]

theorem map_fst_bucket_texts {buckets : List V} {series : HistogramSeries V}
    (hlen : buckets.length ≤ series.counts.length) :
    (bucket_texts buckets series).map (·.1) = bound_texts buckets := by
  have hbounds : (buckets.zip series.counts).map (·.1) = buckets := List.map_fst_zip hlen
  have htexts : ((buckets.zip series.counts).map (Prod.map fmt_f64_prom id)).map (·.1) =
      ((buckets.zip series.counts).map (·.1)).map fmt_f64_prom := by
    rw [List.map_map, List.map_map]
    rfl
  unfold bucket_texts bound_texts
  rw [List.map_append, htexts, hbounds]
  rfl

theorem series_samples_eq (name : Text) (buckets : List V) (labels : Labels)
    (series : HistogramSeries V) :
    series.samples of_int of_float name buckets labels =
      (bucket_texts buckets series).map (bucketSample of_int name labels) ++
      [{ name := name ++ "_sum".toList, labels, value := of_float series.sum },
        { name := name ++ "_count".toList, labels, value := of_int series.count }] := by
  unfold HistogramSeries.samples bucket_texts
  rw [List.map_append, List.map_map, List.append_assoc]
  rfl

/-- A series repeats no sample when no two of its bounds are written alike. -/
theorem apart_series {labels : Labels} {buckets : List V} {series : HistogramSeries V}
    (hlen : buckets.length ≤ series.counts.length) :
    (series.samples of_int of_float name buckets labels).Pairwise Apart ↔
      (bound_texts buckets).Nodup := by
  have hbuckets : ((bucket_texts buckets series).map (bucketSample of_int name labels)).Pairwise
      Apart ↔ (bound_texts buckets).Nodup := by
    rw [← map_fst_bucket_texts hlen, List.nodup_iff_pairwise_ne, List.pairwise_map, List.pairwise_map]
    simp only [apart_buckets]
  rw [series_samples_eq, List.pairwise_append, hbuckets]
  refine and_iff_left ⟨by simp [Apart], fun s hs s' hs' hsame => ?_⟩
  obtain ⟨bucket, -, rfl⟩ := List.mem_map.mp hs
  rcases List.mem_pair.mp hs' with rfl | rfl
  · simp [bucketSample] at hsame
  · simp [bucketSample] at hsame

/-- The name and the labels of a sample, beside those of its family and its series. -/
theorem mem_series_samples {buckets : List V} {labels : Labels} {series : HistogramSeries V}
    {s : Sample R} (hs : s ∈ series.samples of_int of_float name buckets labels) :
    (s.name = name ++ "_bucket".toList ∧ ∃ upper, s.labels = labels ++ [("le".toList, upper)]) ∨
      (s.name = name ++ "_sum".toList ∨ s.name = name ++ "_count".toList) ∧ s.labels = labels := by
  rw [series_samples_eq] at hs
  rcases List.mem_append.mp hs with hs | hs
  · obtain ⟨bucket, -, rfl⟩ := List.mem_map.mp hs
    exact .inl ⟨rfl, _, rfl⟩
  · rcases List.mem_pair.mp hs with rfl | rfl
    · exact .inr ⟨.inl rfl, rfl⟩
    · exact .inr ⟨.inr rfl, rfl⟩

theorem perm_of_same_sample {buckets : List V} {labels labels' : Labels}
    {series series' : HistogramSeries V} {s s' : Sample R} (h : NamedLabels labels)
    (h' : NamedLabels labels') (hs : s ∈ series.samples of_int of_float name buckets labels)
    (hs' : s' ∈ series'.samples of_int of_float name buckets labels') (hname : s.name = s'.name)
    (hperm : s.labels.Perm s'.labels) : labels.Perm labels' := by
  have hparts : name ++ "_bucket".toList ≠ name ++ "_sum".toList ∧
      name ++ "_bucket".toList ≠ name ++ "_count".toList := by simp
  rcases mem_series_samples hs with ⟨hbucket, upper, hlabels⟩ | ⟨htotal, hlabels⟩ <;>
    rcases mem_series_samples hs' with ⟨hbucket', upper', hlabels'⟩ | ⟨htotal', hlabels'⟩ <;>
    rw [hlabels, hlabels'] at hperm
  · exact perm_of_with_le h h' hperm
  · rw [← hname, hbucket] at htotal'
    exact (htotal'.elim hparts.1 hparts.2).elim
  · rw [hname, hbucket'] at htotal
    exact (htotal.elim hparts.1 hparts.2).elim
  · exact hperm

theorem apart_histogram {family : HistogramFamily V}
    (h : NamedFamily name family.help family.series)
    (hlen : ∀ labels series, family.series.lookup labels = some series →
      family.buckets.length ≤ series.counts.length) :
    (family.block of_int of_float name).samples.Pairwise Apart ↔
      ∀ labels series, family.series.lookup labels = some series →
        (bound_texts family.buckets).Nodup := by
  unfold HistogramFamily.block
  rw [List.pairwise_flatMap]
  constructor
  · rintro ⟨hsame, -⟩ labels series hs
    exact (apart_series (hlen labels series hs)).mp (hsame (labels, series) (mem_sorted.mpr hs))
  · intro hbounds
    refine ⟨fun (labels, series) hmem => ?_, (sorted_pairwise_ne family.series).imp_of_mem ?_⟩
    · have hs := mem_sorted.mp hmem
      exact (apart_series (hlen labels series hs)).mpr (hbounds labels series hs)
    · intro a b ha hb hne s hs s' hs' hsame
      exact not_perm_of_mem h ha hb hne
        (perm_of_same_sample (h.labels _ _ (mem_sorted.mp ha)) (h.labels _ _ (mem_sorted.mp hb))
          hs hs' hsame.1 hsame.2)

end Families

/-! ## Registries -/

namespace MetricsRegistry

variable {V R : Type} [F64 V] {of_int : Int → R} {of_float : V → R} {r : MetricsRegistry V}

def names (r : MetricsRegistry V) : List Text := r.counters.keys ++ r.gauges.keys ++ r.histograms.keys

def helps (r : MetricsRegistry V) : List Text :=
  (pairs r.counters).map (·.2.help) ++ (pairs r.gauges).map (·.2.help) ++
    (pairs r.histograms).map (·.2.help)

/-- What the format asks of a registry beyond the shape of its names. -/
structure Clear (r : MetricsRegistry V) : Prop where
  help : ∀ help ∈ r.helps, escaped help
  names : r.names.Nodup
  parts : r.EachSeries fun name _ _ _ => ∀ part ∈ histogramParts, name ++ part ∉ r.names
  bounds : r.EachSeries fun _ family _ _ => (bound_texts family.buckets).Nodup

omit [F64 V] in
theorem family_eq_of_lookup {name : Text} {family : HistogramFamily V}
    (h : r.histograms.lookup name = some family) : r.family name = family := by
  simp [MetricsRegistry.family, h]

omit [F64 V] in
/-- A family with a series is one of the map. -/
theorem lookup_of_series {name : Text} {labels : Labels} {series : HistogramSeries V}
    (hs : (r.family name).series.lookup labels = some series) :
    r.histograms.lookup name = some (r.family name) := by
  cases hfamily : r.histograms.lookup name with
  | none =>
    unfold MetricsRegistry.family at hs
    rw [hfamily] at hs
    cases hs
  | some family => rw [family_eq_of_lookup hfamily]

/-- The conditions, looked up family by family. -/
theorem Clear.of_histograms (hhelp : ∀ help ∈ r.helps, escaped help) (hnames : r.names.Nodup)
    (h : ∀ e ∈ pairs r.histograms, (∀ part ∈ histogramParts, e.1 ++ part ∉ r.names) ∧
      (bound_texts e.2.buckets).Nodup) : r.Clear where
  help := hhelp
  names := hnames
  parts _ _ _ hs := (h _ (mem_pairs.mpr (lookup_of_series hs))).1
  bounds _ _ _ hs := (h _ (mem_pairs.mpr (lookup_of_series hs))).2

omit [F64 V] in
theorem escapes_iff : r.escapes ↔ ∀ help ∈ r.helps, escaped help := by
  have hsorted : ∀ {F : Type} (map : AList fun _ : Text => F) (help : F → Text),
      ((sorted str_cmp map).all fun (_, family) => escaped (help family)) ↔
        ∀ text ∈ (pairs map).map fun e => help e.2, escaped text := by
    intro F map help
    rw [List.all_eq_true, List.forall_mem_map]
    exact forall_congr' fun e => imp_congr (sorted_perm str_cmp map).mem_iff Iff.rfl
  unfold escapes helps
  simp only [Bool.and_eq_true, hsorted, List.forall_mem_append]

theorem lengths_of_render {text : Text} (h : r.render_prometheus = .ok text) :
    r.EachSeries fun _ family _ series => family.buckets.length ≤ series.counts.length := by
  intro name labels series hs
  obtain ⟨texts, htexts, -⟩ := bind_eq_ok.mp h
  obtain ⟨text, htext⟩ := mapM_isOk.mp ⟨texts, htexts⟩ _ (mem_sorted.mpr (lookup_of_series hs))
  obtain ⟨lines, hlines, -⟩ := bind_eq_ok.mp htext
  obtain ⟨line, hline⟩ := mapM_isOk.mp ⟨lines, hlines⟩ _ (mem_sorted.mpr hs)
  obtain ⟨shown, hshown, -⟩ := bind_eq_ok.mp hline
  exact le_length_of_shown hshown

theorem names_blocks_perm : ((r.blocks of_int of_float).map (·.name)).Perm r.names := by
  unfold blocks names
  rw [List.map_append, List.map_append, List.map_map, List.map_map, List.map_map]
  exact ((sorted_keys_perm ..).append (sorted_keys_perm ..)).append (sorted_keys_perm ..)

theorem samples_blocks_perm :
    ((r.blocks of_int of_float).flatMap (·.samples)).Perm (r.samples of_int of_float) := by
  have hvalues : ∀ {B : Type} (name help kind : Text) (values : AList fun _ : Labels => B) number,
      (valuesBlock of_int name help kind values number).samples.Perm
        ((pairs values).map fun entry =>
          { name, labels := entry.1, value := of_int (number entry.2) }) :=
    fun _ _ _ _ _ => (sorted_perm ..).map _
  unfold blocks samples
  rw [List.flatMap_append, List.flatMap_append, List.flatMap_map, List.flatMap_map, List.flatMap_map]
  refine .append (.append ?_ ?_) ?_
  · exact ((sorted_perm ..).flatMap_right _).trans (.flatMap_left _ fun _ _ => hvalues ..)
  · exact ((sorted_perm ..).flatMap_right _).trans (.flatMap_left _ fun _ _ => hvalues ..)
  · exact ((sorted_perm ..).flatMap_right _).trans
      (.flatMap_left _ fun _ _ => (sorted_perm ..).flatMap_right _)

/-- The blocks of counters and gauges, or of histograms. -/
theorem block_cases {b : Block R} (hb : b ∈ r.blocks of_int of_float) (h : r.Named) :
    ((∀ s ∈ b.samples, s.name = b.name) ∧ b.samples.Pairwise Apart) ∨
      ∃ name family, r.histograms.lookup name = some family ∧ b = family.block of_int of_float name := by
  unfold blocks at hb
  simp only [List.mem_append, List.mem_map, Prod.exists, mem_sorted] at hb
  rcases hb with (⟨name, family, hfamily, rfl⟩ | ⟨name, family, hfamily, rfl⟩) |
    ⟨name, family, hfamily, rfl⟩
  · refine .inl ⟨fun s hs => ?_, apart_values (h.counters name family hfamily)⟩
    obtain ⟨_, -, rfl⟩ := List.mem_map.mp hs
    rfl
  · refine .inl ⟨fun s hs => ?_, apart_values (h.gauges name family hfamily)⟩
    obtain ⟨_, -, rfl⟩ := List.mem_map.mp hs
    rfl
  · exact .inr ⟨name, family, hfamily, rfl⟩

theorem mem_histogram_block {name : Text} {family : HistogramFamily V} {s : Sample R} :
    s ∈ (family.block of_int of_float name).samples ↔
      ∃ labels series, family.series.lookup labels = some series ∧
        s ∈ series.samples of_int of_float name family.buckets labels := by
  unfold HistogramFamily.block
  simp only [List.mem_flatMap, Prod.exists, mem_sorted]

/-- Each part of a histogram has samples in each of its series, and there are no others. -/
theorem exists_part_sample {name part : Text} {family : HistogramFamily V} :
    (∃ s ∈ (family.block of_int of_float name).samples, s.name = name ++ part) ↔
      part ∈ histogramParts ∧ ∃ labels series, family.series.lookup labels = some series := by
  simp only [mem_histogram_block, mem_histogramParts]
  constructor
  · rintro ⟨s, ⟨labels, series, hseries, hs⟩, hname⟩
    refine ⟨?_, labels, series, hseries⟩
    have hparts := (mem_series_samples hs).imp (·.1) (·.1)
    simpa only [hname, List.append_cancel_left_eq] using hparts
  · rintro ⟨hpart, labels, series, hseries⟩
    simp only [series_samples_eq]
    rcases hpart with rfl | rfl | rfl
    · refine ⟨bucketSample of_int name labels ("+Inf".toList, series.count),
        ⟨labels, series, hseries, ?_⟩, rfl⟩
      exact List.mem_append_left _ (List.mem_map_of_mem (by simp [bucket_texts]))
    · exact ⟨_, ⟨labels, series, hseries, List.mem_append_right _ List.mem_cons_self⟩, rfl⟩
    · exact ⟨_, ⟨labels, series, hseries,
        List.mem_append_right _ (List.mem_cons_of_mem _ List.mem_cons_self)⟩, rfl⟩

theorem name_of_mem_histogram_block {name : Text} {family : HistogramFamily V} {s : Sample R}
    (hs : s ∈ (family.block of_int of_float name).samples) :
    ∃ part ∈ histogramParts, s.name = name ++ part := by
  obtain ⟨labels, series, hseries, hs⟩ := mem_histogram_block.mp hs
  rcases mem_series_samples hs with ⟨hname, -⟩ | ⟨hname | hname, -⟩
  · exact ⟨_, mem_histogramParts.mpr (.inl rfl), hname⟩
  · exact ⟨_, mem_histogramParts.mpr (.inr (.inl rfl)), hname⟩
  · exact ⟨_, mem_histogramParts.mpr (.inr (.inr rfl)), hname⟩

theorem proper_blocks (h : r.Named) : ∀ b ∈ r.blocks of_int of_float, b.Proper := by
  intro b hb s hs
  rcases block_cases hb h with ⟨hnames, -⟩ | ⟨name, family, -, rfl⟩
  · exact .inl (hnames s hs)
  · obtain ⟨part, hpart, hname⟩ := name_of_mem_histogram_block hs
    refine .inr ?_
    unfold isPart
    rw [hname, Bool.or_eq_true]
    refine .inl ?_
    simp [HistogramFamily.block, hpart]

theorem histogram_block_mem {name : Text} {family : HistogramFamily V}
    (h : r.histograms.lookup name = some family) :
    family.block of_int of_float name ∈ r.blocks of_int of_float :=
  List.mem_append_right _ (List.mem_map.mpr ⟨(name, family), mem_sorted.mpr h, rfl⟩)

theorem distinct_blocks_iff (h : r.Named) :
    Distinct (r.blocks of_int of_float) ↔
      r.names.Nodup ∧ r.EachSeries fun name _ _ _ => ∀ part ∈ histogramParts, name ++ part ∉ r.names := by
  have hperm : ((r.blocks of_int of_float).map (·.name)).Perm r.names := names_blocks_perm
  constructor
  · intro hdistinct
    refine ⟨hperm.nodup_iff.mp hdistinct.names, fun name labels series hs part hpart hmem => ?_⟩
    have hfamily := lookup_of_series hs
    obtain ⟨s, hsample, hname⟩ : ∃ s ∈ ((r.family name).block of_int of_float name).samples,
        s.name = name ++ part := exists_part_sample.mpr ⟨hpart, labels, series, hs⟩
    have hown : name ++ part ≠ name := by
      rcases mem_histogramParts.mp hpart with rfl | rfl | rfl <;> simp
    refine hdistinct.parts _ (histogram_block_mem hfamily) s hsample ?_ (hperm.mem_iff.mpr ?_)
    · rw [hname]
      exact hown
    · rwa [hname]
  · rintro ⟨hnames, hparts⟩
    refine ⟨hperm.nodup_iff.mpr hnames, fun b hb s hs hown hmem => ?_⟩
    rcases block_cases hb h with ⟨hsame, -⟩ | ⟨name, family, hfamily, rfl⟩
    · exact hown (hsame s hs)
    · obtain ⟨part, hpart, hname⟩ := name_of_mem_histogram_block hs
      obtain ⟨labels, series, hseries, -⟩ := mem_histogram_block.mp hs
      rw [hname] at hmem
      refine hparts name labels series ?_ part hpart (hperm.mem_iff.mp hmem)
      rwa [family_eq_of_lookup hfamily]

theorem apart_blocks_iff (h : r.Named)
    (hlen : r.EachSeries fun _ family _ series => family.buckets.length ≤ series.counts.length) :
    (∀ b ∈ r.blocks of_int of_float, b.samples.Pairwise Apart) ↔
      r.EachSeries fun _ family _ _ => (bound_texts family.buckets).Nodup := by
  have hfamily : ∀ name family, r.histograms.lookup name = some family →
      ((family.block of_int of_float name).samples.Pairwise Apart ↔
        ∀ labels series, family.series.lookup labels = some series →
          (bound_texts family.buckets).Nodup) := by
    intro name family hlookup
    refine apart_histogram (h.histograms name family hlookup) fun labels series hs => ?_
    rw [← family_eq_of_lookup hlookup] at hs ⊢
    exact hlen name labels series hs
  constructor
  · intro hapart name labels series hs
    have hlookup := lookup_of_series hs
    exact (hfamily name _ hlookup).mp (hapart _ (histogram_block_mem hlookup)) labels series hs
  · intro hbounds b hb
    rcases block_cases hb h with ⟨-, hapart⟩ | ⟨name, family, hlookup, rfl⟩
    · exact hapart
    · refine (hfamily name family hlookup).mpr fun labels series hs => ?_
      rw [← family_eq_of_lookup hlookup] at hs ⊢
      exact hbounds name labels series hs

/-- A rendering is in the format iff the registry is clear, and then its samples are read. -/
theorem parse_render {read : Text → Option R} (hnumbers : ReadsNumbers read of_int of_float)
    (h : r.Named) {text : Text} (hrender : r.render_prometheus = .ok text) :
    (r.Clear ∧ parse read text = some ((r.blocks of_int of_float).flatMap (·.samples))) ∨
      (¬ r.Clear ∧ parse read text = none) := by
  have hlen := lengths_of_render hrender
  have hclear : r.Clear ↔ r.escapes = true ∧
      Coherent ((r.blocks of_int of_float).flatMap Block.lines) := by
    rw [escapes_iff, coherent_iff (proper_blocks h), distinct_blocks_iff h, apart_blocks_iff h hlen]
    exact ⟨fun h => ⟨h.help, ⟨h.names, h.parts⟩, h.bounds⟩,
      fun ⟨hhelp, ⟨hnames, hparts⟩, hbounds⟩ => ⟨hhelp, hnames, hparts, hbounds⟩⟩
  rw [(reads_registry hnumbers h hrender).parse_eq, hclear, sampled_blocks]
  split
  · rename_i hboth
    exact .inl ⟨hboth, rfl⟩
  · rename_i hboth
    exact .inr ⟨hboth, rfl⟩

theorem parse_of_clear {read : Text → Option R} (hnumbers : ReadsNumbers read of_int of_float)
    (h : r.Named) (hclear : r.Clear) {text : Text} (hrender : r.render_prometheus = .ok text) :
    ∃ parsed, parse read text = some parsed ∧ parsed.Perm (r.samples of_int of_float) := by
  rcases parse_render hnumbers h hrender with ⟨-, hparse⟩ | ⟨hnot, -⟩
  · exact ⟨_, hparse, samples_blocks_perm⟩
  · exact absurd hclear hnot

theorem clear_of_parse {read : Text → Option R} (hnumbers : ReadsNumbers read of_int of_float)
    (h : r.Named) {text : Text} (hrender : r.render_prometheus = .ok text) {parsed : List (Sample R)}
    (hparsed : parse read text = some parsed) : r.Clear := by
  rcases parse_render hnumbers h hrender with ⟨hclear, -⟩ | ⟨-, hnone⟩
  · exact hclear
  · rw [hnone] at hparsed
    cases hparsed

end MetricsRegistry

end Gigastt.Metrics
