import Gigastt.Metrics.Tally

/-!
# Registries with a fixed set of families

When all calls go to families of a list, whose names clash nowhere, a scrape can be read.
-/

namespace Gigastt.Metrics

open Steps Words TextFormat

variable {V : Type} [F64 V] {r r' : MetricsRegistry V} {c : Call V} {families : List (Kind × Text)}

/-! ## Calls to the families -/

/-- The call goes to a family of the list. What it registers, the format has no objection to. -/
def Call.Within (families : List (Kind × Text)) : Call V → Prop
  | .register_counter name help => (.counter, name) ∈ families ∧ escaped help
  | .counter_inc name _ _ => (.counter, name) ∈ families
  | .register_gauge name help => (.gauge, name) ∈ families ∧ escaped help
  | .gauge_set name _ _ | .gauge_inc name _ _ => (.gauge, name) ∈ families
  | .register_histogram name help buckets =>
    (.histogram, name) ∈ families ∧ escaped help ∧ (bound_texts (normalised buckets)).Nodup
  | .histogram_record name _ _ => (.histogram, name) ∈ families
  | .render_prometheus => True

/-- Bounds that are written differently still are when they are sorted and deduplicated. -/
theorem bound_texts_normalised {buckets : List V} (h : (bound_texts buckets).Nodup) :
    (bound_texts (normalised buckets)).Nodup := by
  have hperm : ((buckets.insertionSort fun a b => (F64.partial_cmp a b).getD .eq ≠ .gt).map
      fmt_f64_prom).Perm (buckets.map fmt_f64_prom) := (List.perm_insertionSort _ _).map _
  have hsub : ((normalised buckets).map fmt_f64_prom).Sublist _ := (List.destutter_sublist _ _).map _
  unfold bound_texts at h ⊢
  exact ((hperm.append_right _).nodup_iff.mpr h).sublist (hsub.append_right _)

namespace MetricsRegistry

/-- The families are of the list, with help texts and bounds that can be read. -/
structure Within (families : List (Kind × Text)) (r : MetricsRegistry V) : Prop where
  counters : ∀ name family, r.counters.lookup name = some family →
    (.counter, name) ∈ families ∧ escaped family.help
  gauges : ∀ name family, r.gauges.lookup name = some family →
    (.gauge, name) ∈ families ∧ escaped family.help
  histograms : ∀ name family, r.histograms.lookup name = some family →
    (.histogram, name) ∈ families ∧ escaped family.help ∧ (bound_texts family.buckets).Nodup

theorem within_new : (new : MetricsRegistry V).Within families := ⟨nofun, nofun, nofun⟩

theorem Within.counter_help (h : r.Within families) (name : Text) :
    escaped ((r.counters.lookup name).getD .default).help := by
  cases hfamily : r.counters.lookup name with
  | none => rfl
  | some family => exact (h.counters name family hfamily).2

theorem Within.gauge_help (h : r.Within families) (name : Text) :
    escaped ((r.gauges.lookup name).getD .default).help := by
  cases hfamily : r.gauges.lookup name with
  | none => rfl
  | some family => exact (h.gauges name family hfamily).2

theorem Within.histogram_help (h : r.Within families) (name : Text) :
    escaped (r.family name).help ∧ (bound_texts (r.family name).buckets).Nodup := by
  unfold MetricsRegistry.family
  cases hfamily : r.histograms.lookup name with
  | none => exact ⟨rfl, List.nodup_singleton _⟩
  | some family => exact (h.histograms name family hfamily).2

theorem Within.call (h : r.Within families) (hdefault : (bound_texts (DEFAULT_BUCKETS : List V)).Nodup)
    (hc : c.Within families) (hok : r.call c = .ok r') : r'.Within families := by
  cases c with
  | register_counter name help =>
    obtain rfl := Except.ok.inj hok
    exact ⟨forall_lookup_insert h.counters hc, h.gauges, h.histograms⟩
  | counter_inc name labels delta =>
    obtain rfl := Except.ok.inj hok
    exact ⟨forall_lookup_insert h.counters ⟨hc, h.counter_help name⟩, h.gauges, h.histograms⟩
  | register_gauge name help =>
    obtain rfl := Except.ok.inj hok
    exact ⟨h.counters, forall_lookup_insert h.gauges hc, h.histograms⟩
  | gauge_set name labels value =>
    obtain rfl := Except.ok.inj hok
    exact ⟨h.counters, forall_lookup_insert h.gauges ⟨hc, h.gauge_help name⟩, h.histograms⟩
  | gauge_inc name labels delta =>
    obtain rfl := Except.ok.inj hok
    exact ⟨h.counters, forall_lookup_insert h.gauges ⟨hc, h.gauge_help name⟩, h.histograms⟩
  | register_histogram name help buckets =>
    obtain rfl := Except.ok.inj hok
    exact ⟨h.counters, h.gauges, forall_lookup_insert h.histograms hc⟩
  | histogram_record name labels value =>
    obtain ⟨series, -, hrecord, -⟩ := histogram_record_spec r name labels value
    obtain rfl := Except.ok.inj (hrecord.symm.trans hok)
    have hfamily := h.histogram_help name
    refine ⟨h.counters, h.gauges, forall_lookup_insert h.histograms ⟨hc, hfamily.1, ?_⟩⟩
    show (bound_texts (r.bounds name)).Nodup
    unfold bounds
    split
    · exact hdefault
    · exact hfamily.2
  | render_prometheus =>
    obtain ⟨text, -, rfl⟩ := map_eq_ok.mp hok
    exact h

theorem within_of_run {as : List (Call V)} (hdefault : (bound_texts (DEFAULT_BUCKETS : List V)).Nodup)
    (hwithin : ∀ c ∈ as, c.Within families) (hrun : run step .new as = some r) : r.Within families :=
  inv_of_eachStep (fun r : MetricsRegistry V => r.Within families)
    (fun _ _ _ hc h hr => hr.call hdefault hc (call_of_step h)) hrun (eachStep_of_mem hwithin _)
    within_new

/-! ## No clash -/

/-- The names of the list are distinct, and none is a part of a histogram. -/
structure Apart (families : List (Kind × Text)) : Prop where
  names : (families.map (·.2)).Nodup
  parts : ∀ e ∈ families, e.1 = .histogram → ∀ part ∈ histogramParts,
    e.2 ++ part ∉ families.map (·.2)

theorem Apart.kind_eq (h : Apart families) {kind kind' : Kind} {name : Text}
    (hkind : (kind, name) ∈ families) (hkind' : (kind', name) ∈ families) : kind = kind' :=
  (Prod.mk.inj (List.inj_on_of_nodup_map h.names hkind hkind' rfl)).1

theorem Within.mem_of_key (h : r.Within families) {name : Text} :
    (name ∈ r.counters.keys → (.counter, name) ∈ families) ∧
      (name ∈ r.gauges.keys → (.gauge, name) ∈ families) ∧
      (name ∈ r.histograms.keys → (.histogram, name) ∈ families) := by
  refine ⟨fun hmem => ?_, fun hmem => ?_, fun hmem => ?_⟩
  · obtain ⟨family, hfamily⟩ := Option.isSome_iff_exists.mp (AList.lookup_isSome.mpr hmem)
    exact (h.counters name family hfamily).1
  · obtain ⟨family, hfamily⟩ := Option.isSome_iff_exists.mp (AList.lookup_isSome.mpr hmem)
    exact (h.gauges name family hfamily).1
  · obtain ⟨family, hfamily⟩ := Option.isSome_iff_exists.mp (AList.lookup_isSome.mpr hmem)
    exact (h.histograms name family hfamily).1

theorem Within.clear (h : r.Within families) (hapart : Apart families) : r.Clear := by
  refine .of_histograms ?_ ?_ ?_
  · intro help hmem
    unfold helps at hmem
    simp only [List.mem_append, List.mem_map, Prod.exists, mem_pairs] at hmem
    rcases hmem with (⟨name, family, hfamily, rfl⟩ | ⟨name, family, hfamily, rfl⟩) |
      ⟨name, family, hfamily, rfl⟩
    · exact (h.counters name family hfamily).2
    · exact (h.gauges name family hfamily).2
    · exact (h.histograms name family hfamily).2.1
  · unfold names
    rw [List.nodup_append, List.nodup_append]
    refine ⟨⟨r.counters.keys_nodup, r.gauges.keys_nodup, ?_⟩, r.histograms.keys_nodup, ?_⟩
    · rintro name hcounter _ hgauge rfl
      have hkinds := hapart.kind_eq (h.mem_of_key.1 hcounter) (h.mem_of_key.2.1 hgauge)
      cases hkinds
    · rintro name hname _ hhistogram rfl
      rcases List.mem_append.mp hname with hcounter | hgauge
      · have hkinds := hapart.kind_eq (h.mem_of_key.1 hcounter) (h.mem_of_key.2.2 hhistogram)
        cases hkinds
      · have hkinds := hapart.kind_eq (h.mem_of_key.2.1 hgauge) (h.mem_of_key.2.2 hhistogram)
        cases hkinds
  · rintro ⟨name, family⟩ hmem
    obtain ⟨hfamily, -, hbounds⟩ := h.histograms name family (mem_pairs.mp hmem)
    refine ⟨fun part hpart hname => hapart.parts _ hfamily rfl part hpart ?_, hbounds⟩
    unfold names at hname
    rcases List.mem_append.mp hname with hname | hhistogram
    · rcases List.mem_append.mp hname with hcounter | hgauge
      · exact List.mem_map_of_mem (h.mem_of_key.1 hcounter)
      · exact List.mem_map_of_mem (h.mem_of_key.2.1 hgauge)
    · exact List.mem_map_of_mem (h.mem_of_key.2.2 hhistogram)

/-! ## A gauge without labels -/

/-- The samples of its name: one as soon as it was written to, with its value. -/
theorem gauge_sample_iff {R : Type} {of_int : Int → R} {of_float : V → R} (h : r.Within families)
    (hapart : Apart families) {name : Text} (hname : (.gauge, name) ∈ families)
    (hkeys : ∀ labels, r.Has (.gauge, name, labels) → labels = []) {s : Sample R} :
    s ∈ r.samples of_int of_float ∧ s.name = name ↔
      r.Has (.gauge, name, []) ∧
        s = { name, labels := [], value := of_int (r.gauge_reading name []).toInt } := by
  simp only [samples, List.mem_append, List.mem_flatMap, List.mem_map, Prod.exists]
  have hvalue : ∀ family value, r.gauges.lookup name = some family →
      family.values.lookup [] = some value → r.gauge_reading name [] = value := by
    intro family value hfamily hvalue
    simp [gauge_reading, hfamily, hvalue]
  constructor
  · rintro ⟨(⟨name', family, hfamily, labels, value, -, rfl⟩ |
      ⟨name', family, hfamily, labels, value, hlabels, rfl⟩) |
      ⟨name', family, hfamily, labels, series, hseries, hs⟩, rfl⟩
    · have hkinds := hapart.kind_eq (h.counters _ _ (mem_pairs.mp hfamily)).1 hname
      cases hkinds
    · have hhas : r.Has (.gauge, name', labels) :=
        (mem_getD_iff GaugeFamily.values rfl _ _).mpr ⟨family, hfamily, value, hlabels⟩
      obtain rfl := hkeys labels hhas
      rw [hvalue family value (mem_pairs.mp hfamily) (mem_pairs.mp hlabels)]
      exact ⟨hhas, rfl⟩
    · obtain ⟨part, hpart, heq⟩ : ∃ part ∈ histogramParts, s.name = name' ++ part := by
        exact name_of_mem_histogram_block (mem_histogram_block.mpr
          ⟨labels, series, mem_pairs.mp hseries, hs⟩)
      have hmem := List.mem_map_of_mem (f := Prod.snd) hname
      rw [heq] at hmem
      exact absurd hmem (hapart.parts _ (h.histograms _ _ (mem_pairs.mp hfamily)).1 rfl part hpart)
  · rintro ⟨hhas, rfl⟩
    obtain ⟨family, hfamily, value, hlabels⟩ := (mem_getD_iff GaugeFamily.values rfl _ _).mp hhas
    refine ⟨.inl (.inr ⟨name, family, hfamily, [], value, hlabels, ?_⟩), rfl⟩
    rw [hvalue family value (mem_pairs.mp hfamily) (mem_pairs.mp hlabels)]

end MetricsRegistry

end Gigastt.Metrics
