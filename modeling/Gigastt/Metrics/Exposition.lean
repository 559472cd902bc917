import Gigastt.Lib.TextFormat
import Gigastt.Metrics.Histograms

/-!
# What a scraper reads

A rendering is taken apart by the grammar of the text format into the samples of the
registry, whatever the label values are.
-/

namespace Gigastt.Metrics

open Words TextFormat

/-! ## Labels -/

section Labels

variable {labels : Labels} {name : Text} {value rest : Text}

theorem parseLabels_escape_char (c : Char) :
    parseLabels (.value name value) labels (escape_char c ++ rest) =
      parseLabels (.value name (value ++ [c])) labels rest := by
  unfold escape_char
  split
  · exact parseLabels_escape (by decide)
  · exact parseLabels_escape (by decide)
  · exact parseLabels_escape (by decide)
  · rename_i hbackslash hquote _
    exact parseLabels_char hquote hbackslash

/-- A value is read back, whatever it is. -/
theorem parseLabels_value (text : Text) :
    parseLabels (.value name value) labels (escape text ++ rest) =
      parseLabels (.value name (value ++ text)) labels rest := by
  unfold escape
  induction text generalizing value with
  | nil => simp
  | cons c text ih =>
    rw [List.flatMap_cons, List.append_assoc, parseLabels_escape_char, ih, List.append_assoc]
    rfl

theorem parseLabels_format_label {label : Text × Text} (h : isLabelName label.1) :
    parseLabels .start labels (format_label label ++ rest) =
      parseLabels .after (labels ++ [label]) rest := by
  have htext : format_label label ++ rest =
      label.1 ++ '=' :: '"' :: (escape label.2 ++ '"' :: rest) := by
    unfold format_label
    simp
  rw [htext, parseLabels_name h, parseLabels_value, List.nil_append, parseLabels_close]

theorem escape_eq_self {text : Text} (h : ∀ c ∈ text, c ≠ '\\' ∧ c ≠ '"' ∧ c ≠ '\n') :
    escape text = text := by
  unfold escape
  induction text with
  | nil => rfl
  | cons c text ih =>
    rw [List.forall_mem_cons] at h
    obtain ⟨⟨hbackslash, hquote, hnewline⟩, hrest⟩ := h
    have hc : escape_char c = [c] := by
      unfold escape_char
      split <;> simp_all
    rw [List.flatMap_cons, ih hrest, hc, List.singleton_append]

/-- What stands between the braces. -/
def inner (labels : Labels) : Text := List.intercalate [','] (labels.map format_label)

theorem inner_cons (label label' : Text × Text) (labels : Labels) :
    inner (label :: label' :: labels) = format_label label ++ ',' :: inner (label' :: labels) := by
  simp [inner, List.intercalate]

theorem parseLabels_inner {label : Text × Text} {more : Labels}
    (h : ∀ l ∈ label :: more, isLabelName l.1) :
    parseLabels .start labels (inner (label :: more) ++ '}' :: rest) =
      some (labels ++ label :: more, rest) := by
  induction more generalizing label labels with
  | nil =>
    have hinner : inner [label] = format_label label := by simp [inner, List.intercalate]
    rw [hinner, parseLabels_format_label (h label List.mem_cons_self), parseLabels_end]
  | cons label' more ih =>
    rw [List.forall_mem_cons] at h
    rw [inner_cons, List.append_assoc, List.cons_append, parseLabels_format_label h.1,
      parseLabels_comma, ih h.2, List.append_assoc]
    rfl

theorem newline_not_mem_escape (text : Text) : '\n' ∉ escape text := by
  unfold escape
  simp only [List.mem_flatMap, not_exists, not_and]
  intro c _
  unfold escape_char
  split
  · decide
  · decide
  · decide
  · rename_i hc
    simpa using Ne.symm hc

theorem newline_not_mem_format_label {label : Text × Text} (h : isLabelName label.1) :
    '\n' ∉ format_label label := by
  have hname := newline_not_mem_labelName h
  have hvalue := newline_not_mem_escape label.2
  simp [format_label, hname, hvalue]

theorem newline_not_mem_inner (h : ∀ l ∈ labels, isLabelName l.1) : '\n' ∉ inner labels := by
  induction labels with
  | nil => simp [inner, List.intercalate]
  | cons label labels ih =>
    have hlabel := newline_not_mem_format_label (h label List.mem_cons_self)
    cases labels with
    | nil => simpa [inner, List.intercalate] using hlabel
    | cons label' labels =>
      have hrest := ih fun l hl => h l (List.mem_cons_of_mem _ hl)
      rw [inner_cons]
      simp [hlabel, hrest]

theorem inner_ne_nil (label : Text × Text) (labels : Labels) : inner (label :: labels) ≠ [] := by
  have hlabel : format_label label ≠ [] := by simp [format_label]
  cases labels with
  | nil => simpa [inner, List.intercalate] using hlabel
  | cons label' labels =>
    rw [inner_cons]
    simp

theorem inner_snoc (label last : Text × Text) (labels : Labels) :
    inner (label :: labels ++ [last]) = inner (label :: labels) ++ ',' :: format_label last := by
  induction labels generalizing label with
  | nil => simp [inner, List.intercalate]
  | cons label' labels ih =>
    rw [List.cons_append, List.cons_append, inner_cons, ← List.cons_append, ih, inner_cons]
    simp

theorem format_labels_cons (label : Text × Text) (labels : Labels) :
    format_labels (label :: labels) = '{' :: (inner (label :: labels) ++ ['}']) := rfl

theorem trim_outer_braces_eq (text : Text) : trim_outer_braces ('{' :: (text ++ ['}'])) = text := by
  have hopen : ('{' :: (text ++ ['}'])).dropPrefix? ['{'] = some (text ++ ['}']) := by
    simp [List.dropPrefix?_eq_some_iff]
  have hclose : (text ++ ['}']).dropSuffix? ['}'] = some text := by
    simp [List.dropSuffix?_eq_some_iff]
  simp [trim_outer_braces, hopen, hclose]

/-- The `le` label is one more label at the end. -/
theorem bucket_line_eq (labels : Labels) {upper : Text} (hupper : escape upper = upper) (count : Nat) :
    bucket_line name (format_labels labels) upper count =
      sample_line (name ++ "_bucket".toList) (format_labels (labels ++ [("le".toList, upper)]))
        (display_nat count) := by
  have hle : format_label ("le".toList, upper) = "le=\"".toList ++ upper ++ ['"'] := by
    unfold format_label
    rw [hupper]
    rfl
  unfold bucket_line
  cases labels with
  | nil =>
    rw [List.nil_append, format_labels_cons]
    have hinner : inner [("le".toList, upper)] = "le=\"".toList ++ upper ++ ['"'] := by
      simpa [inner, List.intercalate] using hle
    rw [hinner]
    simp [format_labels, trim_outer_braces]
  | cons label labels =>
    have hne := inner_ne_nil label labels
    have hsnoc := inner_snoc label ("le".toList, upper) labels
    rw [List.cons_append, hle] at hsnoc
    rw [format_labels_cons, trim_outer_braces_eq, List.cons_append, format_labels_cons, hsnoc]
    simp [hne]

end Labels

/-! ## Numbers -/

theorem isDigit_of_mem_display_nat {n : Nat} : ∀ c ∈ display_nat n, c.isDigit :=
  fun _ hc => Nat.isDigit_of_mem_toDigits (by decide) (by decide) hc

theorem word_of_isDigit {c : Char} (h : c.isDigit) : blank c = false ∧ c ≠ '{' ∧ c ≠ '\n' := by
  have hchar : metricChar c = true := by simp [metricChar, h]
  exact ⟨not_blank_of_metricChar hchar, metricChar_ne hchar (by decide),
    metricChar_ne hchar (by decide)⟩

theorem display_nat_word (n : Nat) : IsWord (display_nat n) :=
  ⟨Nat.toDigits_ne_nil, fun c hc => word_of_isDigit (isDigit_of_mem_display_nat c hc)⟩

theorem display_int_word (z : Int) : IsWord (display_int z) := by
  have hword := display_nat_word z.natAbs
  unfold display_int
  split
  · refine ⟨nofun, fun c hc => ?_⟩
    rcases List.mem_cons.mp hc with rfl | hc
    · decide
    · exact hword.chars c hc
  · exact hword

theorem display_int_natCast (n : Nat) : display_int (n : Int) = display_nat n := by
  unfold display_int
  rw [if_neg (by omega), Int.natAbs_natCast]

/-- The formats of numbers, which are given. The reader gets back what was written, and no
number has a character that would need an escape. -/
structure ReadsNumbers {V R : Type} [F64 V] (read : Text → Option R) (of_int : Int → R)
    (of_float : V → R) : Prop where
  int : ∀ z, read (display_int z) = some (of_int z)
  float : ∀ v, read (fmt_f64_prom v) = some (of_float v)
  float_word : ∀ v : V, IsWord (fmt_f64_prom v)
  float_escape : ∀ v : V, escape (fmt_f64_prom v) = fmt_f64_prom v

/-! ## Samples -/

/-- The entries of a map, in no particular order. -/
def pairs {K B : Type} (map : AList fun _ : K => B) : List (K × B) :=
  map.entries.map fun e => (e.1, e.2)

section Samples

variable {V R : Type} [F64 V] (of_int : Int → R) (of_float : V → R)

def HistogramSeries.samples (name : Text) (buckets : List V) (labels : Labels)
    (series : HistogramSeries V) : List (Sample R) :=
  ((buckets.zip series.counts).map fun (upper, c) =>
    { name := name ++ "_bucket".toList
      labels := labels ++ [("le".toList, fmt_f64_prom upper)]
      value := of_int c }) ++
  [{ name := name ++ "_bucket".toList
     labels := labels ++ [("le".toList, "+Inf".toList)]
     value := of_int series.count },
   { name := name ++ "_sum".toList, labels, value := of_float series.sum },
   { name := name ++ "_count".toList, labels, value := of_int series.count }]

/-- The content of a registry. -/
def MetricsRegistry.samples (r : MetricsRegistry V) : List (Sample R) :=
  ((pairs r.counters).flatMap fun (name, family) =>
    (pairs family.values).map fun (labels, value) => { name, labels, value := of_int value.toNat }) ++
  ((pairs r.gauges).flatMap fun (name, family) =>
    (pairs family.values).map fun (labels, value) => { name, labels, value := of_int value.toInt }) ++
  (pairs r.histograms).flatMap fun (name, family) =>
    (pairs family.series).flatMap fun (labels, series) =>
      series.samples of_int of_float name family.buckets labels

/-- The lines of a family with one sample for each label set. -/
def valuesBlock {B : Type} (name help kind : Text) (values : AList fun _ : Labels => B)
    (number : B → Int) : Block R :=
  { name
    help := !help.isEmpty
    kind
    samples := (sorted labels_cmp values).map fun (labels, value) =>
      { name, labels, value := of_int (number value) } }

def CounterFamily.block (name : Text) (family : CounterFamily) : Block R :=
  valuesBlock of_int name family.help "counter".toList family.values fun value => value.toNat

def GaugeFamily.block (name : Text) (family : GaugeFamily) : Block R :=
  valuesBlock of_int name family.help "gauge".toList family.values fun value => value.toInt

def HistogramFamily.block (name : Text) (family : HistogramFamily V) : Block R :=
  { name
    help := !family.help.isEmpty
    kind := "histogram".toList
    samples := (sorted labels_cmp family.series).flatMap fun (labels, series) =>
      series.samples of_int of_float name family.buckets labels }

/-- The lines of a rendering. -/
def MetricsRegistry.blocks (r : MetricsRegistry V) : List (Block R) :=
  ((sorted str_cmp r.counters).map fun (name, family) => family.block of_int name) ++
    ((sorted str_cmp r.gauges).map fun (name, family) => family.block of_int name) ++
    (sorted str_cmp r.histograms).map fun (name, family) => family.block of_int of_float name

end Samples

/-! ## Names -/

structure NamedLabels (labels : Labels) : Prop where
  names : ∀ l ∈ labels, isLabelName l.1
  not_le : ∀ l ∈ labels, l.1 ≠ "le".toList
  nodup : (labels.map (·.1)).Nodup

theorem NamedLabels.of_names {labels : Labels} {names : List Text} (h : labels.map (·.1) = names)
    (hnames : ∀ n ∈ names, isLabelName n) (hle : "le".toList ∉ names) (hnodup : names.Nodup) :
    NamedLabels labels := by
  subst h
  refine ⟨fun l hl => hnames _ (List.mem_map_of_mem hl), fun l hl heq => hle ?_, hnodup⟩
  rw [← heq]
  exact List.mem_map_of_mem hl

def SortedLabels (labels : Labels) : Prop := labels.Pairwise fun a b => str_cmp a.1 b.1 ≠ .gt

structure NamedFamily {B : Type} (name help : Text) (values : AList fun _ : Labels => B) : Prop where
  name : isMetricName name
  help : '\n' ∉ help
  labels : ∀ labels value, values.lookup labels = some value → NamedLabels labels
  sorted : ∀ labels value, values.lookup labels = some value → SortedLabels labels

theorem NamedLabels.with_le {labels : Labels} (h : NamedLabels labels) (upper : Text) :
    (∀ l ∈ labels ++ [("le".toList, upper)], isLabelName l.1) ∧
      ((labels ++ [("le".toList, upper)]).map (·.1)).Nodup := by
  constructor
  · intro l hl
    rcases List.mem_append.mp hl with hl | hl
    · exact h.names l hl
    · rw [List.mem_singleton.mp hl]
      show isLabelName "le".toList
      decide
  · rw [List.map_append, List.nodup_append]
    refine ⟨h.nodup, by simp, ?_⟩
    rintro n hn m hm rfl
    obtain ⟨l, hl, rfl⟩ := List.mem_map.mp hn
    exact h.not_le l hl (by simpa using hm)

theorem isMetricName_append {name more : Text} (h : isMetricName name)
    (hmore : more.all metricChar) : isMetricName (name ++ more) := by
  cases name with
  | nil => simp [isMetricName] at h
  | cons c name =>
    simp only [isMetricName, List.head?_cons, List.cons_append, Bool.and_eq_true, List.all_eq_true,
      List.mem_cons, List.mem_append] at h ⊢
    refine ⟨h.1, fun d hd => ?_⟩
    rcases hd with hd | hd | hd
    · exact h.2 d (.inl hd)
    · exact h.2 d (.inr hd)
    · exact List.all_eq_true.mp hmore d hd

theorem sorted_perm {K B : Type} (cmp : K → K → Ordering) (map : AList fun _ : K => B) :
    (sorted cmp map).Perm (pairs map) :=
  (List.perm_insertionSort _ _).map _

theorem mem_pairs {K B : Type} [DecidableEq K] {map : AList fun _ : K => B} {k : K} {b : B} :
    (k, b) ∈ pairs map ↔ map.lookup k = some b := by
  rw [← (sorted_perm (fun _ _ => .lt) map).mem_iff, mem_sorted]

/-! ## What a line says -/

section Reading

variable {V R : Type} [F64 V] {read : Text → Option R} {of_int : Int → R} {of_float : V → R}
  {name help : Text} {labels : Labels}

theorem reads_sample {word : Text} {value : R} (hname : isMetricName name)
    (hlabels : ∀ l ∈ labels, isLabelName l.1) (hnodup : (labels.map (·.1)).Nodup)
    (hword : IsWord word) (hread : read word = some value) :
    Reads read (sample_line name (format_labels labels) word) true
      [.sample { name, labels, value }] := by
  have hword' : '\n' ∉ word := fun hmem => (hword.chars _ hmem).2.2 rfl
  unfold sample_line writeln
  cases labels with
  | nil =>
    have hline : name ++ format_labels [] ++ ' ' :: word = name ++ ' ' :: word := by
      simp [format_labels]
    rw [hline]
    refine .line (by simp [newline_not_mem_metricName hname, hword']) ?_
    rw [parseLine_name hname, parseSample_unlabelled hname hword, hread]
    rfl
  | cons label labels =>
    have hline : name ++ format_labels (label :: labels) ++ ' ' :: word =
        name ++ '{' :: (inner (label :: labels) ++ ['}'] ++ ' ' :: word) := by
      rw [format_labels_cons]
      simp
    rw [hline]
    refine .line ?_ ?_
    · simp [newline_not_mem_metricName hname, newline_not_mem_inner hlabels, hword']
    · have hbody : parseLabels .start [] (inner (label :: labels) ++ ['}'] ++ ' ' :: word) =
          some (label :: labels, ' ' :: word) := by
        rw [List.append_assoc]
        exact parseLabels_inner hlabels
      rw [parseLine_name hname, parseSample_labelled hname hword hbody hnodup, hread]
      rfl

theorem reads_help_and_type (hname : isMetricName name) (hhelp : '\n' ∉ help) {kind : Text}
    (hkind : kind ∈ metricTypes) :
    Reads read (help_and_type name help kind) (escaped help)
      ((if !help.isEmpty then [.help name] else []) ++ [.type name kind]) := by
  have hnewline := newline_not_mem_metricName hname
  have htype : Reads read (writeln ("# TYPE ".toList ++ name ++ ' ' :: kind)) true
      [.type name kind] := by
    have hkinds : ∀ kind ∈ metricTypes, '\n' ∉ kind := by decide
    exact .line (by simp [hnewline, hkinds kind hkind]) (parseLine_type hname hkind)
  unfold help_and_type
  cases help with
  | nil => exact htype
  | cons c help =>
    have hline : Reads read (writeln ("# HELP ".toList ++ name ++ ' ' :: c :: help))
        (escaped (c :: help)) [.help name] :=
      .line (by simpa [hnewline] using hhelp) (parseLine_help hname (c :: help))
    have hlines := hline.append htype
    rw [Bool.and_true] at hlines
    exact hlines

/-- The blank line after a family. -/
theorem reads_blank : Reads read ['\n'] true [] := by
  have hline : Reads read ([] ++ ['\n']) true [] := .line List.not_mem_nil rfl
  exact hline

theorem reads_block {kind : Text} {samples : List (Sample R)} (hname : isMetricName name)
    (hhelp : '\n' ∉ help) (hkind : kind ∈ metricTypes) {text : Text}
    (hsamples : Reads read text true (samples.map .sample)) :
    Reads read (help_and_type name help kind ++ text ++ ['\n']) (escaped help)
      (Block.lines { name, help := !help.isEmpty, kind, samples }) := by
  have hlines := ((reads_help_and_type hname hhelp hkind).append hsamples).append reads_blank
  have hblock : Block.lines { name, help := !help.isEmpty, kind, samples } =
      (if !help.isEmpty then [.help name] else []) ++ [.type name kind] ++ samples.map .sample :=
    List.append_cons ..
  rw [Bool.and_true, Bool.and_true, List.append_nil] at hlines
  rwa [hblock]

theorem all_true {α : Type} (l : List α) : (l.all fun _ => true) = true :=
  List.all_eq_true.mpr fun _ _ => rfl

/-- A family with one sample for each label set. -/
theorem reads_values {B : Type} {values : AList fun _ : Labels => B} {kind : Text}
    (hkind : kind ∈ metricTypes) (text : B → Text) (number : B → Int)
    (h : NamedFamily name help values) (hword : ∀ b, IsWord (text b))
    (hread : ∀ b, read (text b) = some (of_int (number b))) :
    Reads read
      (help_and_type name help kind ++
        ((sorted labels_cmp values).flatMap fun (labels, value) =>
          sample_line name (format_labels labels) (text value)) ++ ['\n'])
      (escaped help)
      (valuesBlock of_int name help kind values number).lines := by
  have hlines : Reads read
      ((sorted labels_cmp values).flatMap fun (labels, value) =>
        sample_line name (format_labels labels) (text value))
      ((sorted labels_cmp values).all fun _ => true)
      ((sorted labels_cmp values).flatMap fun (labels, value) =>
        [.sample { name, labels, value := of_int (number value) }]) := by
    refine .flatMap fun (labels, value) hmem => ?_
    have hlabels := h.labels labels value (mem_sorted.mp hmem)
    exact reads_sample h.name hlabels.names hlabels.nodup (hword value) (hread value)
  rw [all_true, ← List.map_eq_flatMap] at hlines
  unfold valuesBlock
  refine reads_block h.name h.help hkind ?_
  rw [List.map_map]
  exact hlines

theorem reads_counter (hnumbers : ReadsNumbers read of_int of_float) {family : CounterFamily}
    (h : NamedFamily name family.help family.values) :
    Reads read (family.render name) (escaped family.help) (family.block of_int name).lines := by
  have hkind : "counter".toList ∈ metricTypes := by decide
  have hread : ∀ value : UInt64, read (display_nat value.toNat) = some (of_int value.toNat) := by
    intro value
    rw [← display_int_natCast]
    exact hnumbers.int _
  exact reads_values hkind (fun value : UInt64 => display_nat value.toNat) (·.toNat) h
    (fun _ => display_nat_word _) hread

theorem reads_gauge (hnumbers : ReadsNumbers read of_int of_float) {family : GaugeFamily}
    (h : NamedFamily name family.help family.values) :
    Reads read (family.render name) (escaped family.help) (family.block of_int name).lines := by
  have hkind : "gauge".toList ∈ metricTypes := by decide
  exact reads_values hkind (fun value : Int64 => display_int value.toInt) (·.toInt) h
    (fun _ => display_int_word _) (fun value => hnumbers.int value.toInt)

theorem reads_bucket (hnumbers : ReadsNumbers read of_int of_float) (hname : isMetricName name)
    (hlabels : NamedLabels labels) {upper : Text} (hupper : escape upper = upper) (count : Nat) :
    Reads read (bucket_line name (format_labels labels) upper count) true
      [.sample
        { name := name ++ "_bucket".toList
          labels := labels ++ [("le".toList, upper)]
          value := of_int count }] := by
  obtain ⟨hnames, hnodup⟩ := hlabels.with_le upper
  have hread := hnumbers.int count
  rw [display_int_natCast] at hread
  rw [bucket_line_eq labels hupper]
  exact reads_sample (isMetricName_append hname (by decide)) hnames hnodup (display_nat_word _) hread

theorem reads_series (hnumbers : ReadsNumbers read of_int of_float) (hname : isMetricName name)
    (hlabels : NamedLabels labels) {buckets : List V} {series : HistogramSeries V} {text : Text}
    (h : series.render name buckets labels = .ok text) :
    Reads read text true
      ((series.samples of_int of_float name buckets labels).map .sample) := by
  obtain ⟨shown, hshown, hok⟩ := bind_eq_ok.mp h
  rw [shown_eq (le_length_of_shown hshown)] at hshown
  obtain rfl := Except.ok.inj hshown
  obtain rfl := Except.ok.inj hok
  have hcount := hnumbers.int series.count
  rw [display_int_natCast] at hcount
  have hbuckets : Reads read
      ((buckets.zip series.counts).flatMap fun (upper, c) =>
        bucket_line name (format_labels labels) (fmt_f64_prom upper) c)
      ((buckets.zip series.counts).all fun _ => true)
      ((buckets.zip series.counts).flatMap fun (upper, c) =>
        [.sample
          { name := name ++ "_bucket".toList
            labels := labels ++ [("le".toList, fmt_f64_prom upper)]
            value := of_int c }]) :=
    .flatMap fun (upper, c) _ => reads_bucket hnumbers hname hlabels (hnumbers.float_escape upper) c
  have hinf := reads_bucket hnumbers hname hlabels (show escape "+Inf".toList = _ by decide) series.count
  have hsum := reads_sample (isMetricName_append hname (show "_sum".toList.all _ by decide))
    hlabels.names hlabels.nodup (hnumbers.float_word series.sum) (hnumbers.float series.sum)
  have htotal := reads_sample (isMetricName_append hname (show "_count".toList.all _ by decide))
    hlabels.names hlabels.nodup (display_nat_word series.count) hcount
  have htext := hbuckets.append ((hinf.append hsum).append htotal)
  rw [all_true, ← List.map_eq_flatMap] at htext
  unfold HistogramSeries.samples
  rw [List.map_append, List.map_map]
  exact htext

theorem reads_flatten {α : Type} {f : α → Except Fault Text} {ok : α → Bool}
    {g : α → List (Line R)} {l : List α} {texts : List Text} (h : l.mapM f = .ok texts)
    (hf : ∀ a ∈ l, ∀ text, f a = .ok text → Reads read text (ok a) (g a)) :
    Reads read texts.flatten (l.all ok) (l.flatMap g) := by
  induction l generalizing texts with
  | nil =>
    obtain rfl : [] = texts := Except.ok.inj h
    exact .nil
  | cons a l ih =>
    rw [List.mapM_cons] at h
    obtain ⟨text, htext, h⟩ := bind_eq_ok.mp h
    obtain ⟨rest, hrest, h⟩ := bind_eq_ok.mp h
    obtain rfl := Except.ok.inj h
    rw [List.forall_mem_cons] at hf
    rw [List.flatten_cons, List.flatMap_cons, List.all_cons]
    exact (hf.1 text htext).append (ih hrest hf.2)

theorem reads_histogram (hnumbers : ReadsNumbers read of_int of_float) {family : HistogramFamily V}
    (h : NamedFamily name family.help family.series) {text : Text}
    (hrender : family.render name = .ok text) :
    Reads read text (escaped family.help) (family.block of_int of_float name).lines := by
  obtain ⟨texts, htexts, hok⟩ := bind_eq_ok.mp hrender
  obtain rfl := Except.ok.inj hok
  have hseries : Reads read texts.flatten ((sorted labels_cmp family.series).all fun _ => true)
      ((sorted labels_cmp family.series).flatMap fun (labels, series) =>
        (series.samples of_int of_float name family.buckets labels).map .sample) := by
    refine reads_flatten htexts fun (labels, series) hmem text htext => ?_
    exact reads_series hnumbers h.name (h.labels labels series (mem_sorted.mp hmem)) htext
  rw [all_true] at hseries
  have hkind : "histogram".toList ∈ metricTypes := by decide
  unfold HistogramFamily.block
  refine reads_block h.name h.help hkind ?_
  rw [List.map_flatMap]
  exact hseries

/-- All names and help texts of a registry are well formed. -/
structure MetricsRegistry.Named (r : MetricsRegistry V) : Prop where
  counters : ∀ name family, r.counters.lookup name = some family →
    NamedFamily name family.help family.values
  gauges : ∀ name family, r.gauges.lookup name = some family →
    NamedFamily name family.help family.values
  histograms : ∀ name family, r.histograms.lookup name = some family →
    NamedFamily name family.help family.series

/-- Every help text is escaped as the format asks. -/
def MetricsRegistry.escapes (r : MetricsRegistry V) : Bool :=
  ((sorted str_cmp r.counters).all fun (_, family) => escaped family.help) &&
    ((sorted str_cmp r.gauges).all fun (_, family) => escaped family.help) &&
    (sorted str_cmp r.histograms).all fun (_, family) => escaped family.help

theorem reads_registry (hnumbers : ReadsNumbers read of_int of_float) {r : MetricsRegistry V}
    (h : r.Named) {text : Text} (hrender : r.render_prometheus = .ok text) :
    Reads read text r.escapes ((r.blocks of_int of_float).flatMap Block.lines) := by
  obtain ⟨texts, htexts, hok⟩ := bind_eq_ok.mp hrender
  obtain rfl := Except.ok.inj hok
  have hcounters : Reads read
      ((sorted str_cmp r.counters).flatMap fun (name, family) => family.render name)
      ((sorted str_cmp r.counters).all fun (_, family) => escaped family.help)
      ((sorted str_cmp r.counters).flatMap fun (name, family) => (family.block of_int name).lines) :=
    .flatMap fun (name, family) hmem =>
      reads_counter hnumbers (h.counters name family (mem_sorted.mp hmem))
  have hgauges : Reads read
      ((sorted str_cmp r.gauges).flatMap fun (name, family) => family.render name)
      ((sorted str_cmp r.gauges).all fun (_, family) => escaped family.help)
      ((sorted str_cmp r.gauges).flatMap fun (name, family) => (family.block of_int name).lines) :=
    .flatMap fun (name, family) hmem =>
      reads_gauge hnumbers (h.gauges name family (mem_sorted.mp hmem))
  have hhistograms : Reads read texts.flatten
      ((sorted str_cmp r.histograms).all fun (_, family) => escaped family.help)
      ((sorted str_cmp r.histograms).flatMap fun (name, family) =>
        (family.block of_int of_float name).lines) :=
    reads_flatten htexts fun (name, family) hmem text htext =>
      reads_histogram hnumbers (h.histograms name family (mem_sorted.mp hmem)) htext
  have hlines := (hcounters.append hgauges).append hhistograms
  unfold MetricsRegistry.blocks
  rw [List.flatMap_append, List.flatMap_append, List.flatMap_map, List.flatMap_map, List.flatMap_map]
  exact hlines

end Reading

end Gigastt.Metrics
