import Gigastt.Lib.Steps
import Gigastt.Words.Code
import Mathlib.Data.List.AList
import Mathlib.Data.List.Destutter
import Mathlib.Data.List.Sort

/-!
# The metrics registry of `server/metrics.rs`

A `HashMap` is a list of entries with distinct keys. Its order does not matter, since every
rendering sorts the keys. Counts of observations go up by one and are natural numbers: they
stay below 2^64, where a `u64` would wrap.
-/

namespace Gigastt.Metrics

open Words

/-- The `f64` operations of the registry. No law is assumed of them. -/
class F64 (V : Type) extends Zero V, Add V, OfScientific V where
  partial_cmp : V → V → Option Ordering
  is_infinite : V → Bool
  is_sign_positive : V → Bool
  is_nan : V → Bool
  display : V → Text

def display_nat (n : Nat) : Text := Nat.toDigits 10 n

def display_int (z : Int) : Text :=
  if z < 0 then '-' :: display_nat z.natAbs else display_nat z.natAbs

def display_thousandths (z : Int) : Text :=
  let n := z.natAbs
  let fraction := [n / 100 % 10, n / 10 % 10, n % 10].map Nat.digitChar
  let fraction := (fraction.reverse.dropWhile (· = '0')).reverse
  (if z < 0 then ['-'] else []) ++ display_nat (n / 1000) ++
    if fraction.isEmpty then [] else '.' :: fraction

/-- Numbers of thousandths, for runs on fixed inputs. They compare and print as `f64` does. -/
scoped instance : F64 Int where
  ofScientific mantissa sign exponent :=
    if sign then mantissa * 1000 / (10 : Int) ^ exponent else mantissa * 1000 * (10 : Int) ^ exponent
  partial_cmp a b := some (if a < b then .lt else if a = b then .eq else .gt)
  is_infinite _ := false
  is_sign_positive a := decide (0 ≤ a)
  is_nan _ := false
  display := display_thousandths

section Floats

variable {V : Type} [F64 V]

/-- `<=` -/
def F64.le (a b : V) : Bool :=
  match F64.partial_cmp a b with
  | some .lt | some .eq => true
  | _ => false

/-- `==` -/
def F64.eq (a b : V) : Bool := F64.partial_cmp a b == some .eq

def DEFAULT_BUCKETS : List V :=
  [0.005, 0.01, 0.025, 0.05, 0.1, 0.25, 0.5, 1.0, 2.5, 5.0, 10.0]

/-- The bucket list that `register_histogram` stores. `dedup` keeps the first of equal
neighbours. -/
def normalised (buckets : List V) : List V :=
  (buckets.insertionSort fun a b => (F64.partial_cmp a b).getD .eq ≠ .gt).destutter fun a b =>
    F64.eq a b = false

def fmt_f64_prom (v : V) : Text :=
  if F64.is_infinite v then
    if F64.is_sign_positive v then "+Inf".toList else "-Inf".toList
  else if F64.is_nan v then "NaN".toList
  else F64.display v

end Floats

/-! ## Labels -/

abbrev Labels := List (Text × Text)

/-- `str::cmp` -/
def str_cmp : Text → Text → Ordering
  | [], [] => .eq
  | [], _ :: _ => .lt
  | _ :: _, [] => .gt
  | c :: cs, d :: ds =>
    if c = d then str_cmp cs ds else if c.toNat < d.toNat then .lt else .gt

def sort_labels (labels : Labels) : Labels :=
  labels.insertionSort fun a b => str_cmp a.1 b.1 ≠ .gt

/-- The order of `Vec<(String, String)>`. -/
def labels_cmp : Labels → Labels → Ordering
  | [], [] => .eq
  | [], _ :: _ => .lt
  | _ :: _, [] => .gt
  | a :: as, b :: bs => ((str_cmp a.1 b.1).then (str_cmp a.2 b.2)).then (labels_cmp as bs)

def escape_char : Char → Text
  | '\\' => ['\\', '\\']
  | '"' => ['\\', '"']
  | '\n' => ['\\', 'n']
  | c => [c]

def escape (value : Text) : Text := value.flatMap escape_char

def format_label (label : Text × Text) : Text := label.1 ++ '=' :: '"' :: escape label.2 ++ ['"']

def format_labels (labels : Labels) : Text :=
  if labels.isEmpty then []
  else '{' :: List.intercalate [','] (labels.map format_label) ++ ['}']

def trim_outer_braces (formatted : Text) : Text :=
  if formatted.isEmpty then []
  else ((formatted.dropPrefix? ['{']).bind (·.dropSuffix? ['}'])).getD formatted

/-! ## The registry -/

structure CounterFamily where
  help : Text
  values : AList fun _ : Labels => UInt64

structure GaugeFamily where
  help : Text
  values : AList fun _ : Labels => Int64

structure HistogramSeries (V : Type) where
  counts : List Nat
  sum : V
  count : Nat

structure HistogramFamily (V : Type) where
  help : Text
  buckets : List V
  series : AList fun _ : Labels => HistogramSeries V

structure MetricsRegistry (V : Type) where
  counters : AList fun _ : Text => CounterFamily
  gauges : AList fun _ : Text => GaugeFamily
  histograms : AList fun _ : Text => HistogramFamily V

/-- `map.entry(key).or_insert(init)`, updated. -/
def entry {K B : Type} [DecidableEq K] (map : AList fun _ : K => B) (key : K) (init : B)
    (update : B → B) : AList fun _ : K => B :=
  map.insert key (update ((map.lookup key).getD init))

def CounterFamily.default : CounterFamily := { help := [], values := ∅ }

def GaugeFamily.default : GaugeFamily := { help := [], values := ∅ }

def HistogramFamily.default {V : Type} : HistogramFamily V := { help := [], buckets := [], series := ∅ }

namespace MetricsRegistry

variable {V : Type} [F64 V]

def new : MetricsRegistry V := { counters := ∅, gauges := ∅, histograms := ∅ }

def register_gauge (r : MetricsRegistry V) (name help : Text) : MetricsRegistry V :=
  { r with gauges := entry r.gauges name .default fun family => { family with help } }

def gauge_set (r : MetricsRegistry V) (name : Text) (labels : Labels) (value : Int64) :
    MetricsRegistry V :=
  { r with gauges := entry r.gauges name .default fun family =>
      { family with values := entry family.values (sort_labels labels) 0 fun _ => value } }

/-- Sums wrap, as in a release build. -/
def gauge_inc (r : MetricsRegistry V) (name : Text) (labels : Labels) (delta : Int64) :
    MetricsRegistry V :=
  { r with gauges := entry r.gauges name .default fun family =>
      { family with values := entry family.values (sort_labels labels) 0 (· + delta) } }

def register_counter (r : MetricsRegistry V) (name help : Text) : MetricsRegistry V :=
  { r with counters := entry r.counters name .default fun family => { family with help } }

def counter_inc (r : MetricsRegistry V) (name : Text) (labels : Labels) (delta : UInt64) :
    MetricsRegistry V :=
  { r with counters := entry r.counters name .default fun family =>
      { family with values := entry family.values (sort_labels labels) 0 (· + delta) } }

def register_histogram (r : MetricsRegistry V) (name help : Text) (buckets : List V) :
    MetricsRegistry V :=
  { r with histograms := entry r.histograms name .default fun family =>
      { family with help, buckets := normalised buckets } }

end MetricsRegistry

section Histograms

variable {V : Type} [F64 V]

def HistogramSeries.new (buckets : List V) : HistogramSeries V :=
  { counts := List.replicate buckets.length 0, sum := 0, count := 0 }

/-- The loop over the buckets, from bucket `i` on. -/
def count_buckets (value : V) : List V → Nat → List Nat → Except Fault (List Nat)
  | [], _, counts => .ok counts
  | upper :: buckets, i, counts => do
    let counts ←
      if F64.le value upper then do
        let c ← index counts i
        pure (counts.set i (c + 1))
      else pure counts
    count_buckets value buckets (i + 1) counts

/-- `Vec::resize` with zeros, when the vector is shorter. -/
def lengthened (n : Nat) (counts : List Nat) : List Nat :=
  if counts.length < n then counts ++ List.replicate (n - counts.length) 0 else counts

def HistogramSeries.record (series : HistogramSeries V) (buckets : List V) (value : V) :
    Except Fault (HistogramSeries V) := do
  let counts ← count_buckets value buckets 0 (lengthened buckets.length series.counts)
  pure { counts, sum := series.sum + value, count := series.count + 1 }

/-- The family of a name. A new one has no series. -/
def MetricsRegistry.family (r : MetricsRegistry V) (name : Text) : HistogramFamily V :=
  (r.histograms.lookup name).getD .default

def MetricsRegistry.histogram_record (r : MetricsRegistry V) (name : Text) (labels : Labels)
    (value : V) : Except Fault (MetricsRegistry V) := do
  let labels := sort_labels labels
  let family := r.family name
  let buckets := if family.buckets.isEmpty then DEFAULT_BUCKETS else family.buckets
  let series := (family.series.lookup labels).getD (.new buckets)
  let series ← series.record buckets value
  let family := { family with buckets, series := family.series.insert labels series }
  pure { r with histograms := r.histograms.insert name family }

end Histograms

/-! ## Rendering -/

/-- The entries of a map, sorted by their keys. -/
def sorted {K B : Type} (cmp : K → K → Ordering) (map : AList fun _ : K => B) : List (K × B) :=
  (map.entries.insertionSort fun a b => cmp a.1 b.1 ≠ .gt).map fun e => (e.1, e.2)

def writeln (line : Text) : Text := line ++ ['\n']

/-- The comments before a family. -/
def help_and_type (name help kind : Text) : Text :=
  (if help.isEmpty then [] else writeln ("# HELP ".toList ++ name ++ ' ' :: help)) ++
    writeln ("# TYPE ".toList ++ name ++ ' ' :: kind)

def sample_line (name labels value : Text) : Text := writeln (name ++ labels ++ ' ' :: value)

def CounterFamily.render (name : Text) (family : CounterFamily) : Text :=
  help_and_type name family.help "counter".toList ++
    ((sorted labels_cmp family.values).flatMap fun (labels, value) =>
      sample_line name (format_labels labels) (display_nat value.toNat)) ++ ['\n']

def GaugeFamily.render (name : Text) (family : GaugeFamily) : Text :=
  help_and_type name family.help "gauge".toList ++
    ((sorted labels_cmp family.values).flatMap fun (labels, value) =>
      sample_line name (format_labels labels) (display_int value.toInt)) ++ ['\n']

section Rendering

variable {V : Type} [F64 V]

/-- One `_bucket` line. -/
def bucket_line (name base upper : Text) (count : Nat) : Text :=
  let inner := trim_outer_braces base
  let le_prefix := if inner.isEmpty then [] else [',']
  sample_line (name ++ "_bucket".toList)
    ('{' :: inner ++ le_prefix ++ "le=\"".toList ++ upper ++ ['"', '}']) (display_nat count)

/-- The lines after those of the buckets. -/
def HistogramSeries.render_totals (name : Text) (labels : Labels) (series : HistogramSeries V) :
    Text :=
  let base := format_labels labels
  bucket_line name base "+Inf".toList series.count ++
    sample_line (name ++ "_sum".toList) base (fmt_f64_prom series.sum) ++
    sample_line (name ++ "_count".toList) base (display_nat series.count)

/-- The bounds, with the counts that a rendering finds for them. -/
def HistogramSeries.shown (buckets : List V) (series : HistogramSeries V) :
    Except Fault (List (V × Nat)) :=
  buckets.zipIdx.mapM fun (upper, i) => do
    let c ← index series.counts i
    pure (upper, c)

def HistogramSeries.render (name : Text) (buckets : List V) (labels : Labels)
    (series : HistogramSeries V) : Except Fault Text := do
  let shown ← series.shown buckets
  let lines := shown.flatMap fun (upper, c) =>
    bucket_line name (format_labels labels) (fmt_f64_prom upper) c
  pure (lines ++ series.render_totals name labels)

def HistogramFamily.render (name : Text) (family : HistogramFamily V) : Except Fault Text := do
  let series ← (sorted labels_cmp family.series).mapM fun (labels, series) =>
    series.render name family.buckets labels
  pure (help_and_type name family.help "histogram".toList ++ series.flatten ++ ['\n'])

def MetricsRegistry.render_prometheus (r : MetricsRegistry V) : Except Fault Text := do
  let counters := (sorted str_cmp r.counters).flatMap fun (name, family) => family.render name
  let gauges := (sorted str_cmp r.gauges).flatMap fun (name, family) => family.render name
  let histograms ← (sorted str_cmp r.histograms).mapM fun (name, family) => family.render name
  pure (counters ++ gauges ++ histograms.flatten)

end Rendering

/-! ## Calls -/

inductive Call (V : Type) where
  | register_counter (name help : Text)
  | counter_inc (name : Text) (labels : Labels) (delta : UInt64)
  | register_gauge (name help : Text)
  | gauge_set (name : Text) (labels : Labels) (value : Int64)
  | gauge_inc (name : Text) (labels : Labels) (delta : Int64)
  | register_histogram (name help : Text) (buckets : List V)
  | histogram_record (name : Text) (labels : Labels) (value : V)
  | render_prometheus

def MetricsRegistry.call {V : Type} [F64 V] (r : MetricsRegistry V) :
    Call V → Except Fault (MetricsRegistry V)
  | .register_counter name help => .ok (r.register_counter name help)
  | .counter_inc name labels delta => .ok (r.counter_inc name labels delta)
  | .register_gauge name help => .ok (r.register_gauge name help)
  | .gauge_set name labels value => .ok (r.gauge_set name labels value)
  | .gauge_inc name labels delta => .ok (r.gauge_inc name labels delta)
  | .register_histogram name help buckets => .ok (r.register_histogram name help buckets)
  | .histogram_record name labels value => r.histogram_record name labels value
  | .render_prometheus => r.render_prometheus.map fun _ => r

/-- A call that panics ends a run. -/
def MetricsRegistry.step {V : Type} [F64 V] (r : MetricsRegistry V) (c : Call V) :
    Option (MetricsRegistry V) := (r.call c).toOption

end Gigastt.Metrics
