import Mathlib.Data.List.Nodup
import Mathlib.Data.List.TakeWhile

/-!
# The Prometheus text format, version 0.0.4

A reader of the format: its lines, and then the rules between them. It takes samples without
timestamps, and refuses a sample that has two labels of one name. Numbers are read by a
function that is a parameter. The conventions for the values of a histogram are not its
concern.
-/

namespace Gigastt.TextFormat

abbrev Label := List Char × List Char

structure Sample (R : Type) where
  name : List Char
  labels : List Label
  value : R
deriving DecidableEq, Repr

/-! ## The parser -/

def blank (c : Char) : Bool := c = ' ' || c = '\t'

def labelStart (c : Char) : Bool := c.isAlpha || c = '_'

def labelChar (c : Char) : Bool := labelStart c || c.isDigit

def metricStart (c : Char) : Bool := labelStart c || c = ':'

def metricChar (c : Char) : Bool := metricStart c || c.isDigit

def isMetricName (name : List Char) : Bool := name.head?.any metricStart && name.all metricChar

def isLabelName (name : List Char) : Bool := name.head?.any labelStart && name.all labelChar

/-- The words of a text, the first of which has begun with `word`. -/
def tokens (word : List Char) : List Char → List (List Char)
  | [] => if word.isEmpty then [] else [word]
  | c :: rest =>
    if blank c then if word.isEmpty then tokens [] rest else word :: tokens [] rest
    else tokens (word ++ [c]) rest

/-- Where in a label set the parser is. -/
inductive Place where
  -- Before a label or the closing brace.
  | start
  | name (name : List Char)
  -- Before the equals sign.
  | equals (name : List Char)
  -- Before the opening quote.
  | quote (name : List Char)
  | value (name value : List Char)
  -- After a backslash.
  | escape (name value : List Char)
  -- After the closing quote.
  | after
deriving DecidableEq, Repr

/-- The labels up to the closing brace, and what follows it. -/
def parseLabels : Place → List Label → List Char → Option (List Label × List Char)
  | _, _, [] => none
  | .start, labels, c :: rest =>
    if blank c then parseLabels .start labels rest
    else if c = '}' then some (labels, rest)
    else if labelStart c then parseLabels (.name [c]) labels rest
    else none
  | .name name, labels, c :: rest =>
    if labelChar c then parseLabels (.name (name ++ [c])) labels rest
    else if blank c then parseLabels (.equals name) labels rest
    else if c = '=' then parseLabels (.quote name) labels rest
    else none
  | .equals name, labels, c :: rest =>
    if blank c then parseLabels (.equals name) labels rest
    else if c = '=' then parseLabels (.quote name) labels rest
    else none
  | .quote name, labels, c :: rest =>
    if blank c then parseLabels (.quote name) labels rest
    else if c = '"' then parseLabels (.value name []) labels rest
    else none
  | .value name value, labels, c :: rest =>
    if c = '"' then parseLabels .after (labels ++ [(name, value)]) rest
    else if c = '\\' then parseLabels (.escape name value) labels rest
    else parseLabels (.value name (value ++ [c])) labels rest
  | .escape name value, labels, c :: rest =>
    if c = '\\' then parseLabels (.value name (value ++ ['\\'])) labels rest
    else if c = '"' then parseLabels (.value name (value ++ ['"'])) labels rest
    else if c = 'n' then parseLabels (.value name (value ++ ['\n'])) labels rest
    else none
  | .after, labels, c :: rest =>
    if blank c then parseLabels .after labels rest
    else if c = ',' then parseLabels .start labels rest
    else if c = '}' then some (labels, rest)
    else none

section Lines

variable {R : Type} (read : List Char → Option R)

/-- The rest of a sample line: one word, which is a number. -/
def parseValue (name : List Char) (labels : List Label) (text : List Char) : Option (Sample R) :=
  match tokens [] text with
  | [word] => (read word).map fun value => { name, labels, value }
  | _ => none

def parseSample (line : List Char) : Option (Sample R) :=
  let name := line.takeWhile metricChar
  if isMetricName name then
    match (line.dropWhile metricChar).dropWhile blank with
    | '{' :: rest =>
      (parseLabels .start [] rest).bind fun (labels, rest) =>
        if (labels.map (·.1)).Nodup then parseValue read name labels rest else none
    | rest => parseValue read name [] rest
  else none

def metricTypes : List (List Char) :=
  ["counter", "gauge", "histogram", "summary", "untyped"].map String.toList

/-- What a line that is not blank and no mere comment says. -/
inductive Line (R : Type) where
  | help (name : List Char)
  | type (name kind : List Char)
  | sample (s : Sample R)

/-- A backslash stands in `\\` and `\n` only. There may be one before the text. -/
def escapedFrom : Bool → List Char → Bool
  | pending, [] => !pending
  | false, c :: rest => escapedFrom (c = '\\') rest
  | true, c :: rest => (c = '\\' || c = 'n') && escapedFrom false rest

def escaped (text : List Char) : Bool := escapedFrom false text

/-- A line with `#` in front. -/
def parseComment (text : List Char) : Option (List (Line R)) :=
  match tokens [] text with
  | [] => some []
  | keyword :: words =>
    if keyword = "HELP".toList then
      match words with
      | name :: _ => if isMetricName name && escaped text then some [.help name] else none
      | [] => none
    else if keyword = "TYPE".toList then
      match words with
      | [name, kind] =>
        if isMetricName name && metricTypes.contains kind then some [.type name kind] else none
      | _ => none
    else some []

def parseLine (line : List Char) : Option (List (Line R)) :=
  match line.dropWhile blank with
  | [] => some []
  | '#' :: rest => parseComment rest
  | line => (parseSample read line).map ([.sample ·])

/-- The lines of a text, the first of which has begun with `line`. -/
def parseFrom (line : List Char) : List Char → Option (List (Line R))
  | [] => if line.isEmpty then some [] else none
  | c :: rest =>
    if c = '\n' then (parseLine read line).bind fun lines => (parseFrom [] rest).map (lines ++ ·)
    else parseFrom (line ++ [c]) rest

/-! ## The rules between lines -/

def histogramParts : List (List Char) := ["_bucket", "_sum", "_count"].map String.toList

def summaryParts : List (List Char) := ["_sum", "_count"].map String.toList

/-- A sample of this name is a part of a metric of that kind. -/
def isPart (base kind name : List Char) : Bool :=
  (kind = "histogram".toList && histogramParts.any (base ++ · = name)) ||
    (kind = "summary".toList && summaryParts.any (base ++ · = name))

abbrev Types := List (List Char × List Char)

/-- The metric of a sample: one of its own name, or else the one that it is a part of. -/
def owner (types : Types) (name : List Char) : List Char :=
  if types.any (·.1 = name) then name
  else ((types.find? fun (base, kind) => isPart base kind name).map (·.1)).getD name

def Line.typed : Line R → Option (List Char × List Char)
  | .type name kind => some (name, kind)
  | _ => none

def Line.sampled : Line R → Option (Sample R)
  | .sample s => some s
  | _ => none

def Line.metric (types : Types) : Line R → List Char
  | .help name | .type name _ => name
  | .sample s => owner types s.name

/-- What may stand after a line. A metric has one help line and one type line at most, before
its samples, and no sample comes twice. -/
def follows (types : Types) : Line R → Line R → Bool
  | .help name, .help name' | .type name _, .type name' _ => name ≠ name'
  | .sample s, .help name | .sample s, .type name _ => s.name ≠ name ∧ owner types s.name ≠ name
  | .sample s, .sample s' => ¬ (s.name = s'.name ∧ s.labels.Perm s'.labels)
  | _, _ => true

/-- What is equal stands together. -/
def together {α : Type*} [DecidableEq α] : List α → Bool
  | [] => true
  | a :: rest => a ∉ rest.dropWhile (· = a) ∧ together rest

/-- The lines keep the rules, and those of a metric are one group. -/
def Coherent (lines : List (Line R)) : Prop :=
  lines.Pairwise (follows (lines.filterMap Line.typed) · ·) ∧
    together (lines.map (Line.metric (lines.filterMap Line.typed)))

instance (lines : List (Line R)) : Decidable (Coherent lines) := inferInstanceAs (Decidable (_ ∧ _))

def parse (text : List Char) : Option (List (Sample R)) :=
  (parseFrom read [] text).bind fun lines =>
    if Coherent lines then some (lines.filterMap Line.sampled) else none

end Lines

/-! ## Words -/

theorem tokens_of_not_blank {word : List Char} (h : ∀ c ∈ word, blank c = false)
    (start rest : List Char) : tokens start (word ++ rest) = tokens (start ++ word) rest := by
  induction word generalizing start with
  | nil => simp
  | cons c word ih =>
    rw [List.forall_mem_cons] at h
    rw [List.cons_append, tokens, if_neg (by simp [h.1]), ih h.2, List.append_assoc]
    rfl

/-- A word ends at a blank. -/
theorem tokens_cons {word : List Char} (hword : word ≠ []) (h : ∀ c ∈ word, blank c = false)
    {c : Char} (hc : blank c = true) (rest : List Char) :
    tokens [] (word ++ c :: rest) = word :: tokens [] rest := by
  rw [tokens_of_not_blank h, List.nil_append, tokens, if_pos hc]
  exact if_neg (by simpa using hword)

theorem tokens_last {word : List Char} (hword : word ≠ []) (h : ∀ c ∈ word, blank c = false) :
    tokens [] word = [word] := by
  have hrest := tokens_of_not_blank h [] []
  rw [List.append_nil, List.nil_append] at hrest
  rw [hrest, tokens]
  exact if_neg (by simpa using hword)

theorem tokens_blank {c : Char} (hc : blank c = true) (rest : List Char) :
    tokens [] (c :: rest) = tokens [] rest := by
  rw [tokens, if_pos hc]
  rfl

/-! ## Names -/

theorem metricChar_of_mem {name : List Char} (h : isMetricName name) :
    ∀ c ∈ name, metricChar c = true := by
  simp only [isMetricName, Bool.and_eq_true, List.all_eq_true] at h
  exact h.2

theorem labelChar_of_mem {name : List Char} (h : isLabelName name) :
    ∀ c ∈ name, labelChar c = true := by
  simp only [isLabelName, Bool.and_eq_true, List.all_eq_true] at h
  exact h.2

theorem metricChar_of_labelChar {c : Char} (h : labelChar c = true) : metricChar c = true := by
  simp only [labelChar, metricChar, metricStart, Bool.or_eq_true] at h ⊢
  exact h.imp_left .inl

/-- No character of a name separates anything. -/
theorem metricChar_ne {c d : Char} (hc : metricChar c = true) (hd : metricChar d = false) : c ≠ d := by
  rintro rfl
  rw [hc] at hd
  simp at hd

theorem not_blank_of_metricChar {c : Char} (h : metricChar c = true) : blank c = false := by
  have hspace := metricChar_ne h (d := ' ') (by decide)
  have htab := metricChar_ne h (d := '\t') (by decide)
  simp [blank, hspace, htab]

theorem newline_not_mem_metricName {name : List Char} (h : isMetricName name) : '\n' ∉ name :=
  fun hmem => absurd (metricChar_of_mem h _ hmem) (by decide)

theorem newline_not_mem_labelName {name : List Char} (h : isLabelName name) : '\n' ∉ name :=
  fun hmem => absurd (labelChar_of_mem h _ hmem) (by decide)

/-! ## Labels -/

section Labels

variable {labels : List Label} {name value rest : List Char}

theorem parseLabels_name_chars {more : List Char} (h : ∀ c ∈ more, labelChar c = true) :
    parseLabels (.name name) labels (more ++ rest) = parseLabels (.name (name ++ more)) labels rest := by
  induction more generalizing name with
  | nil => simp
  | cons c more ih =>
    rw [List.forall_mem_cons] at h
    rw [List.cons_append, parseLabels, if_pos h.1, ih h.2, List.append_assoc]
    rfl

/-- A label up to its opening quote. -/
theorem parseLabels_name (h : isLabelName name) :
    parseLabels .start labels (name ++ '=' :: '"' :: rest) =
      parseLabels (.value name []) labels rest := by
  cases name with
  | nil => simp [isLabelName] at h
  | cons c name =>
    have hchars := labelChar_of_mem h
    rw [List.forall_mem_cons] at hchars
    have hstart : labelStart c = true := by
      simp only [isLabelName, List.head?_cons, Option.any_some, Bool.and_eq_true] at h
      exact h.1
    have hmetric := metricChar_of_labelChar hchars.1
    have hbrace := metricChar_ne hmetric (d := '}') (by decide)
    have hequals : labelChar '=' = false := by decide
    have hblank : blank '=' = false ∧ blank '"' = false := by decide
    rw [List.cons_append, parseLabels, if_neg (by simp [not_blank_of_metricChar hmetric]),
      if_neg hbrace, if_pos hstart, parseLabels_name_chars hchars.2]
    simp [parseLabels, hequals, hblank]

theorem parseLabels_char {c : Char} (hquote : c ≠ '"') (hescape : c ≠ '\\') :
    parseLabels (.value name value) labels (c :: rest) =
      parseLabels (.value name (value ++ [c])) labels rest := by
  rw [parseLabels, if_neg hquote, if_neg hescape]

/-- The three escapes. -/
theorem parseLabels_escape {c d : Char} (h : (c, d) ∈ [('\\', '\\'), ('"', '"'), ('n', '\n')]) :
    parseLabels (.value name value) labels ('\\' :: c :: rest) =
      parseLabels (.value name (value ++ [d])) labels rest := by
  simp only [List.mem_cons, Prod.mk.injEq, List.not_mem_nil, or_false] at h
  rcases h with ⟨rfl, rfl⟩ | ⟨rfl, rfl⟩ | ⟨rfl, rfl⟩ <;> simp [parseLabels]

theorem parseLabels_close :
    parseLabels (.value name value) labels ('"' :: rest) =
      parseLabels .after (labels ++ [(name, value)]) rest := by
  rw [parseLabels, if_pos rfl]

theorem parseLabels_comma : parseLabels .after labels (',' :: rest) = parseLabels .start labels rest := by
  simp [parseLabels, blank]

theorem parseLabels_end : parseLabels .after labels ('}' :: rest) = some (labels, rest) := by
  simp [parseLabels, blank]

end Labels

/-! ## Sample lines -/

/-- What may stand for a number. -/
structure IsWord (word : List Char) : Prop where
  ne_nil : word ≠ []
  chars : ∀ c ∈ word, blank c = false ∧ c ≠ '{' ∧ c ≠ '\n'

section Lines

variable {R : Type} {read : List Char → Option R} {name word : List Char} {labels : List Label}

theorem tokens_word (hword : IsWord word) : tokens [] word = [word] :=
  tokens_last hword.ne_nil fun c hc => (hword.chars c hc).1

theorem takeWhile_name (h : isMetricName name) {c : Char} (hc : metricChar c = false)
    (rest : List Char) : (name ++ c :: rest).takeWhile metricChar = name := by
  rw [List.takeWhile_append_of_pos (metricChar_of_mem h), List.takeWhile_cons_of_neg (by simp [hc]),
    List.append_nil]

theorem dropWhile_name (h : isMetricName name) {c : Char} (hc : metricChar c = false)
    (rest : List Char) : (name ++ c :: rest).dropWhile metricChar = c :: rest := by
  rw [List.dropWhile_append_of_pos (metricChar_of_mem h), List.dropWhile_cons_of_neg (by simp [hc])]

theorem parseSample_unlabelled (h : isMetricName name) (hword : IsWord word) :
    parseSample read (name ++ ' ' :: word) =
      (read word).map fun value => { name, labels := [], value } := by
  have hrest : (' ' :: word).dropWhile blank = word := by
    obtain ⟨c, cs, rfl⟩ := List.exists_cons_of_ne_nil hword.ne_nil
    have hc := (hword.chars c List.mem_cons_self).1
    rw [List.dropWhile_cons_of_pos (by decide), List.dropWhile_cons_of_neg (by simp [hc])]
  unfold parseSample
  rw [takeWhile_name h (by decide), dropWhile_name h (by decide), hrest, if_pos h]
  split
  · exact absurd rfl (hword.chars '{' List.mem_cons_self).2.1
  · unfold parseValue
    rw [tokens_word hword]

theorem parseSample_labelled (h : isMetricName name) (hword : IsWord word) {body : List Char}
    (hlabels : parseLabels .start [] (body ++ ' ' :: word) = some (labels, ' ' :: word))
    (hnodup : (labels.map (·.1)).Nodup) :
    parseSample read (name ++ '{' :: (body ++ ' ' :: word)) =
      (read word).map fun value => { name, labels, value } := by
  unfold parseSample
  rw [takeWhile_name h (by decide), dropWhile_name h (by decide), if_pos h,
    List.dropWhile_cons_of_neg (by decide)]
  simp only [hlabels, Option.bind_some, if_pos hnodup]
  unfold parseValue
  rw [tokens_blank (by decide), tokens_word hword]

/-- A line that begins with a name is a sample. -/
theorem parseLine_name (h : isMetricName name) (rest : List Char) :
    parseLine read (name ++ rest) = (parseSample read (name ++ rest)).map ([.sample ·]) := by
  cases name with
  | nil => simp [isMetricName] at h
  | cons c name =>
    have hc := metricChar_of_mem h c List.mem_cons_self
    have hhash := metricChar_ne hc (d := '#') (by decide)
    unfold parseLine
    rw [List.cons_append, List.dropWhile_cons_of_neg (by simp [not_blank_of_metricChar hc])]
    split
    · simp at *
    · rename_i heq
      exact absurd (List.cons.inj heq).1 hhash
    · rfl

/-- The words of a comment about a metric. -/
theorem tokens_comment {keyword : List Char} (hkeyword : keyword ≠ [])
    (hblank : keyword.all fun c => !blank c) (h : isMetricName name) (text : List Char) :
    tokens [] (' ' :: (keyword ++ ' ' :: (name ++ ' ' :: text))) =
      keyword :: name :: tokens [] text := by
  have hchars : ∀ c ∈ keyword, blank c = false := by simpa using hblank
  have hname : name ≠ [] := by
    rintro rfl
    simp [isMetricName] at h
  rw [tokens_blank (by decide), tokens_cons hkeyword hchars (by decide), tokens_cons hname
    (fun c hc => not_blank_of_metricChar (metricChar_of_mem h c hc)) (by decide)]

theorem escaped_append {front : List Char} (h : '\\' ∉ front) (text : List Char) :
    escaped (front ++ text) = escaped text := by
  unfold escaped
  induction front with
  | nil => rfl
  | cons c front ih =>
    obtain ⟨hc, hfront⟩ := List.ne_and_not_mem_of_not_mem_cons h
    rw [List.cons_append, escapedFrom, decide_eq_false (Ne.symm hc), ih hfront]

/-- A help line is read when its text is escaped. -/
theorem parseLine_help (h : isMetricName name) (help : List Char) :
    parseLine read ("# HELP ".toList ++ name ++ ' ' :: help) =
      if escaped help then some [.help name] else none := by
  have hfront : '\\' ∉ ' ' :: ("HELP".toList ++ ' ' :: (name ++ [' '])) := by
    have hname : '\\' ∉ name := fun hmem => absurd (metricChar_of_mem h _ hmem) (by decide)
    simp [hname]
  have htext : escaped (' ' :: ("HELP".toList ++ ' ' :: (name ++ ' ' :: help))) = escaped help := by
    have happend := escaped_append hfront help
    simpa using happend
  rw [List.append_assoc]
  show parseLine read ('#' :: ' ' :: ("HELP".toList ++ ' ' :: (name ++ ' ' :: help))) = _
  unfold parseLine
  have htokens := tokens_comment (show "HELP".toList ≠ [] by decide)
    (show "HELP".toList.all _ by decide) h help
  rw [List.dropWhile_cons_of_neg (by decide)]
  simp only [parseComment, htokens, htext, h, Bool.true_and, if_true]

theorem parseLine_type (h : isMetricName name) {kind : List Char} (hkind : kind ∈ metricTypes) :
    parseLine read ("# TYPE ".toList ++ name ++ ' ' :: kind) = some [.type name kind] := by
  have hwords : ∀ t ∈ metricTypes, t ≠ [] ∧ t.all fun c => !blank c := by decide
  obtain ⟨hne, hblank⟩ := hwords kind hkind
  have hchars : ∀ c ∈ kind, blank c = false := by simpa using hblank
  have hkeyword : ("TYPE".toList = "HELP".toList) = False := by decide
  rw [List.append_assoc]
  show parseLine read ('#' :: ' ' :: ("TYPE".toList ++ ' ' :: (name ++ ' ' :: kind))) = _
  unfold parseLine
  have htokens := tokens_comment (show "TYPE".toList ≠ [] by decide)
    (show "TYPE".toList.all _ by decide) h kind
  rw [List.dropWhile_cons_of_neg (by decide)]
  simp only [parseComment, htokens, tokens_last hne hchars, hkeyword, if_false, if_true]
  simp [h, hkind]

/-! ## Texts -/

theorem parseFrom_line {line : List Char} (hline : '\n' ∉ line) (start rest : List Char) :
    parseFrom read start (line ++ '\n' :: rest) =
      (parseLine read (start ++ line)).bind fun lines =>
        (parseFrom read [] rest).map (lines ++ ·) := by
  induction line generalizing start with
  | nil => simp [parseFrom]
  | cons c line ih =>
    have hc : c ≠ '\n' := fun h => hline (h ▸ List.mem_cons_self)
    rw [List.cons_append, parseFrom, if_neg hc, ih fun h => hline (List.mem_cons_of_mem c h)]
    simp

/-- The text is these lines if `ok`, and is refused otherwise, whatever follows it. -/
def Reads (read : List Char → Option R) (text : List Char) (ok : Bool) (lines : List (Line R)) :
    Prop :=
  ∀ rest, parseFrom read [] (text ++ rest) =
    if ok then (parseFrom read [] rest).map (lines ++ ·) else none

theorem Reads.nil : Reads read [] true [] := fun rest => by simp

theorem Reads.line {line : List Char} {ok : Bool} {lines : List (Line R)} (hline : '\n' ∉ line)
    (h : parseLine read line = if ok then some lines else none) :
    Reads read (line ++ ['\n']) ok lines := by
  intro rest
  rw [List.append_assoc]
  show parseFrom read [] (line ++ '\n' :: rest) = _
  rw [parseFrom_line hline, List.nil_append, h]
  cases ok <;> rfl

theorem Reads.append {text text' : List Char} {ok ok' : Bool} {lines lines' : List (Line R)}
    (h : Reads read text ok lines) (h' : Reads read text' ok' lines') :
    Reads read (text ++ text') (ok && ok') (lines ++ lines') := by
  intro rest
  rw [List.append_assoc, h, h']
  cases ok
  · rfl
  · cases ok'
    · rfl
    · cases parseFrom read [] rest <;> simp

theorem Reads.flatMap {α : Type} {l : List α} {f : α → List Char} {ok : α → Bool}
    {g : α → List (Line R)} (h : ∀ a ∈ l, Reads read (f a) (ok a) (g a)) :
    Reads read (l.flatMap f) (l.all ok) (l.flatMap g) := by
  induction l with
  | nil => exact .nil
  | cons a l ih =>
    rw [List.forall_mem_cons] at h
    rw [List.flatMap_cons, List.flatMap_cons, List.all_cons]
    exact h.1.append (ih h.2)

theorem Reads.parse_eq {text : List Char} {ok : Bool} {lines : List (Line R)}
    (h : Reads read text ok lines) :
    parse read text =
      if ok = true ∧ Coherent lines then some (lines.filterMap Line.sampled) else none := by
  have htext := h []
  rw [List.append_nil] at htext
  unfold TextFormat.parse
  rw [htext]
  cases ok <;> simp [parseFrom]

end Lines

/-! ## Blocks of lines -/

section Blocks

variable {R : Type}

/-- A metric with its lines. -/
structure Block (R : Type) where
  name : List Char
  help : Bool
  kind : List Char
  samples : List (Sample R)

def Block.lines (b : Block R) : List (Line R) :=
  (if b.help then [.help b.name] else []) ++ .type b.name b.kind :: b.samples.map .sample

/-- The samples are of the metric, or parts of it. -/
def Block.Proper (b : Block R) : Prop :=
  ∀ s ∈ b.samples, s.name = b.name ∨ isPart b.name b.kind s.name

def Apart (s s' : Sample R) : Prop := ¬ (s.name = s'.name ∧ s.labels.Perm s'.labels)

theorem follows_sample {types : Types} {s s' : Sample R} :
    follows types (.sample s) (.sample s') ↔ Apart s s' := decide_eq_true_iff

/-- What is read repeats no sample. -/
theorem parse_apart {read : List Char → Option R} {text : List Char} {parsed : List (Sample R)}
    (h : parse read text = some parsed) : parsed.Pairwise Apart := by
  unfold parse at h
  obtain ⟨lines, -, h⟩ := Option.bind_eq_some_iff.mp h
  split at h
  · rename_i hcoherent
    obtain rfl := Option.some.inj h
    refine hcoherent.1.filterMap Line.sampled fun line line' hfollows s hs s' hs' => ?_
    cases line with
    | sample t =>
      cases line' with
      | sample t' =>
        obtain rfl := Option.some.inj hs
        obtain rfl := Option.some.inj hs'
        exact follows_sample.mp hfollows
      | help | type => cases hs'
    | help | type => cases hs
  · cases h

theorem eq_singleton_of_apart {l : List (Sample R)} (h : l.Pairwise Apart) {s : Sample R}
    (hs : ∀ t, t ∈ l ↔ t = s) : l = [s] := by
  cases l with
  | nil => exact absurd ((hs s).mpr rfl) List.not_mem_nil
  | cons t l =>
    obtain rfl := (hs t).mp List.mem_cons_self
    cases l with
    | nil => rfl
    | cons t' l =>
      obtain rfl := (hs t').mp (List.mem_cons_of_mem _ List.mem_cons_self)
      exact absurd ⟨rfl, .refl _⟩ ((List.pairwise_cons.mp h).1 t' List.mem_cons_self)

/-- No two parts of metrics have one name. -/
theorem part_unique {base base' more more' : List Char} (hmore : more ∈ histogramParts)
    (hmore' : more' ∈ histogramParts) (h : base ++ more = base' ++ more') : base = base' := by
  have hreverse := congrArg List.reverse h
  rw [List.reverse_append, List.reverse_append] at hreverse
  simp only [histogramParts, List.map_cons, List.map_nil, List.mem_cons, List.not_mem_nil,
    or_false] at hmore hmore'
  rcases hmore with rfl | rfl | rfl <;> rcases hmore' with rfl | rfl | rfl <;> simp at hreverse <;>
    exact hreverse

theorem exists_part {base kind name : List Char} (h : isPart base kind name) :
    ∃ more ∈ histogramParts, base ++ more = name := by
  simp only [isPart, Bool.or_eq_true, Bool.and_eq_true, List.any_eq_true, decide_eq_true_eq] at h
  rcases h with ⟨-, more, hmore, rfl⟩ | ⟨-, more, hmore, rfl⟩
  · exact ⟨more, hmore, rfl⟩
  · exact ⟨more, (by decide : ∀ m ∈ summaryParts, m ∈ histogramParts) more hmore, rfl⟩

theorem isPart_unique {base base' kind kind' name : List Char} (h : isPart base kind name)
    (h' : isPart base' kind' name) : base = base' := by
  obtain ⟨more, hmore, rfl⟩ := exists_part h
  obtain ⟨more', hmore', heq⟩ := exists_part h'
  exact (part_unique hmore' hmore heq).symm

/-! ### What stands together -/

theorem together_append {α : Type*} [DecidableEq α] {x : α} {l rest : List α} (hl : ∀ a ∈ l, a = x)
    (hx : x ∉ rest) (h : together rest) : together (l ++ rest) := by
  induction l with
  | nil => exact h
  | cons a l ih =>
    obtain ⟨rfl, hl⟩ := List.forall_mem_cons.mp hl
    have hdrop : ∀ y ∈ (l ++ rest).dropWhile (· = a), y ∈ rest := by
      rw [List.dropWhile_append_of_pos fun b hb => by simpa using hl b hb]
      exact fun y hy => (List.dropWhile_sublist _).subset hy
    simp only [List.cons_append, together, decide_eq_true_eq]
    exact ⟨fun hmem => hx (hdrop _ hmem), ih hl⟩

theorem mem_dropWhile {α : Type*} [DecidableEq α] {x y : α} {l : List α} (hne : y ≠ x)
    (h : [y, x].Sublist l) : x ∈ l.dropWhile (· = x) := by
  induction l with
  | nil => cases h
  | cons a l ih =>
    by_cases ha : a = x
    · subst ha
      rw [List.dropWhile_cons_of_pos (by simp)]
      cases h with
      | cons _ h => exact ih h
      | cons_cons _ _ => exact absurd rfl hne
    · rw [List.dropWhile_cons_of_neg (by simpa using ha)]
      exact h.subset (by simp)

/-- Nothing else stands between two equals. -/
theorem eq_of_together {x y : List Char} {l : List (List Char)} (h : together l)
    (hsub : [x, y, x].Sublist l) : y = x := by
  induction l with
  | nil => cases hsub
  | cons a l ih =>
    simp only [together, decide_eq_true_eq] at h
    cases hsub with
    | cons _ hsub => exact ih h.2 hsub
    | cons_cons _ hsub =>
      by_contra hne
      exact h.1 (mem_dropWhile hne hsub)

/-! ### Coherent blocks -/

variable {blocks : List (Block R)} {b : Block R} {s : Sample R}

theorem typed_lines (b : Block R) : b.lines.filterMap Line.typed = [(b.name, b.kind)] := by
  have hhelp : (if b.help then [(.help b.name : Line R)] else []).filterMap Line.typed = [] := by
    split <;> rfl
  have hsamples : (b.samples.map Line.sample).filterMap Line.typed = [] := by
    rw [List.filterMap_map]
    exact List.filterMap_eq_nil_iff.mpr fun _ _ => rfl
  unfold Block.lines
  rw [List.filterMap_append, hhelp, List.nil_append]
  exact congrArg ((b.name, b.kind) :: ·) hsamples

theorem sampled_lines (b : Block R) : b.lines.filterMap Line.sampled = b.samples := by
  have hhelp : (if b.help then [(.help b.name : Line R)] else []).filterMap Line.sampled = [] := by
    split <;> rfl
  unfold Block.lines
  rw [List.filterMap_append, hhelp, List.nil_append, List.filterMap_cons_none rfl,
    List.filterMap_map]
  exact List.filterMap_some

theorem typed_blocks (blocks : List (Block R)) :
    (blocks.flatMap Block.lines).filterMap Line.typed = blocks.map fun b => (b.name, b.kind) := by
  rw [List.filterMap_flatMap, List.map_eq_flatMap]
  exact List.flatMap_congr fun b _ => typed_lines b

theorem sampled_blocks (blocks : List (Block R)) :
    (blocks.flatMap Block.lines).filterMap Line.sampled = blocks.flatMap (·.samples) := by
  rw [List.filterMap_flatMap]
  exact List.flatMap_congr fun b _ => sampled_lines b

def typesOf (blocks : List (Block R)) : Types := blocks.map fun b => (b.name, b.kind)

theorem any_typesOf {name : List Char} :
    (typesOf blocks).any (·.1 = name) ↔ name ∈ blocks.map (·.name) := by
  simp [typesOf]

/-- The blocks share no name. -/
structure Distinct (blocks : List (Block R)) : Prop where
  names : (blocks.map (·.name)).Nodup
  parts : ∀ b ∈ blocks, ∀ s ∈ b.samples, s.name ≠ b.name → s.name ∉ blocks.map (·.name)

theorem owner_of_mem (hproper : ∀ b ∈ blocks, b.Proper) (h : Distinct blocks) (hb : b ∈ blocks)
    (hs : s ∈ b.samples) : owner (typesOf blocks) s.name = b.name := by
  unfold owner
  by_cases hown : s.name = b.name
  · rw [if_pos (any_typesOf.mpr (hown ▸ List.mem_map_of_mem hb)), hown]
  · rw [if_neg fun hany => h.parts b hb s hs hown (any_typesOf.mp hany)]
    have hpart := (hproper b hb s hs).resolve_left hown
    cases hfind : (typesOf blocks).find? fun (base, kind) => isPart base kind s.name with
    | none =>
      have hnone := List.find?_eq_none.mp hfind (b.name, b.kind) (List.mem_map_of_mem hb)
      exact absurd hpart hnone
    | some found =>
      have hfound := List.find?_some hfind
      exact isPart_unique hfound hpart

theorem metric_of_mem (hproper : ∀ b ∈ blocks, b.Proper) (h : Distinct blocks) (hb : b ∈ blocks)
    {line : Line R} (hline : line ∈ b.lines) : line.metric (typesOf blocks) = b.name := by
  unfold Block.lines at hline
  rcases List.mem_append.mp hline with hline | hline
  · split at hline
    · rw [List.mem_singleton.mp hline]
      rfl
    · cases hline
  · rcases List.mem_cons.mp hline with rfl | hline
    · rfl
    · obtain ⟨s, hs, rfl⟩ := List.mem_map.mp hline
      exact owner_of_mem hproper h hb hs

theorem together_blocks {types : Types} (hnames : (blocks.map (·.name)).Nodup)
    (h : ∀ b ∈ blocks, ∀ line ∈ b.lines, line.metric types = b.name) :
    together ((blocks.flatMap Block.lines).map (Line.metric types)) := by
  induction blocks with
  | nil => rfl
  | cons b blocks ih =>
    obtain ⟨hb, hblocks⟩ := List.forall_mem_cons.mp h
    obtain ⟨hnew, hnames⟩ := List.nodup_cons.mp hnames
    rw [List.flatMap_cons, List.map_append]
    refine together_append (x := b.name) ?_ ?_ (ih hnames hblocks)
    · intro a ha
      obtain ⟨line, hline, rfl⟩ := List.mem_map.mp ha
      exact hb line hline
    · intro hmem
      obtain ⟨line, hline, heq⟩ := List.mem_map.mp hmem
      obtain ⟨b', hb', hline⟩ := List.mem_flatMap.mp hline
      rw [hblocks b' hb' line hline] at heq
      exact hnew (List.mem_map.mpr ⟨b', hb', heq⟩)

/-- The lines of one block. -/
theorem follows_block {types : Types} (h : b.samples.Pairwise Apart) :
    b.lines.Pairwise (follows types · ·) := by
  have hsamples : (b.samples.map Line.sample).Pairwise (follows types · ·) := by
    rw [List.pairwise_map]
    exact h.imp fun hab => follows_sample.mpr hab
  have hrest : (.type b.name b.kind :: b.samples.map Line.sample).Pairwise (follows types · ·) := by
    refine List.pairwise_cons.mpr ⟨fun line hline => ?_, hsamples⟩
    obtain ⟨s, -, rfl⟩ := List.mem_map.mp hline
    rfl
  unfold Block.lines
  split
  · refine List.pairwise_cons.mpr ⟨fun line hline => ?_, hrest⟩
    rcases List.mem_cons.mp hline with rfl | hline
    · rfl
    · obtain ⟨s, -, rfl⟩ := List.mem_map.mp hline
      rfl
  · exact hrest

/-- The lines of two blocks. -/
theorem follows_blocks (hproper : ∀ b ∈ blocks, b.Proper) (h : Distinct blocks) {b' : Block R}
    (hb : b ∈ blocks) (hb' : b' ∈ blocks) (hne : b.name ≠ b'.name) {line line' : Line R}
    (hline : line ∈ b.lines) (hline' : line' ∈ b'.lines) :
    follows (typesOf blocks) line line' := by
  have hmetric := metric_of_mem hproper h hb hline
  have hmetric' := metric_of_mem hproper h hb' hline'
  have hdiffer : line.metric (typesOf blocks) ≠ line'.metric (typesOf blocks) :=
    fun heq => hne (hmetric.symm.trans (heq.trans hmetric'))
  have hhead : ∀ {s : Sample R} {name : List Char}, .sample s ∈ b.lines → name = b'.name →
      s.name ≠ name ∧ owner (typesOf blocks) s.name ≠ name := by
    rintro s name hs rfl
    have howner : owner (typesOf blocks) s.name = b.name := metric_of_mem hproper h hb hs
    refine ⟨fun heq => ?_, fun heq => hne (howner.symm.trans heq)⟩
    unfold owner at howner
    rw [if_pos (any_typesOf.mpr (heq ▸ List.mem_map_of_mem hb'))] at howner
    exact hne (howner.symm.trans heq)
  cases line with
  | help name =>
    cases line' with
    | help name' => exact decide_eq_true hdiffer
    | type | sample => rfl
  | type name kind =>
    cases line' with
    | type name' kind' => exact decide_eq_true hdiffer
    | help | sample => rfl
  | sample s =>
    cases line' with
    | help name | type name kind => exact decide_eq_true (hhead hline hmetric')
    | sample s' =>
      have hname : s.name ≠ s'.name := fun heq => by
        have howner : owner (typesOf blocks) s.name = owner (typesOf blocks) s'.name := by rw [heq]
        exact hne (hmetric.symm.trans (howner.trans hmetric'))
      simp [follows, hname]

theorem Distinct.coherent (hproper : ∀ b ∈ blocks, b.Proper) (h : Distinct blocks)
    (hapart : ∀ b ∈ blocks, b.samples.Pairwise Apart) : Coherent (blocks.flatMap Block.lines) := by
  unfold Coherent
  rw [typed_blocks]
  refine ⟨List.pairwise_flatMap.mpr ⟨fun b hb => follows_block (hapart b hb), ?_⟩,
    together_blocks h.names fun b hb line => metric_of_mem hproper h hb⟩
  have hnames := List.pairwise_map.mp h.names
  exact hnames.imp_of_mem fun hb hb' hne line hline line' hline' =>
    follows_blocks hproper h hb hb' hne hline hline'

/-! ### What incoherent blocks share -/

theorem type_mem_lines (b : Block R) : .type b.name b.kind ∈ b.lines :=
  List.mem_append_right _ List.mem_cons_self

theorem sample_mem_lines (hs : s ∈ b.samples) : .sample s ∈ b.lines :=
  List.mem_append_right _ (List.mem_cons_of_mem _ (List.mem_map_of_mem hs))

theorem Coherent.names (h : Coherent (blocks.flatMap Block.lines)) : (blocks.map (·.name)).Nodup := by
  have htypes := h.1.filterMap Line.typed (S := fun t t' => t.1 ≠ t'.1)
      fun line line' hfollows t ht t' ht' => by
    cases line with
    | type name kind =>
      cases line' with
      | type name' kind' =>
        obtain rfl := Option.some.inj ht
        obtain rfl := Option.some.inj ht'
        exact of_decide_eq_true hfollows
      | help | sample => cases ht'
    | help | sample => cases ht
  rw [typed_blocks, List.pairwise_map] at htypes
  exact List.pairwise_map.mpr htypes

theorem Coherent.apart (h : Coherent (blocks.flatMap Block.lines)) (hb : b ∈ blocks) :
    b.samples.Pairwise Apart := by
  have hlines := (List.pairwise_flatMap.mp h.1).1 b hb
  have hsamples := (List.pairwise_cons.mp (List.pairwise_append.mp hlines).2.1).2
  exact (List.pairwise_map.mp hsamples).imp follows_sample.mp

/-- A type line of the name of a sample stands neither after that sample nor in a group
before its own. -/
theorem Coherent.parts (h : Coherent (blocks.flatMap Block.lines)) (hb : b ∈ blocks)
    (hs : s ∈ b.samples) (hown : s.name ≠ b.name) : s.name ∉ blocks.map (·.name) := by
  intro hmem
  have howner : owner ((blocks.flatMap Block.lines).filterMap Line.typed) s.name = s.name := by
    unfold owner
    rw [typed_blocks]
    exact if_pos (any_typesOf.mpr hmem)
  obtain ⟨b', hb', hname⟩ := List.mem_map.mp hmem
  have hne : b' ≠ b := fun heq => hown (hname.symm.trans (congrArg Block.name heq))
  obtain ⟨before, after, rfl⟩ := List.append_of_mem hb
  have hsplit : b' ∈ before ∨ b' ∈ after := by simpa [hne] using hb'
  rcases hsplit with hb' | hb'
  · have hsub : [.type b'.name b'.kind, .type b.name b.kind, .sample s].Sublist
        ((before ++ b :: after).flatMap Block.lines) := by
      rw [List.flatMap_append, List.flatMap_cons]
      have hfirst : [.type b'.name b'.kind].Sublist (before.flatMap Block.lines) :=
        List.singleton_sublist.mpr (List.mem_flatMap.mpr ⟨b', hb', type_mem_lines b'⟩)
      have hrest : [.type b.name b.kind, .sample s].Sublist b.lines :=
        ((List.singleton_sublist.mpr (List.mem_map_of_mem hs)).cons_cons _).trans
          (List.sublist_append_right _ _)
      exact hfirst.append (hrest.trans (List.sublist_append_left _ _))
    have hmetrics := hsub.map (Line.metric ((before ++ b :: after).flatMap Block.lines |>.filterMap Line.typed))
    simp only [List.map_cons, List.map_nil, Line.metric, howner, hname] at hmetrics
    exact hown (eq_of_together h.2 hmetrics).symm
  · have hcons := (List.pairwise_append.mp (List.pairwise_flatMap.mp h.1).2).2.1
    have hfollows := (List.pairwise_cons.mp hcons).1 b' hb' _ (sample_mem_lines hs) _ (type_mem_lines b')
    exact (of_decide_eq_true hfollows).1 hname.symm

/-- When a text of blocks keeps the rules. -/
theorem coherent_iff (hproper : ∀ b ∈ blocks, b.Proper) :
    Coherent (blocks.flatMap Block.lines) ↔
      Distinct blocks ∧ ∀ b ∈ blocks, b.samples.Pairwise Apart := by
  constructor
  · intro h
    exact ⟨⟨h.names, fun b hb s hs hown => h.parts hb hs hown⟩, fun b hb => h.apart hb⟩
  · rintro ⟨hdistinct, hapart⟩
    exact hdistinct.coherent hproper hapart

end Blocks

end Gigastt.TextFormat
