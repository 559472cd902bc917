import Gigastt.Words.Vocab

/-!
# Vocabulary files

What a writer of the format puts down, and what the loader makes of it. The format has an
optional header, a number alone on its line, then one token and its id on each line.
-/

namespace Gigastt.Words

open Str
open String (utf8Len)

/-! ## The format -/

/-- A decimal integer. -/
structure Header where
  sign : Option Char
  digits : Text
  sign_eq : ∀ c ∈ sign, c = '+' ∨ c = '-'
  digits_ne : digits ≠ []
  digits_isDigit : ∀ c ∈ digits, c.isDigit = true

def Header.text (header : Header) : Text := header.sign.toList ++ header.digits

/-- A token, and what stands between it and its id. -/
structure Entry where
  token : Text
  sep : Char
  no_newline : '\n' ∉ token
  sep_eq : is_separator sep = true

def Entry.line (entry : Entry) (id : Nat) : Text := entry.token ++ entry.sep :: Nat.toDigits 10 id

structure VocabFile where
  header : Option Header
  entries : List Entry
  -- The last line ends in a newline, too.
  closed : Bool
  entries_ne : entries ≠ []

def VocabFile.tokens (file : VocabFile) : List Text := file.entries.map Entry.token

def VocabFile.entry_lines (file : VocabFile) : List Text :=
  file.entries.mapIdx fun id entry => entry.line id

def VocabFile.lines (file : VocabFile) : List Text :=
  (file.header.map Header.text).toList ++ file.entry_lines

def VocabFile.text (file : VocabFile) : Text :=
  ['\n'].intercalate file.lines ++ if file.closed then ['\n'] else []

/-! ## What the loader makes of it -/

/-- The tokens are those of the file, under their ids. -/
structure Carries (file : VocabFile) (tokenizer : Tokenizer) : Prop where
  vocab_size : tokenizer.vocab_size = file.tokens.length
  tokens : tokenizer.tokens = file.tokens
  token_text : ∀ id token, file.tokens[id]? = some token → token ≠ "<blk>".toList →
    token ≠ "<unk>".toList → tokenizer.token_text id = token
  blank_id : (file.tokens[tokenizer.blank_id]? = some BLANK ∧
      ∀ id < tokenizer.blank_id, file.tokens[id]? ≠ some BLANK) ∨
    (BLANK ∉ file.tokens ∧ tokenizer.blank_id = file.tokens.length - 1)

/-- The number of the header is one of the type `usize`. -/
def Header.Fits (header : Header) : Prop :=
  header.sign ≠ some '-' ∧ Nat.ofDigitChars 10 header.digits 0 < 2 ^ 64

theorem filter_isSome_iff {n bound : Nat} : ((some n).filter (· < bound)).isSome = true ↔ n < bound := by
  rw [Option.filter_some]
  split_ifs with h
  · simpa using h
  · simpa using h

/-- A header is skipped if its number fits, and is a token of its own if not. -/
theorem header_kept_iff (header : Header) : Kept header.text ↔ ¬ header.Fits := by
  obtain ⟨sign, digits, hsign, hne, hdigits⟩ := header
  have hnumber : ∀ {text : Text}, text ≠ [] →
      (parse_usize text).isSome = decide (Nat.ofDigitChars 10 digits 0 < 2 ^ 64) →
      (Kept text ↔ ¬ Nat.ofDigitChars 10 digits 0 < 2 ^ 64) := by
    intro text htext hparse
    unfold Kept
    rw [← Option.not_isSome_iff_eq_none, hparse, decide_eq_true_iff]
    exact and_iff_right htext
  unfold Header.Fits Header.text
  cases sign with
  | none =>
    have hparse : (parse_usize digits).isSome = decide (Nat.ofDigitChars 10 digits 0 < 2 ^ 64) := by
      rw [Bool.eq_iff_iff, parse_usize, parse_unsigned_digits hne hdigits, filter_isSome_iff,
        decide_eq_true_iff]
    simpa using hnumber hne hparse
  | some c =>
    rcases hsign c rfl with rfl | rfl
    · have hparse : (parse_usize ('+' :: digits)).isSome = decide (Nat.ofDigitChars 10 digits 0 < 2 ^ 64) := by
        rw [Bool.eq_iff_iff, parse_usize, parse_unsigned_plus hne hdigits, filter_isSome_iff,
          decide_eq_true_iff]
      simpa using hnumber (List.cons_ne_nil _ _) hparse
    · have hkept : Kept ('-' :: digits) :=
        kept_of_mem List.mem_cons_self (by decide) (by decide)
      simpa using hkept

theorem isDigit_of_mem_toDigits {n : Nat} {c : Char} (hc : c ∈ Nat.toDigits 10 n) : c.isDigit = true :=
  Nat.isDigit_of_mem_toDigits (by decide) (by decide) hc

theorem not_whitespace_of_isDigit {c : Char} (hc : c.isDigit = true) : is_whitespace c = false := by
  obtain ⟨hlow, hhigh⟩ : 48 ≤ c.toNat ∧ c.toNat ≤ 57 := Char.isDigit_iff_toNat.mp hc
  unfold is_whitespace
  simp only [Bool.or_eq_false_iff, Bool.and_eq_false_iff, beq_eq_false_iff_ne, decide_eq_false_iff_not]
  omega

theorem not_separator_of_isDigit {c : Char} (hc : c.isDigit = true) : is_separator c = false := by
  unfold is_separator
  rw [Bool.or_eq_false_iff, beq_eq_false_iff_ne, beq_eq_false_iff_ne]
  constructor
  · rintro rfl
    nomatch hc
  · rintro rfl
    nomatch hc

/-- Digits are neither trimmed nor mistaken for something else. -/
theorem parse_trim_toDigits {n : Nat} (h : n < 2 ^ 64) :
    parse_usize (trim (Nat.toDigits 10 n)) = some n := by
  have hdigit : ∀ c ∈ Nat.toDigits 10 n, is_whitespace c = false :=
    fun _ hc => not_whitespace_of_isDigit (isDigit_of_mem_toDigits hc)
  have hne : Nat.toDigits 10 n ≠ [] := Nat.toDigits_ne_nil
  have hhead := List.head?_eq_some_head hne
  have hlast := List.getLast?_eq_some_getLast hne
  rw [trim_eq_self (hdigit _ (List.head_mem hne)) (hdigit _ (List.getLast_mem hne)) hhead hlast]
  exact parse_unsigned_toDigits h

/-- The line of a token, whatever the token looks like. -/
theorem line_token_entry (entry : Entry) {id : Nat} (hid : id < 2 ^ 64) :
    line_token (entry.line id) = .ok (some entry.token) := by
  unfold Entry.line
  rw [line_token_separated entry.sep_eq
    fun d hd => not_separator_of_isDigit (isDigit_of_mem_toDigits hd), parse_trim_toDigits hid]
  rfl

theorem line_token_header (header : Header) :
    ∃ token : Option Text, line_token header.text = .ok token ∧ (token = none ↔ header.Fits) := by
  obtain ⟨token, htoken, hkept⟩ := line_token_spec header.text
  refine ⟨token, htoken, ?_⟩
  rw [← Option.not_isSome_iff_eq_none, hkept, header_kept_iff, not_not]

/-! ## Lines -/

/-- A line that a text can hold as it is. -/
structure Whole (line : Text) : Prop where
  ne : line ≠ []
  no_newline : '\n' ∉ line
  no_cr : line.getLast? ≠ some '\r'

theorem whole_of_digits {before digits : Text} (hne : digits ≠ []) (hdigits : ∀ c ∈ digits, c.isDigit = true)
    (hbefore : '\n' ∉ before) : Whole (before ++ digits) where
  ne := fun h => hne (List.append_eq_nil_iff.mp h).2
  no_newline := by
    intro h
    rcases List.mem_append.mp h with hmem | hmem
    · exact hbefore hmem
    · exact absurd (hdigits _ hmem) (by decide)
  no_cr := by
    intro h
    rw [List.getLast?_append_of_ne_nil _ hne] at h
    exact absurd (hdigits _ (List.mem_of_getLast? h)) (by decide)

theorem Header.whole (header : Header) : Whole header.text := by
  refine whole_of_digits header.digits_ne header.digits_isDigit ?_
  intro h
  rcases header.sign_eq _ (Option.mem_toList.mp h) with hsign | hsign
  · exact absurd hsign (by decide)
  · exact absurd hsign (by decide)

theorem Entry.whole (entry : Entry) (id : Nat) : Whole (entry.line id) := by
  have hsplit : entry.line id = (entry.token ++ [entry.sep]) ++ Nat.toDigits 10 id := by
    unfold Entry.line
    rw [List.append_assoc, List.singleton_append]
  rw [hsplit]
  refine whole_of_digits Nat.toDigits_ne_nil (fun _ hc => isDigit_of_mem_toDigits hc) ?_
  intro h
  rcases List.mem_append.mp h with hmem | hmem
  · exact entry.no_newline hmem
  · have hsep := entry.sep_eq
    rw [← List.mem_singleton.mp hmem] at hsep
    exact absurd hsep (by decide)

theorem VocabFile.whole (file : VocabFile) : ∀ line ∈ file.lines, Whole line := by
  intro line hline
  rcases List.mem_append.mp hline with hheader | hentry
  · obtain ⟨header, -, rfl⟩ := Option.map_eq_some_iff.mp (Option.mem_toList.mp hheader)
    exact header.whole
  · obtain ⟨id, hid, rfl⟩ := List.mem_mapIdx.mp hentry
    exact Entry.whole _ id

theorem VocabFile.entry_lines_ne (file : VocabFile) : file.entry_lines ≠ [] := by
  unfold VocabFile.entry_lines
  rw [ne_eq, List.mapIdx_eq_nil_iff]
  exact file.entries_ne

theorem VocabFile.lines_text (file : VocabFile) : Str.lines file.text = file.lines := by
  refine lines_join (fun line h => (file.whole line h).ne) (fun line h => (file.whole line h).no_newline)
    (fun line h => (file.whole line h).no_cr) ?_
  have hne : file.lines ≠ [] := fun h => file.entry_lines_ne (List.append_eq_nil_iff.mp h).2
  cases file.closed with
  | false => exact .inl rfl
  | true => exact .inr ⟨rfl, hne⟩

/-! ## The tokens of a file -/

/-- The lines of the entries, from some id on, give their tokens. -/
theorem push_entries (entries : List Entry) (tokens : List Text) (id : Nat)
    (hid : id + entries.length ≤ 2 ^ 64) :
    (entries.mapIdx fun i entry => entry.line (id + i)).foldlM push_line tokens =
      .ok (tokens ++ entries.map Entry.token) := by
  induction entries generalizing tokens id with
  | nil => rw [List.map_nil, List.append_nil]; rfl
  | cons entry entries ih =>
    rw [List.length_cons] at hid
    rw [List.mapIdx_cons, List.foldlM_cons,
      push_line_eq (line_token_entry entry (by omega : id + 0 < 2 ^ 64))]
    have hrest := ih (tokens ++ [entry.token]) (id + 1) (by omega)
    have hshift : (fun (i : Nat) (entry : Entry) => entry.line (id + (i + 1))) =
        fun i entry => entry.line (id + 1 + i) := by
      funext i entry
      rw [Nat.add_right_comm, Nat.add_assoc]
    rw [hshift]
    exact hrest.trans (by rw [List.append_assoc, List.map_cons]; rfl)

theorem push_entry_lines (file : VocabFile) (tokens : List Text) (hfits : file.entries.length ≤ 2 ^ 64) :
    file.entry_lines.foldlM push_line tokens = .ok (tokens ++ file.tokens) := by
  have h := push_entries file.entries tokens 0 (by omega)
  unfold VocabFile.entry_lines VocabFile.tokens
  simpa only [Nat.zero_add] using h

theorem length_entries_lt (file : VocabFile) {content : Content} (htext : content.text = file.text) :
    file.entries.length < 2 ^ 63 := by
  have hlines : (Str.lines content.text).length ≤ utf8Len content.text := length_lines_le content.text
  rw [htext, file.lines_text, ← htext] at hlines
  have hentries : file.entries.length ≤ file.lines.length := by
    unfold VocabFile.lines VocabFile.entry_lines
    rw [List.length_append, List.length_mapIdx]
    omega
  have hfits := content.fits
  omega

/-- All lines of a file at once. -/
theorem push_file (file : VocabFile) (hfits : file.entries.length ≤ 2 ^ 64) :
    ∃ ghost : List Text, file.lines.foldlM push_line [] = .ok (ghost ++ file.tokens) ∧
      (ghost = [] ↔ ∀ header ∈ file.header, header.Fits) := by
  unfold VocabFile.lines
  rw [List.foldlM_append]
  cases file.header with
  | none => exact ⟨[], push_entry_lines file [] hfits, by simp⟩
  | some header =>
    obtain ⟨token, htoken, hskipped⟩ := line_token_header header
    refine ⟨token.toList, ?_, ?_⟩
    · have hpush : [header.text].foldlM push_line [] = .ok token.toList := by
        rw [List.foldlM_cons, push_line_eq htoken]
        rfl
      rw [Option.map_some, Option.toList_some, hpush]
      exact push_entry_lines file token.toList hfits
    · rw [Option.toList_eq_nil_iff, hskipped]
      simp

theorem carries_of_tokens (file : VocabFile) :
    Carries file
      { tokens := file.tokens, blank_id := (file.tokens.findIdx? (· == BLANK)).getD (file.tokens.length - 1) } where
  vocab_size := rfl
  tokens := rfl
  token_text := by
    intro id token htoken hblank hunk
    unfold Tokenizer.token_text
    rw [htoken]
    exact if_neg (not_or.mpr ⟨hblank, hunk⟩)
  blank_id := by
    cases hfind : file.tokens.findIdx? (· == BLANK) with
    | none =>
      refine .inr ⟨fun hmem => ?_, rfl⟩
      have h := List.findIdx?_eq_none_iff.mp hfind BLANK hmem
      exact absurd h (by simp)
    | some id =>
      obtain ⟨hlt, hblank, hfirst⟩ := List.findIdx?_eq_some_iff_getElem.mp hfind
      refine .inl ⟨?_, ?_⟩
      · rw [Option.getD_some, List.getElem?_eq_getElem hlt]
        exact congrArg some (beq_iff_eq.mp hblank)
      · intro j hj
        rw [Option.getD_some] at hj
        rw [List.getElem?_eq_getElem (hj.trans hlt)]
        intro h
        exact hfirst j hj (beq_iff_eq.mpr (Option.some.inj h))

/-- A file comes back as it was written exactly if its header, should it have one, is
skipped. -/
theorem vocab_round_trip_iff (overflow_checks : Bool) (read_file : String → Option Content)
    (path : String) (file : VocabFile) (content : Content)
    (hread : read_file path = some content) (htext : content.text = file.text) :
    (∃ tokenizer, Tokenizer.load overflow_checks read_file path = .ok tokenizer ∧
      Carries file tokenizer) ↔ ∀ header ∈ file.header, header.Fits := by
  have hlength := length_entries_lt file htext
  obtain ⟨ghost, hpush, hghost⟩ := push_file file (by omega)
  have htokens : file.tokens ≠ [] := by
    unfold VocabFile.tokens
    rw [ne_eq, List.map_eq_nil_iff]
    exact file.entries_ne
  have hload : Tokenizer.load overflow_checks read_file path =
      .ok { tokens := ghost ++ file.tokens
            blank_id := ((ghost ++ file.tokens).findIdx? (· == BLANK)).getD
              ((ghost ++ file.tokens).length - 1) } := by
    have hlast : usize_sub overflow_checks (ghost ++ file.tokens).length 1 =
        .ok ((ghost ++ file.tokens).length - 1) := by
      refine if_pos (List.length_pos_of_ne_nil ?_)
      exact List.append_ne_nil_of_right_ne_nil ghost htokens
    unfold Tokenizer.load
    simp only [hread, htext, file.lines_text, hpush]
    show (usize_sub overflow_checks (ghost ++ file.tokens).length 1 >>= _) = _
    rw [hlast]
    rfl
  rw [← hghost, hload]
  constructor
  · rintro ⟨tokenizer, hok, hcarries⟩
    obtain rfl := Except.ok.inj hok
    have h : ghost ++ file.tokens = file.tokens := hcarries.tokens
    exact List.append_left_eq_self.mp h
  · rintro rfl
    exact ⟨_, rfl, carries_of_tokens file⟩

/-! ## One file under two headers -/

/-- Three tokens under this header, with a separator of either kind, the last line not closed. -/
def three_tokens (header : Header) : VocabFile where
  header := some header
  entries :=
    [⟨"▁yes".toList, ' ', by decide, rfl⟩, ⟨BLANK, '\t', by decide, rfl⟩,
      ⟨"no".toList, ' ', by decide, rfl⟩]
  closed := false
  entries_ne := List.cons_ne_nil _ _

/-- The least number that is no `usize`. -/
def wide_header : Header where
  sign := none
  digits := Nat.toDigits 10 (2 ^ 64)
  sign_eq := by simp
  digits_ne := Nat.toDigits_ne_nil
  digits_isDigit := fun _ hc => isDigit_of_mem_toDigits hc

def count_header : Header where
  sign := some '+'
  digits := ['3']
  sign_eq := by simp
  digits_ne := List.cons_ne_nil _ _
  digits_isDigit := by simp

def wide_file : Content := ⟨(three_tokens wide_header).text, by decide +kernel⟩
def counted_file : Content := ⟨(three_tokens count_header).text, by decide +kernel⟩

theorem wide_header_poisons : ¬ ∀ (read_file : String → Option Content) (path : String)
    (file : VocabFile) (content : Content), read_file path = some content → content.text = file.text →
      ∃ tokenizer, Tokenizer.load true read_file path = .ok tokenizer ∧ Carries file tokenizer := by
  intro h
  obtain ⟨tokenizer, hload, hcarries⟩ :=
    h (fun _ => some wide_file) "vocab.txt" (three_tokens wide_header) wide_file rfl rfl
  have hsize : (Tokenizer.load true (fun _ => some wide_file) "vocab.txt").toOption.map
      Tokenizer.vocab_size = some 4 := by
    decide +kernel
  rw [hload] at hsize
  have hthree : tokenizer.vocab_size = 3 := hcarries.vocab_size
  have hfour : tokenizer.vocab_size = 4 := Option.some.inj hsize
  omega

theorem counted_file_round_trip :
    ∃ tokenizer, Tokenizer.load true (fun _ => some counted_file) "vocab.txt" = .ok tokenizer ∧
      Carries (three_tokens count_header) tokenizer ∧ tokenizer.blank_id = 1 := by
  have hfits : ∀ header ∈ (three_tokens count_header).header, header.Fits := by
    rintro _ ⟨⟩
    unfold Header.Fits
    decide
  obtain ⟨tokenizer, hload, hcarries⟩ := (vocab_round_trip_iff true (fun _ => some counted_file)
    "vocab.txt" (three_tokens count_header) counted_file rfl rfl).mpr hfits
  have hblank : (Tokenizer.load true (fun _ => some counted_file) "vocab.txt").toOption.map
      Tokenizer.blank_id = some 1 := by
    decide +kernel
  rw [hload] at hblank
  exact ⟨tokenizer, hload, hcarries, Option.some.inj hblank⟩

end Gigastt.Words
