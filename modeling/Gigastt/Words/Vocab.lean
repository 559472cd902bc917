import Gigastt.Lib.Str
import Gigastt.Words.Code

/-!
# Loading the vocabulary: `Tokenizer::load`

A line is a header, a token with its id, or a bare token, and which of them it is shows only
in its text.
-/

namespace Gigastt.Words

open Str
open String (utf8Len)

/-! ## The loader -/

/-- What a `String` can hold: no allocation is longer than `isize::MAX`. -/
structure Content where
  text : Text
  fits : utf8Len text < 2 ^ 63

inductive LoadPanic where
  | overflow
  | char_boundary
deriving DecidableEq, Repr

inductive LoadError where
  | err (contexts : List String)
  | panic (panic : LoadPanic)
deriving DecidableEq, Repr

/-- `parse::<usize>` -/
def parse_usize (text : Text) : Option Nat := parse_unsigned (2 ^ 64) text

/-- `a - b` of two `usize`, in a build with overflow checks or without. -/
def usize_sub (overflow_checks : Bool) (a b : Nat) : Except LoadError Nat :=
  if b ≤ a then .ok (a - b)
  else if overflow_checks then .error (.panic .overflow)
  else .ok (2 ^ 64 + a - b)

def sliced : Option Text → Except LoadError Text
  | some slice => .ok slice
  | none => .error (.panic .char_boundary)

def is_separator (c : Char) : Bool := c == '\t' || c == ' '

def BLANK : Text := "<blk>".toList

/-- The token of a line that is not skipped. -/
def line_token (line : Text) : Except LoadError (Option Text) :=
  if line.isEmpty then .ok none
  else if (parse_usize line).isSome then .ok none
  else
    match rfind is_separator line with
    | none => .ok (some line)
    | some pos => do
      let after ← sliced (slice_from (pos + 1) line)
      if (parse_usize (trim after)).isSome then
        let token ← sliced (slice_to pos line)
        return some token
      else return some line

def push_line (tokens : List Text) (line : Text) : Except LoadError (List Text) := do
  let token ← line_token line
  return tokens ++ token.toList

/-- `tokens.len() - 1` is computed also where it is not used. -/
def Tokenizer.load (overflow_checks : Bool) (read_file : String → Option Content)
    (path : String) : Except LoadError Tokenizer :=
  match read_file path with
  | none => .error (.err ["Failed to read vocab file: " ++ path])
  | some content => do
    let tokens ← (lines content.text).foldlM push_line []
    let last ← usize_sub overflow_checks tokens.length 1
    return { tokens, blank_id := (tokens.findIdx? (· == BLANK)).getD last }

def Tokenizer.vocab_size (tokenizer : Tokenizer) : Nat := tokenizer.tokens.length

/-! ## Lines -/

/-- The line is neither empty nor a number of its own. -/
def Kept (line : Text) : Prop := line ≠ [] ∧ parse_usize line = none

instance (line : Text) : Decidable (Kept line) := inferInstanceAs (Decidable (_ ∧ _))

theorem kept_of_mem {line : Text} {c : Char} (hc : c ∈ line) (hsign : c ≠ '+')
    (hdigit : c.isDigit = false) : Kept line :=
  ⟨List.ne_nil_of_mem hc, parse_unsigned_eq_none hc hsign hdigit⟩

theorem line_token_of_not_kept {line : Text} (h : ¬ Kept line) : line_token line = .ok none := by
  unfold line_token
  split_ifs with hempty hnumber
  · rfl
  · rfl
  · exact absurd ⟨by simpa using hempty, by simpa using hnumber⟩ h

theorem line_token_bare {line : Text} (h : Kept line) (hsep : ∀ c ∈ line, is_separator c = false) :
    line_token line = .ok (some line) := by
  unfold line_token
  rw [if_neg (by simpa using h.1), if_neg (by simp [h.2]), rfind_eq_none.mpr hsep]

theorem utf8Size_of_separator {c : Char} (h : is_separator c = true) : c.utf8Size = 1 := by
  unfold is_separator at h
  rw [Bool.or_eq_true, beq_iff_eq, beq_iff_eq] at h
  rcases h with rfl | rfl
  · rfl
  · rfl

/-- Both slices at a separator are cut between two characters, as it is one byte long. -/
theorem line_token_separated {before after : Text} {c : Char} (hc : is_separator c = true)
    (hafter : ∀ d ∈ after, is_separator d = false) :
    line_token (before ++ c :: after) =
      .ok (some (if (parse_usize (trim after)).isSome then before else before ++ c :: after)) := by
  have hkept : Kept (before ++ c :: after) := by
    refine kept_of_mem (c := c) (by simp) ?_ ?_
    · rintro rfl
      nomatch hc
    · unfold is_separator at hc
      rw [Bool.or_eq_true, beq_iff_eq, beq_iff_eq] at hc
      rcases hc with rfl | rfl
      · rfl
      · rfl
  have hfrom : slice_from (utf8Len before + 1) (before ++ c :: after) = some after := by
    have h := slice_from_append (before ++ [c]) after
    rwa [String.utf8Len_append, String.utf8Len_cons, String.utf8Len_nil, utf8Size_of_separator hc,
      List.append_assoc, List.singleton_append] at h
  unfold line_token
  rw [if_neg (by simp), if_neg (by simp [hkept.2]), rfind_append before hc hafter]
  simp only [hfrom, slice_to_append, sliced]
  by_cases hnumber : (parse_usize (trim after)).isSome
  · rw [if_pos hnumber]
    exact if_pos hnumber
  · rw [if_neg hnumber]
    exact if_neg hnumber

/-- No line makes the loader fail, and one token comes of each line that is kept. -/
theorem line_token_spec (line : Text) :
    ∃ token : Option Text, line_token line = .ok token ∧ (token.isSome ↔ Kept line) := by
  by_cases hkept : Kept line
  · cases hrfind : rfind is_separator line with
    | none => exact ⟨some line, line_token_bare hkept (rfind_eq_none.mp hrfind), by simp [hkept]⟩
    | some pos =>
      obtain ⟨before, c, after, rfl, hc, hafter, -⟩ := exists_of_rfind hrfind
      exact ⟨_, line_token_separated hc hafter, by simp [hkept]⟩
  · exact ⟨none, line_token_of_not_kept hkept, by simp [hkept]⟩

theorem push_line_eq {line : Text} {token : Option Text} (h : line_token line = .ok token)
    (tokens : List Text) : push_line tokens line = .ok (tokens ++ token.toList) := by
  unfold push_line
  rw [h]
  rfl

/-- The loop over the lines returns, with no token only if it has kept no line. -/
theorem tokens_spec (ls : List Text) (tokens : List Text) :
    ∃ more, ls.foldlM push_line tokens = .ok (tokens ++ more) ∧ (more ≠ [] ↔ ∃ line ∈ ls, Kept line) := by
  induction ls generalizing tokens with
  | nil => exact ⟨[], by rw [List.append_nil]; rfl, by simp⟩
  | cons line ls ih =>
    obtain ⟨token, htoken, hkept⟩ := line_token_spec line
    obtain ⟨more, hmore, hsome⟩ := ih (tokens ++ token.toList)
    refine ⟨token.toList ++ more, ?_, ?_⟩
    · rw [List.foldlM_cons, push_line_eq htoken]
      exact hmore.trans (by rw [List.append_assoc])
    · rw [List.exists_mem_cons_iff, ← hkept, ← hsome]
      cases token with
      | none => simp
      | some t => simp

/-! ## Every file -/

/-- The file is refused, or the blank is one of its tokens. -/
def SafeLoad (loaded : Except LoadError Tokenizer) : Prop :=
  (∃ contexts, loaded = .error (.err contexts)) ∨
    ∃ tokenizer, loaded = .ok tokenizer ∧ tokenizer.blank_id < tokenizer.vocab_size

theorem findIdx?_getD_lt {α : Type} {p : α → Bool} {l : List α} (hl : l ≠ []) :
    (l.findIdx? p).getD (l.length - 1) < l.length := by
  cases h : l.findIdx? p with
  | none =>
    rw [Option.getD_none]
    exact Nat.sub_one_lt (List.length_pos_of_ne_nil hl).ne'
  | some i => exact (List.findIdx?_eq_some_iff_findIdx_eq.mp h).1

/-- The load is safe exactly if the file holds a line that is neither empty nor a number. -/
theorem load_safe_iff (overflow_checks : Bool) (read_file : String → Option Content)
    (path : String) : SafeLoad (Tokenizer.load overflow_checks read_file path) ↔
      ∀ content ∈ read_file path, ∃ line ∈ lines content.text, Kept line := by
  unfold Tokenizer.load
  cases read_file path with
  | none => exact iff_of_true (.inl ⟨_, rfl⟩) fun _ h => nomatch h
  | some content =>
    obtain ⟨tokens, htokens, hsome⟩ := tokens_spec (lines content.text) []
    rw [List.nil_append] at htokens
    have hiff : (∀ content' ∈ some content, ∃ line ∈ lines content'.text, Kept line) ↔ tokens ≠ [] := by
      rw [hsome]
      exact ⟨fun h => h content rfl, fun h content' hmem => Option.some.inj hmem ▸ h⟩
    rw [hiff]
    simp only [htokens]
    cases tokens with
    | nil =>
      refine iff_of_false ?_ (fun h => h rfl)
      cases overflow_checks with
      | true =>
        rintro (⟨_, h⟩ | ⟨_, h, -⟩)
        · nomatch h
        · nomatch h
      | false =>
        rintro (⟨_, h⟩ | ⟨tokenizer, h, hlt⟩)
        · nomatch h
        · obtain rfl := Except.ok.inj h
          exact Nat.not_lt_zero _ hlt
    | cons token tokens =>
      refine iff_of_true (.inr ⟨_, rfl, ?_⟩) (List.cons_ne_nil _ _)
      exact findIdx?_getD_lt (List.cons_ne_nil token tokens)

/-- A file with nothing in it. -/
def empty_file : Content := ⟨[], by decide⟩

theorem empty_file_blank_id : ¬ ∀ (overflow_checks : Bool) (read_file : String → Option Content)
    (path : String), SafeLoad (Tokenizer.load overflow_checks read_file path) := by
  intro h
  have hdebug : Tokenizer.load true (fun _ => some empty_file) "vocab.txt" = .error (.panic .overflow) := rfl
  rcases h true (fun _ => some empty_file) "vocab.txt" with ⟨_, herr⟩ | ⟨_, hok, -⟩
  · rw [hdebug] at herr
    nomatch herr
  · rw [hdebug] at hok
    nomatch hok

end Gigastt.Words
