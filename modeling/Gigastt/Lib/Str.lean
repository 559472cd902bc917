import Mathlib.Data.String.Basic

/-!
# Rust's `str`, on lists of characters

Offsets are in bytes of the UTF-8 encoding. A slice that would cut a character is `none`.
-/

namespace Gigastt.Str

open String (utf8Len)

/-! ## Slices -/

/-- What stands before the byte offset, and from it on. -/
def split_at : Nat → List Char → Option (List Char × List Char)
  | 0, text => some ([], text)
  | _ + 1, [] => none
  | offset + 1, c :: text =>
    if c.utf8Size ≤ offset + 1 then
      (split_at (offset + 1 - c.utf8Size) text).map fun (before, after) => (c :: before, after)
    else none

def slice_to (offset : Nat) (text : List Char) : Option (List Char) :=
  (split_at offset text).map (·.1)

def slice_from (offset : Nat) (text : List Char) : Option (List Char) :=
  (split_at offset text).map (·.2)

@[simp] theorem split_at_zero (text : List Char) : split_at 0 text = some ([], text) := by
  rw [split_at]

theorem split_at_append (before after : List Char) :
    split_at (utf8Len before) (before ++ after) = some (before, after) := by
  induction before with
  | nil => exact split_at_zero after
  | cons c before ih =>
    have hpos : 0 < c.utf8Size := c.utf8Size_pos
    have hlen : utf8Len (c :: before) = (utf8Len before + c.utf8Size - 1) + 1 := by
      rw [String.utf8Len_cons]
      omega
    rw [hlen, List.cons_append, split_at, if_pos (by omega)]
    have hrest : utf8Len before + c.utf8Size - 1 + 1 - c.utf8Size = utf8Len before := by omega
    rw [hrest, ih, Option.map_some]

/-- A text is cut at an offset only between two characters. -/
theorem split_at_eq_some {offset : Nat} {text before after : List Char} :
    split_at offset text = some (before, after) ↔ text = before ++ after ∧ utf8Len before = offset := by
  constructor
  · intro h
    induction offset, text using split_at.induct generalizing before with
    | case1 text =>
      rw [split_at_zero] at h
      obtain ⟨rfl, rfl⟩ := Prod.mk.inj (Option.some.inj h)
      exact ⟨rfl, rfl⟩
    | case2 => nomatch h
    | case3 offset c text hsize ih =>
      rw [split_at, if_pos hsize, Option.map_eq_some_iff] at h
      obtain ⟨⟨rest, after'⟩, hrest, heq⟩ := h
      obtain ⟨rfl, rfl⟩ := Prod.mk.inj heq
      obtain ⟨rfl, hlen⟩ := ih hrest
      refine ⟨rfl, ?_⟩
      rw [String.utf8Len_cons, hlen]
      omega
    | case4 offset c text hsize =>
      rw [split_at, if_neg hsize] at h
      nomatch h
  · rintro ⟨rfl, rfl⟩
    exact split_at_append before after

/-- A character starts at this offset, or the text ends there. -/
def IsCharBoundary (text : List Char) (offset : Nat) : Prop :=
  ∃ before after, text = before ++ after ∧ utf8Len before = offset

theorem isCharBoundary_iff {text : List Char} {offset : Nat} :
    IsCharBoundary text offset ↔ ∃ slice, slice_to offset text = some slice := by
  unfold slice_to
  simp only [Option.map_eq_some_iff, Prod.exists, split_at_eq_some]
  constructor
  · rintro ⟨before, after, h⟩
    exact ⟨before, before, after, h, rfl⟩
  · rintro ⟨_, before, after, h, _⟩
    exact ⟨before, after, h⟩

theorem slice_to_append (before after : List Char) :
    slice_to (utf8Len before) (before ++ after) = some before := by
  rw [slice_to, split_at_append, Option.map_some]

theorem slice_from_append (before after : List Char) :
    slice_from (utf8Len before) (before ++ after) = some after := by
  rw [slice_from, split_at_append, Option.map_some]

theorem isCharBoundary_end (text : List Char) : IsCharBoundary text (utf8Len text) :=
  ⟨text, [], (List.append_nil text).symm, rfl⟩

/-! ## Searching -/

/-- The offset of the last character that has the property. -/
def rfind (p : Char → Bool) : List Char → Option Nat
  | [] => none
  | c :: text =>
    match rfind p text with
    | some pos => some (c.utf8Size + pos)
    | none => if p c then some 0 else none

theorem rfind_eq_none {p : Char → Bool} {text : List Char} :
    rfind p text = none ↔ ∀ c ∈ text, p c = false := by
  induction text with
  | nil => simp [rfind]
  | cons c text ih =>
    rw [List.forall_mem_cons, ← ih, rfind]
    cases rfind p text with
    | none => simp
    | some pos => simp

theorem rfind_append {p : Char → Bool} {c : Char} (before : List Char) {after : List Char}
    (hc : p c = true) (hafter : ∀ d ∈ after, p d = false) :
    rfind p (before ++ c :: after) = some (utf8Len before) := by
  induction before with
  | nil =>
    rw [List.nil_append, rfind, rfind_eq_none.mpr hafter]
    exact if_pos hc
  | cons d before ih =>
    rw [List.cons_append, rfind, ih, String.utf8Len_cons, Nat.add_comm]

/-- What is found stands between what comes before it and a rest without another. -/
theorem exists_of_rfind {p : Char → Bool} {text : List Char} {pos : Nat} (h : rfind p text = some pos) :
    ∃ before c after, text = before ++ c :: after ∧ p c = true ∧ (∀ d ∈ after, p d = false) ∧
      utf8Len before = pos := by
  induction text generalizing pos with
  | nil => nomatch h
  | cons d text ih =>
    unfold rfind at h
    cases htext : rfind p text with
    | none =>
      rw [htext] at h
      obtain ⟨hd, rfl⟩ : p d = true ∧ 0 = pos := by simpa using h
      exact ⟨[], d, text, rfl, hd, rfind_eq_none.mp htext, rfl⟩
    | some pos' =>
      rw [htext] at h
      obtain rfl := Option.some.inj h
      obtain ⟨before, c, after, rfl, hc, hafter, hlen⟩ := ih htext
      refine ⟨d :: before, c, after, rfl, hc, hafter, ?_⟩
      rw [String.utf8Len_cons, hlen, Nat.add_comm]

/-! ## White space -/

/-- The property `White_Space` of Unicode. -/
def is_whitespace (c : Char) : Bool :=
  let n := c.toNat
  n == 0x20 || (0x09 ≤ n && n ≤ 0x0D) || n == 0x85 || n == 0xA0 || n == 0x1680 ||
    (0x2000 ≤ n && n ≤ 0x200A) || n == 0x2028 || n == 0x2029 || n == 0x202F || n == 0x205F || n == 0x3000

def trim_start_matches (p : Char → Bool) (text : List Char) : List Char := text.dropWhile p

def trim_end_matches (p : Char → Bool) (text : List Char) : List Char :=
  (text.reverse.dropWhile p).reverse

def trim (text : List Char) : List Char :=
  trim_end_matches is_whitespace (trim_start_matches is_whitespace text)

theorem trim_start_matches_cons {p : Char → Bool} {c : Char} {text : List Char} (hc : p c = false) :
    trim_start_matches p (c :: text) = c :: text :=
  List.dropWhile_cons_of_neg (by simp [hc])

theorem trim_end_matches_append {p : Char → Bool} {c : Char} {text : List Char} (hc : p c = false) :
    trim_end_matches p (text ++ [c]) = text ++ [c] := by
  unfold trim_end_matches
  rw [List.reverse_append, List.reverse_singleton, List.singleton_append,
    List.dropWhile_cons_of_neg (by simp [hc]), List.reverse_cons, List.reverse_reverse]

/-- A text that neither starts nor ends with white space stays as it is. -/
theorem trim_eq_self {c d : Char} {text : List Char} (hc : is_whitespace c = false)
    (hd : is_whitespace d = false) (hhead : text.head? = some c) (hlast : text.getLast? = some d) :
    trim text = text := by
  obtain ⟨rest, rfl⟩ : ∃ rest, text = c :: rest := List.head?_eq_some_iff.mp hhead
  obtain ⟨init, hinit⟩ : ∃ init, c :: rest = init ++ [d] := List.getLast?_eq_some_iff.mp hlast
  unfold trim
  rw [trim_start_matches_cons hc, hinit, trim_end_matches_append hd]

/-! ## Lines -/

def strip_cr (line : List Char) : List Char :=
  if line.getLast? = some '\r' then line.dropLast else line

/-- The lines of a text whose first line has begun with `line`. A carriage return goes only
with the newline after it. -/
def lines_from (line : List Char) : List Char → List (List Char)
  | [] => if line.isEmpty then [] else [line]
  | c :: text => if c = '\n' then strip_cr line :: lines_from [] text else lines_from (line ++ [c]) text

def lines (text : List Char) : List (List Char) := lines_from [] text

theorem strip_cr_eq_self {line : List Char} (h : line.getLast? ≠ some '\r') : strip_cr line = line :=
  if_neg h

theorem lines_from_append {rest : List Char} (line : List Char) (hrest : '\n' ∉ rest) (text : List Char) :
    lines_from line (rest ++ text) = lines_from (line ++ rest) text := by
  induction rest generalizing line with
  | nil => rw [List.nil_append, List.append_nil]
  | cons c rest ih =>
    obtain ⟨hc, hrest⟩ := not_or.mp (mt List.mem_cons.mpr hrest)
    rw [List.cons_append, lines_from, if_neg (Ne.symm hc), ih _ hrest, List.append_assoc,
      List.singleton_append]

theorem lines_append {line : List Char} (hline : '\n' ∉ line) (text : List Char) :
    lines (line ++ '\n' :: text) = strip_cr line :: lines text := by
  unfold lines
  rw [lines_from_append [] hline, List.nil_append, lines_from, if_pos rfl]

theorem lines_last {line : List Char} (hline : '\n' ∉ line) (hne : line ≠ []) : lines line = [line] := by
  have h := lines_from_append [] hline []
  rw [List.append_nil, List.nil_append] at h
  unfold lines
  rw [h, lines_from, if_neg (by simpa using hne)]

/-- Lines come back from the text that joins them, if none is empty or ends in a carriage
return. -/
theorem lines_join {ls : List (List Char)} (hnes : ∀ line ∈ ls, line ≠ []) (hnls : ∀ line ∈ ls, '\n' ∉ line)
    (hcrs : ∀ line ∈ ls, line.getLast? ≠ some '\r') {ending : List Char}
    (hending : ending = [] ∨ ending = ['\n'] ∧ ls ≠ []) :
    lines (['\n'].intercalate ls ++ ending) = ls := by
  induction ls with
  | nil =>
    rcases hending with rfl | ⟨-, h⟩
    · rfl
    · exact absurd rfl h
  | cons line ls ih =>
    obtain ⟨hne, hnes'⟩ := List.forall_mem_cons.mp hnes
    obtain ⟨hnl, hnls'⟩ := List.forall_mem_cons.mp hnls
    obtain ⟨hcr, hcrs'⟩ := List.forall_mem_cons.mp hcrs
    cases ls with
    | nil =>
      rw [List.intercalate_singleton]
      rcases hending with rfl | ⟨rfl, -⟩
      · rw [List.append_nil, lines_last hnl hne]
      · rw [lines_append hnl, strip_cr_eq_self hcr]
        rfl
    | cons next ls =>
      have hrest := ih hnes' hnls' hcrs' (hending.imp_right fun h => ⟨h.1, List.cons_ne_nil _ _⟩)
      rw [List.intercalate_cons_cons, List.append_assoc, List.append_assoc, List.singleton_append,
        lines_append hnl, strip_cr_eq_self hcr, hrest]

theorem length_lines_from_le (line text : List Char) :
    (lines_from line text).length ≤ text.length + if line.isEmpty then 0 else 1 := by
  induction text generalizing line with
  | nil =>
    unfold lines_from
    split
    · exact Nat.zero_le _
    · exact Nat.le_refl _
  | cons c text ih =>
    unfold lines_from
    split
    · have h := ih []
      simp only [List.isEmpty_nil, if_true, Nat.add_zero] at h
      rw [List.length_cons, List.length_cons]
      omega
    · have h := ih (line ++ [c])
      have hne : (line ++ [c]).isEmpty = false := by simp
      rw [hne] at h
      rw [List.length_cons]
      exact h.trans (Nat.le_add_right _ _)

theorem length_le_utf8Len (text : List Char) : text.length ≤ utf8Len text := by
  induction text with
  | nil => exact Nat.le_refl 0
  | cons c text ih =>
    have hpos : 0 < c.utf8Size := c.utf8Size_pos
    rw [List.length_cons, String.utf8Len_cons]
    omega

theorem length_lines_le (text : List Char) : (lines text).length ≤ utf8Len text :=
  (length_lines_from_le [] text).trans (length_le_utf8Len text)

/-! ## Numbers -/

/-- `from_str` of an unsigned type with `bound` values. -/
def parse_unsigned (bound : Nat) (text : List Char) : Option Nat :=
  let digits := if text.head? = some '+' then text.tail else text
  if digits ≠ [] ∧ digits.all Char.isDigit then
    (some (Nat.ofDigitChars 10 digits 0)).filter (· < bound)
  else none

theorem parse_unsigned_digits {bound : Nat} {digits : List Char} (hne : digits ≠ [])
    (hdigits : ∀ c ∈ digits, c.isDigit = true) :
    parse_unsigned bound digits = (some (Nat.ofDigitChars 10 digits 0)).filter (· < bound) := by
  have hsign : digits.head? ≠ some '+' :=
    fun h => absurd (hdigits '+' (List.mem_of_head? h)) (by decide)
  unfold parse_unsigned
  rw [if_neg hsign, if_pos ⟨hne, List.all_eq_true.mpr hdigits⟩]

theorem parse_unsigned_plus {bound : Nat} {digits : List Char} (hne : digits ≠ [])
    (hdigits : ∀ c ∈ digits, c.isDigit = true) :
    parse_unsigned bound ('+' :: digits) = (some (Nat.ofDigitChars 10 digits 0)).filter (· < bound) := by
  unfold parse_unsigned
  rw [if_pos List.head?_cons, List.tail_cons, if_pos ⟨hne, List.all_eq_true.mpr hdigits⟩]

theorem parse_unsigned_toDigits {bound n : Nat} (h : n < bound) :
    parse_unsigned bound (Nat.toDigits 10 n) = some n := by
  rw [parse_unsigned_digits Nat.toDigits_ne_nil
    fun _ hc => Nat.isDigit_of_mem_toDigits (by decide) (by decide) hc, Nat.ofDigitChars_ten_toDigits]
  exact Option.filter_eq_some_iff.mpr ⟨rfl, decide_eq_true h⟩

/-- Nothing with another character than digits in it, after its sign, is a number. -/
theorem parse_unsigned_eq_none {bound : Nat} {text : List Char} {c : Char} (hc : c ∈ text)
    (hsign : c ≠ '+') (hdigit : c.isDigit = false) : parse_unsigned bound text = none := by
  have hmem : c ∈ (if text.head? = some '+' then text.tail else text) := by
    split
    · next h =>
      obtain ⟨rest, rfl⟩ := List.head?_eq_some_iff.mp h
      exact (List.mem_cons.mp hc).resolve_left hsign
    · exact hc
  refine if_neg ?_
  rintro ⟨-, hall⟩
  rw [List.all_eq_true.mp hall c hmem] at hdigit
  nomatch hdigit

end Gigastt.Str
