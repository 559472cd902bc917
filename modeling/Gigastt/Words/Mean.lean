import Gigastt.Words.Groups
import Mathlib.Algebra.Field.Rat
import Mathlib.Algebra.Order.Ring.Unbundled.Rat

/-!
# One word for each group with text

Where the `f32` operations are exact, a word's confidence is the mean of its tokens'.
-/

namespace Gigastt.Words

open Decode Cut

variable {F : Type}

/-- `f32` operations that do not round: those of a field. -/
class ExactF32 (F : Type) extends F32 F, Field F

/-- `w` is the word that the tokens of `group` spell. -/
structure IsWordOf [ExactF32 F] (tokenizer : Tokenizer) (frame_offset : Nat)
    (group : List (TokenInfo F)) (w : WordInfo F) : Prop where
  word : w.word = groupText tokenizer group
  word_ne : w.word ≠ []
  start : ∃ first, (spoken tokenizer group).head? = some first ∧
    w.start = (first.frame_index + frame_offset : Nat) * SECONDS_PER_FRAME
  end_ : ∃ last, (spoken tokenizer group).getLast? = some last ∧
    w.end_ = (last.frame_index + frame_offset : Nat) * SECONDS_PER_FRAME
  confidence : w.confidence = ((spoken tokenizer group).map TokenInfo.confidence).sum /
    ((spoken tokenizer group).length : F)

/-- The groups that have text. -/
def textGroups (tokenizer : Tokenizer) (tokens : List (TokenInfo F)) : List (List (TokenInfo F)) :=
  (groups (starts_word tokenizer) tokens).filter fun group => !(groupText tokenizer group).isEmpty

section Exact

variable [ExactF32 F]

theorem avg_conf_eq_mean {confidences : List F} (h : confidences ≠ []) :
    avg_conf confidences = confidences.sum / (confidences.length : F) := by
  unfold avg_conf float_sum
  rw [if_neg (mt List.isEmpty_iff.mp h), List.sum_eq_foldl]

theorem wordOf_spec {tokenizer : Tokenizer} (frame_offset : Nat) {group : List (TokenInfo F)}
    (h : groupText tokenizer group ≠ []) :
    ∃ w, wordOf tokenizer frame_offset group = some w ∧
      IsWordOf tokenizer frame_offset group w := by
  have hspoken : spoken tokenizer group ≠ [] := mt (spoken_eq_nil_iff tokenizer group).mp h
  have hfirst := List.head?_eq_some_head hspoken
  have hlast := List.getLast?_eq_some_getLast hspoken
  have hconfidences : (spoken tokenizer group).map TokenInfo.confidence ≠ [] := by
    rwa [Ne, List.map_eq_nil_iff]
  refine ⟨_, wordOf_eq_some tokenizer hfirst hlast, ?_⟩
  constructor
  · rfl
  · exact h
  · exact ⟨_, hfirst, rfl⟩
  · exact ⟨_, hlast, rfl⟩
  · dsimp only
    rw [avg_conf_eq_mean hconfidences, List.length_map]

theorem wordsOf_groups (tokenizer : Tokenizer) (frame_offset : Nat)
    (gs : List (List (TokenInfo F))) :
    List.Forall₂ (IsWordOf tokenizer frame_offset)
      (gs.filter fun group => !(groupText tokenizer group).isEmpty)
      (gs.filterMap (wordOf tokenizer frame_offset)) := by
  induction gs with
  | nil => exact .nil
  | cons group gs ih =>
    by_cases htext : groupText tokenizer group = []
    · have hnone : wordOf tokenizer frame_offset group = none :=
        wordOf_eq_none tokenizer ((spoken_eq_nil_iff tokenizer group).mpr htext)
      rw [List.filter_cons_of_neg (by simp [htext]), List.filterMap_cons_none hnone]
      exact ih
    · obtain ⟨w, hsome, hword⟩ := wordOf_spec frame_offset htext
      rw [List.filter_cons_of_pos (by simp [htext]), List.filterMap_cons_some hsome]
      exact .cons hword ih

/-- `tokens_to_words` cuts the tokens before each word start, and gives one word for each group
with text, in the order of the groups. -/
theorem tokens_to_words_spec (tokenizer : Tokenizer) (tokens : List (TokenInfo F))
    (frame_offset : Nat) :
    IsCut (starts_word tokenizer) tokens (groups (starts_word tokenizer) tokens) ∧
      List.Forall₂ (IsWordOf tokenizer frame_offset) (textGroups tokenizer tokens)
        (tokens_to_words tokenizer tokens frame_offset) := by
  refine ⟨groups_isCut (starts_word tokenizer) tokens, ?_⟩
  rw [tokens_to_words_eq]
  exact wordsOf_groups tokenizer frame_offset _

end Exact

/-! ## Words of rationals -/

/-- An ordered field. What words and samples do not use of `f32` is as for `Int`. -/
abbrev ExactF32.ofField (F : Type) [Field F] [LinearOrder F] : ExactF32 F where
  __ := (inferInstance : Field F)
  neg_infinity := -1000000
  max := max
  exp x := if x = 0 then 1 else 0
  ln _ := 0
  total_cmp := compare
  mel_floor := 0

scoped instance : ExactF32 ℚ := .ofField ℚ

def day_pieces : Tokenizer where
  tokens := ["<unk>".toList, "▁go".toList, "od".toList, "▁".toList, "▁day".toList]
  blank_id := 5

def good_day : List (TokenInfo ℚ) :=
  [⟨1, 3, 1 / 2⟩, ⟨2, 4, 1 / 4⟩, ⟨3, 7, 1 / 8⟩, ⟨4, 9, 1⟩, ⟨0, 11, 0⟩]

/-- Three groups, the second without text. -/
theorem tokens_to_words_spec_good_day :
    IsCut (starts_word day_pieces) good_day (groups (starts_word day_pieces) good_day) ∧
      List.Forall₂ (IsWordOf day_pieces 10) [good_day.take 2, good_day.drop 3]
        (tokens_to_words day_pieces good_day 10) ∧
      (tokens_to_words day_pieces good_day 10).map WordInfo.confidence = [3 / 8, 1] := by
  have hgroups : textGroups day_pieces good_day = [good_day.take 2, good_day.drop 3] := by
    decide +kernel
  rw [← hgroups]
  obtain ⟨hcut, hwords⟩ := tokens_to_words_spec day_pieces good_day 10
  exact ⟨hcut, hwords, by decide +kernel⟩

end Gigastt.Words
