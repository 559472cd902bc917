import Gigastt.Words.Code
import Gigastt.Lib.Cut

/-!
# What the words of a token list are

Cut the list before each token that starts a word. A group with text is one word.
`tokens_to_words` computes exactly these words.
-/

namespace Gigastt.Words

open Decode Cut

variable {F : Type}

/-! ## The words of the groups -/

section Spec

variable (tokenizer : Tokenizer)

def starts_word (token : TokenInfo F) : Bool :=
  starts_with (tokenizer.token_text token.token_id) WORD_START

def cleaned (token : TokenInfo F) : Text :=
  stripped (tokenizer.token_text token.token_id) WORD_START

def groupText (group : List (TokenInfo F)) : Text := group.flatMap (cleaned tokenizer)

/-- The tokens of a group that add text. -/
def spoken (group : List (TokenInfo F)) : List (TokenInfo F) :=
  group.filter fun token => !(cleaned tokenizer token).isEmpty

theorem spoken_eq_nil_iff (group : List (TokenInfo F)) :
    spoken tokenizer group = [] ↔ groupText tokenizer group = [] := by
  simp [spoken, groupText, List.filter_eq_nil_iff]

/-- The word of a group, if it has text. -/
def wordOf [F32 F] (frame_offset : Nat) (group : List (TokenInfo F)) : Option (WordInfo F) :=
  match (spoken tokenizer group).head?, (spoken tokenizer group).getLast? with
  | some first, some last => some
    { word := groupText tokenizer group
      start := (first.frame_index + frame_offset : Nat) * SECONDS_PER_FRAME
      end_ := (last.frame_index + frame_offset : Nat) * SECONDS_PER_FRAME
      confidence := avg_conf ((spoken tokenizer group).map TokenInfo.confidence)
      speaker := none }
  | _, _ => none

theorem wordOf_eq_some [F32 F] {frame_offset : Nat} {group : List (TokenInfo F)}
    {first last : TokenInfo F} (hfirst : (spoken tokenizer group).head? = some first)
    (hlast : (spoken tokenizer group).getLast? = some last) :
    wordOf tokenizer frame_offset group = some
      { word := groupText tokenizer group
        start := (first.frame_index + frame_offset : Nat) * SECONDS_PER_FRAME
        end_ := (last.frame_index + frame_offset : Nat) * SECONDS_PER_FRAME
        confidence := avg_conf ((spoken tokenizer group).map TokenInfo.confidence)
        speaker := none } := by
  unfold wordOf
  rw [hfirst, hlast]

theorem wordOf_eq_none [F32 F] {frame_offset : Nat} {group : List (TokenInfo F)}
    (h : spoken tokenizer group = []) : wordOf tokenizer frame_offset group = none := by
  unfold wordOf
  rw [h]
  rfl

def wordsOf [F32 F] (tokens : List (TokenInfo F)) (frame_offset : Nat) : List (WordInfo F) :=
  (groups (starts_word tokenizer) tokens).filterMap (wordOf tokenizer frame_offset)

end Spec

/-! ## The loop of `tokens_to_words` -/

section Loop

variable {tokenizer : Tokenizer}

@[simp]
theorem push_words (g : Grouping F) (clean : Text) (token : TokenInfo F) :
    (g.push clean token).words = g.words := by
  unfold Grouping.push
  split_ifs <;> rfl

structure Holds (tokenizer : Tokenizer) (g : Grouping F) (group : List (TokenInfo F)) : Prop where
  word : g.current_word = groupText tokenizer group
  start : g.word_start_frame = (spoken tokenizer group).head?.map TokenInfo.frame_index
  end_ : ∀ last, (spoken tokenizer group).getLast? = some last →
    g.word_end_frame = last.frame_index
  confidences : g.word_confidences = (spoken tokenizer group).map TokenInfo.confidence

theorem Holds.push {g : Grouping F} {group : List (TokenInfo F)} (h : Holds tokenizer g group)
    (token : TokenInfo F) :
    Holds tokenizer (g.push (cleaned tokenizer token) token) (group ++ [token]) := by
  unfold Grouping.push
  split_ifs with hclean
  · have hspoken : spoken tokenizer (group ++ [token]) = spoken tokenizer group := by
      simp [spoken, hclean]
    have htext : cleaned tokenizer token = [] := List.isEmpty_iff.mp hclean
    exact ⟨by simp [h.word, groupText, htext], hspoken ▸ h.start, hspoken ▸ h.end_,
      hspoken ▸ h.confidences⟩
  · have hspoken : spoken tokenizer (group ++ [token]) = spoken tokenizer group ++ [token] := by
      simp [spoken, hclean]
    constructor
    · simp [h.word, groupText]
    · rw [hspoken, h.start]
      cases spoken tokenizer group <;> simp
    · rw [hspoken]
      intro last hlast
      simp at hlast
      rw [hlast]
    · simp [hspoken, h.confidences]

variable [F32 F]

theorem Holds.flush {g : Grouping F} {group : List (TokenInfo F)} (h : Holds tokenizer g group)
    (frame_offset : Nat) :
    (g.flush frame_offset).words = g.words ++ (wordOf tokenizer frame_offset group).toList ∧
      Holds tokenizer (g.flush frame_offset) [] := by
  unfold Grouping.flush
  split_ifs with hempty
  · have hspoken : spoken tokenizer group = [] := by
      rw [spoken_eq_nil_iff, ← h.word]
      exact List.isEmpty_iff.mp hempty
    have hword : g.current_word = groupText tokenizer ([] : List (TokenInfo F)) :=
      List.isEmpty_iff.mp hempty
    refine ⟨by simp [wordOf_eq_none tokenizer hspoken], hword, ?_, by simp [spoken], ?_⟩
    · rw [h.start, hspoken]
      rfl
    · rw [h.confidences, hspoken]
      rfl
  · have hne : spoken tokenizer group ≠ [] := by
      rwa [Ne, spoken_eq_nil_iff, ← h.word, ← List.isEmpty_iff]
    have hfirst := List.head?_eq_some_head hne
    have hlast := List.getLast?_eq_some_getLast hne
    refine ⟨?_, rfl, rfl, by simp [spoken], rfl⟩
    rw [wordOf_eq_some tokenizer hfirst hlast]
    simp [Grouping.word, h.word, h.start, hfirst, h.end_ _ hlast, h.confidences]

theorem step_eq (g : Grouping F) (frame_offset : Nat) (token : TokenInfo F) :
    Grouping.step tokenizer frame_offset g token =
      (if starts_word tokenizer token then g.flush frame_offset else g).push
        (cleaned tokenizer token) token := rfl

theorem filterMap_cons_toList {α β : Type} (f : α → Option β) (a : α) (l : List α) :
    (a :: l).filterMap f = (f a).toList ++ l.filterMap f := by
  rw [List.filterMap_cons]
  cases f a <;> rfl

/-- The loop, from a word in progress: its group goes on with the tokens before the first word
start. -/
theorem foldl_step (frame_offset : Nat) (tokens : List (TokenInfo F)) (g : Grouping F)
    (group : List (TokenInfo F)) (h : Holds tokenizer g group) :
    ((tokens.foldl (Grouping.step tokenizer frame_offset) g).flush frame_offset).words =
      g.words ++ ((group ++ (cut (starts_word tokenizer) tokens).1) ::
        (cut (starts_word tokenizer) tokens).2).filterMap (wordOf tokenizer frame_offset) := by
  induction tokens generalizing g group with
  | nil =>
    rw [List.foldl_nil, (h.flush frame_offset).1, cut, List.append_nil, filterMap_cons_toList]
    simp
  | cons token tokens ih =>
    rw [List.foldl_cons, step_eq]
    by_cases hstart : starts_word tokenizer token
    · obtain ⟨hwords, hempty⟩ := h.flush frame_offset
      have hcut : cut (starts_word tokenizer) (token :: tokens) =
          ([], (token :: (cut (starts_word tokenizer) tokens).1) ::
            (cut (starts_word tokenizer) tokens).2) := by
        simp [cut, hstart]
      rw [hcut, if_pos hstart]
      refine (ih _ _ (hempty.push token)).trans ?_
      rw [push_words, hwords, List.append_nil, filterMap_cons_toList _ group, List.append_assoc]
      rfl
    · have hcut : cut (starts_word tokenizer) (token :: tokens) =
          (token :: (cut (starts_word tokenizer) tokens).1,
            (cut (starts_word tokenizer) tokens).2) := by
        simp [cut, hstart]
      rw [hcut, if_neg hstart]
      refine (ih _ _ (h.push token)).trans ?_
      rw [push_words, List.append_assoc]
      rfl

end Loop

theorem tokens_to_words_eq [F32 F] (tokenizer : Tokenizer) (tokens : List (TokenInfo F))
    (frame_offset : Nat) :
    tokens_to_words tokenizer tokens frame_offset = wordsOf tokenizer tokens frame_offset := by
  unfold tokens_to_words
  split_ifs with hempty
  · rw [List.isEmpty_iff.mp hempty]
    rfl
  · exact foldl_step frame_offset tokens Grouping.new [] ⟨rfl, rfl, by simp [spoken], rfl⟩

theorem word_ne_nil [F32 F] {tokenizer : Tokenizer} {tokens : List (TokenInfo F)}
    {frame_offset : Nat} {w : WordInfo F} (h : w ∈ tokens_to_words tokenizer tokens frame_offset) :
    w.word ≠ [] := by
  rw [tokens_to_words_eq, wordsOf] at h
  obtain ⟨group, -, hword⟩ := List.mem_filterMap.mp h
  by_cases hspoken : spoken tokenizer group = []
  · simp [wordOf_eq_none tokenizer hspoken] at hword
  · rw [wordOf_eq_some tokenizer (List.head?_eq_some_head hspoken)
      (List.getLast?_eq_some_getLast hspoken)] at hword
    rw [← Option.some.inj hword]
    exact mt (spoken_eq_nil_iff tokenizer group).mpr hspoken

end Gigastt.Words
