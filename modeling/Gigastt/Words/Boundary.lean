import Gigastt.Words.Groups
import Gigastt.Words.Text

/-!
# A chunk boundary inside a word

`tokens_to_words` starts afresh in each chunk. So a word that goes on in the next chunk
comes out as two words, with a space between them in the text.
-/

namespace Gigastt.Words

open Decode Cut

variable {F : Type}

/-! ## One space more -/

theorem pushed_split_ne (text A B : Text) (rest : List Text) (hA : A ≠ []) :
    pushed text (A :: B :: rest) ≠ pushed text ((A ++ B) :: rest) := by
  let text' : Text := if text.isEmpty then text else text ++ [' ']
  have htwo : pushed text (A :: B :: rest) = pushed (text' ++ A ++ [' '] ++ B) rest := by
    simp [pushed, text', hA]
  have hone : pushed text ((A ++ B) :: rest) = pushed (text' ++ A ++ B) rest := by
    simp [pushed, text']
  rw [htwo, hone, pushed_of_ne_nil (by simp), pushed_of_ne_nil (by simp [hA])]
  intro heq
  have hlength := congrArg List.length (List.append_cancel_right heq)
  simp at hlength

/-! ## The words on both sides of a boundary -/

section Boundary

variable (tokenizer : Tokenizer)

/-- The text that the tokens after a boundary can go on with: that of the last word start and
what follows it. -/
def openText (tokens : List (TokenInfo F)) : Text :=
  groupText tokenizer (last (starts_word tokenizer) tokens)

/-- The text that belongs to a word begun earlier: that before the first word start. -/
def continuedText (tokens : List (TokenInfo F)) : Text :=
  groupText tokenizer (tokens.takeWhile fun token => !starts_word tokenizer token)

def texts (groups : List (List (TokenInfo F))) : List Text :=
  (groups.map (groupText tokenizer)).filter fun text => !text.isEmpty

theorem texts_append (groups₁ groups₂ : List (List (TokenInfo F))) :
    texts tokenizer (groups₁ ++ groups₂) = texts tokenizer groups₁ ++ texts tokenizer groups₂ := by
  simp [texts]

theorem texts_cons_of_eq_nil {group : List (TokenInfo F)} (h : groupText tokenizer group = [])
    (groups : List (List (TokenInfo F))) :
    texts tokenizer (group :: groups) = texts tokenizer groups := by
  simp [texts, h]

theorem texts_cons_of_ne_nil {group : List (TokenInfo F)} (h : groupText tokenizer group ≠ [])
    (groups : List (List (TokenInfo F))) :
    texts tokenizer (group :: groups) = groupText tokenizer group :: texts tokenizer groups := by
  simp [texts, h]

theorem texts_cons_congr {group group' : List (TokenInfo F)}
    (h : groupText tokenizer group = groupText tokenizer group')
    (groups : List (List (TokenInfo F))) :
    texts tokenizer (group :: groups) = texts tokenizer (group' :: groups) := by
  simp [texts, h]

theorem groupText_append (group₁ group₂ : List (TokenInfo F)) :
    groupText tokenizer (group₁ ++ group₂) =
      groupText tokenizer group₁ ++ groupText tokenizer group₂ := by
  simp [groupText]

variable [F32 F]

theorem words_texts (tokens : List (TokenInfo F)) (frame_offset : Nat) :
    (tokens_to_words tokenizer tokens frame_offset).map WordInfo.word =
      texts tokenizer (groups (starts_word tokenizer) tokens) := by
  rw [tokens_to_words_eq, wordsOf, List.map_filterMap]
  unfold texts
  rw [← List.filterMap_eq_filter, List.filterMap_map]
  refine congrArg (List.filterMap · _) (funext fun group => ?_)
  by_cases hspoken : spoken tokenizer group = []
  · have htext := (spoken_eq_nil_iff tokenizer group).mp hspoken
    simp only [Function.comp_apply, wordOf_eq_none tokenizer hspoken, htext]
    rfl
  · have htext := mt (spoken_eq_nil_iff tokenizer group).mpr hspoken
    rw [wordOf_eq_some tokenizer (List.head?_eq_some_head hspoken)
      (List.getLast?_eq_some_getLast hspoken)]
    simp [htext]

/-- The words of two chunks make the text of the words of both tokens iff the boundary is not
inside a word. -/
theorem chunk_text_iff (a : TranscriptAssembler F) (ts₁ ts₂ : List (TokenInfo F))
    (offset₁ offset₂ offset : Nat) :
    ((a.append (tokens_to_words tokenizer ts₁ offset₁)).append
        (tokens_to_words tokenizer ts₂ offset₂)).text =
      (a.append (tokens_to_words tokenizer (ts₁ ++ ts₂) offset)).text ↔
    openText tokenizer ts₁ = [] ∨ continuedText tokenizer ts₂ = [] := by
  have hsplit : groups (starts_word tokenizer) ts₁ =
      (groups (starts_word tokenizer) ts₁).dropLast ++ [last (starts_word tokenizer) ts₁] := by
    simpa [cut] using groups_append (starts_word tokenizer) ts₁ []
  have htexts₁ := words_texts tokenizer ts₁ offset₁
  have htexts₂ := words_texts tokenizer ts₂ offset₂
  rw [hsplit, texts_append] at htexts₁
  unfold groups at htexts₂
  simp only [append_text, htexts₁, htexts₂, words_texts, groups_append, texts_append, pushed_append]
  unfold openText continuedText
  rw [← cut_first]
  generalize pushed a.text _ = text
  generalize last (starts_word tokenizer) ts₁ = A
  generalize (cut (starts_word tokenizer) ts₂).1 = B
  generalize (cut (starts_word tokenizer) ts₂).2 = rest
  rw [← pushed_append, ← texts_append, List.singleton_append]
  have happend := groupText_append tokenizer A B
  by_cases hA : groupText tokenizer A = []
  · simp only [hA, true_or, iff_true]
    rw [texts_cons_of_eq_nil tokenizer hA]
    exact congrArg (pushed text) (texts_cons_congr tokenizer (by simp [happend, hA]) rest)
  · by_cases hB : groupText tokenizer B = []
    · simp only [hB, or_true, iff_true]
      rw [texts_cons_of_ne_nil tokenizer hA, texts_cons_of_eq_nil tokenizer hB,
        ← texts_cons_of_ne_nil tokenizer hA]
      exact congrArg (pushed text) (texts_cons_congr tokenizer (by simp [happend, hB]) rest)
    · simp only [hA, hB, or_self, iff_false]
      rw [texts_cons_of_ne_nil tokenizer hA, texts_cons_of_ne_nil tokenizer hB,
        texts_cons_of_ne_nil tokenizer (by simp [happend, hA]), happend]
      exact pushed_split_ne text _ _ _ hA

end Boundary

/-! ## A word in two chunks -/

def hello : Tokenizer := { tokens := ["▁he".toList, "llo".toList, "<blk>".toList], blank_id := 2 }

/-- The text is `he llo` in two chunks and `hello` in one. -/
theorem hello_split :
    ((TranscriptAssembler.new.append (tokens_to_words hello [⟨0, 3, (1 : Int)⟩] 0)).append
        (tokens_to_words hello [⟨1, 4, 1⟩] 0)).text ≠
      (TranscriptAssembler.new.append
        (tokens_to_words hello ([⟨0, 3, (1 : Int)⟩] ++ [⟨1, 4, 1⟩]) 0)).text := by
  decide +kernel

end Gigastt.Words
