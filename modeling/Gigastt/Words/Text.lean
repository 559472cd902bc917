import Gigastt.Words.Code

/-!
# The text of a segment

The assembler keeps the text of its words next to the words.
-/

namespace Gigastt.Words

variable {F : Type}

def pushed (text : Text) (words : List Text) : Text :=
  words.foldl (fun text word => (if text.isEmpty then text else text ++ [' ']) ++ word) text

theorem append_text (a : TranscriptAssembler F) (words : List (WordInfo F)) :
    (a.append words).text = pushed a.text (words.map WordInfo.word) := by
  unfold TranscriptAssembler.append pushed
  rw [List.foldl_map]
  rfl

theorem pushed_append (text : Text) (words₁ words₂ : List Text) :
    pushed text (words₁ ++ words₂) = pushed (pushed text words₁) words₂ := List.foldl_append

theorem pushed_of_ne_nil {text : Text} (h : text ≠ []) (words : List Text) :
    pushed text words = text ++ words.flatMap fun word => ' ' :: word := by
  induction words generalizing text with
  | nil => simp [pushed]
  | cons word words ih =>
    have hpush : pushed text (word :: words) = pushed (text ++ [' '] ++ word) words := by
      simp [pushed, h]
    rw [hpush, ih (by simp)]
    simp

theorem intercalate_cons (word : Text) (words : List Text) :
    [' '].intercalate (word :: words) = word ++ words.flatMap fun word => ' ' :: word := by
  induction words generalizing word with
  | nil => simp [List.intercalate]
  | cons next words ih =>
    have hcons : [' '].intercalate (word :: next :: words) =
        word ++ [' '] ++ [' '].intercalate (next :: words) := by
      simp [List.intercalate]
    rw [hcons, ih]
    simp

/-- The text is the words joined by single spaces, when the first has text. -/
theorem pushed_nil {words : List Text} (h : ∀ word ∈ words, word ≠ []) :
    pushed [] words = [' '].intercalate words := by
  match words with
  | [] => rfl
  | word :: words =>
    have hfirst : pushed [] (word :: words) = pushed word words := by
      simp [pushed]
    rw [hfirst, pushed_of_ne_nil (h word List.mem_cons_self), intercalate_cons]

theorem pushed_nil_eq_nil_iff {words : List Text} (h : ∀ word ∈ words, word ≠ []) :
    pushed [] words = [] ↔ words = [] := by
  match words with
  | [] => simp [pushed]
  | word :: words =>
    rw [pushed_nil h, intercalate_cons]
    simp [h word List.mem_cons_self]

end Gigastt.Words
