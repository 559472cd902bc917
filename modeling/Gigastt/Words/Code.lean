import Gigastt.Decode.Code
import Mathlib.Data.Rat.Defs

/-!
# Tokens, words and segments: `tokenizer.rs` and `inference/mod.rs`

Rust strings are lists of characters here. Times are exact.
-/

namespace Gigastt.Words

open Decode

abbrev Text := List Char

variable {F : Type}

/-! ## The vocabulary -/

structure Tokenizer where
  tokens : List Text
  blank_id : Nat
deriving DecidableEq, Repr

/-- Empty for a special token and for an id out of range. -/
def Tokenizer.token_text (tokenizer : Tokenizer) (id : Nat) : Text :=
  match tokenizer.tokens[id]? with
  | none => []
  | some t => if t = "<blk>".toList ∨ t = "<unk>".toList then [] else t

/-- The character `▁` of `tokens_to_words`. -/
def WORD_START : Char := '\u2581'

def starts_with (text : Text) (c : Char) : Bool := text.head? == some c

/-- `strip_prefix` of a character, or the text itself. -/
def stripped (text : Text) (c : Char) : Text := if starts_with text c then text.tail else text

/-! ## Words -/

structure WordInfo (F : Type) where
  word : Text
  start : ℚ
  end_ : ℚ
  confidence : F
  speaker : Option Nat
deriving DecidableEq, Repr

def ENCODER_SUBSAMPLING : Nat := 4
def SECONDS_PER_FRAME : ℚ := (HOP_LENGTH * ENCODER_SUBSAMPLING) / 16000

structure Grouping (F : Type) where
  words : List (WordInfo F)
  current_word : Text
  word_start_frame : Option Nat
  word_end_frame : Nat
  word_confidences : List F
deriving DecidableEq, Repr

def Grouping.new : Grouping F where
  words := []
  current_word := []
  word_start_frame := none
  word_end_frame := 0
  word_confidences := []

section Words

variable [F32 F]

def avg_conf (word_confidences : List F) : F :=
  if word_confidences.isEmpty then 1
  else float_sum word_confidences / (word_confidences.length : F)

def Grouping.word (g : Grouping F) (frame_offset : Nat) : WordInfo F where
  word := g.current_word
  start := (g.word_start_frame.getD 0 + frame_offset : Nat) * SECONDS_PER_FRAME
  end_ := (g.word_end_frame + frame_offset : Nat) * SECONDS_PER_FRAME
  confidence := avg_conf g.word_confidences
  speaker := none

/-- At a word boundary: emit the previous word. -/
def Grouping.flush (g : Grouping F) (frame_offset : Nat) : Grouping F :=
  if g.current_word.isEmpty then g
  else { g with
    words := g.words ++ [g.word frame_offset]
    current_word := []
    word_confidences := []
    word_start_frame := none }

/-- Add a token's text to the word in progress. -/
def Grouping.push (g : Grouping F) (clean : Text) (token : TokenInfo F) : Grouping F :=
  if clean.isEmpty then g
  else { g with
    current_word := g.current_word ++ clean
    word_start_frame := g.word_start_frame.or (some token.frame_index)
    word_end_frame := token.frame_index
    word_confidences := g.word_confidences ++ [token.confidence] }

def Grouping.step (tokenizer : Tokenizer) (frame_offset : Nat) (g : Grouping F)
    (token : TokenInfo F) : Grouping F :=
  let token_text := tokenizer.token_text token.token_id
  let g := if starts_with token_text WORD_START then g.flush frame_offset else g
  g.push (stripped token_text WORD_START) token

def tokens_to_words (tokenizer : Tokenizer) (tokens : List (TokenInfo F)) (frame_offset : Nat) :
    List (WordInfo F) :=
  if tokens.isEmpty then []
  else
    let g := tokens.foldl (Grouping.step tokenizer frame_offset) Grouping.new
    (g.flush frame_offset).words

end Words

/-! ## Segments -/

structure TranscriptSegment (F : Type) where
  text : Text
  words : List (WordInfo F)
  is_final : Bool
  timestamp : ℚ
deriving DecidableEq, Repr

structure TranscriptAssembler (F : Type) where
  text : Text
  words : List (WordInfo F)
deriving DecidableEq, Repr

def TranscriptAssembler.new : TranscriptAssembler F := { text := [], words := [] }

/-- The text after one more word. -/
def push_word (text : Text) (w : WordInfo F) : Text :=
  (if text.isEmpty then text else text ++ [' ']) ++ w.word

def TranscriptAssembler.append (a : TranscriptAssembler F) (new_words : List (WordInfo F)) :
    TranscriptAssembler F :=
  { text := new_words.foldl push_word a.text, words := a.words ++ new_words }

def TranscriptAssembler.finalize (a : TranscriptAssembler F) (timestamp : ℚ) :
    TranscriptSegment F × TranscriptAssembler F :=
  ({ text := a.text, words := a.words, is_final := true, timestamp }, .new)

/-- `TranscriptAssembler::partial`. -/
def TranscriptAssembler.partial_segment (a : TranscriptAssembler F) (timestamp : ℚ) :
    TranscriptSegment F :=
  { text := a.text, words := a.words, is_final := false, timestamp }

def TranscriptAssembler.is_empty (a : TranscriptAssembler F) : Bool := a.text.isEmpty

end Gigastt.Words
