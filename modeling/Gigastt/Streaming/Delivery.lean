import Gigastt.Streaming.Runs
import Gigastt.Words.Groups
import Gigastt.Words.Text

/-!
# From the models to the client

Every recognised word reaches the client once, in order, in a final segment. The
assembler keeps the words since the last one, and a partial segment shows them.
-/

namespace Gigastt.Streaming

open Decode Words

variable {F D : Type}

/-! ## What the client should get -/

def SameWords (words words' : List (WordInfo F)) : Prop :=
  words.map unlabelled = words'.map unlabelled

def joined (words : List (WordInfo F)) : Text := [' '].intercalate (words.map WordInfo.word)

def finals (segments : List (TranscriptSegment F)) : List (WordInfo F) :=
  (segments.filter TranscriptSegment.is_final).flatMap TranscriptSegment.words

/-- The words since the last final, after one more call. -/
def pendingAfter (words : List (WordInfo F)) (log : ChunkLog F) : List (WordInfo F) :=
  if log.segments.any TranscriptSegment.is_final then [] else words ++ log.words

def pending (logs : List (ChunkLog F)) : List (WordInfo F) := logs.foldl pendingAfter []

theorem SameWords.append {a a' b b' : List (WordInfo F)} (h : SameWords a a')
    (h' : SameWords b b') : SameWords (a ++ b) (a' ++ b') := by
  unfold SameWords at *
  rw [List.map_append, List.map_append, h, h']

theorem SameWords.trans {a b c : List (WordInfo F)} (h : SameWords a b) (h' : SameWords b c) :
    SameWords a c := Eq.trans h h'

theorem SameWords.forall_ne_nil {words words' : List (WordInfo F)} (h : SameWords words words')
    (h' : ∀ w ∈ words', w.word ≠ []) : ∀ w ∈ words, w.word ≠ [] := by
  intro w hw
  have hmem : unlabelled w ∈ words'.map unlabelled := h ▸ List.mem_map_of_mem hw
  obtain ⟨w', hw', heq⟩ := List.mem_map.mp hmem
  have hword : (unlabelled w').word = (unlabelled w).word := by rw [heq]
  exact (show w'.word = w.word from hword) ▸ h' w' hw'

theorem finals_append (segments segments' : List (TranscriptSegment F)) :
    finals (segments ++ segments') = finals segments ++ finals segments' := by
  simp [finals]

/-! ## The assembler -/

/-- The assembler holds the pending words, and their text. -/
structure Assembled (a : TranscriptAssembler F) (words : List (WordInfo F)) : Prop where
  words : SameWords a.words words
  not_empty : ∀ w ∈ a.words, w.word ≠ []
  text : a.text = pushed [] (a.words.map WordInfo.word)

theorem Assembled.new : Assembled (TranscriptAssembler.new : TranscriptAssembler F) [] :=
  ⟨rfl, by simp [TranscriptAssembler.new], rfl⟩

theorem Assembled.append {a : TranscriptAssembler F} {words new_words heard : List (WordInfo F)}
    (h : Assembled a words) (hsame : SameWords new_words heard)
    (hheard : ∀ w ∈ heard, w.word ≠ []) : Assembled (a.append new_words) (words ++ heard) := by
  refine ⟨h.words.append hsame, ?_, ?_⟩
  · intro w hw
    rcases List.mem_append.mp hw with hw | hw
    · exact h.not_empty w hw
    · exact hsame.forall_ne_nil hheard w hw
  · rw [append_text, h.text, ← pushed_append]
    simp [TranscriptAssembler.append]

theorem Assembled.text_joined {a : TranscriptAssembler F} {words : List (WordInfo F)}
    (h : Assembled a words) : a.text = joined a.words := by
  rw [h.text, joined, pushed_nil]
  simpa using h.not_empty

theorem Assembled.is_empty_iff {a : TranscriptAssembler F} {words : List (WordInfo F)}
    (h : Assembled a words) : a.is_empty = true ↔ words = [] := by
  have hlength : a.words = [] ↔ words = [] := by
    rw [← List.map_eq_nil_iff (f := unlabelled), h.words, List.map_eq_nil_iff]
  rw [TranscriptAssembler.is_empty, List.isEmpty_iff, h.text,
    pushed_nil_eq_nil_iff (by simpa using h.not_empty), List.map_eq_nil_iff, hlength]

/-! ## One call -/

structure Delivered (words words' : List (WordInfo F)) (log : ChunkLog F) : Prop where
  pending : words' = pendingAfter words log
  finals : SameWords (finals log.segments ++ words') (words ++ log.words)
  partials : ∀ segment ∈ log.segments, segment.is_final = false → SameWords segment.words words'
  text : ∀ segment ∈ log.segments, segment.text = joined segment.words

theorem deliver_spec {state state' : StreamingState F D} {words new_words : List (WordInfo F)}
    {heard : Heard F} {segments : List (TranscriptSegment F)} {ts : ℚ}
    (h : Assembled state.assembler words) (hsame : SameWords new_words heard.words)
    (hheard : ∀ w ∈ heard.words, w.word ≠ [])
    (hdeliver : deliver state new_words heard.endpoint_detected ts = (segments, state')) :
    ∃ words', Assembled state'.assembler words' ∧
      Delivered words words' { heard := some heard, segments } := by
  have happend := h.append hsame hheard
  unfold deliver at hdeliver
  split_ifs at hdeliver with hnothing hendpoint
  · cases hdeliver
    have hnew : new_words = [] := by
      simp only [Bool.and_eq_true, List.isEmpty_iff] at hnothing
      exact hnothing.1
    have hnone : heard.words = [] := by
      rw [hnew] at hsame
      exact List.map_eq_nil_iff.mp hsame.symm
    refine ⟨words, h, ?_, ?_, by simp, by simp⟩
    · simp [pendingAfter, ChunkLog.words, hnone]
    · simp [finals, ChunkLog.words, hnone, SameWords]
  · cases hdeliver
    refine ⟨[], Assembled.new, rfl, ?_, ?_, ?_⟩
    · simpa [Streaming.finals, TranscriptAssembler.finalize, ChunkLog.words] using happend.words
    · simp
    · simpa [TranscriptAssembler.finalize] using happend.text_joined
  · cases hdeliver
    refine ⟨words ++ heard.words, happend, ?_, ?_, ?_, ?_⟩
    · simp [pendingAfter, TranscriptAssembler.partial_segment, ChunkLog.words]
    · simp [Streaming.finals, TranscriptAssembler.partial_segment, ChunkLog.words, SameWords]
    · simpa [TranscriptAssembler.partial_segment] using happend.words
    · simpa [TranscriptAssembler.partial_segment] using happend.text_joined

theorem flush_spec {state : StreamingState F D} {words : List (WordInfo F)} (ts : ℚ)
    (h : Assembled state.assembler words) :
    SameWords (finals (flush_state state ts).1.toList) words ∧
      (∀ segment ∈ (flush_state state ts).1.toList, segment.text = joined segment.words) ∧
      ((flush_state state ts).1 = none ↔ words = []) := by
  unfold flush_state
  split_ifs with hempty
  · have hwords := h.is_empty_iff.mp hempty
    exact ⟨by simp [finals, SameWords, hwords], by simp, by simp [hwords]⟩
  · have hwords : words ≠ [] := mt h.is_empty_iff.mpr hempty
    refine ⟨?_, ?_, by simp [hwords]⟩
    · simpa [finals, TranscriptAssembler.finalize] using h.words
    · simpa [TranscriptAssembler.finalize] using h.text_joined

section Runs

variable [F32 F]

theorem step_delivered {engine : Engine F D} {state state' : StreamingState F D}
    {call : ChunkCall F} {log : ChunkLog F} {words : List (WordInfo F)}
    (hstep : Step engine state state' call log)
    (h : Assembled state.assembler words) :
    ∃ words', Assembled state'.assembler words' ∧ Delivered words words' log := by
  obtain ⟨heard, segments⟩ := log
  match heard, hstep with
  | none, ⟨hsegments, hassembler, _⟩ =>
    obtain rfl : segments = [] := hsegments
    refine ⟨words, hassembler ▸ h, ?_, ?_, by simp, by simp⟩
    · simp [pendingAfter, ChunkLog.words]
    · simp [finals, ChunkLog.words, SameWords]
  | some heard, hheard =>
    obtain ⟨state₁, new_words, hassembler, hsame, hdeliver⟩ := hheard.delivered
    refine deliver_spec (hassembler ▸ h) hsame ?_ hdeliver
    rw [hheard.words]
    exact fun w hw => word_ne_nil hw

/-! ## A whole stream -/

structure AllDelivered (words : List (WordInfo F)) (logs : List (ChunkLog F))
    (last : StreamingState F D) : Prop where
  assembled : Assembled last.assembler (logs.foldl pendingAfter words)
  finals : SameWords (finals (logs.flatMap ChunkLog.segments) ++ logs.foldl pendingAfter words)
    (words ++ logs.flatMap ChunkLog.words)
  partials : ∀ before log after segment, logs = before ++ log :: after → segment ∈ log.segments →
    segment.is_final = false →
      SameWords segment.words ((before ++ [log]).foldl pendingAfter words)
  text : ∀ segment ∈ logs.flatMap ChunkLog.segments, segment.text = joined segment.words

theorem run_delivered {engine : Engine F D} {state last : StreamingState F D}
    {calls : List (ChunkCall F)} {logs : List (ChunkLog F)} {words : List (WordInfo F)}
    (hrun : engine.run state calls = .ok (logs, last)) (h : Assembled state.assembler words) :
    AllDelivered words logs last := by
  induction calls generalizing state logs words with
  | nil =>
    cases hrun
    exact ⟨h, by simp [finals, SameWords], by simp, by simp⟩
  | cons call calls ih =>
    obtain ⟨log, rest, state', rfl, -, hstep, hrest⟩ := run_cons hrun
    obtain ⟨words', hassembled, hlog⟩ := step_delivered hstep h
    obtain ⟨hlast, hfinals, hpartials, htext⟩ := ih hrest hassembled
    have hfold : (log :: rest).foldl pendingAfter words = rest.foldl pendingAfter words' := by
      rw [List.foldl_cons, ← hlog.pending]
    constructor
    · rwa [hfold]
    · rw [hfold, List.flatMap_cons, List.flatMap_cons, finals_append, List.append_assoc,
        ← List.append_assoc words]
      have hrest' : SameWords (Streaming.finals log.segments ++
          (Streaming.finals (rest.flatMap ChunkLog.segments) ++ rest.foldl pendingAfter words'))
          (Streaming.finals log.segments ++ words' ++ rest.flatMap ChunkLog.words) := by
        rw [List.append_assoc]
        exact SameWords.append rfl hfinals
      exact hrest'.trans (hlog.finals.append rfl)
    · intro before log' after segment hlogs hmem hpartial
      match before with
      | [] =>
        obtain ⟨rfl, -⟩ := List.cons.inj hlogs
        have := hlog.partials segment hmem hpartial
        rwa [hlog.pending] at this
      | first :: before =>
        obtain ⟨rfl, hrest'⟩ := List.cons.inj hlogs
        have := hpartials before log' after segment hrest' hmem hpartial
        rwa [hlog.pending] at this
    · intro segment hmem
      rw [List.flatMap_cons, List.mem_append] at hmem
      rcases hmem with hmem | hmem
      · exact hlog.text segment hmem
      · exact htext segment hmem

theorem words_delivered (engine : Engine F D) (diarization_state : Option D)
    (calls : List (ChunkCall F)) (ts : ℚ) {logs : List (ChunkLog F)} {last : StreamingState F D}
    (hrun : engine.run (engine.create_state diarization_state) calls = .ok (logs, last)) :
    SameWords (finals (logs.flatMap ChunkLog.segments ++ (flush_state last ts).1.toList))
        (logs.flatMap ChunkLog.words) ∧
      (∀ before log after segment, logs = before ++ log :: after → segment ∈ log.segments →
        segment.is_final = false → SameWords segment.words (pending (before ++ [log]))) ∧
      (∀ segment ∈ logs.flatMap ChunkLog.segments ++ (flush_state last ts).1.toList,
        segment.text = joined segment.words) ∧
      ((flush_state last ts).1 = none ↔ pending logs = []) := by
  have hall := run_delivered hrun Assembled.new
  obtain ⟨hwords, htext, hnone⟩ := flush_spec ts hall.assembled
  refine ⟨?_, hall.partials, ?_, hnone⟩
  · rw [finals_append]
    exact (SameWords.append rfl hwords).trans hall.finals
  · intro segment hmem
    rcases List.mem_append.mp hmem with hmem | hmem
    · exact hall.text segment hmem
    · exact htext segment hmem

/-- Two partials, with the words `yes` and `no`, and the flush that makes them final. -/
theorem yes_no_delivered :
    ∃ logs last, yes_engine.run (yes_engine.create_state none) [yes_call 320, no_call 320] =
        .ok (logs, last) ∧
      (logs.flatMap ChunkLog.words).map WordInfo.word = ["yes".toList, "no".toList] ∧
      SameWords (finals (logs.flatMap ChunkLog.segments ++ (flush_state last 1).1.toList))
        (logs.flatMap ChunkLog.words) := by
  obtain ⟨segments, segments', last, hrun⟩ := yes_no_run
  exact ⟨_, last, hrun, rfl, (words_delivered yes_engine none _ 1 hrun).1⟩

end Runs

end Gigastt.Streaming
