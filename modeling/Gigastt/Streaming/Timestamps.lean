import Gigastt.Streaming.Runs
import Gigastt.Words.Groups

/-!
# Where a word lies in the stream

`total_frames` is the offset of a chunk's words, which are timed in encoder frames.
`process_chunk` adds the mel frames of the chunk to it.
-/

namespace Gigastt.Streaming

open Decode Words

variable {F D : Type}

/-! ## Frames of a log -/

def ChunkLog.enc_len (log : ChunkLog F) : Nat :=
  match log.heard with
  | some heard => heard.enc_len
  | none => 0

def ChunkLog.num_frames (log : ChunkLog F) : Nat :=
  match log.heard with
  | some heard => heard.num_frames
  | none => 0

def encFrames (logs : List (ChunkLog F)) : Nat := (logs.map ChunkLog.enc_len).sum

def melFrames (logs : List (ChunkLog F)) : Nat := (logs.map ChunkLog.num_frames).sum

/-- The encoder does not stretch time. -/
def Shortens (encoder : Encoder F) : Prop :=
  ∀ features num_frames enc_data enc_len,
    encode encoder features num_frames = .ok (enc_data, enc_len) → enc_len ≤ num_frames

/-- Frames that are at most others are all equal to them iff their sums are. -/
theorem encFrames_eq_iff {logs : List (ChunkLog F)}
    (h : ∀ log ∈ logs, log.enc_len ≤ log.num_frames) :
    encFrames logs ≤ melFrames logs ∧
      (encFrames logs = melFrames logs ↔ ∀ log ∈ logs, log.enc_len = log.num_frames) := by
  induction logs with
  | nil => simp [encFrames, melFrames]
  | cons log logs ih =>
    obtain ⟨hle, hiff⟩ := ih fun l hl => h l (List.mem_cons_of_mem log hl)
    have hlog := h log List.mem_cons_self
    unfold encFrames melFrames at *
    simp only [List.map_cons, List.sum_cons, List.forall_mem_cons, ← hiff]
    omega

theorem heard_frames_eq_iff (log : ChunkLog F) :
    (∀ heard, log.heard = some heard → heard.enc_len = heard.num_frames) ↔
      log.enc_len = log.num_frames := by
  unfold ChunkLog.enc_len ChunkLog.num_frames
  match log.heard with
  | none => simp
  | some heard => simp

section Runs

variable [F32 F]

theorem step_total_frames {engine : Engine F D} {state state' : StreamingState F D}
    {call : ChunkCall F} {log : ChunkLog F} (h : Step engine state state' call log) :
    state'.total_frames = state.total_frames + log.num_frames := by
  obtain ⟨heard, segments⟩ := log
  match heard, h with
  | none, ⟨_, _, htotal⟩ => exact htotal
  | some heard, hheard => exact hheard.total_frames

theorem step_shortens {engine : Engine F D} {state state' : StreamingState F D}
    {call : ChunkCall F} {log : ChunkLog F} (h : Step engine state state' call log)
    (henc : Shortens call.triplet.encoder) : log.enc_len ≤ log.num_frames := by
  obtain ⟨heard, segments⟩ := log
  match heard, h with
  | none, _ => exact Nat.le_refl 0
  | some heard, hheard =>
    obtain ⟨features, enc_data, hencode⟩ := hheard.encoded
    exact henc features _ enc_data _ hencode

theorem run_total_frames {engine : Engine F D} {state last : StreamingState F D}
    {calls : List (ChunkCall F)} {logs : List (ChunkLog F)}
    (hrun : engine.run state calls = .ok (logs, last)) :
    last.total_frames = state.total_frames + melFrames logs ∧
      ∀ before log after heard, logs = before ++ log :: after → log.heard = some heard →
        heard.words =
          wordsOf engine.tokenizer heard.tokens (state.total_frames + melFrames before) := by
  induction calls generalizing state logs with
  | nil =>
    cases hrun
    exact ⟨rfl, by simp⟩
  | cons call calls ih =>
    obtain ⟨log, rest, state', rfl, -, hstep, hrest⟩ := run_cons hrun
    obtain ⟨hlast, hwords⟩ := ih hrest
    have hframes := step_total_frames hstep
    constructor
    · rw [hlast, hframes]
      simp [melFrames, Nat.add_assoc]
    · intro before log' after heard hlogs hheard
      match before with
      | [] =>
        obtain ⟨rfl, -⟩ := List.cons.inj hlogs
        unfold Step at hstep
        rw [hheard] at hstep
        rw [hstep.words, tokens_to_words_eq]
        rfl
      | first :: before =>
        obtain ⟨rfl, hrest'⟩ := List.cons.inj hlogs
        rw [hwords before log' after heard hrest' hheard, hframes]
        simp [melFrames, Nat.add_assoc]

theorem run_shortens {engine : Engine F D} {state last : StreamingState F D}
    {calls : List (ChunkCall F)} {logs : List (ChunkLog F)}
    (hrun : engine.run state calls = .ok (logs, last))
    (henc : ∀ call ∈ calls, Shortens call.triplet.encoder) :
    ∀ log ∈ logs, log.enc_len ≤ log.num_frames := by
  induction calls generalizing state logs with
  | nil =>
    cases hrun
    simp
  | cons call calls ih =>
    obtain ⟨log, rest, state', rfl, -, hstep, hrest⟩ := run_cons hrun
    intro log' hlog'
    rcases List.mem_cons.mp hlog' with rfl | hlog'
    · exact step_shortens hstep (henc call List.mem_cons_self)
    · exact ih hrest (fun c hc => henc c (List.mem_cons_of_mem call hc)) log' hlog'

/-! ## Absolute timestamps -/

/-- The offset is the encoder frames so far, and the words of each chunk are timed from it. -/
structure Absolute (engine : Engine F D) (logs : List (ChunkLog F)) (last : StreamingState F D) :
    Prop where
  total_frames : last.total_frames = encFrames logs
  words : ∀ before log after heard, logs = before ++ log :: after → log.heard = some heard →
    heard.words = wordsOf engine.tokenizer heard.tokens (encFrames before)

theorem absolute_iff (engine : Engine F D) (diarization_state : Option D)
    (calls : List (ChunkCall F)) {logs : List (ChunkLog F)} {last : StreamingState F D}
    (hrun : engine.run (engine.create_state diarization_state) calls = .ok (logs, last))
    (henc : ∀ call ∈ calls, Shortens call.triplet.encoder) :
    Absolute engine logs last ↔
      ∀ log ∈ logs, ∀ heard, log.heard = some heard → heard.enc_len = heard.num_frames := by
  obtain ⟨htotal, hwords⟩ := run_total_frames hrun
  have hzero : (engine.create_state diarization_state).total_frames = 0 := rfl
  simp only [hzero, Nat.zero_add] at htotal hwords
  have hle := run_shortens hrun henc
  simp only [heard_frames_eq_iff]
  constructor
  · intro h
    exact (encFrames_eq_iff hle).2.mp (h.total_frames.symm.trans htotal)
  · intro hframes
    refine ⟨htotal.trans ((encFrames_eq_iff hle).2.mpr hframes).symm, ?_⟩
    intro before log after heard hlogs hheard
    have hbefore : ∀ log ∈ before, log ∈ logs := by
      rw [hlogs]
      exact fun log hlog => List.mem_append_left _ hlog
    have heq := (encFrames_eq_iff fun log hlog => hle log (hbefore log hlog)).2.mpr
      fun log hlog => hframes log (hbefore log hlog)
    rw [hwords before log after heard hlogs hheard, heq]

end Runs

/-! ## Calls of one mel frame and of two -/

theorem shortens_subsampling : Shortens (steady subsampling_encoder) := by
  intro features num_frames enc_data enc_len h
  by_cases hfeatures : features.length = N_MELS * num_frames
  · rw [encode_subsampling hfeatures] at h
    have hlen : (num_frames + 3) / 4 = enc_len := congrArg Prod.snd (Except.ok.inj h)
    omega
  · simp [encode, from_array_view, Ne.symm hfeatures, bind, Except.bind] at h

theorem shortens_says_call {calls : List (ChunkCall Int)}
    (h : ∀ call ∈ calls, ∃ token n, call = says_call token n) :
    ∀ call ∈ calls, Shortens call.triplet.encoder := by
  intro call hcall
  obtain ⟨token, n, rfl⟩ := h call hcall
  exact shortens_subsampling

theorem shortens_yes_no : ∀ call ∈ [yes_call 320, no_call 320], Shortens call.triplet.encoder :=
  shortens_says_call (by simp [yes_call, no_call])

/-- Two calls, so that the second has an offset. -/
theorem absolute_two_calls :
    ∃ logs last, yes_engine.run (yes_engine.create_state none) [yes_call 320, no_call 320] =
        .ok (logs, last) ∧
      Absolute yes_engine logs last := by
  obtain ⟨segments, segments', last, hrun⟩ := yes_no_run
  refine ⟨_, last, hrun, (absolute_iff yes_engine none _ hrun shortens_yes_no).mpr ?_⟩
  simp [said]

/-- Two mel frames make one encoder frame, and count as two. -/
theorem not_absolute_two_frames :
    (∀ call ∈ [yes_call 480], Shortens call.triplet.encoder) ∧
      ∃ logs last, yes_engine.run (yes_engine.create_state none) [yes_call 480] = .ok (logs, last) ∧
        ¬ Absolute yes_engine logs last := by
  refine ⟨shortens_says_call (by simp [yes_call]), ?_⟩
  have hused : UsedUp 2 (List.replicate 480 1) :=
    used_up_replicate (by decide) (by decide) (by decide) (by decide) 1
  obtain ⟨segments, last, hrun⟩ := yes_run hused (by decide)
  refine ⟨_, last, hrun, fun h => ?_⟩
  have htotal := (run_total_frames hrun).1
  rw [h.total_frames] at htotal
  simp [encFrames, melFrames, ChunkLog.enc_len, ChunkLog.num_frames, said, Engine.create_state]
    at htotal

end Gigastt.Streaming
