import Gigastt.Session.Endings

/-!
# Every word of a session is accounted for

What the models hear in a session reaches the client in a final, waits in the streaming
state, or goes with a state that a panic resets or a lost task takes along. The books of a
run keep what each turn heard and what it lost.
-/

namespace Gigastt.Session

open Decode Server Streaming Words

variable {F D R : Type}

/-! ## What the client has -/

def Sent.final_words : Sent F → List (WordInfo F)
  | .Text (.Final seg) => seg.words
  | _ => []

def sink_finals (sink : List (Sent F)) : List (WordInfo F) := sink.flatMap Sent.final_words

@[simp]
theorem sink_finals_append (sink sink' : List (Sent F)) :
    sink_finals (sink ++ sink') = sink_finals sink ++ sink_finals sink' := List.flatMap_append

theorem sink_finals_segments (segments : List (TranscriptSegment F)) :
    sink_finals (segments.map fun seg => .Text (segment_message seg)) = finals segments := by
  induction segments with
  | nil => rfl
  | cons seg segments ih =>
    rw [List.map_cons, sink_finals, List.flatMap_cons]
    rw [sink_finals] at ih
    rw [ih, finals, finals, List.filter_cons]
    simp only [segment_message]
    split_ifs
    · rw [List.flatMap_cons]
      rfl
    · rfl

/-! ## What a turn hears and loses -/

section Frames

variable [F32Pcm F]

/-- What the blocking task of a frame is given, if the frame gets that far. -/
def frame_task (env : Env F D R) (data : List UInt8) (v : Vars F D R) :
    Option (SessionState F D R × Triplet F × List F) :=
  if data.isEmpty then none
  else
    let (samples, pending_byte) := deframe v.pending_byte data
    match resample env (samples.map to_f32) { v with audio_received := true, pending_byte } with
    | (.error _, _) => none
    | (.ok samples_16k, v) =>
      match v.state_opt, v.triplet_opt with
      | some state, some triplet => some (state, triplet, samples_16k)
      | _, _ => none

/-- The words of a task that returned, and none of one that did not. -/
def task_heard (env : Env F D R) (blocking : Blocking F) :
    SessionState F D R × Triplet F × List F → List (WordInfo F)
  | (state, triplet, samples) =>
    match spawn_blocking env blocking samples state triplet with
    | some (.returned (.ok _), _, _) =>
      match env.engine.heard state.stream { samples, triplet := triplet.sessions, ts := blocking.ts } with
      | some heard => heard.words
      | none => []
    | _ => []

def task_keeps_state (env : Env F D R) (blocking : Blocking F) :
    SessionState F D R × Triplet F × List F → Bool
  | (state, triplet, samples) =>
    match spawn_blocking env blocking samples state triplet with
    | some (.returned _, _, _) => true
    | _ => false

def frame_heard (env : Env F D R) (blocking : Blocking F) (data : List UInt8) (v : Vars F D R) :
    List (WordInfo F) :=
  match frame_task env data v with
  | some task => task_heard env blocking task
  | none => []

def frame_lost (env : Env F D R) (blocking : Blocking F) (data : List UInt8) (v : Vars F D R) :
    List (WordInfo F) :=
  match frame_task env data v with
  | some task => bif task_keeps_state env blocking task then [] else v.pending
  | none => []

/-- The frame that a turn handles, if it handles one. -/
def Iteration.frame (deadline : Instant) (it : Iteration F) : Option (List UInt8) :=
  if it.cancelled || session_cap_reached deadline it.now || it.cancel_wakes || it.deadline_wakes then
    none
  else
    match it.next with
    | .message (.Binary data) => some data
    | _ => none

/-- What a turn hears, and what it loses. -/
def turn_words (env : Env F D R) (deadline : Instant) (it : Iteration F) (v : Vars F D R) :
    List (WordInfo F) × List (WordInfo F) :=
  match it.frame deadline with
  | some data =>
    let v := { v with source := v.source ++ [.Binary data] }
    (frame_heard env it.blocking data v, frame_lost env it.blocking data v)
  | none => ([], [])

end Frames

/-! ## The books of one turn -/

/-- The finals sent and the words that wait make up what waited before and what was heard,
or all that waited is lost. -/
def Accounts (v v' : Vars F D R) (heard lost : List (WordInfo F)) : Prop :=
  ∃ said, sink_finals v'.sink = sink_finals v.sink ++ said ∧
    ((lost = [] ∧ SameWords (said ++ v'.pending) (v.pending ++ heard)) ∨
      (said = [] ∧ heard = [] ∧ v'.pending = [] ∧ lost = v.pending))

variable {env : Env F D R} {slot : Nat} {v v' : Vars F D R}

/-- A turn that sends no final and leaves the words alone. -/
theorem Accounts.quiet (hsink : sink_finals v'.sink = sink_finals v.sink)
    (hpending : v'.pending = v.pending) : Accounts v v' [] [] :=
  ⟨[], by rw [hsink, List.append_nil], .inl ⟨rfl, by rw [hpending]; simp [SameWords]⟩⟩

/-- The words of the final that a flush sends. -/
def flushed_words (state : StreamingState F D) (ts : ℚ) : List (WordInfo F) :=
  (Sent.Text (final_message (flush_state state ts).1 ts)).final_words

theorem flush_words (state : StreamingState F D) (ts : ℚ) {words : List (WordInfo F)}
    (h : Assembled state.assembler words) :
    flushed_words state ts = state.assembler.words ∧ (flush_state state ts).2.assembler.words = [] := by
  unfold flushed_words flush_state
  split_ifs with hempty
  · have hnil : state.assembler.words = [] := by
      have hsame := h.words
      rw [h.is_empty_iff.mp hempty] at hsame
      exact List.map_eq_nil_iff.mp hsame
    exact ⟨hnil.symm, hnil⟩
  · exact ⟨rfl, rfl⟩

theorem send_accepted (hsends : ∀ n, env.accepts n = true) (msg : Sent F) (v : Vars F D R) :
    send env msg v = (.ok (), { v with sink := v.sink ++ [msg] }) := by
  simp [send, hsends]

/-! ## Endings -/

/-- The last words of a session go out in one final. -/
theorem Accounts.flushed {state : SessionState F D R} (ts : ℚ) (hstate : v.state_opt = some state)
    {words : List (WordInfo F)} (hwords : Assembled state.stream.assembler words)
    (hsink : sink_finals v'.sink = sink_finals v.sink ++ flushed_words state.stream ts)
    (hempty : v'.pending = []) : Accounts v v' [] [] := by
  refine ⟨flushed_words state.stream ts, hsink, .inl ⟨rfl, ?_⟩⟩
  rw [hempty, (flush_words state.stream ts hwords).1]
  simp [Vars.pending, hstate, SameWords]

theorem flush_and_final_accounts (hsends : ∀ n, env.accepts n = true) (ts : ℚ) (hv : Sound slot v) :
    ∃ v', flush_and_final env ts v = (.ok (), v') ∧ Accounts v v' [] [] ∧ v'.pending = [] := by
  obtain ⟨state, hstate, words, hwords⟩ := hv.state
  have hrun : flush_and_final env ts v = (.ok (), { v with
      state_opt := some { state with stream := (flush_state state.stream ts).2 }
      sink := v.sink ++ [.Text (final_message (flush_state state.stream ts).1 ts)] }) := by
    simp [flush_and_final, hstate, send_server_message, send_accepted hsends]
  have hempty := (flush_words state.stream ts hwords).2
  refine ⟨_, hrun, .flushed ts hstate hwords ?_ hempty, hempty⟩
  simp [sink_finals, flushed_words]

theorem Accounts.then_quiet {v₁ : Vars F D R} {heard lost : List (WordInfo F)}
    (h : Accounts v v₁ heard lost) (hsink : sink_finals v'.sink = sink_finals v₁.sink)
    (hpending : v'.pending = v₁.pending) : Accounts v v' heard lost := by
  unfold Accounts at h ⊢
  rwa [hsink, hpending]

theorem on_cancel_accounts (env : Env F D R) (hsends : ∀ n, env.accepts n = true) (ts : ℚ)
    (hv : Sound slot v) :
    Accounts v (on_cancel env ts v) [] [] ∧ (on_cancel env ts v).pending = [] := by
  obtain ⟨v₁, hflush, haccounts, hempty⟩ := flush_and_final_accounts hsends ts hv
  have hrun : on_cancel env ts v = { v₁ with sink := v₁.sink ++
      [.Close { code := 1001, reason := "server shutdown" }] } := by
    simp only [on_cancel, hflush, send_accepted hsends]
  rw [hrun]
  exact ⟨haccounts.then_quiet (by simp [sink_finals, Sent.final_words]) rfl, hempty⟩

theorem on_deadline_accounts (env : Env F D R) (hsends : ∀ n, env.accepts n = true) (ts : ℚ)
    (hv : Sound slot v) :
    Accounts v (on_deadline env ts v) [] [] ∧ (on_deadline env ts v).pending = [] := by
  set error : Sent F :=
    .Text (.Error "Maximum session duration exceeded" "max_session_duration_exceeded" none)
  have hv₀ : Sound slot { v with sink := v.sink ++ [error] } := hv.of_eq rfl rfl
  obtain ⟨v₁, hflush, ⟨said, hsink, haccounts⟩, hempty⟩ := flush_and_final_accounts hsends ts hv₀
  have hrun : on_deadline env ts v = { v₁ with sink := v₁.sink ++
      [.Close { code := 1008, reason := "max session duration" }] } := by
    simp only [on_deadline, send_server_message, send_accepted hsends]
    rw [hflush]
  rw [hrun]
  refine ⟨⟨said, ?_, haccounts⟩, hempty⟩
  rw [sink_finals_append, hsink]
  simp [sink_finals, Sent.final_words, error]

theorem handle_stop_message_accounts (env : Env F D R) (hsends : ∀ n, env.accepts n = true) (ts : ℚ)
    (hv : Sound slot v) :
    Accounts v (handle_stop_message env ts v).2 [] [] ∧
      (handle_stop_message env ts v).2.pending = [] := by
  obtain ⟨state, hstate, words, hwords⟩ := hv.state
  have hrun : handle_stop_message env ts v = (.ok .Break, { v with
      state_opt := none
      sink := v.sink ++ [.Text (final_message (flush_state state.stream ts).1 ts)] }) := by
    simp [handle_stop_message, hstate, send_server_message, send_accepted hsends]
  rw [hrun]
  exact ⟨.flushed ts hstate hwords (by simp [sink_finals, flushed_words]) rfl, rfl⟩

/-! ## Frames -/

section Frames

variable [F32Pcm F]

theorem resample_keeps {samples_f32 : List F} {r : Except Fault (List F)}
    {state : SessionState F D R} (hstate : v.state_opt = some state)
    (h : resample env samples_f32 v = (r, v')) :
    (∃ resampler, v'.state_opt = some { state with resampler }) ∧ v'.sink = v.sink ∧
      v'.triplet_opt = v.triplet_opt ∧ v'.audio_received = v.audio_received := by
  unfold resample at h
  split_ifs at h
  · cases h
    exact ⟨⟨state.resampler, hstate⟩, rfl, rfl, rfl⟩
  · simp only [hstate] at h
    obtain ⟨-, rfl⟩ := Prod.mk.inj h
    exact ⟨⟨_, rfl⟩, rfl, rfl, rfl⟩

/-- A frame gets to its task, or it changes no words. -/
theorem handle_binary_frame_cases {blocking : Blocking F} {data : List UInt8}
    {r : Except Fault FrameOutcome} (hv : Sound slot v)
    (h : handle_binary_frame env blocking data v = (r, v')) :
    (frame_task env data v = none ∧ v'.sink = v.sink ∧ v'.pending = v.pending ∧
        (v'.audio_received = v.audio_received ∨ v'.audio_received = true)) ∨
      ∃ state triplet samples v₁, frame_task env data v = some (state, triplet, samples) ∧
        v.pending = state.stream.assembler.words ∧
        (∃ words, Assembled state.stream.assembler words) ∧
        v₁.sink = v.sink ∧ v₁.state_opt = none ∧ v₁.audio_received = true ∧
        on_joined env v₁ (spawn_blocking env blocking samples state triplet) = (r, v') := by
  obtain ⟨⟨state, hstate, hwords⟩, ⟨triplet, htriplet, -⟩⟩ := hv
  unfold handle_binary_frame at h
  unfold frame_task
  by_cases hempty : data.isEmpty
  · rw [if_pos hempty] at h ⊢
    cases h
    exact .inl ⟨rfl, rfl, rfl, .inl rfl⟩
  rw [if_neg hempty] at h ⊢
  generalize deframe v.pending_byte data = samples at h ⊢
  obtain ⟨samples, pending_byte⟩ := samples
  dsimp only at h ⊢
  set v₀ : Vars F D R := { v with audio_received := true, pending_byte }
  have hstate₀ : v₀.state_opt = some state := hstate
  have htriplet₀ : v₀.triplet_opt = some triplet := htriplet
  generalize hresample : resample env (samples.map to_f32) v₀ = resampled at h ⊢
  obtain ⟨resampled, v₁⟩ := resampled
  obtain ⟨⟨resampler, hstate₁⟩, hsink₁, htriplet₁, haudio₁⟩ := resample_keeps hstate₀ hresample
  cases resampled with
  | error e =>
    cases h
    refine .inl ⟨rfl, hsink₁, ?_, .inr haudio₁⟩
    simp [Vars.pending, hstate, hstate₁]
  | ok samples_16k =>
    simp only [hstate₁, htriplet₁, htriplet₀] at h ⊢
    exact .inr ⟨_, triplet, samples_16k, { v₁ with state_opt := none, triplet_opt := none }, rfl,
      by simp [Vars.pending, hstate], hwords, hsink₁, rfl, haudio₁, h⟩

/-- What the task gave, and the words in it. -/
theorem spawn_blocking_returned {blocking : Blocking F} {samples : List F}
    {state state_back : SessionState F D R} {triplet triplet_back : Triplet F}
    {r : Except ChunkError (List (TranscriptSegment F))}
    (h : spawn_blocking env blocking samples state triplet =
      some (.returned r, state_back, triplet_back)) :
    env.engine.process_chunk samples state.stream triplet.sessions blocking.ts =
      (r, state_back.stream) := by
  unfold spawn_blocking at h
  split_ifs at h
  · simp at h
  · dsimp only at h
    split at h
    · simp at h
    · rename_i hchunk
      cases h
      exact hchunk

/-- The reply to a task, by what became of the task. -/
theorem on_joined_accounts (hsends : ∀ n, env.accepts n = true) {blocking : Blocking F}
    {samples : List F} {state : SessionState F D R} {triplet : Triplet F} {v₁ : Vars F D R}
    {r : Except Fault FrameOutcome} (hpending : v.pending = state.stream.assembler.words)
    (hwords : ∃ words, Assembled state.stream.assembler words) (hsink : v₁.sink = v.sink)
    (hstate : v₁.state_opt = none)
    (h : on_joined env v₁ (spawn_blocking env blocking samples state triplet) = (r, v')) :
    Accounts v v' (task_heard env blocking (state, triplet, samples))
      (bif task_keeps_state env blocking (state, triplet, samples) then [] else v.pending) := by
  simp only [task_heard, task_keeps_state]
  rcases htask : spawn_blocking env blocking samples state triplet with
    _ | ⟨_ | _, state_back, triplet_back⟩
  · rw [htask] at h
    cases h
    refine ⟨[], by rw [hsink, List.append_nil], .inr ⟨rfl, rfl, ?_, rfl⟩⟩
    simp [Vars.pending, hstate]
  · rename_i result
    have hchunk := spawn_blocking_returned htask
    rw [htask] at h
    cases result with
    | error e =>
      simp only [on_joined, reply_error, send_server_message, send_accepted hsends] at h
      cases h
      refine .quiet (by simp [sink_finals, Sent.final_words, hsink]) ?_
      rw [hpending]
      simp only [Vars.pending]
      rw [(process_chunk_error hchunk).1]
    | ok segments =>
      simp only [on_joined, send_segments_accepted hsends] at h
      cases h
      obtain ⟨words, hwords⟩ := hwords
      let call : ChunkCall F := { samples, triplet := triplet.sessions, ts := blocking.ts }
      let log : ChunkLog F := { heard := env.engine.heard state.stream call, segments }
      have hstep : Step env.engine state.stream state_back.stream call log :=
        process_chunk_spec hchunk
      obtain ⟨words', hwords', hdelivered⟩ := step_delivered hstep hwords
      refine ⟨finals segments, ?_, .inl ⟨rfl, ?_⟩⟩
      · rw [sink_finals_append, sink_finals_segments, hsink]
      · rw [hpending]
        have hbefore : SameWords (finals segments ++ state_back.stream.assembler.words)
            (finals segments ++ words') := SameWords.append rfl hwords'.words
        have hafter : SameWords (words ++ log.words) (state.stream.assembler.words ++ log.words) :=
          SameWords.append hwords.words.symm rfl
        exact (hbefore.trans hdelivered.finals).trans hafter
  · rw [htask] at h
    simp only [on_joined, reply_error, send_server_message, send_accepted hsends] at h
    cases h
    refine ⟨[], ?_, .inr ⟨rfl, rfl, rfl, rfl⟩⟩
    simp [sink_finals, Sent.final_words, hsink]

theorem handle_binary_frame_accounts (hsends : ∀ n, env.accepts n = true) {blocking : Blocking F}
    {data : List UInt8} {r : Except Fault FrameOutcome} (hv : Sound slot v)
    (h : handle_binary_frame env blocking data v = (r, v')) :
    Accounts v v' (frame_heard env blocking data v) (frame_lost env blocking data v) := by
  unfold frame_heard frame_lost
  rcases handle_binary_frame_cases hv h with
    ⟨hnone, hsink, hpending, -⟩ | ⟨state, triplet, samples, v₁, htask, hpending, hwords, hsink, hstate,
      -, hjoined⟩
  · rw [hnone]
    exact .quiet (by rw [hsink]) hpending
  · rw [htask]
    exact on_joined_accounts hsends hpending hwords hsink hstate hjoined

/-- Before the first audio there are no words, so a new state loses none. -/
def Vars.Quiet (v : Vars F D R) : Prop := v.audio_received = false → v.pending = []

theorem on_joined_audio (hsends : ∀ n, env.accepts n = true) {v₁ : Vars F D R}
    {task : Option (Caught F × SessionState F D R × Triplet F)} {r : Except Fault FrameOutcome}
    (haudio : v₁.audio_received = true) (h : on_joined env v₁ task = (r, v')) :
    v'.audio_received = true := by
  unfold on_joined at h
  split at h
  · rw [send_segments_accepted hsends] at h
    cases h
    exact haudio
  · simp only [reply_error, send_server_message, send_accepted hsends] at h
    cases h
    exact haudio
  · simp only [reply_error, send_server_message, send_accepted hsends] at h
    cases h
    exact haudio
  · cases h
    exact haudio

theorem handle_binary_frame_quiet (hsends : ∀ n, env.accepts n = true) {blocking : Blocking F}
    {data : List UInt8} {r : Except Fault FrameOutcome} (hv : Sound slot v) (hquiet : v.Quiet)
    (h : handle_binary_frame env blocking data v = (r, v')) : v'.Quiet := by
  intro haudio
  rcases handle_binary_frame_cases hv h with
    ⟨-, -, hpending, haudio'⟩ | ⟨state, triplet, samples, v₁, -, -, -, -, -, haudio₁, hjoined⟩
  · rcases haudio' with heq | htrue
    · rw [hpending]
      exact hquiet (heq ▸ haudio)
    · rw [htrue] at haudio
      cases haudio
  · rw [on_joined_audio hsends haudio₁ hjoined] at haudio
    cases haudio

omit [F32Pcm F] in
/-- A sample rate changes neither the words nor what the session has heard. -/
theorem configure_rate_keeps (hsends : ∀ n, env.accepts n = true) {sample_rate : Option UInt32}
    {r : Except Fault FrameOutcome} (h : configure_rate env sample_rate v = (r, v')) :
    sink_finals v'.sink = sink_finals v.sink ∧ v'.pending = v.pending ∧
      v'.audio_received = v.audio_received := by
  unfold configure_rate at h
  split at h
  · cases h
    exact ⟨rfl, rfl, rfl⟩
  · split_ifs at h
    · cases h
      exact ⟨rfl, rfl, rfl⟩
    · simp only [reply_error, send_server_message, send_accepted hsends] at h
      cases h
      exact ⟨by simp [sink_finals, Sent.final_words], rfl, rfl⟩

theorem configure_diarization_keeps (env : Env F D R) (diarization : Option Bool)
    (hpending : v.pending = []) :
    (configure_diarization env diarization v).sink = v.sink ∧
      (configure_diarization env diarization v).pending = [] := by
  unfold configure_diarization
  split
  · exact ⟨rfl, rfl⟩
  · exact ⟨rfl, hpending⟩

theorem handle_configure_message_accounts (hsends : ∀ n, env.accepts n = true)
    {sample_rate : Option UInt32} {diarization : Option Bool} {protocol_version : Option String}
    {r : Except Fault FrameOutcome} (hquiet : v.Quiet)
    (h : handle_configure_message env sample_rate diarization protocol_version v = (r, v')) :
    Accounts v v' [] [] ∧ v'.Quiet := by
  have hreply : ∀ {message code : String} {outcome : FrameOutcome},
      reply_error env message code outcome v = (r, v') → Accounts v v' [] [] ∧ v'.Quiet := by
    intro message code outcome h
    simp only [reply_error, send_server_message, send_accepted hsends] at h
    cases h
    exact ⟨.quiet (by simp [sink_finals, Sent.final_words]) rfl, hquiet⟩
  unfold handle_configure_message at h
  by_cases haudio : v.audio_received
  · rw [if_pos haudio] at h
    exact hreply h
  have hnone : v.pending = [] := hquiet (by simpa using haudio)
  rw [if_neg haudio] at h
  split at h
  · exact hreply h
  split at h
  · rename_i hrate
    obtain ⟨hsink, hpending, -⟩ := configure_rate_keeps hsends hrate
    cases h
    exact ⟨.quiet hsink hpending, fun _ => hpending.trans hnone⟩
  · rename_i hrate
    obtain ⟨hsink, hpending, -⟩ := configure_rate_keeps hsends hrate
    cases h
    obtain ⟨hsink', hpending'⟩ := configure_diarization_keeps env diarization (hpending.trans hnone)
    exact ⟨.quiet (by rw [hsink', hsink]) (hpending'.trans hnone.symm), fun _ => hpending'⟩

/-! ## Turns -/

/-- The turns that hand over the words that wait. -/
def Cause.flushes : Cause → Bool
  | .stop | .shutdown | .session_cap => true
  | .idle | .other => false

def WsMessage.frame : WsMessage → Option (List UInt8)
  | .Binary data => some data
  | _ => none

/-- A message that is not audio hears nothing. -/
theorem on_message_accounts (hsends : ∀ n, env.accepts n = true) {it : Iteration F} {msg : WsMessage}
    {r : Except Fault FrameOutcome} (hv : Sound slot v) (hquiet : v.Quiet)
    (h : on_message env it msg v = (r, v')) :
    (match msg with
      | .Binary data => Accounts v v' (frame_heard env it.blocking data v)
          (frame_lost env it.blocking data v)
      | _ => Accounts v v' [] []) ∧
      v'.Quiet ∧ (stops env msg = true → v'.pending = []) := by
  cases msg with
  | Binary data =>
    exact ⟨handle_binary_frame_accounts hsends hv h, handle_binary_frame_quiet hsends hv hquiet h,
      by simp [stops]⟩
  | Text text =>
    unfold on_message at h
    dsimp only at h
    split at h
    · rename_i hparse
      obtain ⟨haccounts, hquiet'⟩ := handle_configure_message_accounts hsends hquiet h
      exact ⟨haccounts, hquiet', by simp [stops, hparse]⟩
    · obtain ⟨haccounts, hempty⟩ := handle_stop_message_accounts env hsends it.ts hv
      rw [h] at haccounts hempty
      exact ⟨haccounts, fun _ => hempty, fun _ => hempty⟩
    · rename_i hparse
      cases h
      exact ⟨.quiet rfl rfl, hquiet, by simp [stops, hparse]⟩
  | Close | Ping | Pong =>
    cases h
    exact ⟨.quiet rfl rfl, hquiet, by simp [stops]⟩

/-- What a turn runs, and the frame it handles there. -/
inductive Arm (env : Env F D R) (deadline : Instant) (it : Iteration F) (v v' : Vars F D R) : Prop where
  | cancel (hframe : it.frame deadline = none) (hv' : v' = on_cancel env it.ts v)
  | deadline (hframe : it.frame deadline = none) (hv' : v' = on_deadline env it.ts v)
  | silence (hframe : it.frame deadline = none) (hcause : (it.cause env deadline).flushes = false)
      (hv' : v' = v)
  | message {msg : WsMessage} {r : Except Fault FrameOutcome} (hframe : it.frame deadline = msg.frame)
      (hcause : it.cause env deadline = if stops env msg then .stop else .other)
      (hmsg : on_message env it msg { v with source := v.source ++ [msg] } = (r, v'))

theorem turn_arm {deadline : Instant} {it : Iteration F} {result : Option (Except Fault Unit)}
    (h : turn env deadline it v = (result, v')) : Arm env deadline it v v' := by
  have hframe : it.frame deadline =
      if it.cancelled || session_cap_reached deadline it.now || it.cancel_wakes || it.deadline_wakes
      then none else match it.next with
        | .message (.Binary data) => some data
        | _ => none := rfl
  unfold turn at h
  by_cases h₁ : it.cancelled
  · rw [if_pos h₁] at h
    cases h
    exact .cancel (by simp [hframe, h₁]) rfl
  by_cases h₂ : session_cap_reached deadline it.now
  · rw [if_neg h₁, if_pos h₂] at h
    cases h
    exact .deadline (by simp [hframe, h₂]) rfl
  by_cases h₃ : it.cancel_wakes
  · rw [if_neg h₁, if_neg h₂, if_pos h₃] at h
    cases h
    exact .cancel (by simp [hframe, h₃]) rfl
  by_cases h₄ : it.deadline_wakes
  · rw [if_neg h₁, if_neg h₂, if_neg h₃, if_pos h₄] at h
    cases h
    exact .deadline (by simp [hframe, h₄]) rfl
  rw [if_neg h₁, if_neg h₂, if_neg h₃, if_neg h₄] at h
  rw [if_neg (by simp [h₁, h₂, h₃, h₄])] at hframe
  cases hnext : it.next with
  | error | closed | idle_timeout =>
    rw [hnext] at h hframe
    cases h
    exact .silence hframe (by simp [Iteration.cause, h₁, h₂, h₃, h₄, hnext, Cause.flushes]) rfl
  | message msg =>
    rw [hnext] at h hframe
    dsimp only at h hframe
    generalize hmsg : on_message env it msg { v with source := v.source ++ [msg] } = outcome at h
    obtain ⟨r, v₁⟩ := outcome
    have hv₁ : v₁ = v' := by
      cases r with
      | error e => exact congrArg Prod.snd h
      | ok outcome => cases outcome <;> exact congrArg Prod.snd h
    subst hv₁
    refine .message ?_ (by simp [Iteration.cause, h₁, h₂, h₃, h₄, hnext]) hmsg
    rw [hframe]
    cases msg <;> rfl

/-- What one turn does to the books. -/
theorem turn_accounts (hsends : ∀ n, env.accepts n = true) {deadline : Instant} {it : Iteration F}
    {result : Option (Except Fault Unit)} (hv : Sound slot v) (hquiet : v.Quiet)
    (h : turn env deadline it v = (result, v')) :
    Accounts v v' (turn_words env deadline it v).1 (turn_words env deadline it v).2 ∧
      v'.Quiet ∧ ((it.cause env deadline).flushes = true → v'.pending = []) := by
  unfold turn_words
  cases turn_arm h with
  | cancel hframe hv' =>
    obtain ⟨haccounts, hempty⟩ := on_cancel_accounts env hsends it.ts hv
    rw [hframe, hv']
    exact ⟨haccounts, fun _ => hempty, fun _ => hempty⟩
  | deadline hframe hv' =>
    obtain ⟨haccounts, hempty⟩ := on_deadline_accounts env hsends it.ts hv
    rw [hframe, hv']
    exact ⟨haccounts, fun _ => hempty, fun _ => hempty⟩
  | silence hframe hcause hv' =>
    rw [hframe, hcause, hv']
    exact ⟨.quiet rfl rfl, hquiet, by simp⟩
  | @message msg r hframe hcause hmsg =>
    have hv₀ : Sound slot { v with source := v.source ++ [msg] } := hv.of_eq rfl rfl
    obtain ⟨haccounts, hquiet', hempty⟩ := on_message_accounts hsends hv₀ hquiet hmsg
    refine ⟨?_, hquiet', ?_⟩
    · rw [hframe]
      cases msg with
      | Binary data => exact haccounts
      | Text | Close | Ping | Pong => exact haccounts
    · rw [hcause]
      split_ifs with hstop
      · exact fun _ => hempty hstop
      · simp [Cause.flushes]

/-! ## Runs -/

/-- Of the words heard, those in finals and those that wait come in order, each as often as
it was heard, except for the ones that were lost. -/
structure Books (heard lost : List (WordInfo F)) (v : Vars F D R) : Prop where
  order : List.Sublist ((sink_finals v.sink ++ v.pending).map unlabelled) (heard.map unlabelled)
  each : List.Perm ((sink_finals v.sink ++ v.pending ++ lost).map unlabelled) (heard.map unlabelled)

omit [F32Pcm F] in
theorem Books.turn {heard lost heard' lost' : List (WordInfo F)} (h : Books heard lost v)
    (haccounts : Accounts v v' heard' lost') : Books (heard ++ heard') (lost ++ lost') v' := by
  obtain ⟨horder, heach⟩ := h
  rw [List.map_append] at heach
  obtain ⟨said, hsink, ⟨rfl, hsame⟩ | ⟨rfl, rfl, hempty, rfl⟩⟩ := haccounts
  · have hwords : (sink_finals v'.sink ++ v'.pending).map unlabelled =
        (sink_finals v.sink ++ v.pending).map unlabelled ++ heard'.map unlabelled := by
      rw [hsink, List.append_assoc, List.map_append, hsame, ← List.map_append, ← List.append_assoc,
        List.map_append]
    have hheard : (heard ++ heard').map unlabelled =
        heard.map unlabelled ++ heard'.map unlabelled := List.map_append
    constructor
    · rw [hwords, hheard]
      exact horder.append_right _
    · rw [List.append_nil, List.map_append, hwords, hheard]
      refine List.Perm.trans ?_ (heach.append_right _)
      rw [List.append_assoc, List.append_assoc]
      exact List.perm_append_comm.append_left _
  · rw [List.append_nil] at hsink
    have hfinals : (sink_finals v.sink).Sublist (sink_finals v.sink ++ v.pending) :=
      List.sublist_append_left _ _
    constructor
    · rw [hsink, hempty, List.append_nil, List.append_nil]
      exact (hfinals.map _).trans horder
    · rw [hsink, hempty, List.append_nil, List.append_nil, List.map_append, List.map_append]
      rw [List.map_append, List.append_assoc] at heach
      exact (List.perm_append_comm.append_left _).trans heach

omit [F32Pcm F] in
theorem Books.unlost {heard : List (WordInfo F)} (h : Books heard [] v) :
    SameWords (sink_finals v.sink ++ v.pending) heard := by
  refine h.order.eq_of_length ?_
  have heach := h.each.length_eq
  rwa [List.append_nil] at heach

/-- The books of a run. -/
def WsLoop.words (env : Env F D R) (deadline : Instant) (triplet : Triplet F)
    (its : List (Iteration F)) : List (List (WordInfo F) × List (WordInfo F)) :=
  Steps.trace (WsLoop.step env deadline)
    (fun s it => [turn_words env deadline it s.vars]) (WsLoop.new env triplet) its

/-- The session between two turns, after turns with these words. -/
structure Accounted (slot : Nat) (words : List (List (WordInfo F) × List (WordInfo F)))
    (s : WsLoop F D R) : Prop where
  books : Books (words.flatMap Prod.fst) (words.flatMap Prod.snd) s.vars
  quiet : s.vars.Quiet
  sound : s.result = none → Sound slot s.vars

theorem accounted_new (env : Env F D R) (triplet : Triplet F) :
    Accounted triplet.slot [] (WsLoop.new env triplet) :=
  ⟨⟨.refl _, .refl _⟩, fun _ => rfl, fun _ => sound_new triplet⟩

theorem Accounted.step (hsends : ∀ n, env.accepts n = true) {deadline : Instant}
    {words : List (List (WordInfo F) × List (WordInfo F))} {s s' : WsLoop F D R} {it : Iteration F}
    (hs : Accounted slot words s) (h : WsLoop.step env deadline s it = some s') :
    Accounted slot (words ++ [turn_words env deadline it s.vars]) s' ∧
      ((it.cause env deadline).flushes = true → s'.vars.pending = []) := by
  have hopen := open_of_step h
  have hturn : turn env deadline it s.vars = (s'.result, s'.vars) := by
    unfold WsLoop.step at h
    rw [hopen] at h
    cases h
    rfl
  obtain ⟨haccounts, hquiet, hempty⟩ := turn_accounts hsends (hs.sound hopen) hs.quiet hturn
  refine ⟨⟨?_, hquiet, sound_step hs.sound h⟩, hempty⟩
  simpa using hs.books.turn haccounts

theorem accounted_of_run (hsends : ∀ n, env.accepts n = true) {deadline : Instant} {triplet : Triplet F}
    {its : List (Iteration F)} {s : WsLoop F D R}
    (hrun : WsLoop.run env deadline triplet its = some s) :
    Accounted triplet.slot (WsLoop.words env deadline triplet its) s := by
  have h : Accounted triplet.slot ([] ++ WsLoop.words env deadline triplet its) s :=
    Steps.inv_of_trace (P := fun _ _ => True) (Accounted triplet.slot)
      (fun _ _ _ _ _ h hs => (hs.step hsends h).1) hrun
      (Steps.eachStep_of_forall (fun _ _ => trivial) _ _) (accounted_new env triplet)
  rwa [List.nil_append] at h

/-- In a session in which sends work no word is lost, doubled or moved, save for the words
that a panic or a lost task took along, and none waits once the session was stopped, shut
down or capped. -/
theorem words_accounted (env : Env F D R) (deadline : Instant) (triplet : Triplet F)
    (its : List (Iteration F)) (s : WsLoop F D R) (hsends : ∀ n, env.accepts n = true)
    (hrun : WsLoop.run env deadline triplet its = some s) :
    let words := WsLoop.words env deadline triplet its
    let delivered := sink_finals (env.delivered s.vars.sink)
    let heard := words.flatMap Prod.fst
    let lost := words.flatMap Prod.snd
    List.Sublist ((delivered ++ s.vars.pending).map unlabelled) (heard.map unlabelled) ∧
      List.Perm ((delivered ++ s.vars.pending ++ lost).map unlabelled) (heard.map unlabelled) ∧
      (lost = [] → SameWords (delivered ++ s.vars.pending) heard) ∧
      (∀ before last, its = before ++ [last] → (last.cause env deadline).flushes = true →
        s.vars.pending = []) := by
  dsimp only
  rw [delivered_eq hsends]
  have haccounted := accounted_of_run hsends hrun
  refine ⟨haccounted.books.order, haccounted.books.each, fun hlost => ?_, ?_⟩
  · have hbooks := haccounted.books
    rw [hlost] at hbooks
    exact hbooks.unlost
  · rintro before last rfl hflushes
    obtain ⟨s₁, hbefore, hlast⟩ := Steps.run_append.mp hrun
    obtain ⟨s₂, hstep, hend⟩ := Steps.run_cons_eq_some.mp hlast
    cases hend
    exact ((accounted_of_run hsends hbefore).step hsends hstep).2 hflushes

end Frames

/-- The word `yes` was heard before the shutdown, and no longer waits after it. -/
theorem words_accounted_at_shutdown :
    ∃ its s s', WsLoop.run yes_env .last yes_triplet its = some s ∧
      "yes".toList ∈ ((WsLoop.words yes_env .last yes_triplet its).flatMap Prod.fst).map WordInfo.word ∧
      WsLoop.run yes_env .last yes_triplet (its ++ [{ yes_turn .idle_timeout with cancelled := true }]) =
        some s' ∧ s'.vars.pending = [] := by
  obtain ⟨its, s, hrun, hopen, hwords, -⟩ := yes_pending
  obtain ⟨s', hlast⟩ :=
    step_of_open yes_env .last hopen { yes_turn .idle_timeout with cancelled := true }
  have hrun' : WsLoop.run yes_env .last yes_triplet
      (its ++ [{ yes_turn .idle_timeout with cancelled := true }]) = some s' :=
    Steps.run_append.mpr ⟨s, hrun, Steps.run_cons_eq_some.mpr ⟨s', hlast, rfl⟩⟩
  have hsends : ∀ n, yes_env.accepts n = true := fun _ => rfl
  obtain ⟨horder, -, -, -⟩ := words_accounted yes_env .last yes_triplet its s hsends hrun
  obtain ⟨-, -, -, hempty⟩ := words_accounted yes_env .last yes_triplet _ s' hsends hrun'
  refine ⟨its, s, s', hrun, ?_, hrun', hempty its _ rfl ?_⟩
  · have hheard := horder.subset
    rw [List.map_append] at hheard
    have hyes : "yes".toList ∈ s.vars.pending.map WordInfo.word := by rw [hwords]; simp
    obtain ⟨w, hw, hword⟩ := List.mem_map.mp hyes
    obtain ⟨w', hw', hsame⟩ := List.mem_map.mp
      (hheard (List.mem_append_right _ (List.mem_map_of_mem hw)))
    refine List.mem_map.mpr ⟨w', hw', ?_⟩
    rw [← hword]
    exact (congrArg WordInfo.word hsame : (unlabelled w').word = (unlabelled w).word)
  · simp [Iteration.cause, Cause.flushes]

end Gigastt.Session
