import Gigastt.Session.Code
import Gigastt.Streaming.Delivery

/-!
# What one turn of the session loop can do

A message handler either leaves a state and the triplet behind, or it was the stop
handler, or the blocking task was lost. All it sends are partials, finals and errors.
-/

namespace Gigastt.Session

open Decode Server Streaming Words

variable {F D R : Type}

/-- The message may stand between `Ready` and the ending. -/
def Sent.is_body : Sent F → Bool
  | .Text (.Partial _) | .Text (.Final _) | .Text (.Error _ _ _) => true
  | _ => false

/-- The session has sent more of the body. -/
def Said (v v' : Vars F D R) : Prop :=
  ∃ body, v'.sink = v.sink ++ body ∧ ∀ m ∈ body, m.is_body = true

theorem Said.refl (v : Vars F D R) : Said v v := ⟨[], by simp, by simp⟩

theorem Said.one {v v' : Vars F D R} {m : Sent F} (hsink : v'.sink = v.sink ++ [m])
    (hm : m.is_body = true) : Said v v' := ⟨[m], hsink, by simpa using hm⟩

theorem Said.trans {v v' v'' : Vars F D R} (h : Said v v') (h' : Said v' v'') : Said v v'' := by
  obtain ⟨body, hsink, hbody⟩ := h
  obtain ⟨body', hsink', hbody'⟩ := h'
  refine ⟨body ++ body', by rw [hsink', hsink, List.append_assoc], ?_⟩
  intro m hm
  rcases List.mem_append.mp hm with hm | hm
  · exact hbody m hm
  · exact hbody' m hm

/-- The state is there, its assembler in order, and so is the triplet of this slot. -/
structure Sound (slot : Nat) (v : Vars F D R) : Prop where
  state : ∃ state, v.state_opt = some state ∧ ∃ words, Assembled state.stream.assembler words
  triplet : ∃ triplet, v.triplet_opt = some triplet ∧ triplet.slot = slot

/-- The errors of an option that was found empty. -/
def Lost (e : Fault) : Prop := e = .err ["Streaming state lost"] ∨ e = .err ["Triplet lost"]

variable {env : Env F D R} {slot : Nat} {v v' : Vars F D R}

theorem Sound.of_eq (h : Sound slot v) (hstate : v'.state_opt = v.state_opt)
    (htriplet : v'.triplet_opt = v.triplet_opt) : Sound slot v' :=
  ⟨hstate ▸ h.state, htriplet ▸ h.triplet⟩

theorem not_lost_send : ¬ Lost (.err []) := by simp [Lost]

/-! ## Replies -/

theorem send_server_message_spec {msg : ServerMessage F} {r : Except Fault Unit}
    (h : send_server_message env msg v = (r, v')) :
    v' = { v with sink := v.sink ++ [.Text msg] } ∧ (r = .ok () ∨ r = .error (.err [])) := by
  unfold send_server_message send at h
  obtain ⟨hr, hv⟩ := Prod.mk.inj h
  refine ⟨hv.symm, ?_⟩
  rw [← hr]
  split
  · exact .inl rfl
  · exact .inr rfl

theorem reply_error_spec {message code : String} {outcome : FrameOutcome}
    {r : Except Fault FrameOutcome} (h : reply_error env message code outcome v = (r, v')) :
    v' = { v with sink := v.sink ++ [.Text (.Error message code none)] } ∧
      (r = .ok outcome ∨ r = .error (.err [])) := by
  unfold reply_error at h
  split at h
  · rename_i hsend
    obtain ⟨hv, hr⟩ := send_server_message_spec hsend
    cases h
    exact ⟨hv, .inr (by simpa using hr)⟩
  · rename_i hsend
    cases h
    exact ⟨(send_server_message_spec hsend).1, .inl rfl⟩

theorem send_segments_spec {segments : List (TranscriptSegment F)} {r : Except Fault FrameOutcome}
    (h : send_segments env segments v = (r, v')) :
    (∃ body, v' = { v with sink := v.sink ++ body } ∧ ∀ m ∈ body, m.is_body = true) ∧
      (r = .ok .Continue ∨ r = .error (.err [])) := by
  induction segments generalizing v with
  | nil =>
    cases h
    exact ⟨⟨[], by simp, by simp⟩, .inl rfl⟩
  | cons seg segments ih =>
    have hbody : (Sent.Text (segment_message seg)).is_body = true := by
      unfold segment_message
      split <;> rfl
    unfold send_segments at h
    split at h
    · rename_i hsend
      obtain ⟨hv, hr⟩ := send_server_message_spec hsend
      cases h
      exact ⟨⟨[_], hv, by simpa using hbody⟩, .inr (by simpa using hr)⟩
    · rename_i hsend
      obtain ⟨hv, -⟩ := send_server_message_spec hsend
      obtain ⟨⟨body, hv', hall⟩, hr⟩ := ih h
      refine ⟨⟨.Text (segment_message seg) :: body, ?_, ?_⟩, hr⟩
      · rw [hv', hv]
        simp
      · simpa [hbody] using hall

theorem send_segments_accepted (hsends : ∀ n, env.accepts n = true)
    (segments : List (TranscriptSegment F)) (v : Vars F D R) :
    send_segments env segments v =
      (.ok .Continue,
        { v with sink := v.sink ++ segments.map fun seg => .Text (segment_message seg) }) := by
  induction segments generalizing v with
  | nil => simp [send_segments]
  | cons seg segments ih =>
    simp [send_segments, send_server_message, send, hsends, ih]

theorem final_message_is_final (flush_seg : Option (TranscriptSegment F)) (ts : ℚ) :
    ∃ seg, final_message flush_seg ts = .Final seg := by
  cases flush_seg with
  | none => exact ⟨_, rfl⟩
  | some seg => exact ⟨seg, rfl⟩

/-! ## Handlers -/

def stops (env : Env F D R) : WsMessage → Bool
  | .Text text => env.from_str text == some .Stop
  | _ => false

/-- What a handler can make of the variables `v`. -/
inductive Handled (env : Env F D R) (slot : Nat) (it : Iteration F) (msg : WsMessage)
    (v : Vars F D R) : Except Fault FrameOutcome → Vars F D R → Prop where
  | served {r : Except Fault FrameOutcome} {v' : Vars F D R} (hstop : stops env msg = false)
      (hsound : Sound slot v') (hsaid : Said v v') (hlost : ∀ e, r = .error e → ¬ Lost e) :
      Handled env slot it msg v r v'
  | stopped {r : Except Fault FrameOutcome} (seg : TranscriptSegment F)
      (hstop : stops env msg = true) (hr : r = .ok .Break ∨ r = .error (.err [])) :
      Handled env slot it msg v r
        { v with state_opt := none, sink := v.sink ++ [.Text (.Final seg)] }
  | unjoined {v' : Vars F D R} (hstop : stops env msg = false) (hjoin : it.blocking.join_fails = true)
      (htriplet : v'.triplet_opt = none) (hsink : v'.sink = v.sink) :
      Handled env slot it msg v (.error (.err ["Blocking task join failed"])) v'

theorem handle_stop_message_spec {it : Iteration F} {msg : WsMessage} {ts : ℚ}
    {r : Except Fault FrameOutcome} (hstop : stops env msg = true) (hv : Sound slot v)
    (h : handle_stop_message env ts v = (r, v')) : Handled env slot it msg v r v' := by
  obtain ⟨state, hstate, -⟩ := hv.state
  unfold handle_stop_message at h
  simp only [hstate] at h
  obtain ⟨seg, hseg⟩ := final_message_is_final (flush_state state.stream ts).1 ts
  rw [hseg] at h
  split at h
  · rename_i hsend
    obtain ⟨hv', hr⟩ := send_server_message_spec hsend
    cases h
    subst hv'
    exact .stopped seg hstop (.inr (by simpa using hr))
  · rename_i hsend
    obtain ⟨hv', -⟩ := send_server_message_spec hsend
    cases h
    subst hv'
    exact .stopped seg hstop (.inl rfl)

/-! ## Endings -/

/-- The words that the streaming state holds. -/
def Vars.pending (v : Vars F D R) : List (WordInfo F) :=
  match v.state_opt with
  | some state => state.stream.assembler.words
  | none => []

theorem flush_and_final_spec (env : Env F D R) (ts : ℚ) (hv : Sound slot v) :
    ∃ state' seg, (flush_and_final env ts v).2 =
      { v with state_opt := some state', sink := v.sink ++ [.Text (.Final seg)] } ∧
      seg.words = v.pending := by
  obtain ⟨state, hstate, words, hwords⟩ := hv.state
  unfold flush_and_final Vars.pending
  simp only [hstate]
  generalize hflush : flush_state state.stream ts = flushed
  obtain ⟨flush_seg, stream⟩ := flushed
  unfold flush_state at hflush
  by_cases hempty : state.stream.assembler.is_empty
  · rw [if_pos hempty] at hflush
    cases hflush
    refine ⟨_, _, rfl, ?_⟩
    have hnil : words = [] := hwords.is_empty_iff.mp hempty
    have hsame := hwords.words
    rw [hnil] at hsame
    exact (List.map_eq_nil_iff.mp hsame).symm
  · rw [if_neg hempty] at hflush
    cases hflush
    exact ⟨_, _, rfl, rfl⟩

theorem on_cancel_spec (env : Env F D R) (ts : ℚ) (hv : Sound slot v) :
    ∃ seg, (on_cancel env ts v).sink = v.sink ++
        [.Text (.Final seg), .Close { code := 1001, reason := "server shutdown" }] ∧
      seg.words = v.pending ∧ (on_cancel env ts v).triplet_opt = v.triplet_opt ∧
      (on_cancel env ts v).source = v.source := by
  obtain ⟨state', seg, hflush, hseg⟩ := flush_and_final_spec env ts hv
  refine ⟨seg, ?_, hseg, ?_, ?_⟩
  · simp [on_cancel, send, hflush]
  · simp [on_cancel, send, hflush]
  · simp [on_cancel, send, hflush]

theorem on_deadline_spec (env : Env F D R) (ts : ℚ) (hv : Sound slot v) :
    ∃ seg, (on_deadline env ts v).sink = v.sink ++
        [.Text (.Error "Maximum session duration exceeded" "max_session_duration_exceeded" none),
          .Text (.Final seg), .Close { code := 1008, reason := "max session duration" }] ∧
      seg.words = v.pending ∧ (on_deadline env ts v).triplet_opt = v.triplet_opt ∧
      (on_deadline env ts v).source = v.source := by
  set v₁ : Vars F D R := { v with sink := v.sink ++
    [.Text (.Error "Maximum session duration exceeded" "max_session_duration_exceeded" none)] }
  have hv₁ : Sound slot v₁ := hv.of_eq rfl rfl
  obtain ⟨state', seg, hflush, hseg⟩ := flush_and_final_spec env ts hv₁
  refine ⟨seg, ?_, hseg, ?_, ?_⟩
  · simp [on_deadline, send, send_server_message, hflush, v₁]
  · simp [on_deadline, send, send_server_message, hflush, v₁]
  · simp [on_deadline, send, send_server_message, hflush, v₁]

variable [F32Pcm F]

theorem assembled_create_state (enabled : Bool) :
    ∃ words, Assembled (env.create_state enabled).stream.assembler words := ⟨[], Assembled.new⟩

theorem init_failed_not_lost (text e : String) (h : text = "Resampler init failed: " ∨
    text = "Resampling failed: ") : ¬ Lost (.err [text ++ e]) := by
  rintro (hlost | hlost) <;>
  · have hchars := congrArg String.toList (List.singleton_inj.mp (Fault.err.inj hlost))
    rcases h with rfl | rfl <;> simp [String.toList_append] at hchars

theorem resample_with_cache_not_lost {rubato : Rubato F R} {samples : List F} {rate rate' : UInt32}
    {cache cache' : Option R} {e : Fault}
    (h : resample_with_cache rubato samples rate rate' cache = (.error e, cache')) : ¬ Lost e := by
  unfold resample_with_cache at h
  split_ifs at h
  · simp at h
  · simp at h
  · dsimp only at h
    split at h
    · rename_i hresampler
      unfold Rubato.resampler at hresampler
      dsimp only at hresampler
      cases h
      split at hresampler
      · simp at hresampler
      · split at hresampler
        · simp at hresampler
        · cases hresampler
          exact init_failed_not_lost _ _ (.inl rfl)
    · split at h
      · cases h
        exact init_failed_not_lost _ _ (.inr rfl)
      · simp at h

theorem resample_spec {samples_f32 : List F} {r : Except Fault (List F)} (hv : Sound slot v)
    (h : resample env samples_f32 v = (r, v')) :
    Sound slot v' ∧ v'.sink = v.sink ∧ ∀ e, r = .error e → ¬ Lost e := by
  obtain ⟨⟨state, hstate, hwords⟩, htriplet⟩ := hv
  unfold resample at h
  split_ifs at h
  · cases h
    exact ⟨⟨⟨state, hstate, hwords⟩, htriplet⟩, rfl, by simp⟩
  · simp only [hstate] at h
    obtain ⟨hr, rfl⟩ := Prod.mk.inj h
    refine ⟨⟨⟨_, rfl, hwords⟩, htriplet⟩, rfl, fun e he => ?_⟩
    exact resample_with_cache_not_lost (Prod.ext (hr.trans he) rfl)

/-- The task loses everything, or gives a triplet of the same slot and, unless it panicked,
a state in order. -/
def Joined (slot : Nat) (blocking : Blocking F) :
    Option (Caught F × SessionState F D R × Triplet F) → Prop
  | none => blocking.join_fails = true
  | some (.returned _, state_back, triplet_back) =>
    triplet_back.slot = slot ∧ ∃ words, Assembled state_back.stream.assembler words
  | some (.panicked, _, triplet_back) => triplet_back.slot = slot

theorem spawn_blocking_spec {blocking : Blocking F} {samples_16k : List F}
    {state : SessionState F D R} {triplet : Triplet F} {words : List (WordInfo F)}
    (hwords : Assembled state.stream.assembler words) :
    Joined triplet.slot blocking (spawn_blocking env blocking samples_16k state triplet) := by
  unfold spawn_blocking
  by_cases hjoin : blocking.join_fails
  · simp [hjoin, Joined]
  by_cases hpanics : blocking.panics
  · simp [hjoin, hpanics, Joined]
  simp only [hjoin, hpanics, Bool.false_eq_true, if_false]
  generalize hchunk :
    env.engine.process_chunk samples_16k state.stream triplet.sessions blocking.ts = chunk
  obtain ⟨r, stream⟩ := chunk
  cases r with
  | error e =>
    have hkept := process_chunk_error hchunk
    cases e with
    | Inference source => exact ⟨rfl, words, hkept.1 ▸ hwords⟩
    | panic about => exact Eq.refl triplet.slot
  | ok segments =>
    let call : ChunkCall F := ⟨samples_16k, triplet.sessions, blocking.ts⟩
    have hcall : env.engine.process_chunk call.samples state.stream call.triplet call.ts =
        (.ok segments, stream) := hchunk
    have hstep := process_chunk_spec hcall
    obtain ⟨words', hwords', -⟩ := step_delivered hstep hwords
    exact ⟨rfl, words', hwords'⟩

theorem not_lost_of_reply {r : Except Fault FrameOutcome} {outcome : FrameOutcome}
    (hr : r = .ok outcome ∨ r = .error (.err [])) : ∀ e, r = .error e → ¬ Lost e := by
  rintro e he
  rcases hr with rfl | rfl
  · simp at he
  · cases he
    exact not_lost_send

theorem on_joined_spec {v₀ : Vars F D R} {it : Iteration F} {msg : WsMessage}
    {task : Option (Caught F × SessionState F D R × Triplet F)} {r : Except Fault FrameOutcome}
    (hstop : stops env msg = false) (hsink : v.sink = v₀.sink) (htriplet : v.triplet_opt = none)
    (htask : Joined slot it.blocking task) (h : on_joined env v task = (r, v')) :
    Handled env slot it msg v₀ r v' := by
  unfold on_joined at h
  split at h
  · obtain ⟨⟨body, rfl, hbody⟩, hr⟩ := send_segments_spec h
    exact .served hstop ⟨⟨_, rfl, htask.2⟩, ⟨_, rfl, htask.1⟩⟩ ⟨body, by rw [← hsink], hbody⟩
      (not_lost_of_reply hr)
  · obtain ⟨rfl, hr⟩ := reply_error_spec h
    exact .served hstop ⟨⟨_, rfl, htask.2⟩, ⟨_, rfl, htask.1⟩⟩ (.one (by rw [← hsink]) rfl)
      (not_lost_of_reply hr)
  · obtain ⟨rfl, hr⟩ := reply_error_spec h
    exact .served hstop ⟨⟨_, rfl, assembled_create_state false⟩, ⟨_, rfl, htask⟩⟩
      (.one (by rw [← hsink]) rfl) (not_lost_of_reply hr)
  · cases h
    exact .unjoined hstop htask htriplet hsink

theorem handle_binary_frame_spec {it : Iteration F} {msg : WsMessage} {data : List UInt8}
    {r : Except Fault FrameOutcome} (hstop : stops env msg = false) (hv : Sound slot v)
    (h : handle_binary_frame env it.blocking data v = (r, v')) :
    Handled env slot it msg v r v' := by
  unfold handle_binary_frame at h
  by_cases hempty : data.isEmpty
  · rw [if_pos hempty] at h
    cases h
    exact .served hstop hv (.refl v) (by simp)
  rw [if_neg hempty] at h
  dsimp only at h
  generalize hres : resample env _ _ = resampled at h
  obtain ⟨r₁, v₁⟩ := resampled
  have hv₀ : Sound slot
      { v with audio_received := true, pending_byte := (deframe v.pending_byte data).2 } :=
    hv.of_eq rfl rfl
  obtain ⟨hv₁, hsink, hlost⟩ := resample_spec hv₀ hres
  cases r₁ with
  | error e =>
    cases h
    exact .served hstop hv₁ ⟨[], by simpa using hsink, by simp⟩ fun e' he => hlost e' (by cases he; rfl)
  | ok samples_16k =>
    obtain ⟨⟨state, hstate, words, hwords⟩, ⟨triplet, htriplet, rfl⟩⟩ := hv₁
    simp only [hstate, htriplet] at h
    refine on_joined_spec hstop ?_ ?_ (spawn_blocking_spec hwords) h
    · exact hsink
    · rfl

theorem handle_configure_message_spec {it : Iteration F} {msg : WsMessage}
    {sample_rate : Option UInt32} {diarization : Option Bool} {protocol_version : Option String}
    {r : Except Fault FrameOutcome} (hstop : stops env msg = false) (hv : Sound slot v)
    (h : handle_configure_message env sample_rate diarization protocol_version v = (r, v')) :
    Handled env slot it msg v r v' := by
  have hreply : ∀ {message code : String} {outcome : FrameOutcome},
      reply_error env message code outcome v = (r, v') → Handled env slot it msg v r v' := by
    intro message code outcome h
    obtain ⟨rfl, hr⟩ := reply_error_spec h
    exact .served hstop (hv.of_eq rfl rfl) (.one rfl rfl) (not_lost_of_reply hr)
  unfold handle_configure_message at h
  split at h
  · exact hreply h
  split at h
  · exact hreply h
  have hrate : ∀ {r₁ : Except Fault FrameOutcome} {v₁ : Vars F D R},
      configure_rate env sample_rate v = (r₁, v₁) →
        Sound slot v₁ ∧ Said v v₁ ∧ ∀ e, r₁ = .error e → ¬ Lost e := by
    intro r₁ v₁ h₁
    unfold configure_rate at h₁
    split at h₁
    · cases h₁
      exact ⟨hv, .refl v, by simp⟩
    · split_ifs at h₁
      · cases h₁
        exact ⟨hv.of_eq rfl rfl, ⟨[], by simp, by simp⟩, by simp⟩
      · obtain ⟨rfl, hr⟩ := reply_error_spec h₁
        exact ⟨hv.of_eq rfl rfl, .one rfl rfl, not_lost_of_reply hr⟩
  split at h
  · rename_i h₁
    obtain ⟨hv₁, hsaid, hlost⟩ := hrate h₁
    cases h
    exact .served hstop hv₁ hsaid fun e' he => hlost e' (by cases he; rfl)
  · rename_i v₁ h₁
    obtain ⟨hv₁, hsaid, -⟩ := hrate h₁
    cases h
    refine .served hstop ?_ ?_ (by simp)
    · unfold configure_diarization
      split
      · exact ⟨⟨_, rfl, assembled_create_state _⟩, hv₁.triplet⟩
      · exact hv₁
    · unfold configure_diarization
      split
      · exact hsaid
      · exact hsaid

theorem on_message_spec {it : Iteration F} {msg : WsMessage} {r : Except Fault FrameOutcome}
    (hv : Sound slot v) (h : on_message env it msg v = (r, v')) :
    Handled env slot it msg v r v' := by
  cases msg with
  | Binary data => exact handle_binary_frame_spec rfl hv h
  | Text text =>
    unfold on_message at h
    dsimp only at h
    split at h
    · rename_i hparse
      exact handle_configure_message_spec (by simp [stops, hparse]) hv h
    · rename_i hparse
      exact handle_stop_message_spec (by simp [stops, hparse]) hv h
    · rename_i hparse
      cases h
      exact .served (by simp [stops, hparse]) hv (.refl v) (by simp)
  | Close | Ping | Pong =>
    cases h
    exact .served rfl hv (.refl v) (by simp)

/-! ## Turns -/

/-- Why a turn of the loop may be the last one. -/
inductive Cause where
  | stop
  | shutdown
  | session_cap
  | idle
  | other
deriving DecidableEq, Repr

def Iteration.cause (env : Env F D R) (deadline : Instant) (it : Iteration F) : Cause :=
  if it.cancelled then .shutdown
  else if session_cap_reached deadline it.now then .session_cap
  else if it.cancel_wakes then .shutdown
  else if it.deadline_wakes then .session_cap
  else
    match it.next with
    | .idle_timeout => .idle
    | .message msg => if stops env msg then .stop else .other
    | .error | .closed => .other

/-- What the loop makes of the outcome of a handler. -/
def broken_by : Except Fault FrameOutcome → Option (Except Fault Unit)
  | .ok .Continue => none
  | .ok .Break => some (.ok ())
  | .error e => some (.error e)

theorem broken_by_eq_error {r : Except Fault FrameOutcome} {e : Fault} :
    broken_by r = some (.error e) ↔ r = .error e := by
  unfold broken_by
  split <;> simp

theorem broken_by_stop {r : Except Fault FrameOutcome} (hr : r = .ok .Break ∨ r = .error (.err [])) :
    broken_by r ≠ none := by
  rcases hr with rfl | rfl <;> simp [broken_by]

inductive Turned (env : Env F D R) (deadline : Instant) (slot : Nat) (it : Iteration F)
    (v : Vars F D R) : Option (Except Fault Unit) → Vars F D R → Prop where
  | cancelled (hc : it.cause env deadline = .shutdown) :
      Turned env deadline slot it v (some (.ok ())) (on_cancel env it.ts v)
  | capped (hc : it.cause env deadline = .session_cap) :
      Turned env deadline slot it v (some (.ok ())) (on_deadline env it.ts v)
  | idle (hc : it.cause env deadline = .idle) : Turned env deadline slot it v (some (.ok ())) v
  | hung_up (r : Except Fault Unit) (hc : it.cause env deadline = .other)
      (hr : r = .ok () ∨ r = .error (.err [])) : Turned env deadline slot it v (some r) v
  | message {msg : WsMessage} {r : Except Fault FrameOutcome} {v' : Vars F D R}
      (hc : it.cause env deadline = if stops env msg then .stop else .other)
      (h : Handled env slot it msg { v with source := v.source ++ [msg] } r v') :
      Turned env deadline slot it v (broken_by r) v'

theorem turned {deadline : Instant} {it : Iteration F} {result : Option (Except Fault Unit)}
    (hv : Sound slot v) (h : turn env deadline it v = (result, v')) :
    Turned env deadline slot it v result v' := by
  unfold turn at h
  by_cases h₁ : it.cancelled
  · rw [if_pos h₁] at h
    cases h
    exact .cancelled (by simp [Iteration.cause, h₁])
  by_cases h₂ : session_cap_reached deadline it.now
  · rw [if_neg h₁, if_pos h₂] at h
    cases h
    exact .capped (by simp [Iteration.cause, h₁, h₂])
  by_cases h₃ : it.cancel_wakes
  · rw [if_neg h₁, if_neg h₂, if_pos h₃] at h
    cases h
    exact .cancelled (by simp [Iteration.cause, h₁, h₂, h₃])
  by_cases h₄ : it.deadline_wakes
  · rw [if_neg h₁, if_neg h₂, if_neg h₃, if_pos h₄] at h
    cases h
    exact .capped (by simp [Iteration.cause, h₁, h₂, h₃, h₄])
  rw [if_neg h₁, if_neg h₂, if_neg h₃, if_neg h₄] at h
  have hcause : it.cause env deadline =
      match it.next with
      | .idle_timeout => .idle
      | .message msg => if stops env msg then .stop else .other
      | .error | .closed => .other := by
    simp [Iteration.cause, h₁, h₂, h₃, h₄]
  cases hnext : it.next with
  | error =>
    rw [hnext] at h hcause
    cases h
    exact .hung_up _ hcause (.inr rfl)
  | closed =>
    rw [hnext] at h hcause
    cases h
    exact .hung_up _ hcause (.inl rfl)
  | idle_timeout =>
    rw [hnext] at h hcause
    cases h
    exact .idle hcause
  | message msg =>
    rw [hnext] at h hcause
    dsimp only at h hcause
    generalize hmsg : on_message env it msg { v with source := v.source ++ [msg] } = outcome at h
    obtain ⟨r, v₁⟩ := outcome
    have hv₀ : Sound slot { v with source := v.source ++ [msg] } := hv.of_eq rfl rfl
    have hhandled := on_message_spec hv₀ hmsg
    have hend : (broken_by r, v₁) = (result, v') := by
      rw [← h]
      cases r with
      | error e => rfl
      | ok outcome => cases outcome <;> rfl
    cases hend
    exact .message hcause hhandled

theorem sound_new (triplet : Triplet F) : Sound triplet.slot (WsLoop.new env triplet).vars :=
  ⟨⟨_, rfl, assembled_create_state false⟩, ⟨triplet, rfl, rfl⟩⟩

theorem open_of_step {deadline : Instant} {s s' : WsLoop F D R} {it : Iteration F}
    (h : WsLoop.step env deadline s it = some s') : s.result = none := by
  unfold WsLoop.step at h
  split at h
  · simp at h
  · assumption

theorem turned_of_step {deadline : Instant} {s s' : WsLoop F D R} {it : Iteration F}
    (hv : Sound slot s.vars) (h : WsLoop.step env deadline s it = some s') :
    Turned env deadline slot it s.vars s'.result s'.vars := by
  unfold WsLoop.step at h
  split at h
  · simp at h
  · cases h
    exact turned hv rfl

/-- The message that a turn serves, if its loop comes that far. -/
def Iteration.serves (deadline : Instant) (it : Iteration F) : Option WsMessage :=
  if it.cancelled || session_cap_reached deadline it.now || it.cancel_wakes || it.deadline_wakes then
    none
  else
    match it.next with
    | .message msg => some msg
    | _ => none

theorem turn_of_serves {deadline : Instant} {it : Iteration F} {msg : WsMessage}
    (h : it.serves deadline = some msg) :
    turn env deadline it v =
      (broken_by (on_message env it msg { v with source := v.source ++ [msg] }).1,
        (on_message env it msg { v with source := v.source ++ [msg] }).2) := by
  unfold Iteration.serves at h
  split_ifs at h with hearly
  simp only [Bool.or_eq_true, not_or] at hearly
  obtain ⟨⟨⟨h₁, h₂⟩, h₃⟩, h₄⟩ := hearly
  split at h
  · rename_i hnext
    cases h
    unfold turn broken_by
    rw [if_neg h₁, if_neg h₂, if_neg h₃, if_neg h₄, hnext]
    dsimp only
    generalize on_message env it _ _ = outcome
    obtain ⟨r, v'⟩ := outcome
    match r with
    | .ok .Continue => rfl
    | .ok .Break => rfl
    | .error e => rfl
  · simp at h

/-- A session that is not over takes any turn. -/
theorem step_of_open (env : Env F D R) (deadline : Instant) {s : WsLoop F D R}
    (h : s.result = none) (it : Iteration F) :
    ∃ s', WsLoop.step env deadline s it = some s' := by
  unfold WsLoop.step
  rw [h]
  exact ⟨_, rfl⟩

theorem step_of_serves {deadline : Instant} {it : Iteration F} {msg : WsMessage}
    {r : Except Fault FrameOutcome} (hserves : it.serves deadline = some msg)
    (h : on_message env it msg { v with source := v.source ++ [msg] } = (r, v')) :
    WsLoop.step env deadline { vars := v, result := none } it =
      some { vars := v', result := broken_by r } := by
  unfold WsLoop.step
  dsimp only
  rw [turn_of_serves hserves, h]

/-! ## A frame at 16 kHz -/

theorem on_frame (it : Iteration F) (v : Vars F D R) {data : List UInt8} {samples : List Int}
    {pending_byte : Option UInt8} {state : SessionState F D R} {triplet : Triplet F}
    (hdata : data.isEmpty = false) (hframe : deframe v.pending_byte data = (samples, pending_byte))
    (hrate : v.client_sample_rate = 16000) (hstate : v.state_opt = some state)
    (htriplet : v.triplet_opt = some triplet) :
    on_message env it (.Binary data) v =
      on_joined env
        { v with state_opt := none, triplet_opt := none, audio_received := true, pending_byte }
        (spawn_blocking env it.blocking (samples.map to_f32) state triplet) := by
  obtain ⟨state_opt, triplet_opt, rate, received, byte, sink, source⟩ := v
  subst hrate hstate htriplet
  simp [on_message, handle_binary_frame, hdata, hframe, resample]

theorem spawn_panics {blocking : Blocking F} {samples : List F} {state : SessionState F D R}
    {triplet : Triplet F} (hjoin : blocking.join_fails = false) (hpanics : blocking.panics = true) :
    spawn_blocking env blocking samples state triplet =
      some (.panicked, state, { triplet with sessions := blocking.sessions }) := by
  simp [spawn_blocking, hjoin, hpanics]

theorem spawn_returns {blocking : Blocking F} {samples : List F} {state : SessionState F D R}
    {triplet : Triplet F} {segments : List (TranscriptSegment F)} {stream : StreamingState F D}
    (hjoin : blocking.join_fails = false) (hpanics : blocking.panics = false)
    (h : env.engine.process_chunk samples state.stream triplet.sessions blocking.ts =
      (.ok segments, stream)) :
    spawn_blocking env blocking samples state triplet =
      some (.returned (.ok segments), { state with stream },
        { triplet with sessions := blocking.sessions }) := by
  simp [spawn_blocking, hjoin, hpanics, h]

end Gigastt.Session
