import Gigastt.Session.Deframe
import Gigastt.Session.Returns
import Mathlib.Data.List.TakeWhile

/-!
# Settings are frozen by the first audio

What a client may set is a function of the messages before its first audio. The sample rate
follows it. Diarization does too, until inference panics.
-/

namespace Gigastt.Session

open Decode Server Streaming Words

variable {F D R : Type} {env : Env F D R} {deadline : Instant} {triplet : Triplet F}

/-! ## What a client sets -/

def WsMessage.is_audio : WsMessage → Bool
  | .Binary data => !data.isEmpty
  | _ => false

structure Settings where
  sample_rate : UInt32
  diarization : Bool
deriving DecidableEq, Repr

def Settings.default : Settings := ⟨DEFAULT_SAMPLE_RATE, false⟩

/-- Diarization takes a build that has it and a model that is loaded. -/
def Env.diarizes (env : Env F D R) (enabled : Bool) : Bool :=
  env.diarization && enabled && env.engine.speaker_encoder.isSome

/-- What a message before the first audio sets. -/
def Settings.after (env : Env F D R) (settings : Settings) : WsMessage → Settings
  | .Text text =>
    match env.from_str text with
    | some (.Configure sample_rate diarization protocol_version) =>
      if protocol_version.any (· != PROTOCOL_VERSION) then settings
      else
        { sample_rate := (sample_rate.filter (· ∈ SUPPORTED_RATES)).getD settings.sample_rate
          diarization := (diarization.map env.diarizes).getD settings.diarization }
    | _ => settings
  | _ => settings

def settings (env : Env F D R) (source : List WsMessage) : Settings :=
  (source.takeWhile fun msg => !msg.is_audio).foldl (Settings.after env) .default

/-- Nothing that comes after audio sets anything. -/
theorem settings_frozen {source : List WsMessage} (h : source.any WsMessage.is_audio = true)
    (more : List WsMessage) : settings env (source ++ more) = settings env source := by
  unfold settings
  rw [List.takeWhile_append, if_neg]
  intro hall
  obtain ⟨msg, hmem, haudio⟩ := List.any_eq_true.mp h
  have hsame := (List.takeWhile_prefix (l := source) fun msg => !msg.is_audio).eq_of_length hall
  have hnot := List.mem_takeWhile_imp (hsame ▸ hmem)
  simp [haudio] at hnot

theorem settings_audio (source : List WsMessage) {msg : WsMessage} (h : msg.is_audio = true) :
    settings env (source ++ [msg]) = settings env source := by
  unfold settings
  rw [List.takeWhile_append]
  split
  · rename_i hall
    rw [(List.takeWhile_prefix (l := source) fun msg => !msg.is_audio).eq_of_length hall]
    simp [h]
  · rfl

theorem settings_before_audio {source : List WsMessage} {msg : WsMessage}
    (hsource : source.any WsMessage.is_audio = false) (hmsg : msg.is_audio = false) :
    settings env (source ++ [msg]) = (settings env source).after env msg := by
  have hquiet : ∀ m ∈ source, (!m.is_audio) = true := by simpa using hsource
  unfold settings
  rw [List.takeWhile_append_of_pos hquiet, List.takeWhile_eq_self_iff.mpr hquiet]
  simp [hmsg, List.foldl_append]

/-- A message that is no served `Configure` sets nothing. -/
theorem settings_unchanged {source : List WsMessage} {msg : WsMessage}
    (h : msg.is_audio = true ∨ ∀ settings : Settings, settings.after env msg = settings) :
    settings env (source ++ [msg]) = settings env source := by
  by_cases hsource : source.any WsMessage.is_audio = true
  · exact settings_frozen hsource [msg]
  · by_cases hmsg : msg.is_audio = true
    · exact settings_audio source hmsg
    · rw [settings_before_audio (by simpa using hsource) (by simpa using hmsg)]
      exact h.resolve_left hmsg _

/-! ## What the session runs on -/

/-- Whether the streaming state diarizes. -/
def Vars.diarizes (v : Vars F D R) : Bool :=
  v.state_opt.any (·.stream.diarization_state.isSome)

/-- The session runs on what its client has set. -/
structure Configured (env : Env F D R) (v : Vars F D R) : Prop where
  sample_rate : v.client_sample_rate = (settings env v.source).sample_rate
  diarization : v.diarizes = (settings env v.source).diarization

theorem Configured.of_unchanged {v v' : Vars F D R} (h : Configured env v)
    (hsettings : settings env v'.source = settings env v.source)
    (hrate : v'.client_sample_rate = v.client_sample_rate) (hdiarizes : v'.diarizes = v.diarizes) :
    Configured env v' :=
  ⟨by rw [hrate, hsettings, h.sample_rate], by rw [hdiarizes, hsettings, h.diarization]⟩

section Handlers

variable [F32Pcm F]

theorem create_state_diarizes (env : Env F D R) (enabled : Bool) :
    (env.create_state enabled).stream.diarization_state.isSome = env.diarizes enabled := by
  unfold Env.create_state Env.diarizes Engine.create_state
  split
  · rename_i h
    exact h.symm
  · rename_i h
    exact (Bool.eq_false_iff.mpr h).symm

omit [F32Pcm F] in
theorem diarizes_false (env : Env F D R) : env.diarizes false = false := by simp [Env.diarizes]

/-! ## Audio -/

/-- The inference on a frame panics, and the session catches it. -/
def inference_panics (env : Env F D R) (blocking : Blocking F) (data : List UInt8)
    (v : Vars F D R) : Bool :=
  match resample env ((deframe v.pending_byte data).1.map to_f32) v with
  | (.error _, _) => false
  | (.ok samples_16k, v) =>
    match v.state_opt, v.triplet_opt with
    | some state, some triplet =>
      match spawn_blocking env blocking samples_16k state triplet with
      | some (.panicked, _, _) => true
      | _ => false
    | _, _ => false

theorem resample_diarizes (env : Env F D R) (samples_f32 : List F) (v : Vars F D R) :
    (resample env samples_f32 v).2.diarizes = v.diarizes := by
  unfold resample Vars.diarizes
  split
  · rfl
  · split
    · rename_i hstate
      rw [hstate]
    · rename_i hstate
      rw [hstate]
      rfl

theorem resample_sink (env : Env F D R) (samples_f32 : List F) (v : Vars F D R) :
    (resample env samples_f32 v).2.sink = v.sink := by
  unfold resample
  split
  · rfl
  · split
    · rfl
    · rfl

theorem resample_update (samples_f32 : List F) (v : Vars F D R) (audio_received : Bool)
    (pending_byte : Option UInt8) (source : List WsMessage) :
    resample env samples_f32 { v with audio_received, pending_byte, source } =
      ((resample env samples_f32 v).1,
        { (resample env samples_f32 v).2 with audio_received, pending_byte, source }) := by
  unfold resample
  dsimp only
  split
  · rfl
  · split
    · rfl
    · rfl

theorem inference_panics_source (blocking : Blocking F) (data : List UInt8) (v : Vars F D R)
    (source : List WsMessage) :
    inference_panics env blocking data { v with source } = inference_panics env blocking data v := by
  unfold inference_panics
  dsimp only
  rw [resample_update _ v v.audio_received v.pending_byte source]
  generalize resample env _ v = resampled
  obtain ⟨r, v₁⟩ := resampled
  cases r with
  | error e => rfl
  | ok samples_16k => rfl

omit [F32Pcm F] in
theorem reply_error_continues (env : Env F D R) (message code : String) (v : Vars F D R) :
    (reply_error env message code .Continue v).1 = .ok .Continue ↔
      env.accepts v.sink.length = true := by
  unfold reply_error send_server_message send
  cases env.accepts v.sink.length with
  | true => simp
  | false => simp

/-- The reset of a session puts a state in place that does not diarize. -/
theorem handle_binary_frame_of_panic {blocking : Blocking F} {data : List UInt8}
    {v : Vars F D R} (hdata : data ≠ []) (h : inference_panics env blocking data v = true) :
    ∃ v₁ : Vars F D R, v₁.sink = v.sink ∧ v₁.diarizes = false ∧
      handle_binary_frame env blocking data v =
        reply_error env "Inference failed unexpectedly. Session reset." "inference_panic" .Continue
          v₁ := by
  have hsink := resample_sink env ((deframe v.pending_byte data).1.map to_f32) v
  unfold inference_panics at h
  unfold handle_binary_frame
  rw [if_neg (by simpa using hdata)]
  dsimp only
  rw [resample_update _ v true _ v.source]
  generalize resample env _ v = resampled at h hsink
  obtain ⟨r, v₁⟩ := resampled
  cases r with
  | error e => simp at h
  | ok samples_16k =>
    dsimp only at h hsink ⊢
    split at h
    · rename_i hstate htriplet
      rw [hstate]
      dsimp only
      rw [htriplet]
      dsimp only
      split at h
      · rename_i htask
        rw [htask]
        refine ⟨_, ?_, ?_, rfl⟩
        · exact hsink
        · exact (create_state_diarizes env false).trans (diarizes_false env)
      · simp at h
    · simp at h

theorem spawn_blocking_diarizes {blocking : Blocking F} {samples_16k : List F}
    {state state_back : SessionState F D R} {triplet triplet_back : Triplet F}
    {segments : Except ChunkError (List (TranscriptSegment F))}
    (h : spawn_blocking env blocking samples_16k state triplet =
      some (.returned segments, state_back, triplet_back)) :
    state_back.stream.diarization_state.isSome = state.stream.diarization_state.isSome := by
  have hkept := process_chunk_diarizes env.engine samples_16k state.stream triplet.sessions blocking.ts
  unfold spawn_blocking at h
  split_ifs at h
  · simp at h
  · dsimp only at h
    split at h
    · simp at h
    · rename_i hchunk
      rw [hchunk] at hkept
      cases h
      exact hkept

theorem handle_binary_frame_without_panic {blocking : Blocking F} {data : List UInt8}
    {v v' : Vars F D R} (hdata : data ≠ []) (h : inference_panics env blocking data v = false)
    (hframe : handle_binary_frame env blocking data v = (.ok .Continue, v')) :
    v'.diarizes = v.diarizes := by
  have hdiarizes := resample_diarizes env ((deframe v.pending_byte data).1.map to_f32) v
  unfold inference_panics at h
  unfold handle_binary_frame at hframe
  rw [if_neg (by simpa using hdata)] at hframe
  dsimp only at hframe
  rw [resample_update _ v true _ v.source] at hframe
  generalize resample env _ v = resampled at h hdiarizes hframe
  obtain ⟨r, v₁⟩ := resampled
  cases r with
  | error e => simp at hframe
  | ok samples_16k =>
    dsimp only at h hdiarizes hframe
    split at hframe
    · simp at hframe
    · rename_i state hstate
      split at hframe
      · simp at hframe
      · rename_i triplet htriplet
        rw [hstate, htriplet] at h
        dsimp only at h
        unfold Vars.diarizes at hdiarizes
        rw [hstate] at hdiarizes
        unfold on_joined at hframe
        split at hframe
        · rename_i htask
          obtain ⟨⟨body, rfl, -⟩, -⟩ := send_segments_spec hframe
          exact (spawn_blocking_diarizes htask).trans hdiarizes
        · rename_i htask
          obtain ⟨rfl, -⟩ := reply_error_spec hframe
          exact (spawn_blocking_diarizes htask).trans hdiarizes
        · rename_i htask
          rw [htask] at h
          simp at h
        · simp at hframe

/-! ## Configure -/

omit [F32Pcm F] in
theorem configure_rate_spec {sample_rate : Option UInt32} {v v' : Vars F D R}
    {r : Except Fault FrameOutcome} (h : configure_rate env sample_rate v = (r, v')) :
    ∃ sink, v' = { v with
      client_sample_rate := (sample_rate.filter (· ∈ SUPPORTED_RATES)).getD v.client_sample_rate
      sink } := by
  unfold configure_rate at h
  split at h
  · cases h
    exact ⟨_, rfl⟩
  · split_ifs at h with hrate
    · cases h
      refine ⟨v.sink, ?_⟩
      rw [Option.filter_some_pos (by simpa using hrate), Option.getD_some]
    · obtain ⟨hv, -⟩ := reply_error_spec h
      refine ⟨v'.sink, ?_⟩
      rw [hv, Option.filter_some_neg (by simpa using hrate), Option.getD_none]

theorem configure_diarization_spec (env : Env F D R) (diarization : Option Bool) (v : Vars F D R) :
    ∃ state_opt, configure_diarization env diarization v = { v with state_opt } := by
  unfold configure_diarization
  split
  · exact ⟨_, rfl⟩
  · exact ⟨_, rfl⟩

/-- Whatever is set was asked for, and is supported. -/
theorem handle_configure_message_keeps {sample_rate : Option UInt32} {diarization : Option Bool}
    {protocol_version : Option String} {v v' : Vars F D R} {r : Except Fault FrameOutcome}
    (h : handle_configure_message env sample_rate diarization protocol_version v = (r, v')) :
    v'.source = v.source ∧ v'.audio_received = v.audio_received ∧
      (v.client_sample_rate ∈ SUPPORTED_RATES → v'.client_sample_rate ∈ SUPPORTED_RATES) := by
  have hsupported : v.client_sample_rate ∈ SUPPORTED_RATES →
      (sample_rate.filter (· ∈ SUPPORTED_RATES)).getD v.client_sample_rate ∈ SUPPORTED_RATES := by
    intro hv
    cases hrate : sample_rate.filter (· ∈ SUPPORTED_RATES) with
    | none => exact hv
    | some rate => exact of_decide_eq_true (Option.filter_eq_some_iff.mp hrate).2
  unfold handle_configure_message at h
  split at h
  · obtain ⟨rfl, -⟩ := reply_error_spec h
    exact ⟨rfl, rfl, id⟩
  · split at h
    · obtain ⟨rfl, -⟩ := reply_error_spec h
      exact ⟨rfl, rfl, id⟩
    · split at h
      · rename_i hrate
        obtain ⟨sink, rfl⟩ := configure_rate_spec hrate
        cases h
        exact ⟨rfl, rfl, hsupported⟩
      · rename_i hrate
        obtain ⟨sink, rfl⟩ := configure_rate_spec hrate
        obtain ⟨state_opt, hstate⟩ := configure_diarization_spec env diarization _
        rw [hstate] at h
        cases h
        exact ⟨rfl, rfl, hsupported⟩

theorem configure_diarization_diarizes (diarization : Option Bool) {v : Vars F D R}
    (hv : env.diarization = false → v.diarizes = false) :
    (configure_diarization env diarization v).diarizes =
      (diarization.map env.diarizes).getD v.diarizes := by
  unfold configure_diarization
  cases hbuild : env.diarization with
  | false =>
    have hoff : ∀ enabled, env.diarizes enabled = false := by simp [Env.diarizes, hbuild]
    cases diarization with
    | none => rfl
    | some enable_dia => exact (hv hbuild).trans (hoff enable_dia).symm
  | true =>
    cases diarization with
    | none => rfl
    | some enable_dia => exact create_state_diarizes env enable_dia

theorem handle_configure_message_continues {sample_rate : Option UInt32}
    {diarization : Option Bool} {protocol_version : Option String} {v v' : Vars F D R}
    (hv : env.diarization = false → v.diarizes = false) (haudio : v.audio_received = false)
    (h : handle_configure_message env sample_rate diarization protocol_version v =
      (.ok .Continue, v')) :
    protocol_version.any (· != PROTOCOL_VERSION) = false ∧
      v'.client_sample_rate =
        (sample_rate.filter (· ∈ SUPPORTED_RATES)).getD v.client_sample_rate ∧
      v'.diarizes = (diarization.map env.diarizes).getD v.diarizes := by
  unfold handle_configure_message at h
  rw [if_neg (by simp [haudio])] at h
  split at h
  · obtain ⟨-, hr⟩ := reply_error_spec h
    simp at hr
  · rename_i hversion
    have hsame : protocol_version.any (· != PROTOCOL_VERSION) = false := by
      cases protocol_version with
      | none => rfl
      | some ver => simpa using hversion
    split at h
    · simp at h
    · rename_i hrate
      obtain ⟨sink, rfl⟩ := configure_rate_spec hrate
      cases h
      obtain ⟨state_opt, hstate⟩ := configure_diarization_spec env diarization _
      refine ⟨hsame, ?_, configure_diarization_diarizes diarization hv⟩
      rw [hstate]

/-! ## Messages -/

omit [F32Pcm F] in
theorem settings_without_build (hbuild : env.diarization = false) (source : List WsMessage) :
    (settings env source).diarization = false := by
  unfold settings
  induction source.takeWhile fun msg => !msg.is_audio using List.reverseRecOn with
  | nil => rfl
  | append_singleton msgs msg ih =>
    rw [List.foldl_append, List.foldl_cons, List.foldl_nil]
    generalize msgs.foldl (Settings.after env) .default = set at ih
    unfold Settings.after
    split
    · split
      · split
        · exact ih
        · rename_i diarization _ _ _
          cases diarization with
          | none => exact ih
          | some enable_dia => simp [Env.diarizes, hbuild]
      · exact ih
    · exact ih

omit [F32Pcm F] in
theorem handle_stop_message_ends {ts : ℚ} {v v' : Vars F D R} {r : Except Fault FrameOutcome}
    (h : handle_stop_message env ts v = (r, v')) :
    (∃ state_opt sink, v' = { v with state_opt, sink }) ∧ r ≠ .ok .Continue := by
  unfold handle_stop_message at h
  split at h
  · cases h
    exact ⟨⟨_, _, rfl⟩, by simp⟩
  · dsimp only at h
    split at h
    · rename_i hsend
      obtain ⟨hv, -⟩ := send_server_message_spec hsend
      cases h
      exact ⟨⟨_, _, hv⟩, by simp⟩
    · rename_i hsend
      obtain ⟨hv, -⟩ := send_server_message_spec hsend
      cases h
      exact ⟨⟨_, _, hv⟩, by simp⟩

theorem on_message_keeps {it : Iteration F} {msg : WsMessage} {v v' : Vars F D R}
    {r : Except Fault FrameOutcome} (h : on_message env it msg v = (r, v')) :
    v'.source = v.source ∧ v'.audio_received = (v.audio_received || msg.is_audio) ∧
      (v.client_sample_rate ∈ SUPPORTED_RATES → v'.client_sample_rate ∈ SUPPORTED_RATES) := by
  cases msg with
  | Binary data =>
    by_cases hempty : data = []
    · subst hempty
      cases h
      exact ⟨rfl, by simp [WsMessage.is_audio], id⟩
    · have hkept := handle_binary_frame_kept env it.blocking hempty v
      have hhandled : handle_binary_frame env it.blocking data v = (r, v') := h
      rw [hhandled] at hkept
      refine ⟨hkept.source, ?_, fun hv => ?_⟩
      · rw [hkept.audio_received]
        simp [WsMessage.is_audio, hempty]
      · rw [hkept.client_sample_rate]
        exact hv
  | Text text =>
    unfold on_message at h
    dsimp only at h
    split at h
    · obtain ⟨hsource, haudio, hrate⟩ := handle_configure_message_keeps h
      exact ⟨hsource, by simp [haudio, WsMessage.is_audio], hrate⟩
    · obtain ⟨⟨_, _, rfl⟩, -⟩ := handle_stop_message_ends h
      exact ⟨rfl, by simp [WsMessage.is_audio], id⟩
    · cases h
      exact ⟨rfl, by simp [WsMessage.is_audio], id⟩
  | _ =>
    cases h
    exact ⟨rfl, by simp [WsMessage.is_audio], id⟩

theorem on_message_of_panic {it : Iteration F} {data : List UInt8} {v : Vars F D R}
    (hdata : data ≠ []) (h : inference_panics env it.blocking data v = true) :
    ((on_message env it (.Binary data) { v with source := v.source ++ [.Binary data] }).1 =
        .ok .Continue ↔ env.accepts v.sink.length = true) ∧
      (on_message env it (.Binary data) { v with source := v.source ++ [.Binary data] }).2.diarizes =
        false := by
  rw [← inference_panics_source it.blocking data v (v.source ++ [.Binary data])] at h
  obtain ⟨v₁, hsink, hoff, hreply⟩ := handle_binary_frame_of_panic hdata h
  unfold on_message
  dsimp only
  rw [hreply, reply_error_continues, hsink]
  refine ⟨Iff.rfl, ?_⟩
  obtain ⟨hv, -⟩ := reply_error_spec (Prod.eta (reply_error env
    "Inference failed unexpectedly. Session reset." "inference_panic" .Continue v₁)).symm
  rw [hv]
  exact hoff

theorem on_binary_configured {it : Iteration F} {data : List UInt8} {v v' : Vars F D R}
    (hv : Configured env v) (hdata : data ≠ [])
    (hpanic : v.diarizes = true → inference_panics env it.blocking data v = false)
    (h : on_message env it (.Binary data) { v with source := v.source ++ [.Binary data] } =
      (.ok .Continue, v')) : Configured env v' := by
  have hkept := handle_binary_frame_kept env it.blocking hdata
    { v with source := v.source ++ [.Binary data] }
  have hhandled : handle_binary_frame env it.blocking data
      { v with source := v.source ++ [.Binary data] } = (.ok .Continue, v') := h
  rw [hhandled] at hkept
  refine hv.of_unchanged ?_ hkept.client_sample_rate ?_
  · rw [hkept.source]
    exact settings_audio v.source (by simp [WsMessage.is_audio, hdata])
  · cases hpanics : inference_panics env it.blocking data v with
    | false =>
      rw [← inference_panics_source it.blocking data v (v.source ++ [.Binary data])] at hpanics
      have hsame := handle_binary_frame_without_panic hdata hpanics hhandled
      exact hsame
    | true =>
      obtain ⟨-, hoff⟩ := on_message_of_panic hdata hpanics
      rw [h] at hoff
      refine hoff.trans (Bool.eq_false_iff.mpr fun hon => ?_).symm
      rw [hpanic hon] at hpanics
      simp at hpanics

theorem on_configure_configured {text : Text} {sample_rate : Option UInt32}
    {diarization : Option Bool} {protocol_version : Option String} {v v' : Vars F D R}
    (hv : Configured env v) (haudio : v.audio_received = v.source.any WsMessage.is_audio)
    (hparse : env.from_str text = some (.Configure sample_rate diarization protocol_version))
    (hsource : v'.source = v.source ++ [.Text text])
    (h : handle_configure_message env sample_rate diarization protocol_version
      { v with source := v.source ++ [.Text text] } = (.ok .Continue, v')) :
    Configured env v' := by
  cases hreceived : v.audio_received with
  | true =>
    rw [hreceived] at haudio
    unfold handle_configure_message at h
    rw [if_pos (by exact hreceived)] at h
    obtain ⟨rfl, -⟩ := reply_error_spec h
    exact hv.of_unchanged (settings_frozen haudio.symm _) rfl rfl
  | false =>
    rw [hreceived] at haudio
    let v₁ : Vars F D R := { v with source := v.source ++ [.Text text] }
    have hoff : env.diarization = false → v₁.diarizes = false := fun hbuild =>
      hv.diarization.trans (settings_without_build hbuild v.source)
    have hquiet : v₁.audio_received = false := hreceived
    obtain ⟨hversion, hrate, hdiarizes⟩ := handle_configure_message_continues hoff hquiet h
    have hset : settings env v'.source = (settings env v.source).after env (.Text text) := by
      rw [hsource]
      exact settings_before_audio haudio.symm rfl
    simp only [Settings.after, hparse, hversion, Bool.false_eq_true, if_false] at hset
    constructor
    · rw [hset, hrate, hv.sample_rate]
    · rw [hset, hdiarizes, ← hv.diarization]
      rfl

/-- A handler that goes on follows the settings, unless a frame turns diarization off. -/
theorem on_message_configured {it : Iteration F} {msg : WsMessage} {v v' : Vars F D R}
    (hv : Configured env v) (haudio : v.audio_received = v.source.any WsMessage.is_audio)
    (hpanic : ∀ data, msg = .Binary data → data ≠ [] → v.diarizes = true →
      inference_panics env it.blocking data v = false)
    (h : on_message env it msg { v with source := v.source ++ [msg] } = (.ok .Continue, v')) :
    Configured env v' := by
  obtain ⟨hsource, -, -⟩ := on_message_keeps h
  cases msg with
  | Binary data =>
    by_cases hempty : data = []
    · subst hempty
      cases h
      exact hv.of_unchanged (settings_unchanged (.inr fun _ => rfl)) rfl rfl
    · exact on_binary_configured hv hempty (hpanic data rfl hempty) h
  | Text text =>
    unfold on_message at h
    dsimp only at h
    split at h
    · rename_i hparse
      exact on_configure_configured hv haudio hparse hsource h
    · obtain ⟨-, hends⟩ := handle_stop_message_ends h
      exact absurd rfl hends
    · rename_i hparse
      cases h
      exact hv.of_unchanged (settings_unchanged (.inr fun _ => by simp [Settings.after, hparse]))
        rfl rfl
  | _ =>
    cases h
    all_goals exact hv.of_unchanged (settings_unchanged (.inr fun _ => rfl)) rfl rfl

/-! ## Turns -/

theorem turn_of_not_serves {it : Iteration F} (env : Env F D R) (v : Vars F D R) (h : it.serves deadline = none) :
    (turn env deadline it v).1 ≠ none ∧
      (turn env deadline it v).2.client_sample_rate = v.client_sample_rate := by
  have hflush : ∀ v : Vars F D R,
      (flush_and_final env it.ts v).2.client_sample_rate = v.client_sample_rate := by
    intro v
    unfold flush_and_final
    split
    · rfl
    · rfl
  have hcancel : (on_cancel env it.ts v).client_sample_rate = v.client_sample_rate := hflush v
  have hdeadline : (on_deadline env it.ts v).client_sample_rate = v.client_sample_rate := by
    unfold on_deadline
    exact (hflush _).trans rfl
  unfold turn
  split_ifs with h₁ h₂ h₃ h₄
  · exact ⟨by simp, hcancel⟩
  · exact ⟨by simp, hdeadline⟩
  · exact ⟨by simp, hcancel⟩
  · exact ⟨by simp, hdeadline⟩
  · unfold Iteration.serves at h
    rw [if_neg (by simp [h₁, h₂, h₃, h₄])] at h
    split
    · exact ⟨by simp, rfl⟩
    · exact ⟨by simp, rfl⟩
    · exact ⟨by simp, rfl⟩
    · rename_i hnext
      rw [hnext] at h
      simp at h

/-! ## Runs -/

/-- A session that diarizes catches a panic, and goes on. -/
def TurnsOff (env : Env F D R) (deadline : Instant) (s : WsLoop F D R) (it : Iteration F) : Prop :=
  s.vars.diarizes = true ∧ env.accepts s.vars.sink.length = true ∧
    ∃ data, data ≠ [] ∧ it.serves deadline = some (.Binary data) ∧
      inference_panics env it.blocking data s.vars = true

omit [F32Pcm F] in
theorem broken_by_eq_none {r : Except Fault FrameOutcome} :
    broken_by r = none ↔ r = .ok .Continue := by
  match r with
  | .ok .Continue => simp [broken_by]
  | .ok .Break => simp [broken_by]
  | .error e => simp [broken_by]

/-- What a session knows of its settings at every loop head. -/
def Known (s : WsLoop F D R) : Prop :=
  s.vars.client_sample_rate ∈ SUPPORTED_RATES ∧
    (s.result = none → s.vars.audio_received = s.vars.source.any WsMessage.is_audio)

theorem step_eq {s s' : WsLoop F D R} {it : Iteration F}
    (h : WsLoop.step env deadline s it = some s') :
    s' = ⟨(turn env deadline it s.vars).2, (turn env deadline it s.vars).1⟩ := by
  unfold WsLoop.step at h
  split at h
  · simp at h
  · cases h
    rfl

theorem known_new (env : Env F D R) (triplet : Triplet F) : Known (WsLoop.new env triplet) :=
  ⟨by simp [WsLoop.new, DEFAULT_SAMPLE_RATE, SUPPORTED_RATES], fun _ => rfl⟩

theorem known_step (s : WsLoop F D R) (it : Iteration F) (s' : WsLoop F D R)
    (h : WsLoop.step env deadline s it = some s') (hs : Known s) : Known s' := by
  obtain ⟨hrate, haudio⟩ := hs
  have hreceived := haudio (open_of_step h)
  rw [step_eq h]
  cases hserves : it.serves deadline with
  | none =>
    obtain ⟨hends, hsame⟩ := turn_of_not_serves env s.vars hserves
    exact ⟨hsame ▸ hrate, fun hopen => absurd hopen hends⟩
  | some msg =>
    rw [turn_of_serves hserves]
    obtain ⟨hsource, hmore, hsupported⟩ := on_message_keeps (Prod.eta
      (on_message env it msg { s.vars with source := s.vars.source ++ [msg] })).symm
    refine ⟨hsupported hrate, fun _ => ?_⟩
    rw [hsource, hmore, List.any_append, ← hreceived]
    simp

theorem configured_step_iff {s s' : WsLoop F D R} {it : Iteration F}
    (h : WsLoop.step env deadline s it = some s') (hs : Known s)
    (hv : s.result = none → Configured env s.vars) :
    (s'.result = none → Configured env s'.vars) ↔ ¬ TurnsOff env deadline s it := by
  have hopen := open_of_step h
  have hconf := hv hopen
  rw [step_eq h]
  dsimp only
  cases hserves : it.serves deadline with
  | none =>
    have hends := (turn_of_not_serves env s.vars hserves).1
    refine ⟨fun _ => ?_, fun _ hnone => absurd hnone hends⟩
    rintro ⟨-, -, data, -, hdata, -⟩
    rw [hserves] at hdata
    simp at hdata
  | some msg =>
    rw [turn_of_serves hserves]
    dsimp only
    generalize hmsg : on_message env it msg { s.vars with source := s.vars.source ++ [msg] } = outcome
    obtain ⟨r, v'⟩ := outcome
    dsimp only
    rw [broken_by_eq_none]
    constructor
    · rintro hafter ⟨hon, haccepts, data, hne, hdata, hpanics⟩
      rw [hserves] at hdata
      cases hdata
      obtain ⟨hcontinues, hoff⟩ := on_message_of_panic hne hpanics
      obtain ⟨hsource, -, -⟩ := on_message_keeps hmsg
      rw [hmsg] at hcontinues hoff
      have hnow := (hafter (hcontinues.mpr haccepts)).diarization
      rw [hsource, settings_audio _ (by simp [WsMessage.is_audio, hne]), ← hconf.diarization, hon,
        hoff] at hnow
      simp at hnow
    · rintro hsafe rfl
      refine on_message_configured hconf (hs.2 hopen) ?_ hmsg
      rintro data rfl hne hon
      by_contra hpanics
      rw [Bool.not_eq_false] at hpanics
      obtain ⟨hcontinues, -⟩ := on_message_of_panic hne hpanics
      rw [hmsg] at hcontinues
      exact hsafe ⟨hon, hcontinues.mp rfl, data, hne, hserves, hpanics⟩

/-- The sample rate is a supported one. A session runs on what its client set before the
first audio exactly until it turns diarization off. -/
theorem settings_kept_iff (env : Env F D R) (deadline : Instant) (triplet : Triplet F)
    (its : List (Iteration F)) (s : WsLoop F D R)
    (hrun : WsLoop.run env deadline triplet its = some s) :
    s.vars.client_sample_rate ∈ SUPPORTED_RATES ∧
      (Steps.Throughout (WsLoop.step env deadline)
          (fun s => s.result = none → Configured env s.vars) (WsLoop.new env triplet) its ↔
        Steps.EachStep (WsLoop.step env deadline) (fun s it => ¬ TurnsOff env deadline s it)
          (WsLoop.new env triplet) its) := by
  have hnew : Configured env (WsLoop.new env triplet).vars :=
    ⟨rfl, (create_state_diarizes env false).trans (diarizes_false env)⟩
  constructor
  · exact (Steps.inv_of_run Known known_step hrun (known_new env triplet)).1
  · exact Steps.throughout_iff_eachStep (R := fun _ _ => True) Known
      (fun s it s' _ h => known_step s it s' h) (fun s it s' _ h hs hv => configured_step_iff h hs hv)
      hrun (Steps.eachStep_of_forall (fun _ _ => trivial) _ its) (known_new env triplet) fun _ => hnew

/-! ## A panic on fixed inputs -/

def dia_text : Text :=
  "\x7b\"type\":\"configure\",\"sample_rate\":16000,\"diarization\":true\x7d".toList

def dia_env : Env Int Unit Unit :=
  { yes_env with
    engine := { yes_engine with
      speaker_encoder := some { feed := fun dia _ => dia, current_speaker := fun _ => none } }
    diarization := true
    from_str := fun text =>
      if text = dia_text then some (.Configure (some 16000) (some true) none) else none }

/-- 320 samples, which are enough to reach the models. -/
def panic_data : List UInt8 := List.replicate 640 1

/-- The session with diarization configured. -/
def dia_loop : WsLoop Int Unit Unit where
  vars := { (WsLoop.new dia_env yes_triplet).vars with
    client_sample_rate := 16000
    state_opt := some (dia_env.create_state true)
    source := [.Text dia_text] }
  result := none

theorem dia_step : WsLoop.step dia_env .last (WsLoop.new dia_env yes_triplet)
    (yes_turn (.message (.Text dia_text))) = some dia_loop := by
  have hparse : dia_env.from_str dia_text = some (.Configure (some 16000) (some true) none) := by
    simp [dia_env]
  have hserves : (yes_turn (.message (.Text dia_text))).serves .last = some (.Text dia_text) := rfl
  unfold WsLoop.step
  dsimp only [WsLoop.new]
  rw [turn_of_serves hserves]
  unfold on_message
  dsimp only
  rw [hparse]
  rfl

theorem reset_step {data : List UInt8} (h : data ≠ []) :
    ∃ s, WsLoop.step dia_env .last dia_loop (panic_on data) = some s ∧
      s.result = none ∧ s.vars.source = [.Text dia_text, .Binary data] ∧
      s.vars.diarizes = false := by
  obtain ⟨b, data, rfl⟩ := List.exists_cons_of_ne_nil h
  exact ⟨_, rfl, rfl, rfl, rfl⟩

theorem dia_settings : settings dia_env [.Text dia_text, .Binary panic_data] = ⟨16000, true⟩ := by
  have hparse : dia_env.from_str dia_text = some (.Configure (some 16000) (some true) none) := by
    simp [dia_env]
  have hset : Settings.default.after dia_env (.Text dia_text) = ⟨16000, true⟩ := by
    unfold Settings.after
    dsimp only
    rw [hparse]
    rfl
  exact (settings_audio [.Text dia_text] rfl).trans hset

/-- A client turns diarization on, inference panics on its first frame, and the session goes
on without diarization. -/
theorem panic_turns_diarization_off :
    ∃ s, WsLoop.run dia_env .last yes_triplet
          [yes_turn (.message (.Text dia_text)), panic_on panic_data] = some s ∧
      s.result = none ∧ (settings dia_env s.vars.source).diarization = true ∧
      s.vars.diarizes = false := by
  have hdata : panic_data ≠ [] := by
    apply List.ne_nil_of_length_pos
    rw [panic_data, List.length_replicate]
    omega
  obtain ⟨s, hstep, hopen, hsource, hoff⟩ := reset_step hdata
  refine ⟨s, ?_, hopen, ?_, hoff⟩
  · exact Steps.run_cons_eq_some.mpr ⟨_, dia_step, Steps.run_cons_eq_some.mpr ⟨s, hstep, rfl⟩⟩
  · rw [hsource, dia_settings]

/-- Until that frame the session runs on its settings. -/
theorem settings_kept_before_panic :
    Steps.Throughout (WsLoop.step dia_env .last)
      (fun s => s.result = none → Configured dia_env s.vars) (WsLoop.new dia_env yes_triplet)
      [yes_turn (.message (.Text dia_text))] := by
  have hrun : WsLoop.run dia_env .last yes_triplet [yes_turn (.message (.Text dia_text))] =
      some dia_loop := Steps.run_cons_eq_some.mpr ⟨_, dia_step, rfl⟩
  refine (settings_kept_iff dia_env .last yes_triplet _ dia_loop hrun).2.mpr ⟨?_, fun _ _ => trivial⟩
  rintro ⟨hon, -⟩
  simp [Vars.diarizes, WsLoop.new, create_state_diarizes, diarizes_false] at hon

end Handlers

end Gigastt.Session
