import Gigastt.Session.Settings

/-!
# All of a Configure or nothing

A message with one field that is refused must leave the others alone.
-/

namespace Gigastt.Session

open Decode Server Streaming Words

variable {F D R : Type} [F32Pcm F] {env : Env F D R}

/-- The arguments of `handle_configure_message`. -/
structure Configure where
  sample_rate : Option UInt32
  diarization : Option Bool
  protocol_version : Option String
deriving DecidableEq, Repr

/-- The result, and the session after it. -/
def Configure.handled (msg : Configure) (env : Env F D R) (v : Vars F D R) :
    Except Fault FrameOutcome × Vars F D R :=
  handle_configure_message env msg.sample_rate msg.diarization msg.protocol_version v

/-- An `Error` was sent on the way, or tried. -/
def AnswersError (v v' : Vars F D R) : Prop :=
  ∃ message code retry_after_ms,
    Sent.Text (.Error message code retry_after_ms) ∈ v'.sink.drop v.sink.length

/-- Each field of the message is in force. -/
structure Configure.Applied (msg : Configure) (env : Env F D R) (v : Vars F D R) : Prop where
  sample_rate : ∀ rate ∈ msg.sample_rate, v.client_sample_rate = rate
  diarization : env.diarization → env.engine.speaker_encoder.isSome →
    ∀ enabled ∈ msg.diarization,
      v.state_opt = some (env.create_state enabled) ∧ v.diarizes = enabled
  protocol_version : ∀ ver ∈ msg.protocol_version, ver = PROTOCOL_VERSION

/-- A message that is answered with an error changes nothing, any other is applied. -/
def Configure.Atomic (msg : Configure) (env : Env F D R) (v : Vars F D R) : Prop :=
  let v' := (msg.handled env v).2
  (AnswersError v v' → v'.client_sample_rate = v.client_sample_rate ∧ v'.state_opt = v.state_opt) ∧
    (¬ AnswersError v v' → msg.Applied env v')

/-- The rate is refused, and the message sets diarization all the same. -/
structure Configure.HalfApplied (msg : Configure) (env : Env F D R) (v : Vars F D R) : Prop where
  early : v.audio_received = false
  version : ∀ ver ∈ msg.protocol_version, ver = PROTOCOL_VERSION
  rate : ∃ rate ∈ msg.sample_rate, rate ∉ SUPPORTED_RATES
  sent : env.accepts v.sink.length
  build : env.diarization
  diarization : ∃ enabled ∈ msg.diarization, v.state_opt ≠ some (env.create_state enabled)

/-! ## Answers -/

variable {v : Vars F D R} {msg : Configure}

omit [F32Pcm F] in
theorem answersError_append {v v' : Vars F D R} {sent : List (Sent F)}
    (h : v'.sink = v.sink ++ sent) :
    AnswersError v v' ↔
      ∃ message code retry_after_ms, Sent.Text (.Error message code retry_after_ms) ∈ sent := by
  unfold AnswersError
  rw [h, List.drop_left]

omit [F32Pcm F] in
theorem reply_error_eq (env : Env F D R) (message code : String) (outcome : FrameOutcome)
    (v : Vars F D R) :
    reply_error env message code outcome v =
      (if env.accepts v.sink.length then .ok outcome else .error (.err []),
        { v with sink := v.sink ++ [.Text (.Error message code none)] }) := by
  unfold reply_error send_server_message send
  cases env.accepts v.sink.length <;> rfl

/-- The state is made anew where the message and the build have diarization. -/
theorem configure_diarization_eq (env : Env F D R) (diarization : Option Bool) (v : Vars F D R) :
    configure_diarization env diarization v =
      { v with state_opt :=
          ((diarization.filter fun _ => env.diarization).map env.create_state).or v.state_opt } := by
  unfold configure_diarization
  cases env.diarization <;> cases diarization <;> rfl

/-- An error that stops the handler. -/
theorem Configure.atomic_of_refused {message code : String}
    (h : (msg.handled env v).2 = { v with sink := v.sink ++ [.Text (.Error message code none)] }) :
    msg.Atomic env v := by
  unfold Configure.Atomic
  rw [h]
  refine ⟨fun _ => ⟨rfl, rfl⟩, fun hno => absurd ?_ hno⟩
  exact (answersError_append rfl).mpr ⟨message, code, none, List.mem_singleton_self _⟩

theorem Configure.atomic_of_late (h : v.audio_received) : msg.Atomic env v := by
  apply Configure.atomic_of_refused
  unfold Configure.handled handle_configure_message
  rw [if_pos h, reply_error_eq]

theorem Configure.atomic_of_version (hearly : v.audio_received = false) {ver : String}
    (h : ver ∈ msg.protocol_version) (hne : ver ≠ PROTOCOL_VERSION) : msg.Atomic env v := by
  have hver : msg.protocol_version.filter (· != PROTOCOL_VERSION) = some ver := by
    rw [Option.mem_def.mp h, Option.filter_some_pos (by simpa using hne)]
  apply Configure.atomic_of_refused
  unfold Configure.handled handle_configure_message
  rw [if_neg (by simp [hearly]), hver]
  dsimp only
  rw [reply_error_eq]

/-- Past the two checks. -/
theorem Configure.handled_eq (hearly : v.audio_received = false)
    (hversion : ∀ ver ∈ msg.protocol_version, ver = PROTOCOL_VERSION) :
    msg.handled env v =
      match configure_rate env msg.sample_rate v with
      | (.error e, v) => (.error e, v)
      | (.ok _, v) => (.ok .Continue, configure_diarization env msg.diarization v) := by
  have hver : msg.protocol_version.filter (· != PROTOCOL_VERSION) = none := by
    rw [Option.filter_eq_none_iff]
    intro ver hver
    simp [hversion ver hver]
  unfold Configure.handled handle_configure_message
  rewrite [if_neg (by simp [hearly]), hver]
  rfl

/-! ## Fields -/

/-- A rate that is supported, or none. -/
theorem Configure.atomic_of_rate (hearly : v.audio_received = false)
    (hversion : ∀ ver ∈ msg.protocol_version, ver = PROTOCOL_VERSION)
    (hrate : ∀ rate ∈ msg.sample_rate, rate ∈ SUPPORTED_RATES) : msg.Atomic env v := by
  have hconfigured : configure_rate env msg.sample_rate v =
      (.ok .Continue, { v with client_sample_rate := msg.sample_rate.getD v.client_sample_rate }) := by
    unfold configure_rate
    cases hsome : msg.sample_rate with
    | none => rfl
    | some rate =>
      dsimp only
      rw [if_pos (hrate rate hsome)]
      rfl
  unfold Configure.Atomic
  rw [Configure.handled_eq hearly hversion, hconfigured]
  dsimp only
  rw [configure_diarization_eq]
  have hquiet : ¬ AnswersError v
      { v with
        client_sample_rate := msg.sample_rate.getD v.client_sample_rate
        state_opt := ((msg.diarization.filter fun _ => env.diarization).map
          env.create_state).or v.state_opt } := by
    rintro ⟨message, code, retry_after_ms, hmem⟩
    simp at hmem
  refine ⟨fun herror => absurd herror hquiet, fun _ => ⟨?_, ?_, hversion⟩⟩
  · intro rate hsome
    rw [Option.mem_def.mp hsome, Option.getD_some]
  · intro hbuild hencoder enabled hsome
    rw [Option.mem_def.mp hsome, hbuild]
    refine ⟨rfl, ?_⟩
    exact (create_state_diarizes env enabled).trans (by simp [Env.diarizes, hbuild, hencoder])

omit [F32Pcm F] in
theorem configure_rate_of_refused {sample_rate : Option UInt32} {rate : UInt32}
    (hsome : rate ∈ sample_rate) (hrate : rate ∉ SUPPORTED_RATES) :
    configure_rate env sample_rate v =
      (if env.accepts v.sink.length then .ok .Continue else .error (.err []),
        { v with sink := v.sink ++ [.Text (.Error (unsupported_rate rate) "invalid_sample_rate" none)] }) := by
  unfold configure_rate
  rw [Option.mem_def.mp hsome]
  dsimp only
  rw [if_neg hrate, reply_error_eq]

theorem Configure.atomic_of_lost_error (hearly : v.audio_received = false)
    (hversion : ∀ ver ∈ msg.protocol_version, ver = PROTOCOL_VERSION) {rate : UInt32}
    (hsome : rate ∈ msg.sample_rate) (hrate : rate ∉ SUPPORTED_RATES)
    (hlost : ¬ env.accepts v.sink.length) : msg.Atomic env v := by
  apply Configure.atomic_of_refused
  rw [Configure.handled_eq hearly hversion, configure_rate_of_refused hsome hrate, if_neg hlost]

/-- The state is all that can change after the error for the rate. -/
theorem Configure.atomic_of_refused_rate (hearly : v.audio_received = false)
    (hversion : ∀ ver ∈ msg.protocol_version, ver = PROTOCOL_VERSION) {rate : UInt32}
    (hsome : rate ∈ msg.sample_rate) (hrate : rate ∉ SUPPORTED_RATES)
    (hsent : env.accepts v.sink.length) :
    msg.Atomic env v ↔
      ((msg.diarization.filter fun _ => env.diarization).map env.create_state).or v.state_opt =
        v.state_opt := by
  unfold Configure.Atomic
  rw [Configure.handled_eq hearly hversion, configure_rate_of_refused hsome hrate, if_pos hsent]
  dsimp only
  rw [configure_diarization_eq]
  have herror : AnswersError v
      { v with
        sink := v.sink ++ [.Text (.Error (unsupported_rate rate) "invalid_sample_rate" none)]
        state_opt := ((msg.diarization.filter fun _ => env.diarization).map
          env.create_state).or v.state_opt } :=
    (answersError_append rfl).mpr ⟨_, _, _, List.mem_singleton_self _⟩
  constructor
  · intro h
    exact (h.1 herror).2
  · exact fun h => ⟨fun _ => ⟨rfl, h⟩, fun hno => absurd herror hno⟩

/-- A Configure is all or nothing unless its rate is refused and it makes the state anew. -/
theorem configure_atomic_iff (env : Env F D R) (msg : Configure) (v : Vars F D R) :
    msg.Atomic env v ↔ ¬ msg.HalfApplied env v := by
  by_cases hlate : v.audio_received
  · refine iff_of_true (Configure.atomic_of_late hlate) fun hhalf => ?_
    simp [hhalf.early] at hlate
  have hearly : v.audio_received = false := Bool.eq_false_iff.mpr hlate
  by_cases hversion : ∀ ver ∈ msg.protocol_version, ver = PROTOCOL_VERSION
  · by_cases hrate : ∃ rate ∈ msg.sample_rate, rate ∉ SUPPORTED_RATES
    · obtain ⟨rate, hsome, hrefused⟩ := hrate
      by_cases hsent : env.accepts v.sink.length
      · rw [Configure.atomic_of_refused_rate hearly hversion hsome hrefused hsent]
        constructor
        · rintro hstate ⟨-, -, -, -, hbuild, enabled, hset, hne⟩
          rw [Option.mem_def.mp hset, hbuild] at hstate
          exact hne hstate.symm
        · intro hwhole
          cases hset : msg.diarization with
          | none => rfl
          | some enabled =>
            cases hbuild : env.diarization with
            | false => rfl
            | true =>
              by_contra hne
              refine hwhole ⟨hearly, hversion, ⟨rate, hsome, hrefused⟩, hsent, hbuild, enabled, hset,
                fun hsame => hne hsame.symm⟩
      · exact iff_of_true (Configure.atomic_of_lost_error hearly hversion hsome hrefused hsent)
          fun hhalf => hsent hhalf.sent
    · refine iff_of_true (Configure.atomic_of_rate hearly hversion ?_) fun hhalf => hrate hhalf.rate
      exact fun rate hsome => by_contra fun hrefused => hrate ⟨rate, hsome, hrefused⟩
  · simp only [not_forall] at hversion
    obtain ⟨ver, hver, hne⟩ := hversion
    exact iff_of_true (Configure.atomic_of_version hearly hver hne)
      fun hhalf => hne (hhalf.version ver hver)

/-- A rate that is refused, with diarization. -/
def refused_with_diarization : Configure := ⟨some 11025, some true, none⟩

theorem refused_rate_turns_diarization_on :
    ¬ refused_with_diarization.Atomic dia_env (WsLoop.new dia_env yes_triplet).vars := by
  intro h
  have herror : AnswersError (WsLoop.new dia_env yes_triplet).vars
      (refused_with_diarization.handled dia_env (WsLoop.new dia_env yes_triplet).vars).2 :=
    ⟨_, _, _, List.mem_singleton_self _⟩
  have hstate := congrArg (Option.map (·.stream.diarization_state.isSome)) (h.1 herror).2
  have hon : some true = some false := hstate
  simp at hon

end Gigastt.Session
