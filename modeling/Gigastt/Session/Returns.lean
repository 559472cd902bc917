import Gigastt.Session.Turns

/-!
# A session gives its triplet back

At every loop head the state and the triplet are there. Only a blocking task that could not
be joined takes the triplet with it.
-/

namespace Gigastt.Session

open Decode Server Streaming Words

variable {F D R : Type} {env : Env F D R} {deadline : Instant} {triplet : Triplet F}

/-- What the loop leaves behind when it ends with this result. -/
def Returned (slot : Nat) (it : Iteration F) (result : Except Fault Unit) (v : Vars F D R) : Prop :=
  (∃ back, v.triplet_opt = some back ∧ back.slot = slot) ∨
    (v.triplet_opt = none ∧ it.blocking.join_fails = true ∧
      result = .error (.err ["Blocking task join failed"]))

theorem returned_of_turned {slot : Nat} {it : Iteration F} {result : Except Fault Unit}
    {v v' : Vars F D R} (hv : Sound slot v)
    (h : Turned env deadline slot it v (some result) v') :
    Returned slot it result v' ∧ ∀ e, result = .error e → ¬ Lost e := by
  generalize hresult : some result = ended at h
  cases h with
  | cancelled =>
    cases hresult
    obtain ⟨-, -, -, htriplet, -⟩ := on_cancel_spec env it.ts hv
    exact ⟨.inl (htriplet ▸ hv.triplet), by simp⟩
  | capped =>
    cases hresult
    obtain ⟨-, -, -, htriplet, -⟩ := on_deadline_spec env it.ts hv
    exact ⟨.inl (htriplet ▸ hv.triplet), by simp⟩
  | idle =>
    cases hresult
    exact ⟨.inl hv.triplet, by simp⟩
  | hung_up r _ hr =>
    cases hresult
    refine ⟨.inl hv.triplet, ?_⟩
    rintro e rfl
    rcases hr with hr | hr
    · simp at hr
    · cases hr
      exact not_lost_send
  | message _ h =>
    cases h with
    | served _ hsound _ hlost =>
      refine ⟨.inl hsound.triplet, ?_⟩
      rintro e rfl
      exact hlost e (broken_by_eq_error.mp hresult.symm)
    | stopped seg _ hr =>
      refine ⟨.inl hv.triplet, ?_⟩
      rintro e rfl
      exact not_lost_of_reply hr e (broken_by_eq_error.mp hresult.symm)
    | unjoined _ hjoin htriplet _ =>
      cases hresult
      exact ⟨.inr ⟨htriplet, hjoin, rfl⟩, by simp [Lost]⟩

variable [F32Pcm F]

theorem sound_step {slot : Nat} {s s' : WsLoop F D R} {it : Iteration F}
    (hs : s.result = none → Sound slot s.vars) (h : WsLoop.step env deadline s it = some s')
    (hend : s'.result = none) : Sound slot s'.vars := by
  have hturn := turned_of_step (hs (open_of_step h)) h
  obtain ⟨v', result⟩ := s'
  dsimp only at hend hturn ⊢
  cases hturn with
  | cancelled | capped | idle | hung_up => simp at hend
  | message _ h =>
    cases h with
    | served _ hsound => exact hsound
    | stopped _ _ hr => exact absurd hend (broken_by_stop hr)
    | unjoined => simp [broken_by] at hend

theorem sound_of_run {its : List (Iteration F)} {s : WsLoop F D R}
    (hrun : WsLoop.run env deadline triplet its = some s) (hopen : s.result = none) :
    Sound triplet.slot s.vars :=
  Steps.inv_of_run (fun s => s.result = none → Sound triplet.slot s.vars)
    (fun _ _ _ h hs => sound_step hs h) hrun (fun _ => sound_new triplet) hopen

/-- At every loop head both options are there, and when the loop has ended the triplet is
given back once, unless the blocking task of the last turn could not be joined. -/
theorem triplet_given_back (env : Env F D R) (deadline : Instant) (triplet : Triplet F)
    (its : List (Iteration F)) (s : WsLoop F D R)
    (hrun : WsLoop.run env deadline triplet its = some s) :
    (s.result = none → s.vars.state_opt.isSome ∧ s.vars.triplet_opt.isSome) ∧
      ∀ result, s.result = some result →
        result ≠ .error (.err ["Streaming state lost"]) ∧
        result ≠ .error (.err ["Triplet lost"]) ∧
        ((∃ back, s.vars.triplet_opt = some back ∧ back.slot = triplet.slot ∧
            give_back {} s.vars.triplet_opt = [.checked_in back]) ∨
          (s.vars.triplet_opt = none ∧ (∃ it ∈ its, it.blocking.join_fails = true) ∧
            result = .error (.err ["Blocking task join failed"]))) := by
  constructor
  · intro hopen
    obtain ⟨⟨state, hstate, -⟩, ⟨back, hback, -⟩⟩ := sound_of_run hrun hopen
    simp [hstate, hback]
  · intro result hresult
    rcases Steps.run_last hrun with ⟨-, rfl⟩ | ⟨before, it, s₁, rfl, hbefore, hlast⟩
    · simp [WsLoop.new] at hresult
    have hv := sound_of_run hbefore (open_of_step hlast)
    have hturn := turned_of_step hv hlast
    rw [hresult] at hturn
    obtain ⟨hreturned, hlost⟩ := returned_of_turned hv hturn
    refine ⟨fun h => hlost _ h (.inl rfl), fun h => hlost _ h (.inr rfl), ?_⟩
    rcases hreturned with ⟨back, hback, hslot⟩ | ⟨hnone, hjoin, herror⟩
    · exact .inl ⟨back, hback, hslot, by rw [hback]; rfl⟩
    · exact .inr ⟨hnone, ⟨it, by simp, hjoin⟩, herror⟩

/-! ## A session on fixed inputs -/

def stop_text : Text := "\x7b\"type\":\"stop\"\x7d".toList
def configure_text : Text := "\x7b\"type\":\"configure\",\"sample_rate\":16000\x7d".toList

def yes_env : Env Int Unit Unit where
  engine := yes_engine
  rubato :=
    { new := fun _ _ => .error "no memory"
      set_chunk_size := fun r _ => (false, r)
      process := fun r _ => (.ok [], r) }
  diarization := false
  new_diarizer := ()
  from_str text :=
    if text = stop_text then some .Stop
    else if text = configure_text then some (.Configure (some 16000) none none)
    else none
  accepts _ := true

def yes_triplet : Triplet Int where
  slot := 3
  sessions := (yes_call 320).triplet

/-- A turn long before the deadline. -/
def yes_turn (next : Next) : Iteration Int where
  cancelled := false
  now := ⟨0, 0, by decide, by decide, nsec_per_sec_pos⟩
  cancel_wakes := false
  deadline_wakes := false
  next
  blocking := { join_fails := false, panics := false, sessions := (yes_call 320).triplet, ts := 0 }
  ts := 0

theorem from_str_stop : yes_env.from_str stop_text = some .Stop := by simp [yes_env]

theorem from_str_configure :
    yes_env.from_str configure_text = some (.Configure (some 16000) none none) := by
  have hne : configure_text ≠ stop_text := by
    unfold configure_text stop_text
    rw [ne_eq, String.toList_inj]
    decide
  simp [yes_env, hne]

/-- A frame on which the inference panics. -/
def panic_on (data : List UInt8) : Iteration Int :=
  { yes_turn (.message (.Binary data)) with
    blocking := { join_fails := false, panics := true, sessions := (yes_call 320).triplet, ts := 0 } }

theorem pairs_replicate (n : Nat) (b : UInt8) :
    pairs (List.replicate (n + n) b) = List.replicate n (b, b) := by
  induction n with
  | zero => rfl
  | succ n ih =>
    rw [show n + 1 + (n + 1) = n + n + 1 + 1 by omega, List.replicate_succ, List.replicate_succ,
      List.replicate_succ, pairs, ih]

theorem deframe_silence (n : Nat) :
    deframe none (List.replicate (n + n) 0) = (List.replicate n 0, none) := by
  have heven : (n + n) % 2 = 0 := by omega
  have hzero : from_le_bytes (0, 0) = 0 := by decide
  simp [deframe, pairs_replicate, heven, hzero]

/-! ### A rough session -/

/-- A frame of 320 samples. -/
def silent_frame : List UInt8 := List.replicate (320 + 320) 0

theorem silent_frame_isEmpty : silent_frame.isEmpty = false := rfl

theorem silent_frame_samples : deframe none silent_frame = (List.replicate 320 0, none) :=
  deframe_silence 320

/-- The engine hears `yes` in it. -/
theorem yes_frame :
    ∃ seg stream, yes_engine.process_chunk ((List.replicate 320 (0 : Int)).map to_f32)
        (yes_engine.create_state none) (says_triplet 1) 0 = (.ok [seg], stream) ∧
      seg.is_final = false ∧ stream.assembler.words.map WordInfo.word = ["yes".toList] := by
  have hsilence : (to_f32 0 : Int) = 0 := by decide
  obtain ⟨seg, stream, hchunk, hseg, -, -, hassembler⟩ := yes_chunk 0 0
  refine ⟨seg, stream, ?_, by rw [hseg]; rfl, ?_⟩
  · rw [List.map_replicate, hsilence]
    exact hchunk
  · rw [hassembler]
    rfl

/-- The rate, a frame whose task panics, and a frame with a word. -/
def rough_session : List (Iteration Int) :=
  [yes_turn (.message (.Text configure_text)), panic_on silent_frame,
    yes_turn (.message (.Binary silent_frame))]

def stop_turn : Iteration Int := yes_turn (.message (.Text stop_text))

def rough_sink (seg : TranscriptSegment Int) : List (Sent Int) :=
  [.Text (ready yes_env),
    .Text (.Error "Inference failed unexpectedly. Session reset." "inference_panic" none),
    .Text (segment_message seg)]

/-- The session after these turns, with this stream. -/
def rough (seg : TranscriptSegment Int) (stream : StreamingState Int Unit) : WsLoop Int Unit Unit where
  vars :=
    { state_opt := some { yes_env.create_state false with stream }
      triplet_opt := some yes_triplet
      client_sample_rate := 16000
      audio_received := true
      pending_byte := none
      sink := rough_sink seg
      source := [.Text configure_text, .Binary silent_frame, .Binary silent_frame] }
  result := none

theorem rough_session_open :
    ∃ seg stream, WsLoop.run yes_env .last yes_triplet rough_session = some (rough seg stream) ∧
      seg.is_final = false ∧ stream.assembler.words.map WordInfo.word = ["yes".toList] := by
  obtain ⟨seg, stream, hchunk, hsegment, hwords⟩ := yes_frame
  let v₁ : Vars Int Unit Unit := { (WsLoop.new yes_env yes_triplet).vars with
    client_sample_rate := 16000, source := [.Text configure_text] }
  let v₂ : Vars Int Unit Unit := { v₁ with
    audio_received := true
    sink := (rough_sink seg).take 2
    source := [.Text configure_text, .Binary silent_frame] }
  have hconfigure : on_message yes_env (yes_turn (.message (.Text configure_text)))
      (.Text configure_text)
      { (WsLoop.new yes_env yes_triplet).vars with source := [.Text configure_text] } =
        (.ok .Continue, v₁) := by
    unfold on_message
    dsimp only
    rw [from_str_configure]
    rfl
  have hpanic : on_message yes_env (panic_on silent_frame) (.Binary silent_frame)
      { v₁ with source := v₁.source ++ [.Binary silent_frame] } = (.ok .Continue, v₂) := by
    rw [on_frame _ { v₁ with source := _ } silent_frame_isEmpty silent_frame_samples rfl rfl rfl,
      spawn_panics rfl rfl]
    rfl
  have hframe : on_message yes_env (yes_turn (.message (.Binary silent_frame))) (.Binary silent_frame)
      { v₂ with source := v₂.source ++ [.Binary silent_frame] } =
        (.ok .Continue, (rough seg stream).vars) := by
    have hspawn : spawn_blocking yes_env (yes_turn (.message (.Binary silent_frame))).blocking
        ((List.replicate 320 0).map to_f32) (yes_env.create_state false) yes_triplet =
          some (.returned (.ok [seg]), { yes_env.create_state false with stream }, yes_triplet) :=
      spawn_returns rfl rfl hchunk
    rw [on_frame _ { v₂ with source := _ } silent_frame_isEmpty silent_frame_samples rfl rfl rfl, hspawn,
      on_joined, send_segments_accepted fun _ => rfl]
    rfl
  exact ⟨seg, stream, Steps.run_cons_eq_some.mpr ⟨_, step_of_serves rfl hconfigure,
    Steps.run_cons_eq_some.mpr ⟨_, step_of_serves rfl hpanic,
      Steps.run_cons_eq_some.mpr ⟨_, step_of_serves rfl hframe, rfl⟩⟩⟩, hsegment, hwords⟩

theorem rough_session_stops :
    ∃ s seg last, WsLoop.run yes_env .last yes_triplet (rough_session ++ [stop_turn]) = some s ∧
      s.result = some (.ok ()) ∧ s.vars.sink = rough_sink seg ++ [.Text (.Final last)] := by
  obtain ⟨seg, stream, hrun, -⟩ := rough_session_open
  obtain ⟨last, hlast⟩ := final_message_is_final (flush_state stream 0).1 0
  have hstop : on_message yes_env stop_turn (.Text stop_text)
      { (rough seg stream).vars with source := (rough seg stream).vars.source ++ [.Text stop_text] } =
        (.ok .Break, { (rough seg stream).vars with
          state_opt := none
          sink := rough_sink seg ++ [.Text (.Final last)]
          source := (rough seg stream).vars.source ++ [.Text stop_text] }) := by
    unfold on_message
    dsimp only
    rw [from_str_stop, ← hlast]
    rfl
  exact ⟨_, seg, last, Steps.run_append.mpr ⟨_, hrun,
    Steps.run_cons_eq_some.mpr ⟨_, step_of_serves rfl hstop, rfl⟩⟩, rfl, rfl⟩

/-- The triplet comes back after a panic under a frame, and one more frame. -/
theorem triplet_given_back_after_panic :
    ∃ s, WsLoop.run yes_env .last yes_triplet (rough_session ++ [stop_turn]) = some s ∧
      ∃ back, back.slot = 3 ∧ give_back {} s.vars.triplet_opt = [.checked_in back] := by
  obtain ⟨s, seg, last, hrun, hresult, -⟩ := rough_session_stops
  refine ⟨s, hrun, ?_⟩
  obtain ⟨-, -, hback | ⟨-, -, herror⟩⟩ := (triplet_given_back _ _ _ _ s hrun).2 _ hresult
  · obtain ⟨back, -, hslot, hgiven⟩ := hback
    exact ⟨back, hslot, hgiven⟩
  · simp at herror

end Gigastt.Session
