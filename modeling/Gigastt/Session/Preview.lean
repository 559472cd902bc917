import Gigastt.Lib.Str
import Gigastt.Session.Settings

/-!
# Text frames and the preview of the log

A message that is not understood is logged at the level `debug`, cut after a hundred bytes.
Arguments of a log line are computed when its level is on, and only then.
-/

namespace Gigastt.Session

open Decode Server Streaming Words Str
open String (utf8Len)

/-- A slice of a `str` would start or end inside a character. -/
inductive SlicePanic where
  | char_boundary
deriving DecidableEq, Repr

def PREVIEW_BYTES : Nat := 100

/-- `&text[..text.len().min(100)]` -/
def preview (text : Text) : Except SlicePanic Text :=
  match slice_to (min (utf8Len text) PREVIEW_BYTES) text with
  | some slice => .ok slice
  | none => .error .char_boundary

variable {F D R : Type} [F32Pcm F]

/-- The branch of the loop for a text frame, with its log output. -/
def on_text (debug : Bool) (env : Env F D R) (it : Iteration F) (text : Text) (v : Vars F D R) :
    Except SlicePanic (Except Fault FrameOutcome × Vars F D R) :=
  match env.from_str text with
  | some (.Configure sample_rate diarization protocol_version) =>
    .ok (handle_configure_message env sample_rate diarization protocol_version v)
  | some .Stop => .ok (handle_stop_message env it.ts v)
  | none => do
    if debug then let _ ← preview text
    return (.ok .Continue, v)

variable {debug : Bool} {env : Env F D R} {it : Iteration F} {text : Text} {v : Vars F D R}

/-- Log output apart, this is the branch of `on_message`. -/
theorem on_text_eq_on_message {r : Except Fault FrameOutcome × Vars F D R}
    (h : on_text debug env it text v = .ok r) : r = on_message env it (.Text text) v := by
  cases hmsg : env.from_str text with
  | some msg =>
    cases msg with
    | Stop =>
      simp only [on_text, hmsg] at h
      simp only [on_message, hmsg]
      exact (Except.ok.inj h).symm
    | Configure =>
      simp only [on_text, hmsg] at h
      simp only [on_message, hmsg]
      exact (Except.ok.inj h).symm
  | none =>
    simp only [on_text, hmsg] at h
    simp only [on_message, hmsg]
    cases debug with
    | false => exact (Except.ok.inj h).symm
    | true =>
      cases hpreview : preview text with
      | error e =>
        simp [hpreview, bind, Except.bind] at h
      | ok slice =>
        rw [hpreview] at h
        exact (Except.ok.inj h).symm

/-- The preview of a text is cut between two characters. -/
theorem preview_isOk_iff (text : Text) :
    (∃ slice, preview text = .ok slice) ↔ utf8Len text ≤ PREVIEW_BYTES ∨ IsCharBoundary text PREVIEW_BYTES := by
  have hslice : (∃ slice, preview text = .ok slice) ↔
      IsCharBoundary text (min (utf8Len text) PREVIEW_BYTES) := by
    rw [isCharBoundary_iff]
    unfold preview
    cases slice_to (min (utf8Len text) PREVIEW_BYTES) text with
    | none => simp
    | some slice => simp
  rw [hslice]
  rcases Nat.le_total (utf8Len text) PREVIEW_BYTES with hle | hge
  · rw [min_eq_left hle]
    exact iff_of_true (isCharBoundary_end text) (.inl hle)
  · rw [min_eq_right hge]
    constructor
    · exact .inr
    · rintro (hle | hboundary)
      · rw [← le_antisymm hle hge]
        exact isCharBoundary_end text
      · exact hboundary

theorem on_text_of_recognised (debug : Bool) (it : Iteration F) (v : Vars F D R) {msg : ClientMessage}
    (h : env.from_str text = some msg) : ∃ r, on_text debug env it text v = .ok r := by
  unfold on_text
  rw [h]
  cases msg with
  | Stop => exact ⟨_, rfl⟩
  | Configure => exact ⟨_, rfl⟩

/-- A message that is not understood is ignored, if its preview is cut between two characters. -/
theorem on_text_of_unrecognised (debug : Bool) (it : Iteration F) (v : Vars F D R) (h : env.from_str text = none) :
    (∃ r, on_text debug env it text v = .ok r) ↔
      debug = false ∨ ∃ slice, preview text = .ok slice := by
  unfold on_text
  rw [h]
  cases debug with
  | false => exact iff_of_true ⟨_, rfl⟩ (.inl rfl)
  | true =>
    cases preview text with
    | error e => simp [bind, Except.bind]
    | ok slice => exact iff_of_true ⟨_, rfl⟩ (.inr ⟨slice, rfl⟩)

theorem on_message_of_unrecognised (h : env.from_str text = none) :
    on_message env it (.Text text) v = (.ok .Continue, v) := by
  simp only [on_message, h]

/-- What a text frame must do: no panic, and nothing if the message is not understood. -/
def FrameHandled (debug : Bool) (env : Env F D R) (it : Iteration F) (text : Text) (v : Vars F D R) : Prop :=
  ∃ r, on_text debug env it text v = .ok r ∧ (env.from_str text = none → r = (.ok .Continue, v))

/-- The log is on, and its preview of this message would end inside a character. -/
structure Straddles (debug : Bool) (env : Env F D R) (text : Text) : Prop where
  debug : debug = true
  unrecognised : env.from_str text = none
  long : PREVIEW_BYTES < utf8Len text
  inside : ¬ IsCharBoundary text PREVIEW_BYTES

omit [F32Pcm F] in
theorem not_straddles_iff : ¬ Straddles debug env text ↔
    (env.from_str text = none → debug = false ∨ utf8Len text ≤ PREVIEW_BYTES ∨
      IsCharBoundary text PREVIEW_BYTES) := by
  constructor
  · intro h hnone
    by_contra! hall
    obtain ⟨hdebug, hlong, hinside⟩ := hall
    exact h ⟨Bool.eq_true_of_not_eq_false hdebug, hnone, hlong, hinside⟩
  · rintro h ⟨hdebug, hnone, hlong, hinside⟩
    rcases h hnone with hoff | hshort | hboundary
    · rw [hdebug] at hoff
      nomatch hoff
    · exact absurd hlong (Nat.not_lt.mpr hshort)
    · exact hinside hboundary

/-- A text frame is handled unless its preview would end inside a character. -/
theorem text_frame_handled_iff (debug : Bool) (env : Env F D R) (it : Iteration F) (text : Text)
    (v : Vars F D R) : FrameHandled debug env it text v ↔ ¬ Straddles debug env text := by
  rw [not_straddles_iff]
  cases hmsg : env.from_str text with
  | some msg =>
    obtain ⟨r, hr⟩ := on_text_of_recognised debug it v hmsg
    refine iff_of_true ⟨r, hr, fun hnone => ?_⟩ fun hnone => nomatch hnone
    rw [hmsg] at hnone
    nomatch hnone
  | none =>
    have hiff := on_text_of_unrecognised debug it v hmsg
    rw [preview_isOk_iff] at hiff
    constructor
    · rintro ⟨r, hr, -⟩ -
      exact hiff.mp ⟨r, hr⟩
    · intro h
      obtain ⟨r, hr⟩ := hiff.mpr (h rfl)
      refine ⟨r, hr, fun _ => ?_⟩
      rw [on_text_eq_on_message hr]
      exact on_message_of_unrecognised hmsg

/-- The turn of a message that is ignored leaves the loop running. -/
theorem turn_of_unrecognised {deadline : Instant} (hmsg : env.from_str text = none)
    (hserves : it.serves deadline = some (.Text text)) :
    turn env deadline it v = (none, { v with source := v.source ++ [.Text text] }) := by
  rw [turn_of_serves hserves, on_message_of_unrecognised hmsg]
  rfl

/-- Two bytes of its last character stand on both sides of the hundredth. -/
def straddling_text : Text := List.replicate 99 'a' ++ ['é']

theorem from_str_straddling : yes_env.from_str straddling_text = none := by
  have hhead : ∀ {text : Text}, text.head? ≠ some 'a' → straddling_text ≠ text := by
    rintro text hne rfl
    exact hne rfl
  have hstop : straddling_text ≠ stop_text := hhead (by decide)
  have hconfigure : straddling_text ≠ configure_text := hhead (by decide)
  simp [yes_env, hstop, hconfigure]

theorem straddling_text_panics : ¬ ∀ text : Text,
    FrameHandled true yes_env (yes_turn (.message (.Text text))) text (WsLoop.new yes_env yes_triplet).vars := by
  intro h
  obtain ⟨r, hr, -⟩ := h straddling_text
  unfold on_text at hr
  rw [from_str_straddling] at hr
  have hpreview : preview straddling_text = .error .char_boundary := by decide +kernel
  rw [if_pos rfl, hpreview] at hr
  nomatch hr

end Gigastt.Session
