import Gigastt.Base
import Gigastt.Lib.Loop

/-!
# `inference/decode.rs`: the greedy RNN-T decode loop

A decode that fails leaves its `&mut DecoderState` as it was at the failure, so errors
carry that state.
-/

namespace Gigastt.Decode

def MAX_TOKENS_PER_STEP : Nat := 10
def ENC_DIM : Nat := 768
def ENDPOINT_BLANK_THRESHOLD : Nat := 15

variable {F : Type}

structure TokenInfo (F : Type) where
  token_id : Nat
  frame_index : Nat
  confidence : F
deriving DecidableEq, Repr

structure DecodeResult (F : Type) where
  tokens : List (TokenInfo F)
  endpoint_detected : Bool
deriving DecidableEq, Repr

structure DecoderState (F : Type) where
  h : List F
  c : List F
  prev_token : Int
  consecutive_blanks : Nat
deriving DecidableEq, Repr

def DecoderState.new [Zero F] (blank_id : Nat) : DecoderState F where
  h := List.replicate PRED_HIDDEN 0
  c := List.replicate PRED_HIDDEN 0
  prev_token := blank_id
  consecutive_blanks := 0

structure DecoderOutput (F : Type) where
  dec_data : List F
  new_h : List F
  new_c : List F
deriving DecidableEq, Repr

/-! ## Frames and logits -/

/-- Column `t` of a channels-first tensor of `encoded_len` columns. -/
def extract_encoder_frame (encoded : List F) (encoded_len t : Nat) : Except Fault (List F) :=
  (List.range ENC_DIM).mapM fun ch => index encoded (ch * encoded_len + t)

section Logits

variable [F32 F]

def argmax (logits : List F) (blank_id : Nat) : Nat :=
  ((max_by (fun a b => F32.total_cmp a.1 b.1) logits.zipIdx).map Prod.snd).getD blank_id

theorem argmax_lt (logits : List F) (blank_id : Nat) (h : logits ≠ []) :
    argmax logits blank_id < logits.length := by
  unfold argmax
  obtain ⟨x, xs, rfl⟩ := List.exists_cons_of_ne_nil h
  obtain ⟨p, hp⟩ : ∃ p, max_by (fun a b => F32.total_cmp a.1 b.1) (x :: xs).zipIdx = some p :=
    ⟨_, rfl⟩
  have hmem := max_by_mem hp
  rw [hp]
  simpa using List.snd_lt_of_mem_zipIdx hmem

def argmax_with_confidence (logits : List F) (blank_id : Nat) : Nat × F :=
  if h : logits = [] then (blank_id, 0)
  else
    let max_logit := logits.foldl F32.max F32.neg_infinity
    let sum_exp := float_sum (logits.map fun l => F32.exp (l - max_logit))
    let token := argmax logits blank_id
    (token, F32.exp (logits.get ⟨token, argmax_lt logits blank_id h⟩ - max_logit) / sum_exp)

end Logits

/-! ## The sessions -/

abbrev Decoder (F : Type) := Session F (List Int × List F × List F)

abbrev Joiner (F : Type) := Session F (List F × List F)

def run_decoder (decoder : Decoder F) (call : Nat) (state : DecoderState F) :
    Except Fault (DecoderOutput F) := do
  let target_data ← from_array_view [1, 1] [state.prev_token]
  let h ← from_array_view [1, 1, PRED_HIDDEN] state.h
  let c ← from_array_view [1, 1, PRED_HIDDEN] state.c
  let outputs ← context "Decoder inference failed" (decoder call (target_data, h, c))
  let dec_data ← context "Failed to extract decoder output" (← index outputs 0).try_extract_f32
  let new_h ← context "Failed to extract decoder h state" (← index outputs 1).try_extract_f32
  let new_c ← context "Failed to extract decoder c state" (← index outputs 2).try_extract_f32
  return { dec_data, new_h, new_c }

def run_joiner_single (joiner : Joiner F) (call : Nat) (enc_frame dec_data : List F) :
    Except Fault (List F) := do
  let enc ← from_array_view [1, ENC_DIM, 1] enc_frame
  let dec ← from_array_view [1, PRED_HIDDEN, 1] dec_data
  let outputs ← context "Joiner inference failed" (joiner call (enc, dec))
  context "Failed to extract joiner output" (← index outputs 0).try_extract_f32

/-! ## The state of the loops -/

/-- What the loops build: the tokens, the endpoint flag and the state they borrow. -/
structure Progress (F : Type) where
  tokens : List (TokenInfo F)
  endpoint_detected : Bool
  state : DecoderState F
deriving DecidableEq, Repr

structure Locals (F : Type) extends Progress F where
  decoder_calls : Nat
  joiner_calls : Nat
  skipped_decoder_calls : Nat
  cached_decoder_output : Option (DecoderOutput F)
  in_blank_run : Bool
deriving DecidableEq, Repr

def Progress.new (state : DecoderState F) : Progress F :=
  { tokens := [], endpoint_detected := false, state }

def Locals.new (state : DecoderState F) : Locals F where
  toProgress := Progress.new state
  decoder_calls := 0
  joiner_calls := 0
  skipped_decoder_calls := 0
  cached_decoder_output := none
  in_blank_run := false

abbrev Decoding (F α : Type) := Except (Fault × DecoderState F) α

/-- `?`, with the state as it is at that point. -/
def leaving {α : Type} (state : DecoderState F) : Except Fault α → Decoding F α
  | .ok a => .ok a
  | .error e => .error (e, state)

/-! ## One pass of the inner loop -/

def Locals.decoder_call (decoder : Decoder F) (l : Locals F) :
    Decoding F (DecoderOutput F × Locals F) :=
  if l.in_blank_run then
    let l := { l with skipped_decoder_calls := l.skipped_decoder_calls + 1 }
    match l.cached_decoder_output with
    | some out => .ok (out, l)
    | none => .error (.panic .unwrap_none, l.state)
  else do
    let l := { l with decoder_calls := l.decoder_calls + 1 }
    let out ← leaving l.state (run_decoder decoder l.decoder_calls l.state)
    return (out, { l with cached_decoder_output := some out })

/-- Both exits of the inner loop count a frame that ends here as blank. -/
def Progress.count_blank (p : Progress F) : Progress F :=
  let consecutive_blanks := p.state.consecutive_blanks + 1
  { p with
    state := { p.state with consecutive_blanks }
    endpoint_detected := p.endpoint_detected ||
      (decide (consecutive_blanks ≥ ENDPOINT_BLANK_THRESHOLD) && !p.tokens.isEmpty) }

def shape_text (h c : Nat) : String :=
  s!"Unexpected decoder state shape: h={h}, c={c}, expected {PRED_HIDDEN}"

/-- A non-blank token: commit the decoder's state, emit the token. -/
def Progress.commit (p : Progress F) (out : DecoderOutput F) (token t : Nat) (confidence : F) :
    Decoding F (Progress F) := do
  let state := { p.state with consecutive_blanks := 0, prev_token := token }
  if out.new_h.length ≠ PRED_HIDDEN ∨ out.new_c.length ≠ PRED_HIDDEN then
    throw (.err [shape_text out.new_h.length out.new_c.length], state)
  let h ← leaving state (copy_from_slice state.h out.new_h)
  let state := { state with h }
  let c ← leaving state (copy_from_slice state.c out.new_c)
  let state := { state with c }
  let tokens := p.tokens ++ [{ token_id := token, frame_index := t, confidence }]
  return { p with tokens, state }

def Locals.classify (l : Locals F) (out : DecoderOutput F) (blank_id t tokens_this_step token : Nat)
    (confidence : F) : Decoding F (Turn (Locals F × Nat) (Locals F)) :=
  if token = blank_id then
    .ok (.stop { l with in_blank_run := true, toProgress := l.count_blank })
  else if tokens_this_step ≥ MAX_TOKENS_PER_STEP then
    -- The decoder's state moved on earlier passes of this frame, so the cache is stale.
    .ok (.stop { l with
      in_blank_run := false, cached_decoder_output := none, toProgress := l.count_blank })
  else do
    let p ← l.commit out token t confidence
    return .next ({ l with in_blank_run := false, toProgress := p }, tokens_this_step + 1)

theorem Locals.classify_next {l : Locals F} {out : DecoderOutput F}
    {blank_id t tokens_this_step token : Nat} {confidence : F} {s : Locals F × Nat}
    (h : l.classify out blank_id t tokens_this_step token confidence = .ok (.next s)) :
    tokens_this_step < MAX_TOKENS_PER_STEP ∧ s.2 = tokens_this_step + 1 := by
  unfold Locals.classify at h
  split_ifs at h with hblank hcap
  · simp at h
  · simp at h
  · obtain ⟨p, -, h⟩ := bind_eq_ok.mp h
    obtain rfl := Turn.next.inj (Except.ok.inj h)
    exact ⟨by omega, rfl⟩

section Loops

variable [F32 F]

def decode_pass (decoder : Decoder F) (joiner : Joiner F) (blank_id t : Nat) (enc_frame : List F) :
    Locals F × Nat → Decoding F (Turn (Locals F × Nat) (Locals F))
  | (l, tokens_this_step) => do
    let (out, l) ← l.decoder_call decoder
    let l := { l with joiner_calls := l.joiner_calls + 1 }
    let logits_buf ←
      leaving l.state (run_joiner_single joiner l.joiner_calls enc_frame out.dec_data)
    let (token, confidence) := argmax_with_confidence logits_buf blank_id
    l.classify out blank_id t tokens_this_step token confidence

/-- A pass goes on only after a token, below the cap. -/
theorem decode_pass_next {decoder : Decoder F} {joiner : Joiner F} {blank_id t : Nat}
    {enc_frame : List F} {s s' : Locals F × Nat}
    (h : decode_pass decoder joiner blank_id t enc_frame s = .ok (.next s')) :
    s.2 < MAX_TOKENS_PER_STEP ∧ s'.2 = s.2 + 1 := by
  unfold decode_pass at h
  obtain ⟨⟨out, l⟩, -, h⟩ := bind_eq_ok.mp h
  obtain ⟨logits_buf, -, h⟩ := bind_eq_ok.mp h
  exact Locals.classify_next h

def decode_loop (decoder : Decoder F) (joiner : Joiner F) (blank_id t : Nat) (enc_frame : List F) :
    Loop (Fault × DecoderState F) (Locals F × Nat) (Locals F) where
  body := decode_pass decoder joiner blank_id t enc_frame
  measure s := MAX_TOKENS_PER_STEP - s.2
  decreases s s' h := by
    have := decode_pass_next h
    omega

/-! ## The decode -/

def size_text (got expected : Nat) : String :=
  s!"Encoder output size mismatch: got {got}, expected >= {expected}"

def decode_frame (decoder : Decoder F) (joiner : Joiner F) (encoded : List F)
    (encoded_len blank_id : Nat) (l : Locals F) (t : Nat) : Decoding F (Locals F) := do
  let enc_frame ← leaving l.state (extract_encoder_frame encoded encoded_len t)
  (decode_loop decoder joiner blank_id t enc_frame).run (l, 0)

/-- What the caller gets of the loops: the result, and the state they leave. -/
def returned : Decoding F (Progress F) → Except Fault (DecodeResult F) × DecoderState F
  | .ok p => (.ok { tokens := p.tokens, endpoint_detected := p.endpoint_detected }, p.state)
  | .error (e, state) => (.error e, state)

def greedy_decode (decoder : Decoder F) (joiner : Joiner F) (encoded : List F)
    (encoded_len blank_id : Nat) (state : DecoderState F) :
    Except Fault (DecodeResult F) × DecoderState F :=
  if encoded.length < ENC_DIM * encoded_len then
    (.error (.err [size_text encoded.length (ENC_DIM * encoded_len)]), state)
  else returned do
    let l ← (List.range encoded_len).foldlM
      (decode_frame decoder joiner encoded encoded_len blank_id) (Locals.new state)
    return l.toProgress

end Loops

end Gigastt.Decode
