import Gigastt.Decode.Plain
import Mathlib.Data.List.FinRange

/-!
# Decoding one stretch of frames after another

`greedy_decode` on an encoder tensor is a walk over its columns. The walk over two
stretches is the walk over the first, then over the second from the state it left.
-/

namespace Gigastt.Decode

variable {F : Type}

/-! ## Tensors and their columns -/

abbrev Frame (F : Type) := Fin ENC_DIM → F

/-- The tensor `[1, ENC_DIM, frames.length]`, flattened. -/
def channels_first (frames : List (Frame F)) : List F :=
  (List.finRange ENC_DIM).flatMap fun ch => frames.map fun frame => frame ch

theorem getElem?_flatMap {α β : Type} {f : α → List β} {n t : Nat} (hf : ∀ a, (f a).length = n)
    (ht : t < n) (l : List α) (i : Nat) :
    (l.flatMap f)[i * n + t]? = l[i]?.bind fun a => (f a)[t]? := by
  induction l generalizing i with
  | nil => simp
  | cons a l ih =>
    rw [List.flatMap_cons]
    match i with
    | 0 =>
      rw [List.getElem?_append_left (by rw [hf]; omega)]
      simp
    | i + 1 =>
      have hi : (i + 1) * n + t - n = i * n + t := by
        rw [Nat.succ_mul]
        omega
      rw [List.getElem?_append_right (by rw [hf, Nat.succ_mul]; omega), hf, hi, ih]
      simp

theorem channels_first_length (frames : List (Frame F)) :
    (channels_first frames).length = ENC_DIM * frames.length := by
  simp [channels_first, List.length_flatMap]

theorem extract_channels_first (frames : List (Frame F)) (t : Nat) (ht : t < frames.length) :
    extract_encoder_frame (channels_first frames) frames.length t =
      .ok (List.ofFn frames[t]) := by
  unfold extract_encoder_frame
  rw [← List.map_coe_finRange_eq_range, List.ofFn_eq_map]
  rw [List.mapM_map]
  refine mapM_eq_map fun ch _ => ?_
  have hcolumn : (channels_first frames)[(ch : Nat) * frames.length + t]? = some (frames[t] ch) := by
    unfold channels_first
    rw [getElem?_flatMap (fun _ => List.length_map _) ht]
    simp [ht]
  simp [index, hcolumn]

/-! ## The walk over the columns -/

section Walk

variable [F32 F]

def plain_frames (decoder : Decoder F) (joiner : Joiner F) (blank_id : Nat) :
    (t : Nat) → List (Frame F) → Progress F → Decoding F (Progress F)
  | _, [], p => .ok p
  | t, frame :: frames, p => do
    let p ← (plain_loop decoder joiner blank_id t (List.ofFn frame)).run (p, 0)
    plain_frames decoder joiner blank_id (t + 1) frames p

variable {d : Decoder F} {j : Joiner F} {blank_id : Nat}

theorem foldlM_plain_frame {encoded : List F} {encoded_len : Nat} (frames : List (Frame F))
    (t : Nat) (p : Progress F)
    (h : ∀ i (hi : i < frames.length),
      extract_encoder_frame encoded encoded_len (t + i) = .ok (List.ofFn frames[i])) :
    (List.range' t frames.length).foldlM (plain_frame d j encoded encoded_len blank_id) p =
      plain_frames d j blank_id t frames p := by
  induction frames generalizing t p with
  | nil => rfl
  | cons frame frames ih =>
    have hframe : extract_encoder_frame encoded encoded_len t = .ok (List.ofFn frame) :=
      h 0 (by simp)
    rw [List.length_cons, List.range'_succ, List.foldlM_cons, plain_frames, plain_frame, hframe]
    refine bind_congr fun p' => ih (t + 1) p' fun i hi => ?_
    have := h (i + 1) (by simpa using hi)
    rwa [Nat.add_right_comm]

theorem plain_decode_channels_first (frames : List (Frame F)) (state : DecoderState F) :
    plain_decode d j (channels_first frames) frames.length blank_id state =
      returned (plain_frames d j blank_id 0 frames (Progress.new state)) := by
  unfold plain_decode
  rw [if_neg (by simp [channels_first_length]), List.range_eq_range']
  refine congrArg returned (foldlM_plain_frame frames 0 _ fun i hi => ?_)
  rw [Nat.zero_add]
  exact extract_channels_first frames i hi

theorem plain_frames_append (t : Nat) (E₁ E₂ : List (Frame F)) (p : Progress F) :
    plain_frames d j blank_id t (E₁ ++ E₂) p =
      plain_frames d j blank_id t E₁ p >>= plain_frames d j blank_id (t + E₁.length) E₂ := by
  induction E₁ generalizing t p with
  | nil => rfl
  | cons frame E₁ ih =>
    simp only [List.cons_append, plain_frames, bind_assoc, ih, List.length_cons]
    refine bind_congr fun p' => bind_congr fun p'' => ?_
    rw [Nat.add_right_comm, Nat.add_assoc]

end Walk

/-! ## Later is the same -/

def TokenInfo.shift (n : Nat) (token : TokenInfo F) : TokenInfo F :=
  { token with frame_index := n + token.frame_index }

/-- `q` goes on from the tokens `before`, `n` frames into the stream, as `r` goes on from
the start. -/
structure Follows (before : List (TokenInfo F)) (n : Nat) (q r : Progress F) : Prop where
  state : q.state = r.state
  tokens : q.tokens = before ++ r.tokens.map (TokenInfo.shift n)

section Shift

variable {before : List (TokenInfo F)} {n : Nat} {q r : Progress F}

theorem Follows.count_blank (h : Follows before n q r) :
    Follows before n q.count_blank r.count_blank :=
  ⟨by simp only [Progress.count_blank, h.state], h.tokens⟩

theorem Follows.commit (h : Follows before n q r) (out : DecoderOutput F) (token t : Nat)
    (confidence : F) :
    ResultRel (Follows before n) (· = ·) (q.commit out token (n + t) confidence)
      (r.commit out token t confidence) := by
  unfold Progress.commit
  rw [h.state]
  split_ifs
  · exact .error rfl
  · apply (ResultRel.refl _).bind
    rintro h' _ rfl
    apply (ResultRel.refl _).bind
    rintro c' _ rfl
    exact .ok ⟨rfl, by simp [h.tokens, TokenInfo.shift]⟩

theorem follows_new (p : Progress F) (n : Nat) :
    Follows p.tokens n p (Progress.new p.state) :=
  ⟨rfl, by simp [Progress.new]⟩

variable [F32 F] {d : Decoder F} {j : Joiner F} {blank_id : Nat}

theorem plain_pass_follows (t : Nat) (enc_frame : List F) (s s' : Progress F × Nat)
    (h : Follows before n s.1 s'.1 ∧ s.2 = s'.2) :
    ResultRel (Turn.Rel (fun s s' => Follows before n s.1 s'.1 ∧ s.2 = s'.2) (Follows before n))
      (· = ·) (plain_pass d j blank_id (n + t) enc_frame s)
      (plain_pass d j blank_id t enc_frame s') := by
  obtain ⟨q, k⟩ := s
  obtain ⟨r, m⟩ := s'
  obtain ⟨h, rfl⟩ := h
  unfold plain_pass
  dsimp only at h ⊢
  rw [h.state]
  apply (ResultRel.refl _).bind
  rintro out _ rfl
  apply (ResultRel.refl _).bind
  rintro logits_buf _ rfl
  split_ifs
  · exact .ok (.stop h.count_blank)
  · exact (h.commit _ _ _ _).bind fun p p' hp => .ok (.next ⟨hp, rfl⟩)

variable (blank_id) in
theorem plain_loop_follows (t : Nat) (enc_frame : List F) (h : Follows before n q r) :
    ResultRel (Follows before n) (· = ·) ((plain_loop d j blank_id (n + t) enc_frame).run (q, 0))
      ((plain_loop d j blank_id t enc_frame).run (r, 0)) :=
  Loop.run_rel _ (plain_loop d j blank_id t enc_frame) (plain_pass_follows t enc_frame) (q, 0) (r, 0)
    ⟨h, rfl⟩

variable (blank_id) in
theorem plain_frames_follows (t : Nat) (E : List (Frame F)) (h : Follows before n q r) :
    ResultRel (Follows before n) (· = ·) (plain_frames d j blank_id (n + t) E q)
      (plain_frames d j blank_id t E r) := by
  induction E generalizing t q r with
  | nil => exact .ok h
  | cons frame E ih => exact (plain_loop_follows blank_id t _ h).bind fun q' r' h' => ih (t + 1) h'

end Shift

/-! ## The decode of two stretches -/

def decoded : Except Fault (DecodeResult F) × DecoderState F →
    Decoding F (List (TokenInfo F) × DecoderState F)
  | (.ok result, state) => .ok (result.tokens, state)
  | (.error e, state) => .error (e, state)

theorem decoded_returned (x : Decoding F (Progress F)) :
    decoded (returned x) = x >>= fun p => .ok (p.tokens, p.state) := by
  match x with
  | .ok p => rfl
  | .error (e, state) => rfl

theorem decode_append [F32 F] (d : List Int × List F × List F → Option (List (Value F)))
    (j : List F × List F → Option (List (Value F))) (blank_id : Nat) (E₁ E₂ : List (Frame F))
    (s : DecoderState F) :
    decoded (greedy_decode (steady d) (steady j) (channels_first (E₁ ++ E₂)) (E₁ ++ E₂).length
        blank_id s) = do
      let (ts₁, s₁) ← decoded (greedy_decode (steady d) (steady j) (channels_first E₁) E₁.length
        blank_id s)
      let (ts₂, s₂) ← decoded (greedy_decode (steady d) (steady j) (channels_first E₂) E₂.length
        blank_id s₁)
      return (ts₁ ++ ts₂.map (TokenInfo.shift E₁.length), s₂) := by
  simp only [greedy_decode_eq_plain, plain_decode_channels_first, decoded_returned,
    plain_frames_append, bind_assoc]
  refine bind_congr fun p => ResultRel.eq ?_
  have hrel := plain_frames_follows (d := steady d) (j := steady j) blank_id 0 E₂
    (follows_new p E₁.length)
  rw [Nat.add_comm]
  apply hrel.bind
  intro q r h
  exact .ok (by rw [h.tokens, h.state])

end Gigastt.Decode
