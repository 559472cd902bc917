import Gigastt.Decode.Utterance

/-!
# What the blank counter counts

A frame with tokens ends with a pass that emits none, and that pass is counted. So after a
token the counter is one ahead of the token-free frames, and the endpoint comes one frame early.
-/

namespace Gigastt.Decode

open Pause

variable {F : Type}

/-! ## The decode frame by frame -/

/-- Which of the first `n` frames emitted a token. -/
def emitted (tokens : List (TokenInfo F)) (n : Nat) : List Bool :=
  (List.range n).map fun t => tokens.any fun token => token.frame_index == t

/-- The counter counts token-free frames, and the flag waits for `ENDPOINT_BLANK_THRESHOLD` of
them after a token. -/
structure Meant (n : Nat) (p : Progress F) : Prop where
  blanks : p.state.consecutive_blanks = quiet (emitted p.tokens n)
  endpoint : p.endpoint_detected = true ↔
    true :: List.replicate ENDPOINT_BLANK_THRESHOLD false <:+: emitted p.tokens n

section Frames

variable [F32 F] (decoder : Decoder F) (joiner : Joiner F) (encoded : List F)
  (encoded_len blank_id : Nat) (state : DecoderState F)

/-- Where `greedy_decode` is after its first `n` frames. -/
def after_frames (n : Nat) : Decoding F (Locals F) :=
  if encoded.length < ENC_DIM * encoded_len then
    .error (.err [size_text encoded.length (ENC_DIM * encoded_len)], state)
  else
    (List.range n).foldlM (decode_frame decoder joiner encoded encoded_len blank_id)
      (Locals.new state)

theorem greedy_decode_eq_after_frames :
    greedy_decode decoder joiner encoded encoded_len blank_id state = returned
      (Locals.toProgress <$>
        after_frames decoder joiner encoded encoded_len blank_id state encoded_len) := by
  unfold greedy_decode after_frames
  split
  · rfl
  · rw [bind_pure_comp]

/-- The token of the joiner's first pass on frame `t`. -/
def first_token (l : Locals F) (t : Nat) : Decoding F Nat := do
  let enc_frame ← leaving l.state (extract_encoder_frame encoded encoded_len t)
  let (out, l) ← l.decoder_call decoder
  let logits_buf ←
    leaving l.state (run_joiner_single joiner (l.joiner_calls + 1) enc_frame out.dec_data)
  return (argmax_with_confidence logits_buf blank_id).1

end Frames

/-! ## One frame -/

/-- `q` has the tokens of `p`, then tokens of frame `t`. -/
def Added (t : Nat) (p q : Progress F) : Prop :=
  ∃ ts, q.tokens = p.tokens ++ ts ∧ ∀ token ∈ ts, token.frame_index = t

theorem Added.refl (t : Nat) (p : Progress F) : Added t p p := ⟨[], by simp, by simp⟩

theorem FrameSoFar.refl (p : Progress F) : FrameSoFar p p := ⟨⟨[], by simp, by simp⟩, rfl⟩

theorem commit_tokens (p : Progress F) (out : DecoderOutput F) (token t : Nat) (confidence : F) :
    ResultSpec (fun q => q.tokens = p.tokens ++ [⟨token, t, confidence⟩]) (fun _ => True)
      (p.commit out token t confidence) := by
  unfold Progress.commit
  split_ifs
  · exact .error trivial
  · refine ResultSpec.bind (P := fun _ => True) (.of_true _) fun h' _ => ?_
    refine ResultSpec.bind (P := fun _ => True) (.of_true _) fun c' _ => ?_
    exact .ok rfl

theorem Added.snoc {t : Nat} {p q q' : Progress F} (h : Added t p q) {token : TokenInfo F}
    (hq' : q'.tokens = q.tokens ++ [token]) (htoken : token.frame_index = t) : Added t p q' := by
  obtain ⟨ts, htokens, hts⟩ := h
  refine ⟨ts ++ [token], by rw [hq', htokens, List.append_assoc], ?_⟩
  intro token' hmem
  rcases List.mem_append.mp hmem with hold | hnew
  · exact hts token' hold
  · rw [List.mem_singleton.mp hnew, htoken]

theorem decoder_call_progress (decoder : Decoder F) (l : Locals F) :
    ResultSpec (fun r => r.2.toProgress = l.toProgress) (fun _ => True)
      (l.decoder_call decoder) := by
  unfold Locals.decoder_call
  split_ifs
  · cases l.cached_decoder_output with
    | none => exact .error trivial
    | some out => exact .ok rfl
  · refine ResultSpec.bind (P := fun _ => True) (.of_true _) fun out _ => ?_
    exact .ok rfl

theorem classify_spec {blank_id t : Nat} {p : Progress F} {l : Locals F}
    (hsofar : FrameSoFar p l.toProgress)
    (hadded : Added t p l.toProgress) (out : DecoderOutput F) (n token : Nat) (confidence : F) :
    ResultSpec
      (Turn.Holds (fun s => FrameSoFar p s.1.toProgress ∧ Added t p s.1.toProgress)
        (fun l' => FrameEnd p l'.toProgress ∧ Added t p l'.toProgress))
      (fun _ => True) (l.classify out blank_id t n token confidence) := by
  unfold Locals.classify
  split_ifs
  · exact .ok (.stop ⟨hsofar.count_blank, hadded⟩)
  · exact .ok (.stop ⟨hsofar.count_blank, hadded⟩)
  · apply ((hsofar.commit out token t confidence).and (commit_tokens _ out token t confidence)).bind
    rintro q ⟨hq, htokens⟩
    exact .ok (.next ⟨hq, hadded.snoc htokens rfl⟩)

/-- Below the cap, a pass stops exactly at the blank. -/
theorem classify_first {blank_id t token : Nat} {l : Locals F} {out : DecoderOutput F}
    {confidence : F} {turn : Turn (Locals F × Nat) (Locals F)}
    (h : l.classify out blank_id t 0 token confidence = .ok turn) :
    (token = blank_id ∧ ∃ l', turn = .stop l' ∧ l'.tokens = l.tokens) ∨
      (token ≠ blank_id ∧ ∃ l' n, turn = .next (l', n) ∧
        l'.tokens = l.tokens ++ [⟨token, t, confidence⟩]) := by
  unfold Locals.classify at h
  by_cases hblank : token = blank_id
  · rw [if_pos hblank] at h
    exact .inl ⟨hblank, _, (Except.ok.inj h).symm, rfl⟩
  · rw [if_neg hblank, if_neg (by decide)] at h
    obtain ⟨p, hcommit, h⟩ := bind_eq_ok.mp h
    have htokens := commit_tokens l.toProgress out token t confidence
    rw [hcommit] at htokens
    cases htokens with
    | ok htokens => exact .inr ⟨hblank, _, _, (Except.ok.inj h).symm, htokens⟩

section Passes

variable [F32 F] {decoder : Decoder F} {joiner : Joiner F} {blank_id t : Nat}

variable (decoder joiner blank_id) in
theorem decode_loop_spec {p : Progress F} (enc_frame : List F) (s : Locals F × Nat)
    (hsofar : FrameSoFar p s.1.toProgress) (hadded : Added t p s.1.toProgress) :
    ResultSpec (fun l' => FrameEnd p l'.toProgress ∧ Added t p l'.toProgress) (fun _ => True)
      ((decode_loop decoder joiner blank_id t enc_frame).run s) := by
  refine Loop.run_spec _
    (I := fun s => FrameSoFar p s.1.toProgress ∧ Added t p s.1.toProgress) ?_ s ⟨hsofar, hadded⟩
  rintro ⟨l, n⟩ ⟨hsofar, hadded⟩
  change ResultSpec _ _ (decode_pass decoder joiner blank_id t enc_frame (l, n))
  unfold decode_pass
  apply (decoder_call_progress decoder l).bind
  rintro ⟨out, l₁⟩ hcall
  refine ResultSpec.bind (P := fun _ => True) (.of_true _) fun logits_buf _ => ?_
  dsimp only at hcall
  rw [← hcall] at hsofar hadded
  exact classify_spec (l := { l₁ with joiner_calls := l₁.joiner_calls + 1 }) hsofar hadded out n _ _

variable (decoder joiner blank_id t) in
theorem decode_frame_spec (encoded : List F) (encoded_len : Nat) (l : Locals F) :
    ResultSpec (fun l' => FrameEnd l.toProgress l'.toProgress ∧ Added t l.toProgress l'.toProgress)
      (fun _ => True) (decode_frame decoder joiner encoded encoded_len blank_id l t) := by
  unfold decode_frame
  refine ResultSpec.bind (P := fun _ => True) (.of_true _) fun enc_frame _ => ?_
  exact decode_loop_spec decoder joiner blank_id enc_frame (l, 0) (FrameSoFar.refl _) (Added.refl t _)

/-- A frame that is processed emits no token exactly where its first pass is blank. -/
theorem no_token_iff {encoded : List F} {encoded_len : Nat} {l l' : Locals F}
    (h : decode_frame decoder joiner encoded encoded_len blank_id l t = .ok l') :
    l'.tokens = l.tokens ↔
      first_token decoder joiner encoded encoded_len blank_id l t = .ok blank_id := by
  unfold decode_frame at h
  obtain ⟨enc_frame, hextract, h⟩ := bind_eq_ok.mp h
  cases hbody : (decode_loop decoder joiner blank_id t enc_frame).body (l, 0) with
  | error e =>
    rw [Loop.run_of_error hbody] at h
    cases h
  | ok turn =>
    have hpass : decode_pass decoder joiner blank_id t enc_frame (l, 0) = .ok turn := hbody
    obtain ⟨⟨out, l₁⟩, hcall, hpass⟩ := bind_eq_ok.mp hpass
    obtain ⟨logits_buf, hjoiner, hpass⟩ := bind_eq_ok.mp hpass
    have hfirst : first_token decoder joiner encoded encoded_len blank_id l t =
        .ok (argmax_with_confidence logits_buf blank_id).1 :=
      bind_eq_ok.mpr ⟨enc_frame, hextract, bind_eq_ok.mpr ⟨(out, l₁), hcall,
        bind_eq_ok.mpr ⟨logits_buf, hjoiner, rfl⟩⟩⟩
    have hsame : l₁.tokens = l.tokens := by
      have hprogress := decoder_call_progress decoder l
      rw [hcall] at hprogress
      cases hprogress with
      | ok hprogress => exact congrArg Progress.tokens hprogress
    rw [hfirst, Except.ok.injEq]
    obtain ⟨hblank, l₂, rfl, htokens⟩ | ⟨hne, l₂, n, rfl, htokens⟩ := classify_first hpass
    · rw [Loop.run_of_stop hbody] at h
      obtain rfl := Except.ok.inj h
      exact ⟨fun _ => hblank, fun _ => htokens.trans hsame⟩
    · refine ⟨fun hnone => ?_, fun hblank => absurd hblank hne⟩
      rw [Loop.run_of_next hbody] at h
      -- Later passes only add tokens to the one that this pass emitted.
      have hrest := decode_loop_spec decoder joiner blank_id enc_frame (l₂, n)
        (FrameSoFar.refl l₂.toProgress) (Added.refl t l₂.toProgress)
      rw [h] at hrest
      cases hrest with
      | ok hrest =>
        obtain ⟨-, ts, hts, -⟩ := hrest
        have hlen := congrArg List.length hnone
        rw [hts, htokens, hsame] at hlen
        simp at hlen

end Passes

/-! ## Every frame -/

theorem emitted_append {t : Nat} {before ts : List (TokenInfo F)}
    (hbefore : ∀ token ∈ before, token.frame_index < t) (hts : ∀ token ∈ ts, token.frame_index = t) :
    emitted (before ++ ts) (t + 1) = emitted before t ++ [!ts.isEmpty] := by
  unfold emitted
  rw [List.range_succ, List.map_append, List.map_singleton]
  congr 1
  · refine List.map_congr_left fun i hi => ?_
    have hlt := List.mem_range.mp hi
    rw [List.any_append, Bool.or_eq_left_iff_imp]
    simp only [List.any_eq_true, beq_iff_eq]
    rintro ⟨token, hmem, heq⟩
    have := hts token hmem
    omega
  · rw [List.any_append]
    have hnone : (before.any fun token => token.frame_index == t) = false := by
      simp only [List.any_eq_false, beq_iff_eq]
      intro token hmem
      have := hbefore token hmem
      omega
    rw [hnone, Bool.false_or]
    cases ts with
    | nil => rfl
    | cons token ts => simp [hts token List.mem_cons_self]

theorem any_emitted {tokens : List (TokenInfo F)} {n : Nat}
    (h : ∀ token ∈ tokens, token.frame_index < n) : (emitted tokens n).any id = !tokens.isEmpty := by
  cases tokens with
  | nil => simp [emitted]
  | cons token tokens =>
    have hlt := h token List.mem_cons_self
    simp only [List.isEmpty_cons, Bool.not_false, List.any_eq_true]
    refine ⟨true, List.mem_map.mpr ⟨token.frame_index, List.mem_range.mpr hlt, ?_⟩, rfl⟩
    simp

/-- What the counter and the flag are, in terms of the frames that emitted. -/
structure Counted (n : Nat) (p : Progress F) : Prop where
  earlier : ∀ token ∈ p.tokens, token.frame_index < n
  blanks : p.state.consecutive_blanks = (emitted p.tokens n).foldl count 0
  endpoint : p.endpoint_detected =
    fires ENDPOINT_BLANK_THRESHOLD 0 false (emitted p.tokens n)

theorem Counted.frame {t : Nat} {p q : Progress F} (h : Counted t p) (hend : FrameEnd p q)
    (hadded : Added t p q) : Counted (t + 1) q := by
  obtain ⟨ts, htokens, hts⟩ := hadded
  obtain ⟨ts', htokens', hblanks⟩ := hend.blanks
  obtain rfl : ts = ts' := List.append_cancel_left (htokens.symm.trans htokens')
  have hemitted : emitted q.tokens (t + 1) = emitted p.tokens t ++ [!ts.isEmpty] := by
    rw [htokens, emitted_append h.earlier hts]
  have hcount : q.state.consecutive_blanks = (emitted q.tokens (t + 1)).foldl count 0 := by
    rw [hemitted, List.foldl_concat, hblanks, h.blanks]
  refine ⟨?_, hcount, ?_⟩
  · rw [htokens]
    intro token hmem
    rcases List.mem_append.mp hmem with hold | hnew
    · exact Nat.lt_succ_of_lt (h.earlier token hold)
    · rw [hts token hnew]
      exact Nat.lt_succ_self t
  · have hseen : (!q.tokens.isEmpty) = (!p.tokens.isEmpty || !ts.isEmpty) := by
      rw [htokens]
      cases p.tokens with
      | nil => simp
      | cons token tokens => simp
    rw [hend.endpoint, h.endpoint, hcount, hseen, hemitted, fires_concat, List.foldl_concat,
      any_emitted h.earlier, Bool.false_or]

theorem quiet_of_no_token {n : Nat} {p : Progress F} (h : p.tokens = []) :
    emitted p.tokens n = List.replicate n false := by
  rw [h]
  simp [emitted, List.map_const']

/-- A call that has emitted nothing counts as it should. -/
theorem Counted.meant {n : Nat} {p : Progress F} (h : Counted n p) (hnone : p.tokens = []) :
    Meant n p := by
  have hany := any_emitted h.earlier
  rw [hnone, List.isEmpty_nil, Bool.not_true] at hany
  have hquiet := quiet_of_no_token (n := n) hnone
  have hmissing : ∀ rest, ¬ true :: rest <:+: emitted p.tokens n := by
    intro rest hinfix
    rw [hquiet] at hinfix
    have hmem := hinfix.subset List.mem_cons_self
    simp at hmem
  constructor
  · rw [h.blanks, foldl_count, hnone, hany]
    simp
  · rw [h.endpoint, fires_iff (by decide)]
    exact ⟨fun hpause => absurd hpause (hmissing _), fun hpause => absurd hpause (hmissing _)⟩

theorem Counted.no_token {n : Nat} {p : Progress F} (h : Counted n p) (hmeant : Meant n p) :
    p.tokens = [] := by
  have hblanks := hmeant.blanks
  rw [h.blanks, foldl_count, any_emitted h.earlier] at hblanks
  cases htokens : p.tokens with
  | nil => rfl
  | cons token tokens => simp [htokens] at hblanks

section Run

variable [F32 F] {decoder : Decoder F} {joiner : Joiner F} {encoded : List F}
  {encoded_len blank_id : Nat} {state : DecoderState F}

theorem after_frames_succ {n : Nat} {l' : Locals F} :
    after_frames decoder joiner encoded encoded_len blank_id state (n + 1) = .ok l' ↔
      ∃ l, after_frames decoder joiner encoded encoded_len blank_id state n = .ok l ∧
        decode_frame decoder joiner encoded encoded_len blank_id l n = .ok l' := by
  unfold after_frames
  split
  · simp
  · rw [List.range_succ, List.foldlM_append]
    simp only [List.foldlM_cons, List.foldlM_nil, bind_pure]
    exact bind_eq_ok

/-- The counter and the flag after each frame of a call. -/
theorem after_frames_counted (hstate : state.consecutive_blanks = 0) {n : Nat} {l : Locals F}
    (h : after_frames decoder joiner encoded encoded_len blank_id state n = .ok l) :
    Counted n l.toProgress := by
  induction n generalizing l with
  | zero =>
    unfold after_frames at h
    split at h
    · cases h
    · obtain rfl := Except.ok.inj h
      exact ⟨by simp [Locals.new, Progress.new], hstate, rfl⟩
  | succ n ih =>
    obtain ⟨l₀, hbefore, hframe⟩ := after_frames_succ.mp h
    have hspec := decode_frame_spec decoder joiner blank_id n encoded encoded_len l₀
    rw [hframe] at hspec
    cases hspec with
    | ok hspec => exact (ih hbefore).frame hspec.1 hspec.2

/-- From a counter at 0, the counter and the threshold mean what they say throughout a call
exactly where the joiner calls each frame that is processed blank on its first pass. -/
theorem blank_counter_iff (hstate : state.consecutive_blanks = 0) :
    greedy_decode decoder joiner encoded encoded_len blank_id state = returned
      (Locals.toProgress <$>
        after_frames decoder joiner encoded encoded_len blank_id state encoded_len) ∧
    ((∀ n ≤ encoded_len, ∀ l,
        after_frames decoder joiner encoded encoded_len blank_id state n = .ok l →
          Meant n l.toProgress) ↔
      ∀ t < encoded_len, ∀ l l',
        after_frames decoder joiner encoded encoded_len blank_id state t = .ok l →
          decode_frame decoder joiner encoded encoded_len blank_id l t = .ok l' →
            first_token decoder joiner encoded encoded_len blank_id l t = .ok blank_id) := by
  refine ⟨greedy_decode_eq_after_frames decoder joiner encoded encoded_len blank_id state, ?_⟩
  constructor
  · intro hmeant t ht l l' hbefore hframe
    have hafter := after_frames_succ.mpr ⟨l, hbefore, hframe⟩
    have hnone := (after_frames_counted hstate hbefore).no_token (hmeant t (by omega) l hbefore)
    have hnone' := (after_frames_counted hstate hafter).no_token (hmeant (t + 1) ht l' hafter)
    exact (no_token_iff hframe).mp (hnone'.trans hnone.symm)
  · intro hblank
    have hnone : ∀ n ≤ encoded_len, ∀ l,
        after_frames decoder joiner encoded encoded_len blank_id state n = .ok l →
          l.tokens = [] := by
      intro n
      induction n with
      | zero =>
        intro _ l h
        have hearlier := (after_frames_counted hstate h).earlier
        exact List.eq_nil_iff_forall_not_mem.mpr fun token hmem => Nat.not_lt_zero _ (hearlier token hmem)
      | succ n ih =>
        intro hn l' h
        obtain ⟨l, hbefore, hframe⟩ := after_frames_succ.mp h
        rw [(no_token_iff hframe).mpr (hblank n hn l l' hbefore hframe)]
        exact ih (by omega) l hbefore
    intro n hn l h
    exact (after_frames_counted hstate h).meant (hnone n hn l h)

theorem blank_counter_iff_of_sound_then_silence :
    (∀ n ≤ 15, ∀ l, after_frames (steady echo_decoder) (steady sound_joiner)
        (channels_first sound_then_silence) 15 0 (DecoderState.new 0) n = .ok l →
          Meant n l.toProgress) ↔
      ∀ t < 15, ∀ l l', after_frames (steady echo_decoder) (steady sound_joiner)
        (channels_first sound_then_silence) 15 0 (DecoderState.new 0) t = .ok l →
          decode_frame (steady echo_decoder) (steady sound_joiner)
              (channels_first sound_then_silence) 15 0 l t = .ok l' →
            first_token (steady echo_decoder) (steady sound_joiner)
              (channels_first sound_then_silence) 15 0 l t = .ok 0 :=
  (blank_counter_iff rfl).2

end Run

theorem returned_eq_ok {x : Decoding F (Progress F)} {p : Progress F}
    (h : returned x = returned (.ok p)) : x = .ok p := by
  cases x with
  | error e => cases congrArg Prod.fst h
  | ok q =>
    obtain ⟨hresult, hstate⟩ := Prod.mk.inj h
    obtain ⟨htokens, hendpoint⟩ := DecodeResult.mk.inj (Except.ok.inj hresult)
    congr 1
    cases q
    cases p
    simp_all

/-- After one frame with a token, fourteen without bring the endpoint. -/
theorem endpoint_after_fourteen :
    ∃ l, after_frames (steady echo_decoder) (steady sound_joiner)
        (channels_first sound_then_silence) 15 0 (DecoderState.new 0) 15 = .ok l ∧
      l.endpoint_detected = true ∧ l.state.consecutive_blanks = 15 ∧ ¬ Meant 15 l.toProgress := by
  have hwalk := plain_frames_emissions (d := steady echo_decoder) (j := steady sound_joiner) 0 0
    sound_then_silence (Progress.new (DecoderState.new 0))
  change ResultRel _ _ _ (emissions (steady echo_decoder) (steady sound_joiner) 0
    sound_then_silence (DecoderState.new 0)) at hwalk
  rw [emissions_sound_then_silence] at hwalk
  have hplain := greedy_decode_eq_plain (d := echo_decoder) (j := sound_joiner)
    (channels_first sound_then_silence) sound_then_silence.length 0 (DecoderState.new 0)
  rw [plain_decode_channels_first, greedy_decode_eq_after_frames] at hplain
  cases hframes : plain_frames (steady echo_decoder) (steady sound_joiner) 0 0 sound_then_silence
      (Progress.new (DecoderState.new 0)) with
  | error e =>
    rw [hframes] at hwalk
    cases hwalk
  | ok p =>
    rw [hframes] at hwalk hplain
    obtain ⟨l, hl, rfl⟩ := map_eq_ok.mp (returned_eq_ok hplain)
    cases hwalk with
    | ok hwalk =>
      obtain ⟨hstate, hendpoint⟩ := hwalk
      have hfires : l.endpoint_detected = true := by
        rw [hendpoint]
        decide
      refine ⟨l, hl, hfires, by rw [hstate], fun hmeant => ?_⟩
      -- Fifteen frames cannot hold a token and fifteen frames after it.
      have hlen := (hmeant.endpoint.mp hfires).length_le
      simp [emitted, ENDPOINT_BLANK_THRESHOLD] at hlen

end Gigastt.Decode
