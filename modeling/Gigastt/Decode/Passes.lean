import Gigastt.Decode.Blanks

/-!
# What a decode leaves behind

Each pass of the inner loop either emits a token or ends its frame, and the tenth token of a
frame is its last, whatever the networks answer.
-/

namespace Gigastt.Decode

variable {F : Type}

/-! ## The decoder's last call -/

/-- The states agree on what the decoder reads. -/
structure SameInput (s s' : DecoderState F) : Prop where
  prev_token : s.prev_token = s'.prev_token
  h : s.h = s'.h
  c : s.c = s'.c

theorem SameInput.run_decoder_eq {s s' : DecoderState F} (hs : SameInput s s') (decoder : Decoder F)
    (call : Nat) : run_decoder decoder call s = run_decoder decoder call s' := by
  unfold run_decoder
  rw [hs.prev_token, hs.h, hs.c]

theorem SameInput.trans {s s' s'' : DecoderState F} (hs : SameInput s s') (hs' : SameInput s' s'') :
    SameInput s s'' :=
  ⟨hs.prev_token.trans hs'.prev_token, hs.h.trans hs'.h, hs.c.trans hs'.c⟩

theorem sameInput_count_blank (p : Progress F) : SameInput p.count_blank.state p.state := ⟨rfl, rfl, rfl⟩

/-- In a blank run the cache holds the answer to the decoder's last call, on this very input. -/
def Fresh (decoder : Decoder F) (l : Locals F) : Prop :=
  l.in_blank_run = true →
    ∃ out, l.cached_decoder_output = some out ∧ run_decoder decoder l.decoder_calls l.state = .ok out

theorem Fresh.of_not_blank_run {decoder : Decoder F} {l : Locals F} (h : l.in_blank_run = false) :
    Fresh decoder l := by
  intro hrun
  rw [h] at hrun
  nomatch hrun

/-- After the decoder's part of a pass. -/
structure Called (decoder : Decoder F) (l : Locals F) (out : DecoderOutput F) (l' : Locals F) : Prop where
  progress : l'.toProgress = l.toProgress
  joiner_calls : l'.joiner_calls = l.joiner_calls
  cached : l'.cached_decoder_output = some out
  out : run_decoder decoder l'.decoder_calls l'.state = .ok out

theorem decoder_call_called {decoder : Decoder F} {l : Locals F} (hl : Fresh decoder l) :
    ResultSpec (fun r => Called decoder l r.1 r.2) (fun _ => True) (l.decoder_call decoder) := by
  unfold Locals.decoder_call
  split_ifs with hrun
  · obtain ⟨out, hcached, hout⟩ := hl hrun
    simp only [hcached]
    exact .ok ⟨rfl, rfl, rfl, hout⟩
  · match hout : run_decoder decoder (l.decoder_calls + 1) l.state with
    | .error e =>
      simp only [hout, leaving]
      exact .error trivial
    | .ok out =>
      simp only [hout, leaving]
      exact .ok ⟨rfl, rfl, rfl, hout⟩

theorem commit_state (p : Progress F) (out : DecoderOutput F) (token t : Nat) (confidence : F) :
    ResultSpec (fun q => q.state.prev_token = (token : Int) ∧ q.state.h = out.new_h ∧ q.state.c = out.new_c)
      (fun _ => True) (p.commit out token t confidence) := by
  have hcopy : ∀ (state : DecoderState F) (dst src : List F),
      ResultSpec (fun v => v = src) (fun _ => True) (leaving state (copy_from_slice dst src)) := by
    intro state dst src
    unfold copy_from_slice
    split_ifs
    · exact .ok rfl
    · exact .error trivial
  unfold Progress.commit
  split_ifs
  · exact .error trivial
  · refine (hcopy _ _ _).bind fun h' hh => ?_
    refine (hcopy _ _ _).bind fun c' hc => ?_
    exact .ok ⟨rfl, hh, hc⟩

/-! ## One pass -/

section Pass

variable (decoder : Decoder F)

/-- A pass that goes on: a token, and the state that the decoder's last call returned. -/
structure Emits (blank_id t : Nat) (s s' : Locals F × Nat) : Prop where
  count : s'.2 = s.2 + 1
  token : ∃ token confidence, token ≠ blank_id ∧
    s'.1.tokens = s.1.tokens ++ [⟨token, t, confidence⟩] ∧ s'.1.state.prev_token = token
  state : ∃ out, run_decoder decoder s'.1.decoder_calls s.1.state = .ok out ∧
    s'.1.state.h = out.new_h ∧ s'.1.state.c = out.new_c
  joiner_calls : s'.1.joiner_calls = s.1.joiner_calls + 1
  fresh : Fresh decoder s'.1

/-- A pass that ends its frame. -/
structure Rests (l l' : Locals F) : Prop where
  tokens : l'.tokens = l.tokens
  state : SameInput l'.state l.state
  joiner_calls : l'.joiner_calls = l.joiner_calls + 1
  fresh : Fresh decoder l'

/-- Passes of frame `t` that have gone on, `n` of them. -/
structure Emitting (blank_id t n : Nat) (l l' : Locals F) : Prop where
  tokens : ∃ ts, l'.tokens = l.tokens ++ ts ∧ ts.length = n ∧
    ∀ token ∈ ts, token.frame_index = t ∧ token.token_id ≠ blank_id
  joiner_calls : l'.joiner_calls = l.joiner_calls + n
  fresh : Fresh decoder l'

variable [F32 F] {decoder} (joiner : Joiner F) (blank_id t : Nat) (enc_frame : List F)

theorem decode_pass_spec {s : Locals F × Nat} (hs : Fresh decoder s.1) :
    ResultSpec (Turn.Holds (Emits decoder blank_id t s) (Rests decoder s.1)) (fun _ => True)
      (decode_pass decoder joiner blank_id t enc_frame s) := by
  obtain ⟨l, n⟩ := s
  unfold decode_pass
  apply (decoder_call_called hs).bind
  rintro ⟨out, l₁⟩ ⟨hprogress, hcalls, hcached, hout⟩
  apply (ResultSpec.of_true _).bind
  intro logits_buf _
  dsimp only at hprogress hcalls hcached hout ⊢
  have htokens : l₁.tokens = l.tokens := congrArg Progress.tokens hprogress
  have hrest : SameInput l₁.count_blank.state l₁.state := sameInput_count_blank l₁.toProgress
  have hsame : SameInput l₁.count_blank.state l.state := by rwa [hprogress] at hrest ⊢
  unfold Locals.classify
  split_ifs with hblank hcap
  · exact .ok (.stop ⟨htokens, hsame, by rw [hcalls],
      fun _ => ⟨out, hcached, (hrest.run_decoder_eq decoder _).trans hout⟩⟩)
  · exact .ok (.stop ⟨htokens, hsame, by rw [hcalls], .of_not_blank_run rfl⟩)
  · apply ((commit_tokens _ out _ t _).and (commit_state _ out _ t _)).bind
    rintro q ⟨hemitted, hprev, hh, hc⟩
    rw [htokens] at hemitted
    rw [hprogress] at hout
    exact .ok (.next ⟨rfl, ⟨_, _, hblank, hemitted, hprev⟩, ⟨out, hout, hh, hc⟩, by rw [hcalls],
      .of_not_blank_run rfl⟩)

variable {joiner blank_id t enc_frame}

theorem Emits.of_next {s s' : Locals F × Nat} (hs : Fresh decoder s.1)
    (h : decode_pass decoder joiner blank_id t enc_frame s = .ok (.next s')) :
    Emits decoder blank_id t s s' := by
  have hspec := decode_pass_spec joiner blank_id t enc_frame hs
  rw [h] at hspec
  match hspec with
  | .ok (.next hemits) => exact hemits

theorem Rests.of_stop {s : Locals F × Nat} {l' : Locals F} (hs : Fresh decoder s.1)
    (h : decode_pass decoder joiner blank_id t enc_frame s = .ok (.stop l')) :
    Rests decoder s.1 l' := by
  have hspec := decode_pass_spec joiner blank_id t enc_frame hs
  rw [h] at hspec
  match hspec with
  | .ok (.stop hrests) => exact hrests

/-! ## One frame -/

theorem reaches_emitting {l : Locals F} (hl : Fresh decoder l) {n : Nat} {s : Locals F × Nat}
    (h : (decode_loop decoder joiner blank_id t enc_frame).Reaches (l, 0) n s) :
    Emitting decoder blank_id t n l s.1 := by
  induction h with
  | start => exact ⟨⟨[], by rw [List.append_nil], rfl, nofun⟩, rfl, hl⟩
  | @next n s₁ s₂ _ hs₂ ih =>
    obtain ⟨⟨ts, htokens, hlength, hts⟩, hcalls, hfresh⟩ := ih
    have hemits := Emits.of_next hfresh hs₂
    obtain ⟨token, confidence, hblank, hemitted, -⟩ := hemits.token
    refine ⟨⟨ts ++ [⟨token, t, confidence⟩], ?_, ?_, ?_⟩, ?_, hemits.fresh⟩
    · rw [hemitted, htokens, List.append_assoc]
    · rw [List.length_append, hlength]
      rfl
    · intro other hother
      rcases List.mem_append.mp hother with hold | hnew
      · exact hts other hold
      · rw [List.mem_singleton.mp hnew]
        exact ⟨rfl, hblank⟩
    · rw [hemits.joiner_calls, hcalls, Nat.add_assoc]

theorem reaches_le {l : Locals F} {n : Nat} {s : Locals F × Nat}
    (h : (decode_loop decoder joiner blank_id t enc_frame).Reaches (l, 0) n s) :
    n ≤ MAX_TOKENS_PER_STEP := by
  have hmeasure := h.measure_le
  simp only [decode_loop] at hmeasure
  omega

end Pass

/-! ## The tokens of a decode -/

/-- What the first `n` frames may emit. -/
structure WellFormed (blank_id n : Nat) (tokens : List (TokenInfo F)) : Prop where
  spoken : ∀ token ∈ tokens, token.token_id ≠ blank_id
  sorted : tokens.Pairwise fun a b => a.frame_index ≤ b.frame_index
  bound : ∀ token ∈ tokens, token.frame_index < n
  capped : ∀ t, (tokens.filter fun token => token.frame_index = t).length ≤ MAX_TOKENS_PER_STEP

theorem wellFormed_nil {blank_id : Nat} : WellFormed blank_id 0 ([] : List (TokenInfo F)) where
  spoken := nofun
  sorted := List.Pairwise.nil
  bound := nofun
  capped _ := Nat.zero_le _

theorem filter_frame {tokens ts : List (TokenInfo F)} {t : Nat}
    (hbound : ∀ token ∈ tokens, token.frame_index < t) (hts : ∀ token ∈ ts, token.frame_index = t)
    (u : Nat) :
    (tokens ++ ts).filter (fun token => token.frame_index = u) =
      if u = t then ts else tokens.filter fun token => token.frame_index = u := by
  rw [List.filter_append]
  split_ifs with hu
  · have hold : tokens.filter (fun token => token.frame_index = u) = [] := by
      rw [List.filter_eq_nil_iff]
      intro token hmem
      have := hbound token hmem
      simp only [decide_eq_true_eq]
      omega
    have hnew : ts.filter (fun token => token.frame_index = u) = ts := by
      rw [List.filter_eq_self]
      intro token hmem
      simp [hts token hmem, hu]
    rw [hold, hnew, List.nil_append]
  · have hnew : ts.filter (fun token => token.frame_index = u) = [] := by
      rw [List.filter_eq_nil_iff]
      intro token hmem
      simp only [decide_eq_true_eq, hts token hmem]
      omega
    rw [hnew, List.append_nil]

theorem WellFormed.append {blank_id t : Nat} {tokens ts : List (TokenInfo F)}
    (h : WellFormed blank_id t tokens) (hlength : ts.length ≤ MAX_TOKENS_PER_STEP)
    (hts : ∀ token ∈ ts, token.frame_index = t ∧ token.token_id ≠ blank_id) :
    WellFormed blank_id (t + 1) (tokens ++ ts) where
  spoken := by
    intro token hmem
    rcases List.mem_append.mp hmem with hold | hnew
    · exact h.spoken token hold
    · exact (hts token hnew).2
  sorted := by
    refine List.pairwise_append.mpr ⟨h.sorted, ?_, ?_⟩
    · exact List.pairwise_of_forall_mem_list fun a ha b hb => by rw [(hts a ha).1, (hts b hb).1]
    · intro a ha b hb
      rw [(hts b hb).1]
      exact Nat.le_of_lt (h.bound a ha)
  bound := by
    intro token hmem
    rcases List.mem_append.mp hmem with hold | hnew
    · exact Nat.lt_succ_of_lt (h.bound token hold)
    · rw [(hts token hnew).1]
      exact Nat.lt_succ_self t
  capped := by
    intro u
    rw [filter_frame h.bound (fun token hmem => (hts token hmem).1)]
    split_ifs
    · exact hlength
    · exact h.capped u

/-! ## A whole decode -/

section Decode

variable [F32 F] (decoder : Decoder F) (joiner : Joiner F) (encoded : List F)
  (encoded_len blank_id : Nat) (state : DecoderState F)

/-- The decoder's last call, when the pass that emits the last of `tokens` has made its own or
reused the one before, returned the `h` and `c` of `state'`. -/
def FromLastCall (last : TokenInfo F) (tokens : List (TokenInfo F)) (state' : DecoderState F) : Prop :=
  ∃ l enc_frame n s s' out,
    after_frames decoder joiner encoded encoded_len blank_id state last.frame_index = .ok l ∧
    extract_encoder_frame encoded encoded_len last.frame_index = .ok enc_frame ∧
    (decode_loop decoder joiner blank_id last.frame_index enc_frame).Reaches (l, 0) n s ∧
    decode_pass decoder joiner blank_id last.frame_index enc_frame s = .ok (.next s') ∧
    s'.1.tokens = tokens ∧
    run_decoder decoder s'.1.decoder_calls s.1.state = .ok out ∧
    state'.h = out.new_h ∧ state'.c = out.new_c

/-- The decoder's part of the state, after a call that emitted these tokens. -/
structure Committed (tokens : List (TokenInfo F)) (state' : DecoderState F) : Prop where
  unmoved : tokens = [] → SameInput state' state
  moved : ∀ last, tokens.getLast? = some last → state'.prev_token = last.token_id ∧
    FromLastCall decoder joiner encoded encoded_len blank_id state last tokens state'

variable {decoder joiner encoded encoded_len blank_id state}

theorem FromLastCall.same {last : TokenInfo F} {tokens : List (TokenInfo F)}
    {state₁ state₂ : DecoderState F}
    (h : FromLastCall decoder joiner encoded encoded_len blank_id state last tokens state₁)
    (hsame : SameInput state₂ state₁) :
    FromLastCall decoder joiner encoded encoded_len blank_id state last tokens state₂ := by
  obtain ⟨l, enc_frame, n, s, s', out, hl, henc, hs, hs', htokens, hout, hh, hc⟩ := h
  exact ⟨l, enc_frame, n, s, s', out, hl, henc, hs, hs', htokens, hout, hsame.h.trans hh,
    hsame.c.trans hc⟩

/-- The passes of one frame, up to the one that ends it. -/
theorem decode_frame_finishes {l l' : Locals F} {t : Nat}
    (h : decode_frame decoder joiner encoded encoded_len blank_id l t = .ok l') :
    ∃ enc_frame n s, extract_encoder_frame encoded encoded_len t = .ok enc_frame ∧
      (decode_loop decoder joiner blank_id t enc_frame).Reaches (l, 0) n s ∧
      decode_pass decoder joiner blank_id t enc_frame s = .ok (.stop l') := by
  unfold decode_frame at h
  obtain ⟨enc_frame, hextract, hrun⟩ := bind_eq_ok.mp h
  have henc : extract_encoder_frame encoded encoded_len t = .ok enc_frame := by
    cases hx : extract_encoder_frame encoded encoded_len t with
    | error e => simp [hx, leaving] at hextract
    | ok v =>
      rw [hx] at hextract
      rw [show v = enc_frame from Except.ok.inj hextract]
  obtain ⟨n, hn⟩ := (decode_loop decoder joiner blank_id t enc_frame).run_finishes (l, 0)
  rw [hrun] at hn
  cases hn with
  | stop hs hstop => exact ⟨enc_frame, _, _, henc, hs, hstop⟩

theorem Committed.same {tokens : List (TokenInfo F)} {state₁ state₂ : DecoderState F}
    (h : Committed decoder joiner encoded encoded_len blank_id state tokens state₁)
    (hsame : SameInput state₂ state₁) :
    Committed decoder joiner encoded encoded_len blank_id state tokens state₂ where
  unmoved hnone := hsame.trans (h.unmoved hnone)
  moved last hlast :=
    ⟨hsame.prev_token.trans (h.moved last hlast).1, (h.moved last hlast).2.same hsame⟩

/-- The pass that emits a token commits the state with it. -/
theorem committed_of_next {l : Locals F} {t n : Nat} {enc_frame : List F} {s s' : Locals F × Nat}
    (hl : after_frames decoder joiner encoded encoded_len blank_id state t = .ok l)
    (henc : extract_encoder_frame encoded encoded_len t = .ok enc_frame)
    (hs : (decode_loop decoder joiner blank_id t enc_frame).Reaches (l, 0) n s)
    (hs' : decode_pass decoder joiner blank_id t enc_frame s = .ok (.next s'))
    (hemits : Emits decoder blank_id t s s') :
    Committed decoder joiner encoded encoded_len blank_id state s'.1.tokens s'.1.state := by
  obtain ⟨token, confidence, -, htokens, hprev⟩ := hemits.token
  obtain ⟨out, hout, hh, hc⟩ := hemits.state
  constructor
  · intro hnone
    rw [htokens] at hnone
    exact absurd hnone (List.concat_ne_nil _ _)
  · intro last hlast
    rw [htokens, List.getLast?_concat] at hlast
    obtain rfl := Option.some.inj hlast
    exact ⟨hprev, l, enc_frame, n, s, s', out, hl, henc, hs, hs', rfl, hout, hh, hc⟩

theorem committed_of_reaches {l : Locals F} {t n : Nat} {enc_frame : List F} {s : Locals F × Nat}
    (hl : after_frames decoder joiner encoded encoded_len blank_id state t = .ok l)
    (hfresh : Fresh decoder l)
    (hcommitted : Committed decoder joiner encoded encoded_len blank_id state l.tokens l.state)
    (henc : extract_encoder_frame encoded encoded_len t = .ok enc_frame)
    (hs : (decode_loop decoder joiner blank_id t enc_frame).Reaches (l, 0) n s) :
    Committed decoder joiner encoded encoded_len blank_id state s.1.tokens s.1.state := by
  cases hs with
  | start => exact hcommitted
  | next hs₁ hs₂ =>
    exact committed_of_next hl henc hs₁ hs₂ (Emits.of_next (reaches_emitting hfresh hs₁).fresh hs₂)

theorem after_frames_committed {n : Nat} {l : Locals F}
    (h : after_frames decoder joiner encoded encoded_len blank_id state n = .ok l) :
    WellFormed blank_id n l.tokens ∧
      Committed decoder joiner encoded encoded_len blank_id state l.tokens l.state ∧
      Fresh decoder l := by
  induction n generalizing l with
  | zero =>
    unfold after_frames at h
    split at h
    · cases h
    · obtain rfl := Except.ok.inj h
      exact ⟨wellFormed_nil, ⟨fun _ => ⟨rfl, rfl, rfl⟩, nofun⟩, .of_not_blank_run rfl⟩
  | succ t ih =>
    obtain ⟨l₀, hbefore, hframe⟩ := after_frames_succ.mp h
    obtain ⟨hformed, hcommitted, hfresh⟩ := ih hbefore
    obtain ⟨enc_frame, n, s, henc, hs, hstop⟩ := decode_frame_finishes hframe
    obtain ⟨⟨ts, htokens, hlength, hts⟩, -, hfresh'⟩ := reaches_emitting hfresh hs
    have hrests := Rests.of_stop hfresh' hstop
    rw [hrests.tokens]
    refine ⟨?_, (committed_of_reaches hbefore hfresh hcommitted henc hs).same hrests.state, hrests.fresh⟩
    rw [htokens]
    exact hformed.append (hlength.trans_le (reaches_le hs)) hts

theorem greedy_decode_committed {result : DecodeResult F} {state' : DecoderState F}
    (h : greedy_decode decoder joiner encoded encoded_len blank_id state = (.ok result, state')) :
    WellFormed blank_id encoded_len result.tokens ∧
      Committed decoder joiner encoded encoded_len blank_id state result.tokens state' := by
  rw [greedy_decode_eq_after_frames] at h
  cases hframes : after_frames decoder joiner encoded encoded_len blank_id state encoded_len with
  | error e =>
    rw [hframes] at h
    cases congrArg Prod.fst h
  | ok l =>
    rw [hframes] at h
    obtain ⟨hresult, rfl⟩ := Prod.mk.inj h
    obtain rfl := Except.ok.inj hresult
    obtain ⟨hformed, hcommitted, -⟩ := after_frames_committed hframes
    exact ⟨hformed, hcommitted⟩

/-- A pass asks the joiner once. -/
theorem decode_pass_congr {joiner' : Joiner F} {t : Nat} {enc_frame : List F} {s : Locals F × Nat}
    (hs : Fresh decoder s.1) (h : joiner' (s.1.joiner_calls + 1) = joiner (s.1.joiner_calls + 1)) :
    decode_pass decoder joiner' blank_id t enc_frame s =
      decode_pass decoder joiner blank_id t enc_frame s := by
  obtain ⟨l, n⟩ := s
  unfold decode_pass
  refine ResultRel.eq ?_
  apply ((ResultRel.refl _).and_spec (decoder_call_called hs) (.of_true _)).bind
  rintro ⟨out, l₁⟩ _ ⟨rfl, hcalled, -⟩
  have hasked : joiner' (l₁.joiner_calls + 1) = joiner (l₁.joiner_calls + 1) := by
    rwa [hcalled.joiner_calls]
  have hlogits : ∀ dec_data, run_joiner_single joiner' (l₁.joiner_calls + 1) enc_frame dec_data =
      run_joiner_single joiner (l₁.joiner_calls + 1) enc_frame dec_data := by
    intro dec_data
    unfold run_joiner_single
    rw [hasked]
  dsimp only
  rw [hlogits]
  exact ResultRel.refl _

theorem decode_frame_congr {l : Locals F} (hl : Fresh decoder l) (t : Nat) {joiner' : Joiner F}
    (h : ∀ i, l.joiner_calls < i → i ≤ l.joiner_calls + (MAX_TOKENS_PER_STEP + 1) →
      joiner' i = joiner i) :
    decode_frame decoder joiner' encoded encoded_len blank_id l t =
      decode_frame decoder joiner encoded encoded_len blank_id l t := by
  unfold decode_frame
  refine bind_congr fun enc_frame => (Loop.run_congr fun n s hs => ?_).symm
  have hemitting := reaches_emitting hl hs
  have hle := reaches_le hs
  have hcalls := hemitting.joiner_calls
  exact (decode_pass_congr hemitting.fresh (h _ (by omega) (by omega))).symm

variable (decoder joiner encoded encoded_len blank_id) in
/-- How a frame ends, whether it fails or not. -/
structure FrameEnds (l : Locals F) (t : Nat) : Prop where
  passes : ∀ enc_frame, extract_encoder_frame encoded encoded_len t = .ok enc_frame →
    ∃ n ≤ MAX_TOKENS_PER_STEP + 1, (decode_loop decoder joiner blank_id t enc_frame).Finishes (l, 0) n
      ((decode_loop decoder joiner blank_id t enc_frame).run (l, 0))
  -- Another joiner that gives these answers makes no difference, so no other is asked for.
  joiner_calls : ∀ joiner' : Joiner F,
    (∀ i, l.joiner_calls < i → i ≤ l.joiner_calls + (MAX_TOKENS_PER_STEP + 1) → joiner' i = joiner i) →
      decode_frame decoder joiner' encoded encoded_len blank_id l t =
        decode_frame decoder joiner encoded encoded_len blank_id l t
  counted : ∀ l', decode_frame decoder joiner encoded encoded_len blank_id l t = .ok l' →
    l'.joiner_calls ≤ l.joiner_calls + (MAX_TOKENS_PER_STEP + 1)

theorem frame_ends {l : Locals F} (hl : Fresh decoder l) (t : Nat) :
    FrameEnds decoder joiner encoded encoded_len blank_id l t where
  passes enc_frame _ := by
    obtain ⟨n, hn⟩ := (decode_loop decoder joiner blank_id t enc_frame).run_finishes (l, 0)
    exact ⟨n, hn.le, hn⟩
  joiner_calls joiner' h := decode_frame_congr hl t h
  counted l' h := by
    obtain ⟨enc_frame, n, s, -, hs, hstop⟩ := decode_frame_finishes h
    have hemitting := reaches_emitting hl hs
    have hle := reaches_le hs
    have hcalls := hemitting.joiner_calls
    have hrests := Rests.of_stop hemitting.fresh hstop
    have hlast := hrests.joiner_calls
    omega

/-- Whatever the networks do, each frame ends by its eleventh pass, and so by its eleventh
call of the joiner. What a decode returns are tokens in the order of their frames, at most ten
of a frame, and the state that came with the last of them. -/
theorem greedy_decode_ends (decoder : Decoder F) (joiner : Joiner F) (encoded : List F)
    (encoded_len blank_id : Nat) (state : DecoderState F) :
    (∀ t l, after_frames decoder joiner encoded encoded_len blank_id state t = .ok l →
      FrameEnds decoder joiner encoded encoded_len blank_id l t) ∧
    ∀ result state',
      greedy_decode decoder joiner encoded encoded_len blank_id state = (.ok result, state') →
        WellFormed blank_id encoded_len result.tokens ∧
          Committed decoder joiner encoded encoded_len blank_id state result.tokens state' := by
  constructor
  · exact fun t l hl => frame_ends (after_frames_committed hl).2.2 t
  · exact fun result state' h => greedy_decode_committed h

end Decode

end Gigastt.Decode
