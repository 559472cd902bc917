import Gigastt.Decode.Code

/-!
# The decoder-output cache cannot be seen

The loop without a cache calls the decoder on every pass. `greedy_decode` computes the
same, because in a blank run the cache holds what the decoder would return.
-/

namespace Gigastt.Decode

variable {F : Type}

/-! ## The loop without the cache -/

section Plain

variable [F32 F]

def plain_pass (decoder : Decoder F) (joiner : Joiner F) (blank_id t : Nat) (enc_frame : List F) :
    Progress F × Nat → Decoding F (Turn (Progress F × Nat) (Progress F))
  | (p, tokens_this_step) => do
    let out ← leaving p.state (run_decoder decoder 0 p.state)
    let logits_buf ← leaving p.state (run_joiner_single joiner 0 enc_frame out.dec_data)
    let (token, confidence) := argmax_with_confidence logits_buf blank_id
    if token = blank_id ∨ tokens_this_step ≥ MAX_TOKENS_PER_STEP then
      .ok (.stop p.count_blank)
    else do
      let p ← p.commit out token t confidence
      return .next (p, tokens_this_step + 1)

theorem plain_pass_next {decoder : Decoder F} {joiner : Joiner F} {blank_id t : Nat}
    {enc_frame : List F} {s s' : Progress F × Nat}
    (h : plain_pass decoder joiner blank_id t enc_frame s = .ok (.next s')) :
    s.2 < MAX_TOKENS_PER_STEP ∧ s'.2 = s.2 + 1 := by
  unfold plain_pass at h
  obtain ⟨out, -, h⟩ := bind_eq_ok.mp h
  obtain ⟨logits_buf, -, h⟩ := bind_eq_ok.mp h
  dsimp only at h
  split_ifs at h with hstop
  · simp at h
  · obtain ⟨p, -, h⟩ := bind_eq_ok.mp h
    obtain rfl := Turn.next.inj (Except.ok.inj h)
    exact ⟨by omega, rfl⟩

def plain_loop (decoder : Decoder F) (joiner : Joiner F) (blank_id t : Nat) (enc_frame : List F) :
    Loop (Fault × DecoderState F) (Progress F × Nat) (Progress F) where
  body := plain_pass decoder joiner blank_id t enc_frame
  measure s := MAX_TOKENS_PER_STEP - s.2
  decreases s s' h := by
    have := plain_pass_next h
    omega

def plain_frame (decoder : Decoder F) (joiner : Joiner F) (encoded : List F)
    (encoded_len blank_id : Nat) (p : Progress F) (t : Nat) : Decoding F (Progress F) := do
  let enc_frame ← leaving p.state (extract_encoder_frame encoded encoded_len t)
  (plain_loop decoder joiner blank_id t enc_frame).run (p, 0)

def plain_decode (decoder : Decoder F) (joiner : Joiner F) (encoded : List F)
    (encoded_len blank_id : Nat) (state : DecoderState F) :
    Except Fault (DecodeResult F) × DecoderState F :=
  if encoded.length < ENC_DIM * encoded_len then
    (.error (.err [size_text encoded.length (ENC_DIM * encoded_len)]), state)
  else
    returned ((List.range encoded_len).foldlM
      (plain_frame decoder joiner encoded encoded_len blank_id) (Progress.new state))

end Plain

/-! ## The cache invariant -/

section Cache

variable {d : List Int × List F × List F → Option (List (Value F))}
  {j : List F × List F → Option (List (Value F))}

/-- In a blank run the cache holds what the decoder returns on the current state. -/
def CacheValid (d : List Int × List F × List F → Option (List (Value F))) (l : Locals F) : Prop :=
  l.in_blank_run = true →
    ∃ out, l.cached_decoder_output = some out ∧ run_decoder (steady d) 0 l.state = .ok out

structure InStep (d : List Int × List F × List F → Option (List (Value F))) (l : Locals F)
    (p : Progress F) : Prop where
  progress : l.toProgress = p
  cache : CacheValid d l

theorem CacheValid.of_not_blank_run {l : Locals F} (h : l.in_blank_run = false) :
    CacheValid d l := by
  intro hrun
  simp [h] at hrun

/-- Either way the decoder call yields what the decoder returns, and caches it. -/
theorem decoder_call_spec {l : Locals F} (hl : CacheValid d l) :
    ResultRel
      (fun r out => r.1 = out ∧ r.2.toProgress = l.toProgress ∧
        r.2.cached_decoder_output = some out ∧ run_decoder (steady d) 0 l.state = .ok out)
      (· = ·) (l.decoder_call (steady d)) (leaving l.state (run_decoder (steady d) 0 l.state)) := by
  unfold Locals.decoder_call
  split_ifs with hrun
  · obtain ⟨out, hcache, hout⟩ := hl hrun
    simp only [hcache, hout, leaving]
    exact .ok ⟨rfl, rfl, rfl, rfl⟩
  · have hcall : run_decoder (steady d) (l.decoder_calls + 1) l.state =
        run_decoder (steady d) 0 l.state := rfl
    simp only [hcall]
    match hout : run_decoder (steady d) 0 l.state with
    | .error e => exact .error rfl
    | .ok out => exact .ok ⟨rfl, rfl, rfl, rfl⟩

theorem run_decoder_count_blank (p : Progress F) :
    run_decoder (steady d) 0 p.count_blank.state = run_decoder (steady d) 0 p.state := rfl

theorem run_joiner_steady (call : Nat) (enc_frame dec_data : List F) :
    run_joiner_single (steady j) call enc_frame dec_data =
      run_joiner_single (steady j) 0 enc_frame dec_data := rfl

variable [F32 F]

theorem decode_pass_rel (blank_id t : Nat) (enc_frame : List F) (s : Locals F × Nat)
    (r : Progress F × Nat) (h : InStep d s.1 r.1 ∧ s.2 = r.2) :
    ResultRel (Turn.Rel (fun s r => InStep d s.1 r.1 ∧ s.2 = r.2) (InStep d)) (· = ·)
      (decode_pass (steady d) (steady j) blank_id t enc_frame s)
      (plain_pass (steady d) (steady j) blank_id t enc_frame r) := by
  obtain ⟨l, n⟩ := s
  obtain ⟨p, m⟩ := r
  obtain ⟨⟨rfl, hcache⟩, rfl⟩ := h
  unfold decode_pass plain_pass
  apply (decoder_call_spec hcache).bind
  rintro ⟨out, l₁⟩ _ ⟨rfl, hp, hcached, hout⟩
  dsimp only at hp hcached hout ⊢
  rw [← hp] at hout ⊢
  rw [run_joiner_steady]
  apply (ResultRel.refl _).bind
  rintro logits_buf _ rfl
  unfold Locals.classify
  by_cases hblank : (argmax_with_confidence logits_buf blank_id).1 = blank_id
  · -- A blank starts or extends a blank run: the output just cached stays right.
    simp only [hblank, if_true, true_or]
    exact .ok (.stop ⟨rfl, fun _ => ⟨out, hcached, run_decoder_count_blank l₁.toProgress ▸ hout⟩⟩)
  · by_cases hcap : n ≥ MAX_TOKENS_PER_STEP
    · simp only [hblank, hcap, if_true, if_false, or_true]
      exact .ok (.stop ⟨rfl, .of_not_blank_run rfl⟩)
    · simp only [hblank, hcap, if_false, or_false]
      apply (ResultRel.refl _).bind
      rintro p _ rfl
      exact .ok (.next ⟨⟨rfl, .of_not_blank_run rfl⟩, rfl⟩)

theorem decode_frame_rel (encoded : List F) (encoded_len blank_id t : Nat) (l : Locals F)
    (p : Progress F) (h : InStep d l p) :
    ResultRel (InStep d) (· = ·)
      (decode_frame (steady d) (steady j) encoded encoded_len blank_id l t)
      (plain_frame (steady d) (steady j) encoded encoded_len blank_id p t) := by
  obtain ⟨rfl, hcache⟩ := h
  unfold decode_frame plain_frame
  apply (ResultRel.refl _).bind
  rintro enc_frame _ rfl
  exact Loop.run_rel _ (plain_loop _ _ blank_id t enc_frame)
    (fun s r => decode_pass_rel blank_id t enc_frame s r) (l, 0) _ ⟨⟨rfl, hcache⟩, rfl⟩

theorem greedy_decode_eq_plain (encoded : List F) (encoded_len blank_id : Nat)
    (state : DecoderState F) :
    greedy_decode (steady d) (steady j) encoded encoded_len blank_id state =
      plain_decode (steady d) (steady j) encoded encoded_len blank_id state := by
  have hrel := foldlM_rel (decode_frame_rel (d := d) (j := j) encoded encoded_len blank_id)
    (List.range encoded_len) (Locals.new state) (Progress.new state)
    ⟨rfl, .of_not_blank_run rfl⟩
  unfold greedy_decode plain_decode
  split_ifs
  · rfl
  · refine congrArg returned (ResultRel.eq ?_)
    rw [← bind_pure (List.foldlM (plain_frame _ _ _ _ _) _ _)]
    exact hrel.bind fun l p h => .ok h.progress

end Cache

/-! ## The `unwrap` -/

section Unwrap

def NotUnwrap (e : Fault) : Prop := e ≠ .panic .unwrap_none

abbrev Avoids {α : Type} (x : Except Fault α) : Prop := ResultSpec (fun _ => True) NotUnwrap x

theorem from_array_view_spec {α : Type} (shape : List Nat) (data : List α) :
    Avoids (from_array_view shape data) := by
  unfold from_array_view
  split_ifs
  · exact .ok trivial
  · exact .error (by simp [NotUnwrap])

theorem context_spec {α : Type} (text : String) (o : Option α) : Avoids (context text o) := by
  cases o with
  | none => exact .error (by simp [NotUnwrap])
  | some a => exact .ok trivial

theorem index_spec {α : Type} (v : List α) (i : Nat) : Avoids (index v i) := by
  unfold index
  split
  · exact .ok trivial
  · exact .error (by simp [NotUnwrap])

theorem copy_from_slice_spec {α : Type} (dst src : List α) : Avoids (copy_from_slice dst src) := by
  unfold copy_from_slice
  split_ifs
  · exact .ok trivial
  · exact .error (by simp [NotUnwrap])

theorem run_decoder_spec (decoder : Decoder F) (call : Nat) (state : DecoderState F) :
    Avoids (run_decoder decoder call state) := by
  unfold run_decoder
  apply (from_array_view_spec _ _).bind
  intro _ _
  apply (from_array_view_spec _ _).bind
  intro _ _
  apply (from_array_view_spec _ _).bind
  intro _ _
  apply (context_spec _ _).bind
  intro _ _
  apply (index_spec _ _).bind
  intro _ _
  apply (context_spec _ _).bind
  intro _ _
  apply (index_spec _ _).bind
  intro _ _
  apply (context_spec _ _).bind
  intro _ _
  apply (index_spec _ _).bind
  intro _ _
  exact (context_spec _ _).bind fun _ _ => .ok trivial

theorem run_joiner_single_spec (joiner : Joiner F) (call : Nat) (enc_frame dec_data : List F) :
    Avoids (run_joiner_single joiner call enc_frame dec_data) := by
  unfold run_joiner_single
  apply (from_array_view_spec _ _).bind
  intro _ _
  apply (from_array_view_spec _ _).bind
  intro _ _
  apply (context_spec _ _).bind
  intro _ _
  exact (index_spec _ _).bind fun _ _ => context_spec _ _

theorem extract_encoder_frame_spec (encoded : List F) (encoded_len t : Nat) :
    Avoids (extract_encoder_frame encoded encoded_len t) :=
  (mapM_spec fun _ _ => index_spec _ _).mono (fun _ _ => trivial) fun _ h => h

theorem leaving_spec {α : Type} {x : Except Fault α} (hx : Avoids x) (state : DecoderState F) :
    ResultSpec (fun _ => True) (fun e => NotUnwrap e.1) (leaving state x) := by
  match hx with
  | .ok _ => exact .ok trivial
  | .error h => exact .error h

theorem commit_spec (p : Progress F) (out : DecoderOutput F) (token t : Nat) (confidence : F) :
    ResultSpec (fun _ => True) (fun e => NotUnwrap e.1) (p.commit out token t confidence) := by
  unfold Progress.commit
  split_ifs
  · exact .error (by simp [NotUnwrap])
  · apply (leaving_spec (copy_from_slice_spec _ _) _).bind
    intro _ _
    exact (leaving_spec (copy_from_slice_spec _ _) _).bind fun _ _ => .ok trivial

/-- A blank run has something in the cache, whatever the sessions do. -/
def Cached (l : Locals F) : Prop := l.in_blank_run = true → l.cached_decoder_output.isSome = true

theorem decoder_call_cached (decoder : Decoder F) {l : Locals F} (hl : Cached l) :
    ResultSpec (fun r => r.2.cached_decoder_output.isSome = true) (fun e => NotUnwrap e.1)
      (l.decoder_call decoder) := by
  unfold Locals.decoder_call
  split_ifs with hrun
  · obtain ⟨out, hout⟩ := Option.isSome_iff_exists.mp (hl hrun)
    simp only [hout]
    exact .ok rfl
  · exact (leaving_spec (run_decoder_spec _ _ _) _).bind fun out _ => .ok rfl

variable [F32 F]

theorem decode_pass_cached (decoder : Decoder F) (joiner : Joiner F) (blank_id t : Nat)
    (enc_frame : List F) (s : Locals F × Nat) (hs : Cached s.1) :
    ResultSpec (Turn.Holds (fun s => Cached s.1) Cached) (fun e => NotUnwrap e.1)
      (decode_pass decoder joiner blank_id t enc_frame s) := by
  unfold decode_pass
  apply (decoder_call_cached decoder hs).bind
  rintro ⟨out, l⟩ hl
  apply (leaving_spec (run_joiner_single_spec _ _ _ _) _).bind
  intro logits_buf _
  dsimp only at hl ⊢
  unfold Locals.classify
  split_ifs
  · exact .ok (.stop fun _ => hl)
  · exact .ok (.stop fun hrun => by simp at hrun)
  · exact (commit_spec _ _ _ _ _).bind fun p _ => .ok (.next fun hrun => by simp at hrun)

theorem decode_frame_cached (decoder : Decoder F) (joiner : Joiner F) (encoded : List F)
    (encoded_len blank_id t : Nat) (l : Locals F) (hl : Cached l) :
    ResultSpec Cached (fun e => NotUnwrap e.1)
      (decode_frame decoder joiner encoded encoded_len blank_id l t) := by
  unfold decode_frame
  apply (leaving_spec (extract_encoder_frame_spec _ _ _) _).bind
  intro enc_frame _
  exact Loop.run_spec _ (decode_pass_cached decoder joiner blank_id t enc_frame) (l, 0) hl

/-- No decode reaches the `unwrap` with an empty cache. -/
theorem greedy_decode_not_unwrap (decoder : Decoder F) (joiner : Joiner F) (encoded : List F)
    (encoded_len blank_id : Nat) (state : DecoderState F) :
    (greedy_decode decoder joiner encoded encoded_len blank_id state).1 ≠
      .error (.panic .unwrap_none) := by
  have hspec := foldlM_spec
    (fun t (_ : t ∈ List.range encoded_len) => decode_frame_cached decoder joiner encoded encoded_len blank_id t)
    (Locals.new state) (fun hrun => by simp [Locals.new] at hrun)
  unfold greedy_decode
  split_ifs
  · simp
  · generalize (List.range encoded_len).foldlM
      (decode_frame decoder joiner encoded encoded_len blank_id) (Locals.new state) = x at hspec ⊢
    match hspec with
    | .ok _ => simp [returned]
    | .error h => simpa [returned, NotUnwrap] using h

end Unwrap

/-! ## The cache is invisible -/

theorem cache_invisible [F32 F] (d : List Int × List F × List F → Option (List (Value F)))
    (j : List F × List F → Option (List (Value F))) (encoded : List F)
    (encoded_len blank_id : Nat) (state : DecoderState F) :
    greedy_decode (steady d) (steady j) encoded encoded_len blank_id state =
        plain_decode (steady d) (steady j) encoded encoded_len blank_id state ∧
      (greedy_decode (steady d) (steady j) encoded encoded_len blank_id state).1 ≠
        .error (.panic .unwrap_none) :=
  ⟨greedy_decode_eq_plain encoded encoded_len blank_id state,
    greedy_decode_not_unwrap _ _ _ _ _ _⟩

end Gigastt.Decode
