import Gigastt.Decode.Time
import Gigastt.Lib.Pause

/-!
# Utterances and the cuts of a stream

A stream of encoder frames arrives in blocks. Each block goes through `greedy_decode`, and
`process_chunk` closes the utterance when that reports an endpoint. `tokens` is local to
one call while `consecutive_blanks` is not, so where an utterance ends depends on the cut.
-/

namespace Gigastt.Decode

open Pause

variable {F : Type}

/-! ## What one frame does to the blank counter -/

/-- What the inner loop does to the tokens, the blank counter and the flag. -/
structure FrameEnd (p q : Progress F) : Prop where
  blanks : ∃ ts, q.tokens = p.tokens ++ ts ∧
    q.state.consecutive_blanks = count p.state.consecutive_blanks (!ts.isEmpty)
  endpoint : q.endpoint_detected = (p.endpoint_detected ||
    (decide (q.state.consecutive_blanks ≥ ENDPOINT_BLANK_THRESHOLD) && !q.tokens.isEmpty))

structure FrameSoFar (p q : Progress F) : Prop where
  blanks : ∃ ts, q.tokens = p.tokens ++ ts ∧
    q.state.consecutive_blanks = if ts.isEmpty then p.state.consecutive_blanks else 0
  endpoint : q.endpoint_detected = p.endpoint_detected

theorem FrameSoFar.count_blank {p q : Progress F} (h : FrameSoFar p q) :
    FrameEnd p q.count_blank := by
  obtain ⟨⟨ts, htokens, hblanks⟩, hendpoint⟩ := h
  refine ⟨⟨ts, htokens, ?_⟩, ?_⟩
  · match ts with
    | [] => simpa [Progress.count_blank, count] using hblanks
    | _ :: _ => simpa [Progress.count_blank, count] using hblanks
  · simp [Progress.count_blank, hendpoint]

theorem FrameSoFar.commit {p q : Progress F} (h : FrameSoFar p q) (out : DecoderOutput F)
    (token t : Nat) (confidence : F) :
    ResultSpec (FrameSoFar p) (fun _ => True) (q.commit out token t confidence) := by
  obtain ⟨⟨ts, htokens, -⟩, hendpoint⟩ := h
  unfold Progress.commit
  split_ifs
  · exact .error trivial
  · refine ResultSpec.bind (P := fun _ => True) (.of_true _) fun h' _ => ?_
    refine ResultSpec.bind (P := fun _ => True) (.of_true _) fun c' _ => .ok ⟨?_, hendpoint⟩
    exact ⟨ts ++ [⟨token, t, confidence⟩], by simp [htokens], by simp⟩

/-! ## The stream in blocks -/

structure Utterances (F : Type) where
  closed : List (List (TokenInfo F))
  open_tokens : List (TokenInfo F)
  frames : Nat
  state : DecoderState F

def Utterances.new (state : DecoderState F) : Utterances F :=
  { closed := [], open_tokens := [], frames := 0, state }

/-- The endpoint handling of `process_chunk`, after a block of `n` frames. -/
def Utterances.append (u : Utterances F) (n : Nat) (result : DecodeResult F)
    (state : DecoderState F) : Utterances F :=
  let tokens := u.open_tokens ++ result.tokens.map (TokenInfo.shift u.frames)
  let frames := u.frames + n
  if result.endpoint_detected then
    { closed := u.closed ++ [tokens], open_tokens := [], frames,
      state := { state with consecutive_blanks := 0 } }
  else { u with open_tokens := tokens, frames, state }

variable [F32 F]

def feed_block (decoder : Decoder F) (joiner : Joiner F) (blank_id : Nat) (u : Utterances F)
    (block : List (Frame F)) : Except Fault (Utterances F) :=
  match greedy_decode decoder joiner (channels_first block) block.length blank_id u.state with
  | (.error e, _) => .error e
  | (.ok result, state) => .ok (u.append block.length result state)

def segmentation (decoder : Decoder F) (joiner : Joiner F) (blank_id : Nat) (state : DecoderState F)
    (blocks : List (List (Frame F))) :
    Except Fault (List (List (TokenInfo F)) × List (TokenInfo F)) := do
  let u ← blocks.foldlM (feed_block decoder joiner blank_id) (Utterances.new state)
  return (u.closed, u.open_tokens)

/-! ## Which frames emit -/

/-- Whether the model emits a token on this frame, and the state it goes on with. -/
def emits (decoder : Decoder F) (joiner : Joiner F) (blank_id : Nat) (frame : Frame F)
    (state : DecoderState F) : Decoding F (Bool × DecoderState F) := do
  let p ← (plain_loop decoder joiner blank_id 0 (List.ofFn frame)).run (Progress.new state, 0)
  return (!p.tokens.isEmpty, p.state)

def emissions (decoder : Decoder F) (joiner : Joiner F) (blank_id : Nat) :
    List (Frame F) → DecoderState F → Decoding F (List Bool × DecoderState F)
  | [], state => .ok ([], state)
  | frame :: frames, state => do
    let (emitted, state) ← emits decoder joiner blank_id frame state
    let (rest, state) ← emissions decoder joiner blank_id frames state
    return (emitted :: rest, state)

section Walk

variable {d : Decoder F} {j : Joiner F} {blank_id : Nat}

theorem emissions_append (E₁ E₂ : List (Frame F)) (state : DecoderState F) :
    emissions d j blank_id (E₁ ++ E₂) state = do
      let (events₁, state) ← emissions d j blank_id E₁ state
      let (events₂, state) ← emissions d j blank_id E₂ state
      return (events₁ ++ events₂, state) := by
  induction E₁ generalizing state with
  | nil =>
    change emissions d j blank_id E₂ state = emissions d j blank_id E₂ state >>= pure
    rw [bind_pure]
  | cons frame E₁ ih => simp [emissions, ih]

theorem emissions_length {E : List (Frame F)} {state : DecoderState F}
    {r : List Bool × DecoderState F} (h : emissions d j blank_id E state = .ok r) :
    r.1.length = E.length := by
  induction E generalizing state r with
  | nil =>
    obtain rfl := Except.ok.inj h
    rfl
  | cons frame E ih =>
    obtain ⟨⟨event, state₁⟩, -, h⟩ := bind_eq_ok.mp h
    obtain ⟨⟨events, state₂⟩, hrest, h⟩ := bind_eq_ok.mp h
    obtain rfl := Except.ok.inj h
    simp [ih hrest]

theorem plain_loop_spec (t : Nat) (enc_frame : List F) (p : Progress F) :
    ResultSpec (FrameEnd p) (fun _ => True)
      ((plain_loop d j blank_id t enc_frame).run (p, 0)) := by
  refine Loop.run_spec _ (I := fun s => FrameSoFar p s.1) ?_ (p, 0) ⟨⟨[], by simp, by simp⟩, rfl⟩
  rintro ⟨q, n⟩ hq
  change ResultSpec _ _ (plain_pass d j blank_id t enc_frame (q, n))
  unfold plain_pass
  refine ResultSpec.bind (P := fun _ => True) (.of_true _) fun out _ => ?_
  refine ResultSpec.bind (P := fun _ => True) (.of_true _) fun logits_buf _ => ?_
  rcases argmax_with_confidence logits_buf blank_id with ⟨token, confidence⟩
  dsimp only
  split_ifs
  · exact .ok (.stop hq.count_blank)
  · exact (hq.commit _ _ _ _).bind fun q' hq' => .ok (.next hq')

variable (blank_id) in
theorem plain_frames_emissions (t : Nat) (E : List (Frame F)) (p : Progress F) :
    ResultRel
      (fun q r => q.state = r.2 ∧ q.endpoint_detected = (p.endpoint_detected ||
        fires ENDPOINT_BLANK_THRESHOLD p.state.consecutive_blanks (!p.tokens.isEmpty) r.1))
      (· = ·) (plain_frames d j blank_id t E p) (emissions d j blank_id E p.state) := by
  induction E generalizing t p with
  | nil => exact .ok ⟨rfl, by simp [fires]⟩
  | cons frame E ih =>
    have hframe := (plain_loop_follows (d := d) (j := j) blank_id 0 (List.ofFn frame)
      (follows_new p t)).and_spec (plain_loop_spec t _ p) (plain_loop_spec 0 _ _)
    rw [plain_frames, emissions, emits, bind_assoc]
    apply hframe.bind
    rintro q r ⟨hfollows, hq, hr⟩
    obtain ⟨ts, htokens, hblanks⟩ := hr.blanks
    rw [pure_bind, ← hfollows.state, ← bind_pure (plain_frames _ _ _ _ _ _)]
    refine (ih (t + 1) q).bind fun q' r' h => .ok ⟨h.1, ?_⟩
    have hemitted : r.tokens = ts := htokens
    have hseen : (!q.tokens.isEmpty) = (!p.tokens.isEmpty || !ts.isEmpty) := by
      rw [hfollows.tokens, hemitted]
      cases p.tokens <;> simp
    have hcount : q.state.consecutive_blanks =
        count p.state.consecutive_blanks (!ts.isEmpty) := by
      rw [hfollows.state, hblanks]
      rfl
    rw [h.2, hq.endpoint, hseen, hcount, hemitted, Bool.or_assoc]
    rfl

/-- A block closes an utterance iff one of its tokens is followed by a pause in it. -/
theorem endpoint_iff_pause {E : List (Frame F)} {state : DecoderState F} {p : Progress F}
    (h : plain_frames d j blank_id 0 E (Progress.new state) = .ok p) :
    ∃ events, emissions d j blank_id E state = .ok (events, p.state) ∧
      (p.endpoint_detected = true ↔ pause ENDPOINT_BLANK_THRESHOLD <:+: events) := by
  have hrel := plain_frames_emissions (d := d) (j := j) blank_id 0 E
    (Progress.new state)
  rw [h] at hrel
  generalize hx : emissions d j blank_id E (Progress.new state).state = x at hrel
  match x, hrel with
  | .ok (events, _), .ok ⟨rfl, hendpoint⟩ =>
    refine ⟨events, hx, ?_⟩
    rw [hendpoint]
    exact fires_iff (by decide) state.consecutive_blanks events

end Walk

/-! ## The blank counter steers nothing else -/

structure SameInputs (s s' : DecoderState F) : Prop where
  h : s.h = s'.h
  c : s.c = s'.c
  prev_token : s.prev_token = s'.prev_token

abbrev SameFault (e e' : Fault × DecoderState F) : Prop := e.1 = e'.1

section Blind

variable {d : Decoder F} {j : Joiner F} {blank_id : Nat}

omit [F32 F] in
theorem leaving_same {α : Type} (s s' : DecoderState F) (x : Except Fault α) :
    ResultRel (· = ·) SameFault (leaving s x) (leaving s' x) := by
  match x with
  | .ok a => exact .ok rfl
  | .error e => exact .error rfl

omit [F32 F] in
theorem commit_same {p q : Progress F} (hs : SameInputs p.state q.state) (out : DecoderOutput F)
    (token t t' : Nat) (confidence : F) :
    ResultRel (fun p' q' => SameInputs p'.state q'.state) SameFault
      (p.commit out token t confidence) (q.commit out token t' confidence) := by
  unfold Progress.commit
  dsimp only
  rw [hs.h, hs.c]
  split_ifs
  · exact .error rfl
  · apply (leaving_same _ _ _).bind
    rintro h' _ rfl
    apply (leaving_same _ _ _).bind
    rintro c' _ rfl
    exact .ok ⟨rfl, rfl, rfl⟩

theorem plain_pass_same (t t' : Nat) (enc_frame : List F) (s s' : Progress F × Nat)
    (hs : SameInputs s.1.state s'.1.state ∧ s.2 = s'.2) :
    ResultRel
      (Turn.Rel (fun s s' => SameInputs s.1.state s'.1.state ∧ s.2 = s'.2)
        (fun p q => SameInputs p.state q.state))
      SameFault (plain_pass d j blank_id t enc_frame s) (plain_pass d j blank_id t' enc_frame s') := by
  obtain ⟨p, n⟩ := s
  obtain ⟨q, m⟩ := s'
  obtain ⟨hs, rfl⟩ := hs
  have hdecoder : run_decoder d 0 p.state = run_decoder d 0 q.state := by
    unfold run_decoder
    rw [hs.h, hs.c, hs.prev_token]
  unfold plain_pass
  dsimp only
  rw [hdecoder]
  apply (leaving_same _ _ _).bind
  rintro out _ rfl
  apply (leaving_same _ _ _).bind
  rintro logits_buf _ rfl
  split_ifs
  · exact .ok (.stop ⟨hs.h, hs.c, hs.prev_token⟩)
  · exact (commit_same hs _ _ _ _ _).bind fun p' q' h => .ok (.next ⟨h, rfl⟩)

variable (blank_id) in
theorem plain_frames_same (t t' : Nat) (E : List (Frame F)) {p q : Progress F}
    (hs : SameInputs p.state q.state) :
    ResultRel (fun p' q' => SameInputs p'.state q'.state) SameFault
      (plain_frames d j blank_id t E p) (plain_frames d j blank_id t' E q) := by
  induction E generalizing t t' p q with
  | nil => exact .ok hs
  | cons frame E ih =>
    have hloop := Loop.run_rel (plain_loop d j blank_id t (List.ofFn frame))
      (plain_loop d j blank_id t' (List.ofFn frame)) (plain_pass_same t t' _) (p, 0) (q, 0) ⟨hs, rfl⟩
    exact hloop.bind fun p' q' h => ih (t + 1) (t' + 1) h

end Blind

/-! ## Cuts in which no block closes an utterance -/

section Cuts

variable {d : List Int × List F × List F → Option (List (Value F))}
  {j : List F × List F → Option (List (Value F))} {blank_id : Nat}

theorem feed_block_eq (u : Utterances F) (block : List (Frame F)) :
    feed_block (steady d) (steady j) blank_id u block =
      match plain_frames (steady d) (steady j) blank_id 0 block (Progress.new u.state) with
      | .error (e, _) => .error e
      | .ok p => .ok (u.append block.length ⟨p.tokens, p.endpoint_detected⟩ p.state) := by
  unfold feed_block
  rw [greedy_decode_eq_plain, plain_decode_channels_first]
  match plain_frames (steady d) (steady j) blank_id 0 block (Progress.new u.state) with
  | .error (e, state) => rfl
  | .ok p => rfl

variable (blank_id) in
/-- However it is cut, a stream fails as the walk over it does. -/
theorem foldlM_feed_block_same (blocks : List (List (Frame F))) (t : Nat) (u : Utterances F)
    (p : Progress F) (hs : SameInputs u.state p.state) :
    ResultRel (fun u' q => SameInputs u'.state q.state) (fun e e' => e = e'.1)
      (blocks.foldlM (feed_block (steady d) (steady j) blank_id) u)
      (plain_frames (steady d) (steady j) blank_id t blocks.flatten p) := by
  induction blocks generalizing t u p with
  | nil => exact .ok hs
  | cons block blocks ih =>
    rw [List.foldlM_cons, List.flatten_cons, plain_frames_append, feed_block_eq]
    have hblock := plain_frames_same (d := steady d) (j := steady j) blank_id 0 t block
      (p := Progress.new u.state) (q := p) hs
    generalize plain_frames (steady d) (steady j) blank_id 0 block (Progress.new u.state) = x
      at hblock ⊢
    generalize plain_frames (steady d) (steady j) blank_id t block p = y at hblock ⊢
    match x, y, hblock with
    | .error _, .error _, .error h => exact .error h
    | .ok q, .ok r, .ok h =>
      refine ih (t + block.length) _ r ?_
      unfold Utterances.append
      split_ifs
      · exact ⟨h.h, h.c, h.prev_token⟩
      · exact h

/-- No block ends in an endpoint, when the state runs on from block to block. -/
def NoneCloses (d : Decoder F) (j : Joiner F) (blank_id : Nat) :
    List (List (Frame F)) → DecoderState F → Prop
  | [], _ => True
  | block :: blocks, state =>
    ∀ p, plain_frames d j blank_id 0 block (Progress.new state) = .ok p →
      p.endpoint_detected = false ∧ NoneCloses d j blank_id blocks p.state

theorem foldlM_feed_block (blocks : List (List (Frame F))) (u : Utterances F)
    (h : NoneCloses (steady d) (steady j) blank_id blocks u.state) :
    ResultRel
      (fun u' p => u'.closed = u.closed ∧
        u'.open_tokens = u.open_tokens ++ p.tokens.map (TokenInfo.shift u.frames))
      (fun e e' => e = e'.1) (blocks.foldlM (feed_block (steady d) (steady j) blank_id) u)
      (plain_frames (steady d) (steady j) blank_id 0 blocks.flatten (Progress.new u.state)) := by
  induction blocks generalizing u with
  | nil => exact .ok ⟨rfl, by simp [Progress.new]⟩
  | cons block blocks ih =>
    rw [List.foldlM_cons, List.flatten_cons, plain_frames_append, feed_block_eq]
    cases hp : plain_frames (steady d) (steady j) blank_id 0 block (Progress.new u.state) with
    | error e => exact .error rfl
    | ok p =>
      obtain ⟨hopen, hrest⟩ := h p hp
      have hu : u.append block.length ⟨p.tokens, p.endpoint_detected⟩ p.state =
          { u with
            open_tokens := u.open_tokens ++ p.tokens.map (TokenInfo.shift u.frames)
            frames := u.frames + block.length
            state := p.state } := by
        simp [Utterances.append, hopen]
      have hfollows := plain_frames_follows (d := steady d) (j := steady j) blank_id 0
        blocks.flatten (follows_new p block.length)
      rw [Nat.add_comm 0]
      dsimp only
      rw [hu]
      refine ((ih _ hrest).meet hfollows).mono ?_ (by rintro e e' ⟨e'', rfl, rfl⟩; rfl)
      rintro u' q ⟨r, ⟨hclosed, hr⟩, hq⟩
      refine ⟨hclosed, ?_⟩
      have hshift : TokenInfo.shift u.frames ∘ TokenInfo.shift block.length =
          (TokenInfo.shift (u.frames + block.length) : TokenInfo F → TokenInfo F) := by
        funext token
        simp [TokenInfo.shift, Nat.add_assoc]
      rw [hr, hq.tokens, List.map_append, List.map_map, hshift, List.append_assoc]

def one_utterance (d : Decoder F) (j : Joiner F) (blank_id : Nat) (state : DecoderState F)
    (E : List (Frame F)) : Except Fault (List (List (TokenInfo F)) × List (TokenInfo F)) :=
  match plain_frames d j blank_id 0 E (Progress.new state) with
  | .ok p => .ok ([], p.tokens)
  | .error (e, _) => .error e

theorem segmentation_of_noneCloses {blocks : List (List (Frame F))} {state : DecoderState F}
    (h : NoneCloses (steady d) (steady j) blank_id blocks state) :
    segmentation (steady d) (steady j) blank_id state blocks =
      one_utterance (steady d) (steady j) blank_id state blocks.flatten := by
  have hfeed := foldlM_feed_block blocks (Utterances.new state) h
  unfold segmentation one_utterance
  generalize blocks.foldlM (feed_block (steady d) (steady j) blank_id) (Utterances.new state) = x
    at hfeed ⊢
  change ResultRel _ _ x (plain_frames (steady d) (steady j) blank_id 0 _ (Progress.new state)) at hfeed
  generalize plain_frames (steady d) (steady j) blank_id 0 blocks.flatten (Progress.new state) = y
    at hfeed ⊢
  match x, y, hfeed with
  | _, _, .error rfl => rfl
  | .ok u, .ok p, .ok ⟨hclosed, hopen⟩ =>
    have hshift : (TokenInfo.shift 0 : TokenInfo F → TokenInfo F) = id := by
      funext token
      simp [TokenInfo.shift]
    simp [pure, Except.pure, bind, Except.bind, hclosed, hopen, hshift, Utterances.new]

/-- Cut into single frames, no block has a frame after a token. -/
theorem noneCloses_singletons (E : List (Frame F)) (state : DecoderState F) :
    NoneCloses (steady d) (steady j) blank_id (E.map fun frame => [frame]) state := by
  induction E generalizing state with
  | nil => trivial
  | cons frame E ih =>
    intro p hp
    obtain ⟨events, hevents, hpause⟩ := endpoint_iff_pause hp
    refine ⟨?_, ih p.state⟩
    rw [Bool.eq_false_iff, Ne, hpause]
    intro hinfix
    have hlength := hinfix.length_le
    rw [emissions_length hevents] at hlength
    simp [pause, ENDPOINT_BLANK_THRESHOLD] at hlength

/-- Nor is there one in any cut of a stream without a pause. -/
theorem noneCloses_of_no_pause {blocks : List (List (Frame F))} {state last : DecoderState F}
    {events : List Bool}
    (hE : emissions (steady d) (steady j) blank_id blocks.flatten state = .ok (events, last))
    (h : ¬ pause ENDPOINT_BLANK_THRESHOLD <:+: events) :
    NoneCloses (steady d) (steady j) blank_id blocks state := by
  induction blocks generalizing state events with
  | nil => trivial
  | cons block blocks ih =>
    rw [List.flatten_cons, emissions_append] at hE
    obtain ⟨⟨events₁, state₁⟩, h₁, hE⟩ := bind_eq_ok.mp hE
    obtain ⟨⟨events₂, state₂⟩, h₂, hE⟩ := bind_eq_ok.mp hE
    obtain ⟨rfl, rfl⟩ := Prod.mk.inj (Except.ok.inj hE)
    intro p hp
    obtain ⟨events, hevents, hpause⟩ := endpoint_iff_pause hp
    obtain ⟨rfl, rfl⟩ := Prod.mk.inj (Except.ok.inj (h₁.symm.trans hevents))
    refine ⟨?_, ih h₂ fun hpause => h (hpause.trans (List.suffix_append _ _).isInfix)⟩
    rw [Bool.eq_false_iff, Ne, hpause]
    exact fun hpause => h (hpause.trans (List.prefix_append _ _).isInfix)

end Cuts

/-! ## Which streams have one segmentation -/

section Segmentation

variable {d : List Int × List F × List F → Option (List (Value F))}
  {j : List F × List F → Option (List (Value F))} {blank_id : Nat} {state : DecoderState F}

theorem segmentation_of_failure {blocks : List (List (Frame F))} {e : Fault × DecoderState F}
    (h : emissions (steady d) (steady j) blank_id blocks.flatten state = .error e) :
    segmentation (steady d) (steady j) blank_id state blocks = .error e.1 := by
  have hwalk := plain_frames_emissions (d := steady d) (j := steady j) blank_id 0
    blocks.flatten (Progress.new state)
  have hfeed := foldlM_feed_block_same (d := d) (j := j) blank_id blocks 0
    (Utterances.new state) (Progress.new state) ⟨rfl, rfl, rfl⟩
  change emissions _ _ _ _ (Progress.new state).state = _ at h
  rw [h] at hwalk
  unfold segmentation
  generalize plain_frames (steady d) (steady j) blank_id 0 blocks.flatten (Progress.new state) = y
    at hwalk hfeed
  generalize blocks.foldlM (feed_block (steady d) (steady j) blank_id) (Utterances.new state) = x
    at hfeed ⊢
  match x, y, hfeed, hwalk with
  | _, _, .error rfl, .error rfl => rfl

/-- A pause in the stream closes an utterance in one block, and none frame by frame. -/
theorem segmentation_ne_of_pause {E : List (Frame F)} {events : List Bool} {last : DecoderState F}
    (hE : emissions (steady d) (steady j) blank_id E state = .ok (events, last))
    (h : pause ENDPOINT_BLANK_THRESHOLD <:+: events) :
    segmentation (steady d) (steady j) blank_id state [E] ≠
      segmentation (steady d) (steady j) blank_id state (E.map fun frame => [frame]) := by
  have hwalk := plain_frames_emissions (d := steady d) (j := steady j) blank_id 0 E
    (Progress.new state)
  rw [show emissions (steady d) (steady j) blank_id E (Progress.new state).state = _ from hE] at hwalk
  rw [segmentation_of_noneCloses (noneCloses_singletons E state), ← List.flatMap_def,
    List.flatMap_singleton']
  unfold segmentation one_utterance
  rw [List.foldlM_cons, feed_block_eq]
  match hp : plain_frames (steady d) (steady j) blank_id 0 E (Progress.new state), hwalk with
  | .ok p, .ok _ =>
    obtain ⟨events', hE', hpause⟩ := endpoint_iff_pause hp
    obtain ⟨rfl, -⟩ := Prod.mk.inj (Except.ok.inj (hE'.symm.trans hE))
    have hclosed : p.endpoint_detected = true := hpause.mpr h
    simp only [Utterances.new, Utterances.append, hclosed]
    intro heq
    have hnil := congrArg Prod.fst (Except.ok.inj heq)
    simp at hnil

theorem segmentation_unique_iff (d : List Int × List F × List F → Option (List (Value F)))
    (j : List F × List F → Option (List (Value F))) (blank_id : Nat) (state : DecoderState F)
    (E : List (Frame F)) :
    (∀ B₁ B₂ : List (List (Frame F)), B₁.flatten = E → B₂.flatten = E →
        segmentation (steady d) (steady j) blank_id state B₁ =
          segmentation (steady d) (steady j) blank_id state B₂) ↔
      ∀ events last, emissions (steady d) (steady j) blank_id E state = .ok (events, last) →
        ¬ pause ENDPOINT_BLANK_THRESHOLD <:+: events := by
  constructor
  · intro hall events last hE hpause
    refine segmentation_ne_of_pause hE hpause (hall _ _ (by simp) ?_)
    rw [← List.flatMap_def, List.flatMap_singleton']
  · intro hpause B₁ B₂ h₁ h₂
    match hE : emissions (steady d) (steady j) blank_id E state with
    | .error e =>
      rw [segmentation_of_failure (by rwa [h₁]), segmentation_of_failure (by rwa [h₂])]
    | .ok (events, last) =>
      have hquiet := hpause events last hE
      rw [segmentation_of_noneCloses (noneCloses_of_no_pause (by rwa [h₁]) hquiet),
        segmentation_of_noneCloses (noneCloses_of_no_pause (by rwa [h₂]) hquiet), h₁, h₂]

end Segmentation

/-! ## A pause cut in two -/

/-- Its output is the previous token. -/
def echo_decoder : List Int × List Int × List Int → Option (List (Value Int))
  | (target_data, h, c) => some [.f32 (List.replicate PRED_HIDDEN target_data.sum), .f32 h, .f32 c]

/-- Token 1 on a frame with sound that follows the blank 0, else a blank. -/
def sound_joiner : List Int × List Int → Option (List (Value Int))
  | (enc, dec) =>
    if enc.head? = some 1 ∧ dec.head? = some 0 then some [.f32 [-1000, 0]]
    else some [.f32 [0, -1000]]

def sound : Frame Int := fun _ => 1

def silence : Frame Int := fun _ => 0

def sound_then_silence : List (Frame Int) :=
  sound :: List.replicate (ENDPOINT_BLANK_THRESHOLD - 1) silence

theorem emissions_sound_then_silence :
    emissions (steady echo_decoder) (steady sound_joiner) 0 sound_then_silence (DecoderState.new 0) =
      .ok (pause ENDPOINT_BLANK_THRESHOLD,
        { DecoderState.new 0 with prev_token := 1, consecutive_blanks := 15 }) := by
  decide +kernel

theorem segmentation_depends_on_cut :
    [sound_then_silence].flatten = (sound_then_silence.map fun frame => [frame]).flatten ∧
      segmentation (steady echo_decoder) (steady sound_joiner) 0 (DecoderState.new 0)
          [sound_then_silence] ≠
        segmentation (steady echo_decoder) (steady sound_joiner) 0 (DecoderState.new 0)
          (sound_then_silence.map fun frame => [frame]) :=
  ⟨by rw [← List.flatMap_def, List.flatMap_singleton', List.flatten_singleton],
    segmentation_ne_of_pause emissions_sound_then_silence (List.infix_refl _)⟩

end Gigastt.Decode
