import Gigastt.Ffi.Code
import Gigastt.Session.Returns

/-!
# The C interface keeps no leftover byte

A call drops the odd byte at its end, which a session would carry over. Nothing is lost
only where no sample can tell.
-/

namespace Gigastt.Ffi

open Session Streaming Words

variable {F D R : Type}

/-! ## Samples and pairs -/

theorem from_le_bytes_inj {p q : UInt8 × UInt8} (h : from_le_bytes p = from_le_bytes q) : p = q := by
  obtain ⟨lo, hi⟩ := p
  obtain ⟨lo', hi'⟩ := q
  have hlo := lo.toNat_lt
  have hhi := hi.toNat_lt
  have hlo' := lo'.toNat_lt
  have hhi' := hi'.toNat_lt
  have hbytes : lo.toNat = lo'.toNat ∧ hi.toNat = hi'.toNat := by
    unfold from_le_bytes at h
    dsimp only at h
    split at h
    · split at h
      · omega
      · omega
    · split at h
      · omega
      · omega
  rw [UInt8.toNat_inj.mp hbytes.1, UInt8.toNat_inj.mp hbytes.2]

theorem pairs_length (bytes : List UInt8) : (pairs bytes).length = bytes.length / 2 := by
  fun_induction pairs bytes with
  | case1 lo hi rest ih =>
    rw [List.length_cons, ih, List.length_cons, List.length_cons]
    omega
  | case2 l hshort =>
    rcases l with _ | ⟨lo, _ | ⟨hi, rest⟩⟩
    · rfl
    · simp
    · exact absurd rfl (hshort lo hi rest)

/-- A shift by one byte changes no pair exactly when all bytes are that byte. -/
theorem pairs_cons_eq_iff (b : UInt8) {bytes : List UInt8} (h : bytes.length % 2 = 0) :
    pairs bytes = pairs (b :: bytes) ↔ ∀ c ∈ bytes, c = b := by
  match bytes with
  | [] => simp [pairs]
  | [_] => simp at h
  | x :: y :: rest =>
    have hrest : rest.length % 2 = 0 := by
      simp only [List.length_cons] at h
      omega
    have ih := pairs_cons_eq_iff b hrest
    simp only [pairs, List.forall_mem_cons, ← ih, List.cons.injEq, Prod.mk.injEq]
    constructor
    · rintro ⟨⟨rfl, rfl⟩, hpairs⟩
      exact ⟨rfl, rfl, hpairs⟩
    · rintro ⟨rfl, rfl, hpairs⟩
      exact ⟨⟨rfl, rfl⟩, hpairs⟩

/-! ## Pieces -/

/-- A piece of odd length is followed by nothing but even pieces of its last byte. -/
def Aligned : List (List UInt8) → Prop
  | [] => True
  | p :: ps =>
    (∀ b, leftover p = some b → ∀ q ∈ ps, q.length % 2 = 0 ∧ ∀ c ∈ q, c = b) ∧ Aligned ps

theorem aligned_of_even {pieces : List (List UInt8)} (h : ∀ p ∈ pieces, p.length % 2 = 0) :
    Aligned pieces := by
  induction pieces with
  | nil => trivial
  | cons p ps ih =>
    obtain ⟨hp, hps⟩ := List.forall_mem_cons.mp h
    refine ⟨fun b hb => ?_, ih hps⟩
    rw [leftover, if_pos hp] at hb
    simp at hb

theorem flatMap_pairs_of_even {pieces : List (List UInt8)} (h : ∀ p ∈ pieces, p.length % 2 = 0) :
    pieces.flatMap pairs = pairs pieces.flatten ∧ pieces.flatten.length % 2 = 0 := by
  induction pieces with
  | nil => exact ⟨rfl, rfl⟩
  | cons p ps ih =>
    obtain ⟨hp, hps⟩ := List.forall_mem_cons.mp h
    obtain ⟨hpairs, heven⟩ := ih hps
    rw [List.flatMap_cons, List.flatten_cons, pairs_append hp, hpairs, List.length_append]
    exact ⟨rfl, by omega⟩

/-- Each odd piece loses a byte. -/
theorem flatMap_pairs_length (pieces : List (List UInt8)) :
    2 * (pieces.flatMap pairs).length + (pieces.map (·.length % 2)).sum =
      pieces.flatten.length := by
  induction pieces with
  | nil => rfl
  | cons p ps ih =>
    rw [List.flatMap_cons, List.flatten_cons, List.map_cons, List.sum_cons, List.length_append,
      List.length_append, pairs_length]
    omega

/-- What follows a dropped byte decodes as if it had been kept. -/
theorem flatMap_pairs_eq_cons_iff (b : UInt8) (pieces : List (List UInt8)) :
    pieces.flatMap pairs = pairs (b :: pieces.flatten) ↔
      ∀ q ∈ pieces, q.length % 2 = 0 ∧ ∀ c ∈ q, c = b := by
  constructor
  · intro h
    have hlength := congrArg List.length h
    rw [pairs_length, List.length_cons] at hlength
    have hlost := flatMap_pairs_length pieces
    have hsum : (pieces.map (·.length % 2)).sum = 0 := by omega
    have heven : ∀ q ∈ pieces, q.length % 2 = 0 := by
      intro q hq
      exact List.sum_eq_zero_iff_forall_eq_nat.mp hsum _ (List.mem_map_of_mem hq)
    obtain ⟨hpairs, hflat⟩ := flatMap_pairs_of_even heven
    rw [hpairs, pairs_cons_eq_iff b hflat] at h
    exact fun q hq => ⟨heven q hq, fun c hc => h c (List.mem_flatten.mpr ⟨q, hq, hc⟩)⟩
  · intro h
    obtain ⟨hpairs, hflat⟩ := flatMap_pairs_of_even fun q hq => (h q hq).1
    rw [hpairs, pairs_cons_eq_iff b hflat]
    intro c hc
    obtain ⟨q, hq, hc⟩ := List.mem_flatten.mp hc
    exact (h q hq).2 c hc

theorem flatMap_pairs_eq_iff (pieces : List (List UInt8)) :
    pieces.flatMap pairs = pairs pieces.flatten ↔ Aligned pieces := by
  induction pieces with
  | nil => simp [Aligned, pairs]
  | cons p ps ih =>
    obtain ⟨paired, hp, hpaired⟩ := split_leftover p
    rw [List.flatMap_cons, List.flatten_cons, Aligned]
    cases hlast : leftover p with
    | none =>
      rw [hlast, Option.toList_none, List.append_nil] at hp
      rw [hp, pairs_append hpaired, List.append_cancel_left_eq, ih]
      simp
    | some b =>
      rw [hlast, Option.toList_some] at hp
      have hdropped : pairs p = pairs paired := by
        rw [hp, pairs_append hpaired]
        simp [pairs]
      rw [hdropped, hp, List.append_assoc, pairs_append hpaired, List.append_cancel_left_eq,
        List.singleton_append, flatMap_pairs_eq_cons_iff]
      constructor
      · intro h
        refine ⟨?_, aligned_of_even fun q hq => (h q hq).1⟩
        rintro c ⟨⟩
        exact h
      · rintro ⟨h, -⟩
        exact h b rfl

/-! ## Calls -/

section Calls

variable [F32Pcm F]

/-- `process_samples`, which puts down the samples that it gets. -/
def logged (sample_rate : UInt32) (guarded : Guarded F D) (engine : GigasttEngine F D R)
    (stream : GigasttStream F D R) (pcm16 : List Int) :
    StateM (List Int) (Option (List (TranscriptSegment F)) × GigasttStream F D R) := do
  modify (· ++ pcm16)
  return process_samples sample_rate guarded engine stream pcm16

/-- The call on each piece in turn: the samples that it hands on, and the stream at the end. -/
def feed (engine : GigasttEngine F D R) (sample_rate : UInt32) :
    Option (GigasttStream F D R) → List (Guarded F D × List UInt8) →
      List Int × Option (GigasttStream F D R)
  | stream, [] => ([], stream)
  | stream, (guarded, bytes) :: pieces =>
    let ((_, stream), taken) :=
      (stream_process_chunk (logged sample_rate guarded) (some engine) stream (some bytes)).run []
    let (samples, last) := feed engine sample_rate stream pieces
    (taken ++ samples, last)

/-- A call that puts its samples down is the call. -/
theorem run_logged (engine : GigasttEngine F D R) (stream : GigasttStream F D R)
    (sample_rate : UInt32) (guarded : Guarded F D) (bytes : List UInt8) :
    (stream_process_chunk (logged sample_rate guarded) (some engine) (some stream)
        (some bytes)).run [] =
      (gigastt_stream_process_chunk (some engine) (some stream) (some bytes) sample_rate guarded,
        samples_of bytes) := rfl

/-- A call keeps its stream. -/
theorem stream_of_call (engine : GigasttEngine F D R) (stream : GigasttStream F D R)
    (sample_rate : UInt32) (guarded : Guarded F D) (bytes : List UInt8) :
    ∃ stream', (gigastt_stream_process_chunk (some engine) (some stream) (some bytes) sample_rate
      guarded).2 = some stream' := ⟨_, rfl⟩

theorem feed_spec (engine : GigasttEngine F D R) (sample_rate : UInt32)
    (stream : GigasttStream F D R) (pieces : List (Guarded F D × List UInt8)) :
    (feed engine sample_rate (some stream) pieces).1 =
        ((pieces.map Prod.snd).flatMap pairs).map from_le_bytes ∧
      (feed engine sample_rate (some stream) pieces).2 =
        pieces.foldl (fun stream (guarded, bytes) => (gigastt_stream_process_chunk (some engine)
          stream (some bytes) sample_rate guarded).2) (some stream) := by
  induction pieces generalizing stream with
  | nil => exact ⟨rfl, rfl⟩
  | cons piece pieces ih =>
    obtain ⟨guarded, bytes⟩ := piece
    obtain ⟨stream', hstream⟩ := stream_of_call engine stream sample_rate guarded bytes
    obtain ⟨hsamples, hlast⟩ := ih stream'
    unfold feed
    rw [run_logged, List.foldl_cons, List.map_cons, List.flatMap_cons, List.map_append]
    dsimp only
    rw [hstream, hsamples, hlast]
    exact ⟨rfl, rfl⟩

/-- One piece of audio, and what the call and the frame that carry it meet. -/
structure Piece (F D : Type) where
  bytes : List UInt8
  call : Guarded F D
  frame : Blocking F

def Piece.to_call (piece : Piece F D) : Guarded F D × List UInt8 := (piece.call, piece.bytes)

def Piece.to_frame (piece : Piece F D) : Blocking F × List UInt8 := (piece.frame, piece.bytes)

/-- A session takes all complete pairs. The calls hand on the same samples exactly from
aligned pieces. -/
theorem feed_eq_receive_iff (engine : GigasttEngine F D R) (sample_rate : UInt32)
    (stream : GigasttStream F D R) (env : Env F D R) (triplet : Triplet F)
    (pieces : List (Piece F D)) :
    (receive env (WsLoop.new env triplet).vars (pieces.map Piece.to_frame)).1 =
        samples_of (pieces.flatMap Piece.bytes) ∧
      (feed engine sample_rate (some stream) (pieces.map Piece.to_call)).2 =
        pieces.foldl (fun stream piece => (gigastt_stream_process_chunk (some engine) stream
          (some piece.bytes) sample_rate piece.call).2) (some stream) ∧
      ((feed engine sample_rate (some stream) (pieces.map Piece.to_call)).1 =
          (receive env (WsLoop.new env triplet).vars (pieces.map Piece.to_frame)).1 ↔
        Aligned (pieces.map Piece.bytes)) := by
  have hall : (receive env (WsLoop.new env triplet).vars (pieces.map Piece.to_frame)).1 =
      samples_of (pieces.flatMap Piece.bytes) := by
    rw [(receive_framing env _ _).1, List.flatMap_map]
    rfl
  obtain ⟨hsamples, hlast⟩ := feed_spec engine sample_rate stream (pieces.map Piece.to_call)
  refine ⟨hall, hlast.trans List.foldl_map, ?_⟩
  have hbytes : (pieces.map Piece.to_call).map Prod.snd = pieces.map Piece.bytes :=
    List.map_map
  have hflatten : pieces.flatMap Piece.bytes = (pieces.map Piece.bytes).flatten :=
    List.flatMap_def
  rw [hall, hsamples, hbytes, hflatten, samples_of,
    List.map_inj_right fun _ _ h => from_le_bytes_inj h, flatMap_pairs_eq_iff]

/-! ## An odd piece -/

def yes_pieces (pieces : List (List UInt8)) : List (Piece Int Unit) :=
  pieces.map fun bytes =>
    { bytes
      call := { panics := none, sessions := (yes_call 320).triplet, ts := 0 }
      frame := (yes_turn .closed).blocking }

def yes_handle : GigasttEngine Int Unit Unit := ⟨yes_engine, yes_env.rubato⟩

def yes_stream : GigasttStream Int Unit Unit := ⟨yes_env.create_state false, (yes_call 320).triplet⟩

/-- Four bytes in two odd pieces are two samples of a session and one of a stream. -/
theorem odd_piece_shifts :
    (feed yes_handle 16000 (some yes_stream) ((yes_pieces [[1], [2, 3, 4]]).map Piece.to_call)).1 ≠
      (receive yes_env (WsLoop.new yes_env yes_triplet).vars
        ((yes_pieces [[1], [2, 3, 4]]).map Piece.to_frame)).1 := by
  rw [(feed_spec ..).1, (receive_framing yes_env _ _).1]
  decide

end Calls

end Gigastt.Ffi
