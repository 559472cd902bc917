import Gigastt.Server.SseTrans
import Gigastt.Streaming.Delivery

/-!
# What the closure of a streamed request sends

`Transcript` says what calls on the engine give, with no channel and no client in it.
`Told` ties it to what the closure has sent at each of its points.
-/

namespace Gigastt.Server

open Streaming Words

variable {T F D : Type}

/-! ## The chunks -/

theorem chunks_upto_flatten {chunk_size : Nat} (hsize : 0 < chunk_size) {n : Nat} {samples : List F}
    (hn : samples.length ≤ n) : (chunks_upto chunk_size n samples).flatten = samples := by
  induction n generalizing samples with
  | zero =>
    obtain rfl := List.length_eq_zero_iff.mp (Nat.le_zero.mp hn)
    rfl
  | succ n ih =>
    unfold chunks_upto
    split_ifs with hempty
    · rw [List.isEmpty_iff.mp hempty, List.flatten_nil]
    · have hpos : 0 < samples.length := List.length_pos_iff.mpr (by simpa using hempty)
      have hrest : (samples.drop chunk_size).length ≤ n := by
        rw [List.length_drop]
        omega
      rw [List.flatten_cons, ih hrest, List.take_append_drop]

theorem chunks_flatten {chunk_size : Nat} (hsize : 0 < chunk_size) (samples : List F) :
    (chunks chunk_size samples).flatten = samples :=
  chunks_upto_flatten hsize le_rfl

theorem chunks_upto_nil (chunk_size n : Nat) : chunks_upto chunk_size n ([] : List F) = [] := by
  cases n <;> rfl

/-- A chunk of its own. -/
theorem chunks_short {chunk_size : Nat} {samples : List F} (hne : samples ≠ [])
    (hsize : samples.length ≤ chunk_size) : chunks chunk_size samples = [samples] := by
  obtain ⟨n, hn⟩ := Nat.exists_eq_succ_of_ne_zero (mt List.length_eq_zero_iff.mp hne)
  unfold chunks
  rw [hn, chunks_upto, if_neg (mt List.isEmpty_iff.mp hne), List.take_of_length_le hsize,
    List.drop_of_length_le hsize, chunks_upto_nil]

theorem chunks_upto_replicate {chunk_size n k : Nat} (hsize : 0 < chunk_size) (hn : k ≤ n) (x : F) :
    chunks_upto chunk_size n (List.replicate (k * chunk_size) x) =
      List.replicate k (List.replicate chunk_size x) := by
  induction k generalizing n with
  | zero =>
    rw [Nat.zero_mul]
    exact chunks_upto_nil chunk_size n
  | succ k ih =>
    obtain ⟨n, rfl⟩ := Nat.exists_eq_succ_of_ne_zero (by omega : n ≠ 0)
    have hne : ¬ (List.replicate ((k + 1) * chunk_size) x).isEmpty = true := by
      simp
      omega
    rw [chunks_upto, if_neg hne, List.take_replicate, List.drop_replicate, List.replicate_succ,
      Nat.succ_mul, Nat.add_sub_cancel, ih (by omega), Nat.min_eq_left (Nat.le_add_left _ _)]

theorem chunks_replicate {chunk_size : Nat} (hsize : 0 < chunk_size) (k : Nat) (x : F) :
    chunks chunk_size (List.replicate (k * chunk_size) x) =
      List.replicate k (List.replicate chunk_size x) := by
  unfold chunks
  rw [List.length_replicate]
  exact chunks_upto_replicate hsize (Nat.le_mul_of_pos_right k hsize) x

/-! ## The calls of a run -/

inductive SseCall (F : Type) where
  | chunk (call : ChunkCall F)
  | panicked (chunk : List F)
  | flush (ts : ℚ)

/-- The call that a step makes, if it makes one. -/
def SseRequest.calls (s : SseRequest T F D) : SseAction T F → List (SseCall F)
  | .next sessions ts =>
    match s.task with
    | .running _ (.chunk (chunk :: _) _) =>
      if s.cancelled then [] else [.chunk { samples := chunk, triplet := sessions, ts }]
    | .running _ (.chunk [] _) => if s.cancelled then [] else [.flush ts]
    | _ => []
  | .panic =>
    match s.task with
    | .running _ (.chunk (chunk :: _) _) => [.panicked chunk]
    | _ => []
  | _ => []

def messages (logs : List (ChunkLog F)) : List (Message F) :=
  (logs.flatMap ChunkLog.segments).map .ok

/-- What a flush at the time `ts` gives. -/
def last_message (st : StreamingState F D) (ts : ℚ) : List (Message F) :=
  (flush_state st ts).1.toList.map .ok

section Engine

variable [F32 F]

/-- The chunks went through the engine without an error, and the chunks `left` did not yet. -/
structure Heard (engine : Engine F D) (cs : List (List F)) (made : List (ChunkCall F))
    (left : List (List F)) (logs : List (ChunkLog F)) (st : StreamingState F D) : Prop where
  ran : engine.run (engine.create_state none) made = .ok (logs, st)
  of : made.map ChunkCall.samples ++ left = cs

/-- The ways a closure can end by itself, with the calls made and what they give. -/
inductive Ending (engine : Engine F D) (cs : List (List F)) :
    List (SseCall F) → List (Message F) → Prop where
  | flushed {made logs st} (ts) (heard : Heard engine cs made [] logs st) :
      Ending engine cs (made.map .chunk ++ [.flush ts])
        (messages logs ++ last_message st ts)
  | failed {made logs st left source st'} (call : ChunkCall F)
      (heard : Heard engine cs made (call.samples :: left) logs st)
      (fails : engine.process_chunk call.samples st call.triplet call.ts =
        (.error (.Inference source), st')) :
      Ending engine cs (made.map .chunk ++ [.chunk call])
        (messages logs ++ [.error inference_failed])
  | panicked {made logs st left about st'} (call : ChunkCall F)
      (heard : Heard engine cs made (call.samples :: left) logs st)
      (panics : engine.process_chunk call.samples st call.triplet call.ts =
        (.error (.panic about), st')) :
      Ending engine cs (made.map .chunk ++ [.chunk call]) (messages logs)
  | panicked_outside {made logs st left} (chunk)
      (heard : Heard engine cs made (chunk :: left) logs st) :
      Ending engine cs (made.map .chunk ++ [.panicked chunk]) (messages logs)

/-- What calls of a closure give, whether it goes on or has ended. -/
inductive Transcript (engine : Engine F D) (cs : List (List F)) :
    List (SseCall F) → List (Message F) → Prop where
  | so_far {made logs st left} (heard : Heard engine cs made left logs st) :
      Transcript engine cs (made.map .chunk) (messages logs)
  | ended {calls told} (h : Ending engine cs calls told) : Transcript engine cs calls told

/-- What the closure has sent at its point, and why it stopped if it did. -/
inductive Told (engine : Engine F D) (cs : List (List F)) (cancelled gone : Prop) :
    List (SseCall F) → Point F D → List (Message F) → Prop where
  | chunk {made left logs st} (heard : Heard engine cs made left logs st) :
      Told engine cs cancelled gone (made.map .chunk) (.chunk left st) (messages logs)
  | sending {made left logs st segs sent} (heard : Heard engine cs made left logs st)
      (pending : sent ++ segs.map .ok = messages logs) :
      Told engine cs cancelled gone (made.map .chunk) (.sending segs left st) sent
  | failing {calls message sent} (h : Ending engine cs calls (sent ++ [.error message])) :
      Told engine cs cancelled gone calls (.failing message) sent
  | flushing {calls seg sent} (h : Ending engine cs calls (sent ++ [.ok seg])) :
      Told engine cs cancelled gone calls (.flushing seg) sent
  | stopped {calls point told sent} (hpoint : point = .caught ∨ point = .given_back)
      (h : Transcript engine cs calls told) (prefixed : sent <+: told)
      (whole : sent = told ∨ gone) (why : Ending engine cs calls told ∨ cancelled ∨ gone) :
      Told engine cs cancelled gone calls point sent

variable {engine : Engine F D} {cs : List (List F)} {cancelled cancelled' gone gone' : Prop}
  {calls : List (SseCall F)} {point : Point F D} {sent : List (Message F)}

theorem Told.imp (h : Told engine cs cancelled gone calls point sent)
    (hcancelled : cancelled → cancelled') (hgone : gone → gone') :
    Told engine cs cancelled' gone' calls point sent := by
  cases h with
  | chunk heard => exact .chunk heard
  | sending heard pending => exact .sending heard pending
  | failing h => exact .failing h
  | flushing h => exact .flushing h
  | stopped hpoint h prefixed whole why =>
    exact .stopped hpoint h prefixed (whole.imp_right hgone)
      (why.imp_right (Or.imp hcancelled hgone))

/-- At every point the calls give what was sent, and maybe more. -/
theorem Told.transcript (h : Told engine cs cancelled gone calls point sent) :
    ∃ told, Transcript engine cs calls told ∧ sent <+: told := by
  cases h with
  | chunk heard => exact ⟨_, .so_far heard, List.prefix_rfl⟩
  | sending heard pending => exact ⟨_, .so_far heard, ⟨_, pending⟩⟩
  | failing h => exact ⟨_, .ended h, List.prefix_append _ _⟩
  | flushing h => exact ⟨_, .ended h, List.prefix_append _ _⟩
  | stopped _ h prefixed _ _ => exact ⟨_, h, prefixed⟩

theorem Ending.stopped (h : Ending engine cs calls sent) (hpoint : point = .caught ∨ point = .given_back) :
    Told engine cs cancelled gone calls point sent :=
  .stopped hpoint (.ended h) List.prefix_rfl (.inl rfl) (.inl h)

/-! ## The engine takes one more chunk -/

theorem run_snoc {st st₁ st₂ : StreamingState F D} {made : List (ChunkCall F)}
    {call : ChunkCall F} {logs : List (ChunkLog F)} {segments : List (TranscriptSegment F)}
    (hrun : engine.run st made = .ok (logs, st₁))
    (hcall : engine.process_chunk call.samples st₁ call.triplet call.ts = (.ok segments, st₂)) :
    engine.run st (made ++ [call]) =
      .ok (logs ++ [{ heard := engine.heard st₁ call, segments }], st₂) := by
  induction made generalizing st logs with
  | nil =>
    cases hrun
    simp only [List.nil_append, Engine.run, hcall]
    rfl
  | cons first made ih =>
    simp only [List.cons_append, Engine.run] at hrun ⊢
    split at hrun
    · simp at hrun
    · rename_i hfirst
      obtain ⟨⟨rest, last⟩, hrest, hrun⟩ := bind_eq_ok.mp hrun
      cases hrun
      simp only [ih hrest]
      rfl

theorem Heard.snoc {made : List (ChunkCall F)} {left : List (List F)} {logs : List (ChunkLog F)}
    {st st' : StreamingState F D} {segments : List (TranscriptSegment F)} (call : ChunkCall F)
    (h : Heard engine cs made (call.samples :: left) logs st)
    (hcall : engine.process_chunk call.samples st call.triplet call.ts = (.ok segments, st')) :
    Heard engine cs (made ++ [call]) left
      (logs ++ [{ heard := engine.heard st call, segments }]) st' := by
  refine ⟨run_snoc h.ran hcall, ?_⟩
  rw [List.map_append, List.append_assoc]
  exact h.of

omit [F32 F] in
theorem messages_snoc (logs : List (ChunkLog F)) (log : ChunkLog F) :
    messages (logs ++ [log]) = messages logs ++ log.segments.map .ok := by
  simp [messages]

/-! ## The points of the closure -/

section Points

variable {left : List (List F)} {chunk : List F} {st st' : StreamingState F D}

theorem Told.start (engine : Engine F D) (cs : List (List F)) (cancelled gone : Prop) :
    Told engine cs cancelled gone [] (.chunk cs (engine.create_state none)) [] :=
  have heard : Heard engine cs [] cs [] (engine.create_state none) := ⟨rfl, rfl⟩
  .chunk heard

theorem Told.see_shutdown (h : Told engine cs cancelled gone calls (.chunk left st) sent)
    (hcancelled : cancelled) : Told engine cs cancelled gone calls .caught sent := by
  cases h with
  | chunk heard =>
    exact .stopped (.inl rfl) (.so_far heard) List.prefix_rfl (.inl rfl) (.inr (.inl hcancelled))
  | stopped hpoint => simp at hpoint

theorem Told.call {segs : List (TranscriptSegment F)} (call : ChunkCall F)
    (h : Told engine cs cancelled gone calls (.chunk (call.samples :: left) st) sent)
    (hcall : engine.process_chunk call.samples st call.triplet call.ts = (.ok segs, st')) :
    Told engine cs cancelled gone (calls ++ [.chunk call]) (.sending segs left st') sent := by
  cases h with
  | @chunk made _ logs _ heard =>
    have hmade : made.map SseCall.chunk ++ [.chunk call] = (made ++ [call]).map .chunk := by simp
    rw [hmade]
    refine .sending (heard.snoc call hcall) ?_
    rw [messages_snoc]
  | stopped hpoint => simp at hpoint

theorem Told.call_fails {source : List String} (call : ChunkCall F)
    (h : Told engine cs cancelled gone calls (.chunk (call.samples :: left) st) sent)
    (hcall : engine.process_chunk call.samples st call.triplet call.ts =
      (.error (.Inference source), st')) :
    Told engine cs cancelled gone (calls ++ [.chunk call]) (.failing inference_failed) sent := by
  cases h with
  | chunk heard => exact .failing (.failed call heard hcall)
  | stopped hpoint => simp at hpoint

theorem Told.call_panics {about : Panic} (call : ChunkCall F)
    (h : Told engine cs cancelled gone calls (.chunk (call.samples :: left) st) sent)
    (hcall : engine.process_chunk call.samples st call.triplet call.ts =
      (.error (.panic about), st')) :
    Told engine cs cancelled gone (calls ++ [.chunk call]) .caught sent := by
  cases h with
  | chunk heard => exact (Ending.panicked call heard hcall).stopped (.inl rfl)
  | stopped hpoint => simp at hpoint

theorem Told.panic (h : Told engine cs cancelled gone calls (.chunk (chunk :: left) st) sent) :
    Told engine cs cancelled gone (calls ++ [.panicked chunk]) .caught sent := by
  cases h with
  | chunk heard => exact (Ending.panicked_outside chunk heard).stopped (.inl rfl)
  | stopped hpoint => simp at hpoint

theorem Told.flush {seg : TranscriptSegment F} {ts : ℚ}
    (h : Told engine cs cancelled gone calls (.chunk [] st) sent)
    (hflush : (flush_state st ts).1 = some seg) :
    Told engine cs cancelled gone (calls ++ [.flush ts]) (.flushing seg) sent := by
  cases h with
  | chunk heard =>
    have h := Ending.flushed ts heard
    rw [last_message, hflush] at h
    exact .flushing h
  | stopped hpoint => simp at hpoint

theorem Told.flush_nothing {ts : ℚ} (h : Told engine cs cancelled gone calls (.chunk [] st) sent)
    (hflush : (flush_state st ts).1 = none) :
    Told engine cs cancelled gone (calls ++ [.flush ts]) .caught sent := by
  cases h with
  | chunk heard =>
    have h := Ending.flushed ts heard
    rw [last_message, hflush, Option.toList_none, List.map_nil, List.append_nil] at h
    exact h.stopped (.inl rfl)
  | stopped hpoint => simp at hpoint

theorem Told.loop (h : Told engine cs cancelled gone calls (.sending [] left st) sent) :
    Told engine cs cancelled gone calls (.chunk left st) sent := by
  cases h with
  | sending heard pending =>
    rw [List.map_nil, List.append_nil] at pending
    rw [pending]
    exact .chunk heard
  | stopped hpoint => simp at hpoint

theorem Told.send {message : Message F} {next : Point F D}
    (h : Told engine cs cancelled gone calls point sent) (hp : point.Sends message next) :
    Told engine cs cancelled gone calls next (sent ++ [message]) := by
  cases hp with
  | segment seg segs left st =>
    cases h with
    | sending heard pending => exact .sending heard (by simpa using pending)
    | stopped hpoint => simp at hpoint
  | failure message =>
    cases h with
    | failing h => exact h.stopped (.inl rfl)
    | stopped hpoint => simp at hpoint
  | flush seg =>
    cases h with
    | flushing h => exact h.stopped (.inl rfl)
    | stopped hpoint => simp at hpoint

/-- Without a receiver the closure stops where it is. -/
theorem Told.refused (h : Told engine cs cancelled gone calls point sent) (hgone : gone) :
    Told engine cs cancelled gone calls .caught sent := by
  obtain ⟨told, htold, prefixed⟩ := h.transcript
  exact .stopped (.inl rfl) htold prefixed (.inr hgone) (.inr (.inr hgone))

theorem Told.given_back (h : Told engine cs cancelled gone calls .caught sent) :
    Told engine cs cancelled gone calls .given_back sent := by
  cases h with
  | stopped _ h prefixed whole why => exact .stopped (.inr rfl) h prefixed whole why

end Points

end Engine

end Gigastt.Server
