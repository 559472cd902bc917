import Gigastt.Server.SseContent

/-!
# The slot of a streamed request, and its end

The triplet is given back by the closure itself, so it does not matter to the pool what
becomes of the client. What does matter is that the closure can be kept waiting: it ends
once the connection reads or goes away, and not before.
-/

namespace Gigastt.Server

open Streaming Words

variable {T F D : Type}

/-! ## The triplet -/

/-- The triplet that a step takes out of the pool. -/
def SseAction.obtained : SseAction T F → List T
  | .checked_out (.guard guard) => [guard.item]
  | _ => []

/-- The closure has given its triplet back. -/
def Point.is_given_back : Point F D → Bool
  | .given_back => true
  | _ => false

def SseRequest.Holds (obtained : List T) (s : SseRequest T F D) : Prop :=
  match s.task with
  | .none => obtained = [] ∧ s.log = []
  | .queued _ triplet => obtained = [triplet] ∧ s.log = []
  | .running triplet point => obtained = [triplet] ∧
      s.log = if point.is_given_back then [.checked_in triplet] else []
  | .exited => ∃ triplet, obtained = [triplet] ∧ s.log = [.checked_in triplet]
  | .lost => (∃ triplet, obtained = [triplet]) ∧ s.log = []

variable [F32 F] {limits : RuntimeLimits} {decode : List UInt8 → Except Fault (List F)}
  {engine : Engine F D} {body : List UInt8} {s s' : SseRequest T F D} {cancelled : Bool}
  {as : List (SseAction T F)}

omit [F32 F] in
theorem SseRequest.Holds.running {past : List T} {triplet : T} {point : Point F D}
    (hs : s.Holds past) (ht : s.task = .running triplet point) : past = [triplet] ∧
      s.log = if point.is_given_back then [.checked_in triplet] else [] := by
  simp only [SseRequest.Holds, ht] at hs
  exact hs

omit [F32 F] in
theorem SseRequest.Holds.idle {past : List T} (hs : s.Holds past) (ht : s.task = .none) :
    past = [] ∧ s.log = [] := by
  simp only [SseRequest.Holds, ht] at hs
  exact hs

theorem holds_step {past : List T} {a : SseAction T F}
    (h : s.step limits decode engine a = some s') (hfit : s.Fits) (hs : s.Holds past) :
    s'.Holds (past ++ a.obtained) := by
  cases sse_trans h with
  | decoded hh =>
    have ht := hfit.idle (by simp [hh])
    simpa [SseRequest.Holds, ht, SseAction.obtained] using hs.idle ht
  | @refuse samples outcome response hh ho =>
    have ht := hfit.idle (by simp [hh])
    have hnone : SseAction.obtained (.checked_out outcome : SseAction T F) = [] := by
      cases outcome with
      | guard guard => exact absurd rfl (ho guard)
      | pool_closed | timeout => rfl
    rw [hnone, List.append_nil]
    simpa [SseRequest.Holds, ht] using hs.idle ht
  | reject hh ha =>
    have ht := hfit.idle (by simp [hh])
    have hnone : a.obtained = [] := by rcases ha with rfl | rfl <;> rfl
    rw [hnone, List.append_nil]
    simpa [SseRequest.Holds, ht] using hs.idle ht
  | leave_handler hh =>
    have hh : s.handler ≠ .returned (.ok ()) := by
      rcases hh with ⟨body, hh⟩ | ⟨samples, hh⟩ <;> simp [hh]
    have ht := hfit.idle hh
    simpa [SseRequest.Holds, ht, SseAction.obtained] using hs.idle ht
  | grant hh =>
    obtain ⟨rfl, hlog⟩ := hs.idle (hfit.idle (by simp [hh]))
    exact ⟨rfl, hlog⟩
  | start ht =>
    simp only [SseRequest.Holds, ht] at hs
    simpa [SseRequest.Holds, SseAction.obtained, Point.is_given_back] using hs
  | see_shutdown ht | call ht | call_fails ht | call_panics ht | panic ht | flush ht
  | flush_nothing ht | loop ht =>
    obtain ⟨hpast, hlog⟩ := hs.running ht
    exact ⟨by simpa [SseAction.obtained] using hpast, hlog⟩
  | send ht hp | send_refused ht hp =>
    obtain ⟨hpast, hlog⟩ := hs.running ht
    refine ⟨by simpa [SseAction.obtained] using hpast, ?_⟩
    cases hp <;> exact hlog
  | give_back ht =>
    obtain ⟨hpast, hlog⟩ := hs.running ht
    refine ⟨by simpa [SseAction.obtained] using hpast, ?_⟩
    rw [hlog]
    rfl
  | @exit sessions ts triplet ht =>
    obtain ⟨hpast, hlog⟩ := hs.running ht
    exact ⟨triplet, by simpa [SseAction.obtained] using hpast, hlog⟩
  | @lose samples triplet ht =>
    simp only [SseRequest.Holds, ht] at hs
    exact ⟨⟨triplet, by simpa [SseAction.obtained] using hs.1⟩, hs.2⟩
  | read | read_end | leave_stream | shutdown =>
    simpa [SseRequest.Holds, SseAction.obtained] using hs

/-- The triplets that a run takes out of the pool. -/
abbrev SseRequest.obtained_of (limits : RuntimeLimits)
    (decode : List UInt8 → Except Fault (List F)) (engine : Engine F D) (body : List UInt8)
    (cancelled : Bool) (as : List (SseAction T F)) : List T :=
  Steps.trace (SseRequest.step limits decode engine) (fun _ => SseAction.obtained)
    (transcribe_stream limits body cancelled) as

theorem holds_run (hrun : SseRequest.run limits decode engine body cancelled as = some s) :
    s.Holds (SseRequest.obtained_of limits decode engine body cancelled as) := by
  have h := Steps.inv_of_trace (P := fun _ _ => True)
    (fun past s => s.Fits ∧ s.Holds past)
    (fun past s a s' _ hstep hs => ⟨fits_step hstep hs.1, holds_step hstep hs.1 hs.2⟩) hrun
    (Steps.eachStep_of_forall (fun _ _ => trivial) _ _)
    (⟨fun htask => absurd rfl htask, rfl, rfl⟩ :
      (transcribe_stream limits body cancelled : SseRequest T F D).Fits ∧ _)
  exact h.2

theorem SseRequest.Says.decoded {past : List (SseCall F)} (hs : s.Says decode engine body past)
    (ht : s.task ≠ .none) : ∃ samples, decode body = .ok samples := by
  unfold SseRequest.Says at hs
  split at hs
  case h_1 hnone => exact absurd hnone ht
  case h_2 => exact ⟨_, hs.2.1⟩
  case h_3 | h_4 =>
    obtain ⟨samples, -, hd, -⟩ := hs
    exact ⟨samples, hd⟩
  case h_5 => exact hs.2.1

/-- A stream that was read to its end has a task that is gone. -/
theorem SseRequest.Says.gone_of_ended {past : List (SseCall F)}
    (hs : s.Says decode engine body past) (hended : s.ended = true) :
    s.task = .exited ∨ s.task = .lost := by
  unfold SseRequest.Says at hs
  split at hs
  case h_1 =>
    rw [hs.2.2.2.2] at hended
    cases hended
  case h_2 =>
    rw [hs.2.2.not_ended] at hended
    cases hended
  case h_3 =>
    obtain ⟨samples, sent, -, hcarried, -⟩ := hs
    rw [hcarried.not_ended] at hended
    cases hended
  case h_4 ht => exact .inl ht
  case h_5 ht => exact .inr ht

omit [F32 F] in
theorem SseRequest.Holds.gives_back {past : List T} (hs : s.Holds past) :
    (s.log = [] ∨ s.log = past.map .checked_in) ∧ past.length ≤ 1 ∧
      (s.task = .exited → past.length = 1 ∧ s.log = past.map .checked_in) := by
  unfold SseRequest.Holds at hs
  split at hs
  case h_1 ht =>
    obtain ⟨rfl, hlog⟩ := hs
    simp [hlog, ht]
  case h_2 ht =>
    obtain ⟨rfl, hlog⟩ := hs
    simp [hlog, ht]
  case h_3 ht =>
    obtain ⟨rfl, hlog⟩ := hs
    split_ifs at hlog
    · simp [hlog, ht]
    · simp [hlog, ht]
  case h_4 ht =>
    obtain ⟨triplet, rfl, hlog⟩ := hs
    simp [hlog]
  case h_5 ht =>
    obtain ⟨⟨triplet, rfl⟩, hlog⟩ := hs
    simp [hlog, ht]

/-- An upload that does not decode takes nothing out of the pool. What a request took it gives back
at most once, and has given back when its stream ends, unless the task was lost in the queue. -/
theorem stream_keeps_slot (limits : RuntimeLimits) (decode : List UInt8 → Except Fault (List F))
    (engine : Engine F D) (body : List UInt8) (cancelled : Bool) (as : List (SseAction T F))
    (s : SseRequest T F D)
    (hrun : SseRequest.run limits decode engine body cancelled as = some s) :
    ∃ triplets, SseRequest.obtained_of limits decode engine body cancelled as = triplets ∧
      (triplets ≠ [] → ∃ samples, decode body = .ok samples) ∧ triplets.length ≤ 1 ∧
      (s.log = [] ∨ s.log = triplets.map .checked_in) ∧
      (s.ended = true → s.task ≠ .lost →
        triplets.length = 1 ∧ s.log = triplets.map .checked_in) := by
  obtain ⟨-, hs⟩ := says_run hrun
  have hholds := holds_run hrun
  obtain ⟨hlog, hlength, hexited⟩ := hholds.gives_back
  refine ⟨_, rfl, ?_, hlength, hlog, ?_⟩
  · intro hobtained
    apply hs.decoded
    intro ht
    exact hobtained (hholds.idle ht).1
  · intro hended hlost
    exact hexited ((hs.gone_of_ended hended).resolve_right hlost)

theorem short_upload_keeps_slot : ∃ s triplets,
    SseRequest.run {} short_upload yes_engine [1] false (two_events (says_triplet 1)) = some s ∧
      s.ended = true ∧
      SseRequest.obtained_of {} short_upload yes_engine [1] false (two_events (says_triplet 1)) =
        triplets ∧
      triplets.length = 1 ∧ s.log = triplets.map .checked_in := by
  obtain ⟨text, words, hrun, -⟩ := short_upload_ends
  obtain ⟨triplets, htriplets, -, -, -, hend⟩ :=
    stream_keeps_slot {} short_upload yes_engine [1] false _ _ hrun
  exact ⟨_, triplets, hrun, rfl, htriplets, hend rfl nofun⟩

/-! ## How far a request is from its end -/

def Point.left : Point F D → Nat
  | .chunk chunks _ => 5 + 6 * chunks.length
  | .sending segs chunks _ => 6 + 6 * chunks.length + 2 * segs.length
  | .failing _ | .flushing _ => 4
  | .caught => 2
  | .given_back => 1

def SseTask.left : SseTask T F D → Nat
  | .queued samples _ => 6 + 6 * (chunks SSE_CHUNK_SIZE samples).length
  | .running _ point => point.left
  | _ => 0

def SseHandler.left : SseHandler F → Nat
  | .decoding _ => 2
  | .checking_out _ => 1
  | _ => 0

def channel_left : Option (Channel (Message F)) → Nat
  | some c => c.queue.length + c.receiver.toNat
  | none => 0

/-- The handler first, then the closure, what is queued, and what can happen once. -/
def SseRequest.left (s : SseRequest T F D) : Nat × Nat :=
  (s.handler.left,
    s.task.left + channel_left s.channel + (!s.ended).toNat + (!s.cancelled).toNat)

omit [F32 F] in
theorem deliver_at_most_one (st : StreamingState F D) (words : List (WordInfo F))
    (endpoint : Bool) (ts : ℚ) : (deliver st words endpoint ts).1.length ≤ 1 := by
  unfold deliver
  split_ifs
  · exact Nat.zero_le 1
  · exact le_rfl
  · exact le_rfl

/-- One call gives one segment at most. -/
theorem process_chunk_at_most_one {samples : List F} {st st' : StreamingState F D}
    {sessions : SessionTriplet F} {ts : ℚ} {segs : List (TranscriptSegment F)}
    (h : engine.process_chunk samples st sessions ts = (.ok segs, st')) : segs.length ≤ 1 := by
  let call : ChunkCall F := { samples, triplet := sessions, ts }
  have hstep : Step engine st st' call { heard := engine.heard st call, segments := segs } :=
    process_chunk_spec h
  unfold Step at hstep
  split at hstep
  case h_1 heard _ =>
    obtain ⟨st₁, new_words, -, -, hdeliver⟩ := hstep.delivered
    have hlength := deliver_at_most_one st₁ new_words heard.endpoint_detected ts
    rw [hdeliver] at hlength
    exact hlength
  case h_2 =>
    obtain ⟨hsegs, -⟩ := hstep
    rw [show segs = [] from hsegs]
    exact Nat.zero_le 1

omit [F32 F] in
theorem sends_left {point next : Point F D} {message : Message F} (hp : point.Sends message next) :
    next.left + 2 ≤ point.left := by
  cases hp with
  | segment seg segs chunks st =>
    simp only [Point.left, List.length_cons]
    omega
  | failure | flush => simp [Point.left]

omit [F32 F] in
theorem channel_left_map (channel : Option (Channel (Message F))) :
    channel_left (channel.map Channel.drop_sender) = channel_left channel := by
  cases channel <;> rfl

/-- Every step brings the request nearer to its end. -/
theorem left_step {a : SseAction T F} (h : s.step limits decode engine a = some s') :
    Prod.Lex (· < ·) (· < ·) s'.left s.left := by
  cases sse_trans h with
  | decoded hh | reject hh | grant hh | refuse hh =>
    refine Prod.Lex.left _ _ ?_
    simp [SseHandler.left, hh]
  | leave_handler hh =>
    refine Prod.Lex.left _ _ ?_
    rcases hh with ⟨body, hh⟩ | ⟨samples, hh⟩
    · simp [SseHandler.left, hh]
    · simp [SseHandler.left, hh]
  | start ht | see_shutdown ht | call_fails ht | call_panics ht | panic ht | flush ht
  | flush_nothing ht | loop ht | give_back ht =>
    refine Prod.Lex.right _ ?_
    simp only [ht, SseTask.left, Point.left, List.length_cons, List.length_nil]
    omega
  | call ht hc hp =>
    refine Prod.Lex.right _ ?_
    have hsegs := process_chunk_at_most_one hp
    simp only [ht, SseTask.left, Point.left, List.length_cons]
    omega
  | send ht hp hc hs =>
    refine Prod.Lex.right _ ?_
    obtain ⟨hreceiver, -, hqueue, -, -, hreceiver'⟩ := Channel.send_sent hs
    have hleft := sends_left hp
    simp only [ht, hc, SseTask.left, channel_left, hqueue, hreceiver, hreceiver', List.length_append,
      List.length_singleton]
    omega
  | send_refused ht hp =>
    refine Prod.Lex.right _ ?_
    have hleft := sends_left hp
    simp only [ht, SseTask.left]
    cases hp with
    | segment | failure | flush =>
      simp only [Point.left] at hleft ⊢
      omega
  | exit ht | lose ht =>
    refine Prod.Lex.right _ ?_
    simp only [ht, SseTask.left, channel_left_map, Point.left]
    omega
  | read hc he ha hr =>
    refine Prod.Lex.right _ ?_
    obtain ⟨hqueue, -, -, hreceiver⟩ := Channel.recv_received hr
    simp only [hc, channel_left, hqueue, hreceiver, List.length_cons]
    omega
  | read_end hc he =>
    refine Prod.Lex.right _ ?_
    simp only [he, Bool.not_true, Bool.not_false, Bool.toNat_true, Bool.toNat_false]
    omega
  | leave_stream hh hc ha =>
    refine Prod.Lex.right _ ?_
    simp only [hc, channel_left, ha, Channel.drop_receiver_queue, Channel.drop_receiver_receiver,
      List.length_nil, Bool.toNat_true, Bool.toNat_false]
    omega
  | shutdown hc =>
    refine Prod.Lex.right _ ?_
    simp only [hc, Bool.not_true, Bool.not_false, Bool.toNat_true, Bool.toNat_false]
    omega

/-! ## No request is stuck -/

/-- Nothing of the request is left in the server. -/
def SseRequest.Over (s : SseRequest T F D) : Prop :=
  s.handler.left = 0 ∧ s.task.left = 0

/-- The channel has room for a message, so one that is full can be read. -/
def SseRequest.Roomy (s : SseRequest T F D) : Prop :=
  ∀ c, s.channel = some c → c.capacity = SSE_CHANNEL_CAPACITY

theorem roomy_step {a : SseAction T F} (h : s.step limits decode engine a = some s')
    (hs : s.Roomy) : s'.Roomy := by
  cases sse_trans h with
  | decoded | reject | refuse | start | see_shutdown | call | call_fails | call_panics | panic
  | flush | flush_nothing | loop | send_refused | give_back | read_end | leave_handler
  | shutdown => exact hs
  | grant =>
    rintro c ⟨⟩
    rfl
  | send ht hp hc hsend =>
    rintro c ⟨⟩
    exact (Channel.send_sent hsend).2.2.2.1.trans (hs _ hc)
  | exit | lose =>
    intro c hc
    obtain ⟨c', hc', rfl⟩ := Option.map_eq_some_iff.mp hc
    exact hs c' hc'
  | read hc he ha hr =>
    rintro c ⟨⟩
    exact (Channel.recv_received hr).2.1.trans (hs _ hc)
  | @leave_stream channel hh hc =>
    rintro c ⟨⟩
    exact hs channel hc

def no_sessions : SessionTriplet F where
  encoder _ _ := none
  decoder _ _ := none
  joiner _ _ := none

/-- A closure that waits to send can be served by the connection. -/
theorem send_can {triplet : T} {point next : Point F D} {message : Message F}
    (hcarried : ∃ sent, Carried s.channel s.events s.ended true sent) (hroomy : s.Roomy)
    (ht : s.task = .running triplet point) (hp : point.Sends message next) :
    ∃ a s', s.step limits decode engine a = some s' := by
  obtain ⟨sent, hcarried⟩ := hcarried
  have hended := hcarried.not_ended
  obtain ⟨c, received, hc, -⟩ := hcarried
  have hnext : s.step limits decode engine (.next no_sessions 0) =
      s.blocking_send triplet message next := by
    simp only [SseRequest.step, ht]
    cases hp with
    | segment | failure | flush => rfl
  cases hsend : c.send message with
  | sent c' =>
    exact ⟨_, _, hnext.trans (by simp only [SseRequest.blocking_send, hc, hsend]; rfl)⟩
  | refused =>
    exact ⟨_, _, hnext.trans (by simp only [SseRequest.blocking_send, hc, hsend]; rfl)⟩
  | full =>
    obtain ⟨hreceiver, hfull⟩ := Channel.send_full_iff.mp hsend
    have hqueue : c.queue ≠ [] := by
      intro hempty
      rw [hempty, hroomy c hc] at hfull
      simp [SSE_CHANNEL_CAPACITY] at hfull
    rcases c.recv_cases with ⟨x, c', hrecv⟩ | hrecv | hrecv
    · refine ⟨.recv, { s with channel := some c', events := s.events ++ [sse_event x] }, ?_⟩
      simp only [SseRequest.step, hc, hended, hreceiver, hrecv, if_true]
    · exact absurd (Channel.recv_ended_iff.mp hrecv).1 hqueue
    · exact absurd (Channel.recv_empty_iff.mp hrecv).1 hqueue

/-- Between its sends the closure waits for nothing. -/
theorem next_can (triplet : T) (sessions : SessionTriplet F) (ts : ℚ) (point : Point F D) :
    (∃ message next, point.Sends message next) ∨
      ∃ s', s.next engine triplet sessions ts point = some s' := by
  match point with
  | .chunk (chunk :: left) st =>
    right
    simp only [SseRequest.next]
    split
    · exact ⟨_, rfl⟩
    · split <;> exact ⟨_, rfl⟩
  | .chunk [] st =>
    right
    simp only [SseRequest.next]
    split
    · exact ⟨_, rfl⟩
    · split <;> exact ⟨_, rfl⟩
  | .sending [] left st => exact .inr ⟨_, rfl⟩
  | .sending (seg :: segs) left st => exact .inl ⟨_, _, .segment seg segs left st⟩
  | .failing message => exact .inl ⟨_, _, .failure message⟩
  | .flushing seg => exact .inl ⟨_, _, .flush seg⟩
  | .caught => exact .inr ⟨_, rfl⟩
  | .given_back => exact .inr ⟨_, rfl⟩

theorem request_can {past : List (SseCall F)} (hs : s.Says decode engine body past)
    (hroomy : s.Roomy) : s.Over ∨ ∃ a s', s.step limits decode engine a = some s' := by
  cases hh : s.handler with
  | decoding body' => exact .inr ⟨.decode_lost, _, by simp only [SseRequest.step, hh]; rfl⟩
  | checking_out samples =>
    exact .inr ⟨.checked_out .timeout, _, by simp only [SseRequest.step, hh]; rfl⟩
  | returned _ | dropped =>
    cases ht : s.task with
    | none | exited | lost => exact .inl ⟨by rw [hh]; rfl, by rw [ht]; rfl⟩
    | queued samples triplet => exact .inr ⟨.start, _, by simp only [SseRequest.step, ht]; rfl⟩
    | running triplet point =>
      right
      obtain ⟨samples, sent, -, hcarried, -⟩ := hs.running ht
      rcases next_can triplet no_sessions 0 point with ⟨message, next, hp⟩ | ⟨s', hnext⟩
      · exact send_can ⟨sent, hcarried⟩ hroomy ht hp
      · exact ⟨.next no_sessions 0, s', by simp only [SseRequest.step, ht]; exact hnext⟩

/-- From every state of every run the request comes to its end, whatever is scheduled: there is
always a step left until then, and each step counts. -/
theorem request_ends (limits : RuntimeLimits) (decode : List UInt8 → Except Fault (List F))
    (engine : Engine F D) (body : List UInt8) (cancelled : Bool) (as : List (SseAction T F))
    (s : SseRequest T F D)
    (hrun : SseRequest.run limits decode engine body cancelled as = some s) :
    Steps.Inevitable (SseRequest.step limits decode engine) (fun _ _ => True)
      SseRequest.Over s := by
  have hroomy : s.Roomy := Steps.inv_of_run SseRequest.Roomy (fun _ _ _ => roomy_step) hrun
    (by rintro c ⟨⟩)
  refine Steps.inevitable_of_measure (Prod.Lex (· < ·) (· < ·))
    (wellFounded_lt.prod_lex wellFounded_lt) SseRequest.left
    (fun s => s.Fits ∧ s.Roomy ∧ ∃ past, s.Says decode engine body past) ?_ ?_
    ⟨(says_run hrun).1, hroomy, _, (says_run hrun).2⟩
  · rintro t ⟨-, hroomy, past, hs⟩
    have hcan : t.Over ∨ ∃ a t', t.step limits decode engine a = some t' := request_can hs hroomy
    refine hcan.imp_right ?_
    rintro ⟨a, t', hstep⟩
    exact ⟨a, t', trivial, hstep⟩
  · rintro t a t' - hstep ⟨hfit, hroomy, past, hs⟩
    exact .inr ⟨⟨fits_step hstep hfit, roomy_step hstep hroomy, _, says_step hstep hfit hs⟩,
      left_step hstep⟩

/-- The connection goes away before the closure starts. -/
theorem early_leave_ends :
    ∃ s, SseRequest.run {} short_upload yes_engine [1] false
        [.decoded, .checked_out (.guard { item := 7 }), .leave] = some s ∧
      Steps.Inevitable (SseRequest.step {} short_upload yes_engine) (fun _ _ => True)
        SseRequest.Over s := by
  have hsome : (SseRequest.run {} short_upload yes_engine [1] false
      [.decoded, .checked_out (.guard { item := 7 }), .leave]).isSome := rfl
  obtain ⟨s, hrun⟩ := Option.isSome_iff_exists.mp hsome
  exact ⟨s, hrun, request_ends {} short_upload yes_engine [1] false _ s hrun⟩

/-! ## A connection that stays and does not read -/

/-- The closure waits at a channel that is full. -/
def SseRequest.Blocked (s : SseRequest T F D) : Prop :=
  ∃ triplet point message next channel, s.task = .running triplet point ∧
    point.Sends message next ∧ s.channel = some channel ∧ channel.send message = .full

theorem blocked_step {a : SseAction T F} (h : s.step limits decode engine a = some s')
    (ha : a ≠ .recv ∧ a ≠ .leave) (hfit : s.Fits) (hs : s.Blocked) :
    s'.task = s.task ∧ s'.channel = s.channel ∧ s'.log = s.log := by
  obtain ⟨triplet, point, message, next, channel, ht, hp, hc, hfull⟩ := hs
  have hh : s.handler = .returned (.ok ()) := hfit (by simp [ht])
  obtain ⟨hreceiver, hlength⟩ := Channel.send_full_iff.mp hfull
  cases sse_trans h with
  | decoded hh' | reject hh' | grant hh' | refuse hh' => simp [hh] at hh'
  | start ht' | lose ht' => simp [ht] at ht'
  | see_shutdown ht' | call ht' | call_fails ht' | call_panics ht' | panic ht' | flush ht'
  | flush_nothing ht' | loop ht' | give_back ht' | exit ht' =>
    rw [ht] at ht'
    cases ht'
    cases hp
  | send ht' hp' hc' hsend =>
    obtain ⟨-, hroom, -⟩ := Channel.send_sent hsend
    rw [hc] at hc'
    cases hc'
    rw [hlength] at hroom
    exact absurd hroom (lt_irrefl _)
  | send_refused ht' hp' hc' hrefused =>
    rw [hc] at hc'
    cases hc'
    rw [hreceiver] at hrefused
    cases hrefused
  | read | read_end => exact absurd rfl ha.1
  | leave_handler | leave_stream => exact absurd rfl ha.2
  | shutdown => exact ⟨rfl, rfl, rfl⟩

/-- While the connection stays and does not read, a closure that waits to send holds its triplet,
also across a shutdown. -/
theorem blocked_until_read (limits : RuntimeLimits) (decode : List UInt8 → Except Fault (List F))
    (engine : Engine F D) (s s' : SseRequest T F D) (as : List (SseAction T F))
    (hfit : s.Fits) (hblocked : s.Blocked) (hidle : .recv ∉ as ∧ .leave ∉ as)
    (hrun : Steps.run (SseRequest.step limits decode engine) s as = some s') :
    s'.Blocked ∧ s'.task = s.task ∧ s'.log = s.log := by
  have hstays := Steps.inv_of_eachStep (P := fun _ a => a ≠ .recv ∧ a ≠ .leave)
    (fun t => t.Fits ∧ t.Blocked ∧ t.task = s.task ∧ t.log = s.log)
    (fun t a t' ha hstep ht => by
      obtain ⟨hfit, hblocked, htask, hlog⟩ := ht
      obtain ⟨htask', hchannel', hlog'⟩ := blocked_step hstep ha hfit hblocked
      refine ⟨fits_step hstep hfit, ?_, htask'.trans htask, hlog'.trans hlog⟩
      unfold SseRequest.Blocked at hblocked ⊢
      rw [htask', hchannel']
      exact hblocked) hrun
    (Steps.eachStep_of_mem (fun a ha => ⟨by rintro rfl; exact hidle.1 ha,
      by rintro rfl; exact hidle.2 ha⟩) s)
    ⟨hfit, hblocked, rfl, rfl⟩
  exact hstays.2

/-! ### A channel that fills up -/

def second : List Int := List.replicate 16000 1

theorem used_up_second : UsedUp 99 second :=
  used_up_replicate (by decide) (by decide) (by decide) (by decide) 1

/-- Yes and no in turn, so that every second has a word. -/
def next_word : Nat → Nat
  | 1 => 2
  | _ => 1

theorem says_second : ∀ prev ∈ [0, 1, 2], Says (next_word prev) 25 prev 0 := by
  decide +kernel

theorem second_chunk {stream : StreamingState Int Unit} {prev : Nat} (hprev : prev ∈ [0, 1, 2])
    (hstate : Paused prev 0 stream) :
    ∃ seg stream', yes_engine.process_chunk second stream (says_triplet (next_word prev)) 0 =
        (.ok [seg], stream') ∧
      Paused (next_word prev) 0 stream' := by
  have hwords : (said (next_word prev) 99 stream.total_frames).words ≠ [] := by
    simp only [List.mem_cons, List.not_mem_nil, or_false] at hprev
    rcases hprev with rfl | rfl | rfl <;> nofun
  obtain ⟨seg, stream', hchunk, -, -, hpaused⟩ :=
    says_chunk 0 hstate used_up_second (says_second prev hprev) hwords
  exact ⟨seg, stream', hchunk, hpaused⟩

/-- One second: its call, the send of its segment, and back to the head of the loop. -/
def fill : Nat → Nat → List (SseAction Nat Int)
  | _, 0 => []
  | prev, k + 1 =>
    let tick := .next (says_triplet (next_word prev)) 0
    tick :: tick :: tick :: fill (next_word prev) k

theorem next_word_mem (prev : Nat) : next_word prev ∈ [0, 1, 2] := by
  unfold next_word
  split <;> decide

theorem fill_run (decode : List UInt8 → Except Fault (List Int)) (left k : Nat) {prev : Nat}
    {stream : StreamingState Int Unit} {c : Channel (Message Int)} (hprev : prev ∈ [0, 1, 2])
    (hstate : Paused prev 0 stream) (hroom : c.queue.length + k ≤ c.capacity)
    (hreceiver : c.receiver = true) :
    ∃ prev' ∈ [0, 1, 2], ∃ stream' c', Paused (prev' : Nat) 0 stream' ∧
      Steps.run (SseRequest.step {} decode yes_engine)
          (answering (.chunk (List.replicate (k + left) second) stream) c []) (fill prev k) =
        some (answering (.chunk (List.replicate left second) stream') c' []) ∧
      c'.receiver = true ∧ c'.capacity = c.capacity ∧ c'.queue.length = c.queue.length + k := by
  induction k generalizing prev stream c with
  | zero => exact ⟨prev, hprev, stream, c, hstate, by rw [Nat.zero_add]; rfl, hreceiver, rfl, rfl⟩
  | succ k ih =>
    obtain ⟨seg, stream₁, hchunk, hstate₁⟩ := second_chunk hprev hstate
    have hlt : c.queue.length < c.capacity := by omega
    let c₁ : Channel (Message Int) := { c with
      queue := c.queue ++ [.ok seg], bounded := by rw [List.length_append]; exact hlt }
    have hsend : c.send (.ok seg) = .sent c₁ := by
      unfold Channel.send
      rw [if_pos hreceiver, dif_pos hlt]
    have hlength : c₁.queue.length = c.queue.length + 1 := List.length_append
    obtain ⟨prev', hprev', stream', c', hstate', hrun, hreceiver', hcapacity', hlength'⟩ :=
      ih (next_word_mem prev) hstate₁ (c := c₁) (by rw [hlength]; show _ ≤ c.capacity; omega) hreceiver
    refine ⟨prev', hprev', stream', c', hstate', ?_, hreceiver', hcapacity', by omega⟩
    rw [show k + 1 + left = k + left + 1 by omega, List.replicate_succ]
    refine Steps.run_cons_eq_some.mpr ⟨_, answering_call hchunk, Steps.run_cons_eq_some.mpr
      ⟨answering (.sending [] (List.replicate (k + left) second) stream₁) c₁ [], ?_, hrun⟩⟩
    simp [SseRequest.step, SseRequest.next, SseRequest.blocking_send, answering, hsend]

/-- A second more than the channel has room for. -/
def long_upload (_ : List UInt8) : Except Fault (List Int) :=
  .ok (List.replicate (17 * 16000) 1)

theorem long_upload_blocks : ∃ as, ∃ s : SseRequest Nat Int Unit,
    SseRequest.run {} long_upload yes_engine [1] false (accepted as) = some s ∧
      s.Fits ∧ s.Blocked ∧ s.cancelled = false ∧ s.log = [] := by
  have hchunks : chunks SSE_CHUNK_SIZE (List.replicate (17 * 16000) (1 : Int)) =
      List.replicate (16 + 1) second := chunks_replicate (by decide) 17 1
  obtain ⟨prev, hprev, stream, c, hstate, hrun, hreceiver, hcapacity, hlength⟩ :=
    fill_run long_upload 1 16 List.mem_cons_self paused_create_state
      (c := Channel.new (Message Int) SSE_CHANNEL_CAPACITY) (by decide) rfl
  obtain ⟨seg, stream', hchunk, -⟩ := second_chunk hprev hstate
  have hfull : c.send (.ok seg) = .full := by
    refine Channel.send_full_iff.mpr ⟨hreceiver, ?_⟩
    rw [hlength, hcapacity]
    rfl
  refine ⟨fill 0 16 ++ [.next (says_triplet (next_word prev)) 0],
    answering (.sending [seg] [] stream') c [], ?_, fun _ => rfl, ?_, rfl, rfl⟩
  · unfold long_upload
    rw [accepted_run, looping, hchunks]
    exact Steps.run_append.mpr
      ⟨_, hrun, Steps.run_cons_eq_some.mpr ⟨_, answering_call hchunk, rfl⟩⟩
  · exact ⟨7, _, _, _, c, rfl, .segment seg [] [] stream', rfl, hfull⟩

/-- The upload fills the channel while its client does not read. -/
theorem blocked_across_shutdown : ∃ as, ∃ s s' : SseRequest Nat Int Unit,
    SseRequest.run {} long_upload yes_engine [1] false (accepted as) = some s ∧
      Steps.run (SseRequest.step {} long_upload yes_engine) s [.shutdown] = some s' ∧
      s'.cancelled = true ∧ s'.Blocked ∧ s'.task = s.task ∧ s'.log = [] := by
  obtain ⟨as, s, hrun, hfit, hblocked, hcancelled, hlog⟩ := long_upload_blocks
  have hstep : Steps.run (SseRequest.step {} long_upload yes_engine) s [.shutdown] =
      some { s with cancelled := true } := by
    simp [Steps.run, SseRequest.step, hcancelled]
  obtain ⟨hblocked', htask, hlog'⟩ := blocked_until_read {} long_upload yes_engine s _ [.shutdown]
    hfit hblocked (by simp) hstep
  exact ⟨as, s, _, hrun, hstep, rfl, hblocked', htask, hlog'.trans hlog⟩

end Gigastt.Server
