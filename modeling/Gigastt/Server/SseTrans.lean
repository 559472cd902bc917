import Gigastt.Server.Sse

/-!
# What one step of a streamed request can do

The cases of `SseTrans` name every guard that the step has passed, so a proof about runs
need not open the step function again.
-/

namespace Gigastt.Server

open Streaming Words

variable {T F D : Type} [F32 F] {limits : RuntimeLimits}
  {decode : List UInt8 → Except Fault (List F)} {engine : Engine F D} {s s' : SseRequest T F D}

/-- The closure waits at the point to send the message, and then goes on from the next. -/
inductive Point.Sends : Point F D → Message F → Point F D → Prop where
  | segment (seg segs chunks) (stream_state : StreamingState F D) :
      Sends (.sending (seg :: segs) chunks stream_state) (.ok seg)
        (.sending segs chunks stream_state)
  | failure (message) : Sends (.failing message) (.error message) .caught
  | flush (seg) : Sends (.flushing seg) (.ok seg) .caught

inductive SseTrans (decode : List UInt8 → Except Fault (List F)) (engine : Engine F D)
    (s : SseRequest T F D) : SseAction T F → SseRequest T F D → Prop where
  | decoded {body samples} (hh : s.handler = .decoding body) (hd : decode body = .ok samples) :
      SseTrans decode engine s .decoded { s with handler := .checking_out samples }
  | reject {a body response} (hh : s.handler = .decoding body)
      (ha : a = .decoded ∨ a = .decode_lost) :
      SseTrans decode engine s a { s with handler := .returned (.error response) }
  | grant {samples guard} (hh : s.handler = .checking_out samples) :
      SseTrans decode engine s (.checked_out (.guard guard))
        { s with handler := .returned (.ok ())
                 task := .queued samples guard.item
                 channel := some (Channel.new (Message F) SSE_CHANNEL_CAPACITY) }
  | refuse {samples outcome response} (hh : s.handler = .checking_out samples)
      (ho : ∀ guard, outcome ≠ .guard guard) :
      SseTrans decode engine s (.checked_out outcome)
        { s with handler := .returned (.error response) }
  | start {samples triplet} (ht : s.task = .queued samples triplet) :
      SseTrans decode engine s .start
        { s with task := .running triplet
                   (.chunk (chunks SSE_CHUNK_SIZE samples) (engine.create_state none)) }
  | see_shutdown {sessions ts triplet left stream_state}
      (ht : s.task = .running triplet (.chunk left stream_state)) (hc : s.cancelled = true) :
      SseTrans decode engine s (.next sessions ts) { s with task := .running triplet .caught }
  | call {sessions ts triplet chunk left stream_state segs stream_state'}
      (ht : s.task = .running triplet (.chunk (chunk :: left) stream_state))
      (hc : s.cancelled = false)
      (hp : engine.process_chunk chunk stream_state sessions ts = (.ok segs, stream_state')) :
      SseTrans decode engine s (.next sessions ts)
        { s with task := .running triplet (.sending segs left stream_state') }
  | call_fails {sessions ts triplet chunk left stream_state source stream_state'}
      (ht : s.task = .running triplet (.chunk (chunk :: left) stream_state))
      (hc : s.cancelled = false)
      (hp : engine.process_chunk chunk stream_state sessions ts =
        (.error (.Inference source), stream_state')) :
      SseTrans decode engine s (.next sessions ts)
        { s with task := .running triplet (.failing inference_failed) }
  | call_panics {sessions ts triplet chunk left stream_state about stream_state'}
      (ht : s.task = .running triplet (.chunk (chunk :: left) stream_state))
      (hc : s.cancelled = false)
      (hp : engine.process_chunk chunk stream_state sessions ts =
        (.error (.panic about), stream_state')) :
      SseTrans decode engine s (.next sessions ts) { s with task := .running triplet .caught }
  | panic {triplet chunk left stream_state}
      (ht : s.task = .running triplet (.chunk (chunk :: left) stream_state))
      (hc : s.cancelled = false) :
      SseTrans decode engine s .panic { s with task := .running triplet .caught }
  | flush {sessions ts triplet stream_state seg}
      (ht : s.task = .running triplet (.chunk [] stream_state)) (hc : s.cancelled = false)
      (hf : (flush_state stream_state ts).1 = some seg) :
      SseTrans decode engine s (.next sessions ts)
        { s with task := .running triplet (.flushing seg) }
  | flush_nothing {sessions ts triplet stream_state}
      (ht : s.task = .running triplet (.chunk [] stream_state)) (hc : s.cancelled = false)
      (hf : (flush_state stream_state ts).1 = none) :
      SseTrans decode engine s (.next sessions ts) { s with task := .running triplet .caught }
  | loop {sessions ts triplet left stream_state}
      (ht : s.task = .running triplet (.sending [] left stream_state)) :
      SseTrans decode engine s (.next sessions ts)
        { s with task := .running triplet (.chunk left stream_state) }
  | send {sessions ts triplet point message sent channel channel'}
      (ht : s.task = .running triplet point) (hp : point.Sends message sent)
      (hc : s.channel = some channel) (hs : channel.send message = .sent channel') :
      SseTrans decode engine s (.next sessions ts)
        { s with channel := some channel', task := .running triplet sent }
  | send_refused {sessions ts triplet point message sent channel}
      (ht : s.task = .running triplet point) (hp : point.Sends message sent)
      (hc : s.channel = some channel) (hs : channel.receiver = false) :
      SseTrans decode engine s (.next sessions ts) { s with task := .running triplet .caught }
  | give_back {sessions ts triplet} (ht : s.task = .running triplet .caught) :
      SseTrans decode engine s (.next sessions ts)
        { s with task := .running triplet .given_back, log := s.log ++ [.checked_in triplet] }
  | exit {sessions ts triplet} (ht : s.task = .running triplet .given_back) :
      SseTrans decode engine s (.next sessions ts)
        { s with task := .exited, channel := s.channel.map Channel.drop_sender }
  | lose {samples triplet} (ht : s.task = .queued samples triplet) :
      SseTrans decode engine s .lose
        { s with task := .lost, channel := s.channel.map Channel.drop_sender }
  | read {channel message channel'} (hc : s.channel = some channel) (he : s.ended = false)
      (ha : channel.receiver = true) (hr : channel.recv = .received message channel') :
      SseTrans decode engine s .recv
        { s with channel := some channel', events := s.events ++ [sse_event message] }
  | read_end {channel} (hc : s.channel = some channel) (he : s.ended = false)
      (ha : channel.receiver = true) (hr : channel.recv = .ended) :
      SseTrans decode engine s .recv { s with ended := true }
  | leave_handler (hh : (∃ body, s.handler = .decoding body) ∨
        ∃ samples, s.handler = .checking_out samples) :
      SseTrans decode engine s .leave { s with handler := .dropped }
  | leave_stream {channel} (hh : s.handler = .returned (.ok ())) (hc : s.channel = some channel)
      (ha : channel.receiver = true) :
      SseTrans decode engine s .leave { s with channel := some channel.drop_receiver }
  | shutdown (hc : s.cancelled = false) :
      SseTrans decode engine s .shutdown { s with cancelled := true }

/-! ## The cases are all there are -/

theorem blocking_send_trans {triplet : T} {point sent : Point F D} {message : Message F}
    {sessions : SessionTriplet F} {ts : ℚ} (ht : s.task = .running triplet point)
    (hp : point.Sends message sent) (h : s.blocking_send triplet message sent = some s') :
    SseTrans decode engine s (.next sessions ts) s' := by
  unfold SseRequest.blocking_send at h
  split at h
  case h_1 channel hc =>
    split at h
    case h_1 hs => cases h; exact .send ht hp hc hs
    case h_2 hs => cases h; exact .send_refused ht hp hc (Channel.send_refused_iff.mp hs)
    case h_3 => simp at h
  case h_2 => simp at h

theorem next_trans {triplet : T} {point : Point F D} {sessions : SessionTriplet F} {ts : ℚ}
    (ht : s.task = .running triplet point)
    (h : s.next engine triplet sessions ts point = some s') :
    SseTrans decode engine s (.next sessions ts) s' := by
  match point with
  | .chunk (chunk :: left) stream_state =>
    simp only [SseRequest.next] at h
    split at h
    case isTrue hc => cases h; exact .see_shutdown ht hc
    case isFalse hc =>
      split at h
      case h_1 hp => cases h; exact .call ht (by simpa using hc) hp
      case h_2 hp => cases h; exact .call_fails ht (by simpa using hc) hp
      case h_3 hp => cases h; exact .call_panics ht (by simpa using hc) hp
  | .chunk [] stream_state =>
    simp only [SseRequest.next] at h
    split at h
    case isTrue hc => cases h; exact .see_shutdown ht hc
    case isFalse hc =>
      split at h
      case h_1 hf => cases h; exact .flush ht (by simpa using hc) (by rw [hf])
      case h_2 hf => cases h; exact .flush_nothing ht (by simpa using hc) (by rw [hf])
  | .sending [] left stream_state => cases h; exact .loop ht
  | .sending (seg :: segs) left stream_state =>
    exact blocking_send_trans ht (.segment seg segs left stream_state) h
  | .failing message => exact blocking_send_trans ht (.failure message) h
  | .flushing seg => exact blocking_send_trans ht (.flush seg) h
  | .caught => cases h; exact .give_back ht
  | .given_back => cases h; exact .exit ht

omit [F32 F] in
theorem on_decoded_error (e : Fault) :
    ∃ response, on_decoded (some (.error e) : Option (Except Fault (List F))) =
      .returned (.error response) := by
  cases e with
  | err contexts => exact ⟨_, rfl⟩
  | panic about => exact ⟨_, rfl⟩

theorem sse_trans {a : SseAction T F} (h : s.step limits decode engine a = some s') :
    SseTrans decode engine s a s' := by
  cases a with
  | decoded =>
    simp only [SseRequest.step] at h
    split at h
    case h_1 body hh =>
      cases h
      cases hd : decode body with
      | ok samples => exact .decoded hh hd
      | error e =>
        obtain ⟨response, hr⟩ := on_decoded_error (F := F) e
        rw [hr]
        exact .reject hh (.inl rfl)
    case h_2 => simp at h
  | decode_lost =>
    simp only [SseRequest.step] at h
    split at h
    case h_1 body hh => cases h; exact .reject hh (.inr rfl)
    case h_2 => simp at h
  | checked_out outcome =>
    simp only [SseRequest.step] at h
    split at h
    case h_1 hh => cases h; exact .grant hh
    case h_2 hh => cases h; exact .refuse hh (by simp)
    case h_3 hh => cases h; exact .refuse hh (by simp)
    case h_4 => simp at h
  | start =>
    simp only [SseRequest.step] at h
    split at h
    case h_1 ht => cases h; exact .start ht
    case h_2 => simp at h
  | next sessions ts =>
    simp only [SseRequest.step] at h
    split at h
    case h_1 ht => exact next_trans ht h
    case h_2 => simp at h
  | panic =>
    simp only [SseRequest.step] at h
    split at h
    case h_1 ht =>
      split_ifs at h with hc
      cases h
      exact .panic ht (by simpa using hc)
    case h_2 => simp at h
  | lose =>
    simp only [SseRequest.step] at h
    split at h
    case h_1 ht => cases h; exact .lose ht
    case h_2 => simp at h
  | recv =>
    simp only [SseRequest.step] at h
    split at h
    case h_1 hc he =>
      split_ifs at h with ha
      split at h
      case h_1 hr => cases h; exact .read hc he ha hr
      case h_2 hr => cases h; exact .read_end hc he ha hr
      case h_3 => simp at h
    case h_2 => simp at h
  | leave =>
    simp only [SseRequest.step] at h
    split at h
    case h_1 hh => cases h; exact .leave_handler (.inl ⟨_, hh⟩)
    case h_2 hh => cases h; exact .leave_handler (.inr ⟨_, hh⟩)
    case h_3 hh hc =>
      split_ifs at h with ha
      cases h
      exact .leave_stream hh hc ha
    case h_4 => simp at h
  | shutdown =>
    simp only [SseRequest.step] at h
    split_ifs at h with hc
    cases h
    exact .shutdown (by simpa using hc)

end Gigastt.Server
