import Gigastt.Server.SseTold

/-!
# What the client of a streamed request reads

The trace of a run keeps its calls on the engine in order, and the client reads a prefix
of what they give. `Says` is the invariant: what the channel holds is what was sent and
not yet read.
-/

namespace Gigastt.Server

open Streaming Words

variable {T F D : Type}

/-! ## The channel and the client -/

/-- The connection went away before it read the end. -/
def Gone (channel : Option (Channel (Message F))) (ended : Bool) : Prop :=
  ended = false ∧ ∃ c, channel = some c ∧ c.receiver = false

/-- The channel took the messages, and the client has read those that came out of it. -/
def Carried (channel : Option (Channel (Message F))) (events : List (SseEvent F))
    (ended sender : Bool) (sent : List (Message F)) : Prop :=
  ∃ c received, channel = some c ∧ c.sender = sender ∧ c.Carries sent received ∧
    events = received.map sse_event ∧ (ended = true → sender = false ∧ received = sent)

section Carried

variable {channel : Option (Channel (Message F))} {c c' : Channel (Message F)}
  {events : List (SseEvent F)} {ended sender : Bool} {sent : List (Message F)}
  {message : Message F}

theorem Carried.new :
    Carried (some (Channel.new (Message F) SSE_CHANNEL_CAPACITY)) [] false true [] :=
  ⟨_, [], rfl, rfl, .new _, rfl, by simp⟩

theorem Carried.send (h : Carried (some c) events ended true sent)
    (hs : c.send message = .sent c') :
    Carried (some c') events ended true (sent ++ [message]) := by
  obtain ⟨_, received, ⟨⟩, hsender, hcarries, hevents, hended⟩ := h
  obtain ⟨-, -, -, -, hsender', -⟩ := Channel.send_sent hs
  refine ⟨c', received, rfl, hsender'.trans hsender, hcarries.send hs, hevents, ?_⟩
  intro he
  cases (hended he).1

theorem Carried.read (h : Carried (some c) events false sender sent) (ha : c.receiver = true)
    (hr : c.recv = .received message c') :
    Carried (some c') (events ++ [sse_event message]) false sender sent := by
  obtain ⟨_, received, ⟨⟩, hsender, hcarries, rfl, -⟩ := h
  obtain ⟨-, -, hsender', -⟩ := Channel.recv_received hr
  exact ⟨c', received ++ [message], rfl, hsender'.trans hsender, hcarries.recv ha hr, by simp,
    by simp⟩

theorem Carried.read_end (h : Carried (some c) events ended sender sent) (ha : c.receiver = true)
    (hr : c.recv = .ended) : sender = false ∧ Carried (some c) events true sender sent := by
  obtain ⟨_, received, ⟨⟩, hsender, hcarries, hevents, -⟩ := h
  have hfalse : sender = false := hsender.symm.trans (Channel.recv_ended_iff.mp hr).2
  exact ⟨hfalse, c, received, rfl, hsender, hcarries, hevents,
    fun _ => ⟨hfalse, hcarries.ended ha hr⟩⟩

theorem Carried.drop_receiver (h : Carried (some c) events ended sender sent) :
    Carried (some c.drop_receiver) events ended sender sent := by
  obtain ⟨_, received, ⟨⟩, hsender, hcarries, hevents, hended⟩ := h
  exact ⟨_, received, rfl, hsender, hcarries.drop_receiver, hevents, hended⟩

theorem Carried.drop_sender (h : Carried channel events ended true sent) :
    Carried (channel.map Channel.drop_sender) events ended false sent := by
  obtain ⟨c, received, rfl, -, hcarries, hevents, hended⟩ := h
  refine ⟨_, received, rfl, rfl, hcarries.drop_sender, hevents, ?_⟩
  intro he
  cases (hended he).1

theorem Carried.not_ended (h : Carried channel events ended true sent) : ended = false := by
  obtain ⟨c, received, -, -, -, -, hended⟩ := h
  cases ended with
  | false => rfl
  | true => cases (hended rfl).1

theorem not_gone (ha : c.receiver = true) : ¬ Gone (some c) ended := by
  rintro ⟨-, _, ⟨⟩, hc⟩
  rw [ha] at hc
  cases hc

theorem Gone.drop_sender (h : Gone channel ended) :
    Gone (channel.map Channel.drop_sender) ended := by
  obtain ⟨hended, c, rfl, hc⟩ := h
  exact ⟨hended, _, rfl, hc⟩

end Carried

/-! ## The invariant -/

/-- A handler whose task is not there yet, or never will be. -/
def Idle (decode : List UInt8 → Except Fault (List F)) (body : List UInt8) : SseHandler F → Prop
  | .decoding body' => body' = body
  | .checking_out samples => decode body = .ok samples
  | .returned (.error _) | .dropped => True
  | .returned (.ok _) => False

variable [F32 F]

def SseRequest.Says (decode : List UInt8 → Except Fault (List F)) (engine : Engine F D)
    (body : List UInt8) (calls : List (SseCall F)) (s : SseRequest T F D) : Prop :=
  match s.task with
  | .none => calls = [] ∧ Idle decode body s.handler ∧ s.channel = none ∧ s.events = [] ∧
      s.ended = false
  | .queued samples _ => calls = [] ∧ decode body = .ok samples ∧
      Carried s.channel s.events s.ended true []
  | .running _ point => ∃ samples sent, decode body = .ok samples ∧
      Carried s.channel s.events s.ended true sent ∧
      Told engine (chunks SSE_CHUNK_SIZE samples) (s.cancelled = true) (Gone s.channel s.ended)
        calls point sent
  | .exited => ∃ samples sent, decode body = .ok samples ∧
      Carried s.channel s.events s.ended false sent ∧
      Told engine (chunks SSE_CHUNK_SIZE samples) (s.cancelled = true) (Gone s.channel s.ended)
        calls .given_back sent
  | .lost => calls = [] ∧ (∃ samples, decode body = .ok samples) ∧
      Carried s.channel s.events s.ended false []

variable {limits : RuntimeLimits} {decode : List UInt8 → Except Fault (List F)}
  {engine : Engine F D} {body : List UInt8} {s s' : SseRequest T F D}

theorem says_transcribe_stream (cancelled : Bool) :
    (transcribe_stream limits body cancelled : SseRequest T F D).Says decode engine body [] := by
  refine ⟨rfl, ?_, rfl, rfl, rfl⟩
  unfold transcribe_stream
  dsimp only
  split_ifs
  · trivial
  · trivial
  · rfl

theorem SseRequest.Says.running {past : List (SseCall F)} {triplet : T} {point : Point F D}
    (hs : s.Says decode engine body past) (ht : s.task = .running triplet point) :
    ∃ samples sent, decode body = .ok samples ∧ Carried s.channel s.events s.ended true sent ∧
      Told engine (chunks SSE_CHUNK_SIZE samples) (s.cancelled = true) (Gone s.channel s.ended)
        past point sent := by
  simp only [SseRequest.Says, ht] at hs
  exact hs

/-- A task comes with the response. -/
def SseRequest.Fits (s : SseRequest T F D) : Prop :=
  s.task ≠ .none → s.handler = .returned (.ok ())

omit [F32 F] in
theorem SseRequest.Fits.idle (hfit : s.Fits) (hh : s.handler ≠ .returned (.ok ())) :
    s.task = .none := by
  by_contra htask
  exact hh (hfit htask)

theorem fits_step {a : SseAction T F} (h : s.step limits decode engine a = some s')
    (hfit : s.Fits) : s'.Fits := by
  cases sse_trans h with
  | decoded hh | reject hh | refuse hh =>
    intro htask
    exact absurd (hfit.idle (by simp [hh])) htask
  | leave_handler hh =>
    intro htask
    rcases hh with ⟨body, hh⟩ | ⟨samples, hh⟩
    · exact absurd (hfit.idle (by simp [hh])) htask
    · exact absurd (hfit.idle (by simp [hh])) htask
  | grant hh => exact fun _ => rfl
  | start ht | see_shutdown ht | call ht | call_fails ht | call_panics ht | panic ht | flush ht
  | flush_nothing ht | loop ht | send ht | send_refused ht | give_back ht | exit ht | lose ht =>
    exact fun _ => hfit (by simp [ht])
  | read | read_end | leave_stream | shutdown => exact hfit

theorem SseRequest.Says.idle {past : List (SseCall F)} (hs : s.Says decode engine body past)
    (hfit : s.Fits) (hh : s.handler ≠ .returned (.ok ())) :
    past = [] ∧ Idle decode body s.handler ∧ s.channel = none ∧ s.events = [] ∧
      s.ended = false := by
  simp only [SseRequest.Says, hfit.idle hh] at hs
  exact hs

/-- A step that is not the handler's, and leaves the point of the task where it is. -/
theorem SseRequest.Says.frame {past : List (SseCall F)} (hs : s.Says decode engine body past)
    (channel : Option (Channel (Message F))) (events : List (SseEvent F)) (ended cancelled : Bool)
    (hnone : s.channel = none → channel = none ∧ events = s.events ∧ ended = s.ended)
    (hcarried : ∀ sender sent, Carried s.channel s.events s.ended sender sent →
      Carried channel events ended sender sent)
    (hcancelled : s.cancelled = true → cancelled = true) 
    (hgone : Gone s.channel s.ended → Gone channel ended) :
    ({ s with channel, events, ended, cancelled } : SseRequest T F D).Says decode engine body
      past := by
  cases ht : s.task with
  | none =>
    simp only [SseRequest.Says, ht] at hs ⊢
    obtain ⟨hpast, hidle, hchannel, hevents, hended⟩ := hs
    obtain ⟨hchannel', rfl, rfl⟩ := hnone hchannel
    exact ⟨hpast, hidle, hchannel', hevents, hended⟩
  | queued samples triplet | lost =>
    simp only [SseRequest.Says, ht] at hs ⊢
    obtain ⟨hpast, hd, h⟩ := hs
    exact ⟨hpast, hd, hcarried _ _ h⟩
  | running triplet point | exited =>
    simp only [SseRequest.Says, ht] at hs ⊢
    obtain ⟨samples, sent, hd, h, htold⟩ := hs
    exact ⟨samples, sent, hd, hcarried _ _ h, htold.imp hcancelled hgone⟩

omit [F32 F] in
/-- Only at the head of its loop does the closure call the engine. -/
theorem calls_silent {triplet : T} {point : Point F D} {sessions : SessionTriplet F} {ts : ℚ}
    (ht : s.task = .running triplet point)
    (hp : s.cancelled = true ∨ ∀ left st, point ≠ .chunk left st) :
    s.calls (.next sessions ts) = [] := by
  unfold SseRequest.calls
  match point, ht with
  | .chunk (chunk :: left) st, ht | .chunk [] st, ht =>
    have hc := hp.resolve_right fun h => h _ _ rfl
    simp [ht, hc]
  | .sending segs left st, ht | .failing message, ht | .flushing seg, ht | .caught, ht
  | .given_back, ht => simp [ht]

omit [F32 F] in
theorem calls_chunk {triplet : T} {chunk : List F} {left : List (List F)} {st : StreamingState F D}
    (ht : s.task = .running triplet (.chunk (chunk :: left) st)) (hc : s.cancelled = false)
    (sessions : SessionTriplet F) (ts : ℚ) :
    s.calls (.next sessions ts) = [.chunk { samples := chunk, triplet := sessions, ts }] := by
  simp [SseRequest.calls, ht, hc]

theorem says_step {past : List (SseCall F)} {a : SseAction T F}
    (h : s.step limits decode engine a = some s') (hfit : s.Fits)
    (hs : s.Says decode engine body past) : s'.Says decode engine body (past ++ s.calls a) := by
  cases sse_trans h with
  | decoded hh hd =>
    obtain ⟨rfl, hidle, hrest⟩ := hs.idle hfit (by simp [hh])
    rw [hh] at hidle
    simp only [SseRequest.Says, hfit.idle (by simp [hh] : s.handler ≠ _)]
    exact ⟨rfl, hidle ▸ hd, hrest⟩
  | reject hh ha =>
    obtain ⟨rfl, -, hrest⟩ := hs.idle hfit (by simp [hh])
    simp only [SseRequest.Says, hfit.idle (by simp [hh] : s.handler ≠ _)]
    refine ⟨?_, trivial, hrest⟩
    rcases ha with rfl | rfl <;> rfl
  | grant hh =>
    obtain ⟨rfl, hidle, -, hevents, hended⟩ := hs.idle hfit (by simp [hh])
    rw [hh] at hidle
    refine ⟨rfl, hidle, ?_⟩
    rw [hevents, hended]
    exact .new
  | refuse hh ho =>
    obtain ⟨rfl, -, hrest⟩ := hs.idle hfit (by simp [hh])
    simp only [SseRequest.Says, hfit.idle (by simp [hh] : s.handler ≠ _)]
    exact ⟨rfl, trivial, hrest⟩
  | start ht =>
    simp only [SseRequest.Says, ht] at hs
    obtain ⟨rfl, hd, hcarried⟩ := hs
    exact ⟨_, _, hd, hcarried, .start engine _ _ _⟩
  | see_shutdown ht hc =>
    obtain ⟨samples, sent, hd, hcarried, htold⟩ := hs.running ht
    rw [calls_silent ht (.inl hc), List.append_nil]
    exact ⟨samples, sent, hd, hcarried, htold.see_shutdown hc⟩
  | @call sessions ts triplet chunk left st segs st' ht hc hp =>
    obtain ⟨samples, sent, hd, hcarried, htold⟩ := hs.running ht
    rw [calls_chunk ht hc]
    exact ⟨samples, sent, hd, hcarried, htold.call _ hp⟩
  | @call_fails sessions ts triplet chunk left st source st' ht hc hp =>
    obtain ⟨samples, sent, hd, hcarried, htold⟩ := hs.running ht
    rw [calls_chunk ht hc]
    exact ⟨samples, sent, hd, hcarried, htold.call_fails _ hp⟩
  | @call_panics sessions ts triplet chunk left st about st' ht hc hp =>
    obtain ⟨samples, sent, hd, hcarried, htold⟩ := hs.running ht
    rw [calls_chunk ht hc]
    exact ⟨samples, sent, hd, hcarried, htold.call_panics _ hp⟩
  | @panic triplet chunk left st ht hc =>
    obtain ⟨samples, sent, hd, hcarried, htold⟩ := hs.running ht
    have hcalls : s.calls .panic = [.panicked chunk] := by simp [SseRequest.calls, ht]
    rw [hcalls]
    exact ⟨samples, sent, hd, hcarried, htold.panic⟩
  | @flush sessions ts triplet st seg ht hc hf =>
    obtain ⟨samples, sent, hd, hcarried, htold⟩ := hs.running ht
    have hcalls : s.calls (.next sessions ts) = [.flush ts] := by simp [SseRequest.calls, ht, hc]
    rw [hcalls]
    exact ⟨samples, sent, hd, hcarried, htold.flush hf⟩
  | @flush_nothing sessions ts triplet st ht hc hf =>
    obtain ⟨samples, sent, hd, hcarried, htold⟩ := hs.running ht
    have hcalls : s.calls (.next sessions ts) = [.flush ts] := by simp [SseRequest.calls, ht, hc]
    rw [hcalls]
    exact ⟨samples, sent, hd, hcarried, htold.flush_nothing hf⟩
  | loop ht =>
    obtain ⟨samples, sent, hd, hcarried, htold⟩ := hs.running ht
    rw [calls_silent ht (.inr (by simp)), List.append_nil]
    exact ⟨samples, sent, hd, hcarried, htold.loop⟩
  | send ht hp hc hsend =>
    obtain ⟨samples, sent, hd, hcarried, htold⟩ := hs.running ht
    rw [calls_silent ht (.inr (by cases hp <;> simp)), List.append_nil]
    rw [hc] at hcarried
    have hgone : ¬ Gone s.channel s.ended := hc ▸ not_gone (Channel.send_sent hsend).1
    exact ⟨samples, _, hd, hcarried.send hsend, (htold.send hp).imp id fun h => absurd h hgone⟩
  | send_refused ht hp hc hgone =>
    obtain ⟨samples, sent, hd, hcarried, htold⟩ := hs.running ht
    rw [calls_silent ht (.inr (by cases hp <;> simp)), List.append_nil]
    exact ⟨samples, sent, hd, hcarried, htold.refused ⟨hcarried.not_ended, _, hc, hgone⟩⟩
  | give_back ht =>
    obtain ⟨samples, sent, hd, hcarried, htold⟩ := hs.running ht
    rw [calls_silent ht (.inr (by simp)), List.append_nil]
    exact ⟨samples, sent, hd, hcarried, htold.given_back⟩
  | exit ht =>
    obtain ⟨samples, sent, hd, hcarried, htold⟩ := hs.running ht
    rw [calls_silent ht (.inr (by simp)), List.append_nil]
    exact ⟨samples, sent, hd, hcarried.drop_sender, htold.imp id Gone.drop_sender⟩
  | lose ht =>
    simp only [SseRequest.Says, ht] at hs
    obtain ⟨rfl, hd, hcarried⟩ := hs
    exact ⟨rfl, ⟨_, hd⟩, hcarried.drop_sender⟩
  | @read channel message channel' hc he ha hr =>
    rw [show s.calls .recv = [] from rfl, List.append_nil]
    refine hs.frame (some channel') (s.events ++ [sse_event message]) s.ended s.cancelled
      (by simp [hc]) (fun sender sent hcarried => ?_) id fun h => absurd h (hc ▸ not_gone ha)
    rw [hc, he] at hcarried
    rw [he]
    exact hcarried.read ha hr
  | @read_end channel hc he ha hr =>
    rw [show s.calls .recv = [] from rfl, List.append_nil]
    refine hs.frame s.channel s.events true s.cancelled (by simp [hc])
      (fun sender sent hcarried => ?_) id fun h => absurd h (hc ▸ not_gone ha)
    rw [hc] at hcarried ⊢
    exact (hcarried.read_end ha hr).2
  | leave_handler hh =>
    have hh : s.handler ≠ .returned (.ok ()) := by
      rcases hh with ⟨body, hh⟩ | ⟨samples, hh⟩ <;> simp [hh]
    obtain ⟨rfl, -, hrest⟩ := hs.idle hfit hh
    simp only [SseRequest.Says, hfit.idle hh]
    exact ⟨rfl, trivial, hrest⟩
  | @leave_stream channel hh hc ha =>
    rw [show s.calls .leave = [] from rfl, List.append_nil]
    refine hs.frame (some channel.drop_receiver) s.events s.ended s.cancelled (by simp [hc])
      (fun sender sent hcarried => ?_) id fun h => absurd h (hc ▸ not_gone ha)
    rw [hc] at hcarried
    exact hcarried.drop_receiver
  | shutdown hc =>
    rw [show s.calls .shutdown = [] from rfl, List.append_nil]
    exact hs.frame s.channel s.events s.ended true (by simp) (fun _ _ => id) (fun _ => rfl) id

/-! ## Runs -/

/-- The calls on the engine that a run makes, in order. -/
abbrev SseRequest.calls_of (limits : RuntimeLimits) (decode : List UInt8 → Except Fault (List F))
    (engine : Engine F D) (body : List UInt8) (cancelled : Bool) (as : List (SseAction T F)) :
    List (SseCall F) :=
  Steps.trace (SseRequest.step limits decode engine) SseRequest.calls
    (transcribe_stream limits body cancelled) as

variable {cancelled : Bool} {as : List (SseAction T F)}

theorem says_run (hrun : SseRequest.run limits decode engine body cancelled as = some s) :
    s.Fits ∧ s.Says decode engine body
      (SseRequest.calls_of limits decode engine body cancelled as) := by
  have h := Steps.inv_of_trace (P := fun _ _ => True)
    (fun past s => s.Fits ∧ s.Says decode engine body past)
    (fun past s a s' _ hstep hs => ⟨fits_step hstep hs.1, says_step hstep hs.1 hs.2⟩) hrun
    (Steps.eachStep_of_forall (fun _ _ => trivial) _ _)
    (⟨fun htask => absurd rfl htask, says_transcribe_stream cancelled⟩ :
      (transcribe_stream limits body cancelled : SseRequest T F D).Fits ∧ _)
  exact h

/-! ## What the client has read -/

def SseEvent.is_error : SseEvent F → Bool
  | .error _ _ => true
  | _ => false

omit [F32 F] in
theorem is_error_ok (seg : TranscriptSegment F) : (sse_event (.ok seg)).is_error = false := by
  simp only [sse_event]
  split_ifs <;> rfl

theorem Transcript.error_last {cs : List (List F)} {calls : List (SseCall F)}
    {told : List (Message F)} (h : Transcript engine cs calls told) :
    ∀ message ∈ told.dropLast, ∃ seg, message = .ok seg := by
  intro message hmem
  cases h with
  | so_far heard =>
    obtain ⟨seg, -, rfl⟩ := List.mem_map.mp (List.mem_of_mem_dropLast hmem)
    exact ⟨seg, rfl⟩
  | ended h =>
    cases h with
    | @flushed made logs st ts heard =>
      rw [messages, last_message, ← List.map_append] at hmem
      obtain ⟨seg, -, rfl⟩ := List.mem_map.mp (List.mem_of_mem_dropLast hmem)
      exact ⟨seg, rfl⟩
    | failed call heard fails =>
      rw [List.dropLast_concat] at hmem
      obtain ⟨seg, -, rfl⟩ := List.mem_map.mp hmem
      exact ⟨seg, rfl⟩
    | panicked call heard panics =>
      obtain ⟨seg, -, rfl⟩ := List.mem_map.mp (List.mem_of_mem_dropLast hmem)
      exact ⟨seg, rfl⟩
    | panicked_outside chunk heard =>
      obtain ⟨seg, -, rfl⟩ := List.mem_map.mp (List.mem_of_mem_dropLast hmem)
      exact ⟨seg, rfl⟩

omit [F32 F] in
theorem Carried.in_order {channel : Option (Channel (Message F))} {events : List (SseEvent F)}
    {ended sender : Bool} {sent : List (Message F)}
    (h : Carried channel events ended sender sent) : events <+: sent.map sse_event := by
  obtain ⟨c, received, -, -, hcarries, rfl, -⟩ := h
  exact hcarries.in_order.map sse_event

theorem SseRequest.Says.transcript {past : List (SseCall F)}
    (hs : s.Says decode engine body past) :
    ∃ told, s.events <+: told.map sse_event ∧ (told = [] ∨ ∃ samples, decode body = .ok samples ∧
      Transcript engine (chunks SSE_CHUNK_SIZE samples) past told) := by
  unfold SseRequest.Says at hs
  split at hs
  case h_1 =>
    obtain ⟨-, -, -, hevents, -⟩ := hs
    exact ⟨[], by rw [hevents]; exact List.nil_prefix, .inl rfl⟩
  case h_2 | h_5 =>
    obtain ⟨-, -, hcarried⟩ := hs
    exact ⟨[], hcarried.in_order, .inl rfl⟩
  case h_3 | h_4 =>
    obtain ⟨samples, sent, hd, hcarried, htold⟩ := hs
    obtain ⟨told, htranscript, hread⟩ := htold.transcript
    exact ⟨told, hcarried.in_order.trans (hread.map sse_event), .inr ⟨samples, hd, htranscript⟩⟩

omit [F32 F] in
theorem dropLast_prefix_dropLast {α : Type} {l l' : List α} (h : l <+: l') :
    l.dropLast <+: l'.dropLast := by
  obtain ⟨rest, rfl⟩ := h
  by_cases hrest : rest = []
  · rw [hrest, List.append_nil]
  · rw [List.dropLast_append_of_ne_nil hrest]
    exact (List.dropLast_prefix l).trans (List.prefix_append l _)

/-- However the closure, the connection and the shutdown interleave, the client has read a prefix
of what the calls give, each chunk once and in order, and no event follows an error. -/
theorem client_reads_transcript (limits : RuntimeLimits)
    (decode : List UInt8 → Except Fault (List F)) (engine : Engine F D) (body : List UInt8)
    (cancelled : Bool) (as : List (SseAction T F)) (s : SseRequest T F D)
    (hrun : SseRequest.run limits decode engine body cancelled as = some s) :
    ∃ told, s.events <+: told.map sse_event ∧
      (∀ event ∈ s.events.dropLast, event.is_error = false) ∧
      (told = [] ∨ ∃ samples, decode body = .ok samples ∧
        Transcript engine (chunks SSE_CHUNK_SIZE samples)
          (SseRequest.calls_of limits decode engine body cancelled as) told) := by
  obtain ⟨told, hread, htold⟩ := (says_run hrun).2.transcript
  refine ⟨told, hread, ?_, htold⟩
  intro event hmem
  have hevent := (dropLast_prefix_dropLast hread).subset hmem
  rw [← List.map_dropLast] at hevent
  obtain ⟨message, hmessage, rfl⟩ := List.mem_map.mp hevent
  rcases htold with rfl | ⟨samples, -, htranscript⟩
  · simp at hmessage
  · obtain ⟨seg, rfl⟩ := htranscript.error_last message hmessage
    exact is_error_ok seg

/-! ### An upload of one frame -/

section Upload

variable {sessions : SessionTriplet F} {samples chunk : List F} {left : List (List F)}
  {segs : List (TranscriptSegment F)} {seg last : TranscriptSegment F}
  {stream stream' : StreamingState F D} {c : Channel (Message F)} {events : List (SseEvent F)}

/-- A closure with the triplet 7, before its end is near. -/
def answering (point : Point F D) (c : Channel (Message F)) (events : List (SseEvent F)) :
    SseRequest Nat F D where
  handler := .returned (.ok ())
  task := .running 7 point
  channel := some c
  cancelled := false
  events
  ended := false
  log := []

/-- A request whose client has read these events and the end. -/
def answered (D : Type) (events : List (SseEvent F)) : SseRequest Nat F D where
  handler := .returned (.ok ())
  task := .exited
  channel := some (Channel.new (Message F) SSE_CHANNEL_CAPACITY).drop_sender
  cancelled := false
  events
  ended := true
  log := [.checked_in 7]

/-- The loop of the closure, on a request that was accepted. -/
def looping (engine : Engine F D) (samples : List F) : SseRequest Nat F D :=
  answering (.chunk (chunks SSE_CHUNK_SIZE samples) (engine.create_state none))
    (Channel.new (Message F) SSE_CHANNEL_CAPACITY) []

theorem answering_call {ts : ℚ}
    (h : engine.process_chunk chunk stream sessions ts = (.ok segs, stream')) :
    (answering (.chunk (chunk :: left) stream) c events).step limits decode engine
      (.next sessions ts) = some (answering (.sending segs left stream') c events) := by
  simp [SseRequest.step, SseRequest.next, answering, h]

theorem answering_flush {ts : ℚ} (h : flush_state stream ts = (some last, stream')) :
    (answering (.chunk [] stream) c events).step limits decode engine (.next sessions ts) =
      some (answering (.flushing last) c events) := by
  simp [SseRequest.step, SseRequest.next, answering, h]

/-- A request that is accepted. -/
def accepted (as : List (SseAction Nat F)) : List (SseAction Nat F) :=
  .decoded :: .checked_out (.guard { item := 7 }) :: .start :: as

theorem accepted_run (engine : Engine F D) (samples : List F) (as : List (SseAction Nat F)) :
    SseRequest.run {} (fun _ => .ok samples) engine [1] false (accepted as) =
      Steps.run (SseRequest.step {} (fun _ => .ok samples) engine) (looping engine samples) as := rfl

/-- A chunk with a segment, a flush with another, and a client that reads both and the end. -/
def two_events (sessions : SessionTriplet F) : List (SseAction Nat F) :=
  let tick := .next sessions 0
  accepted [tick, tick, .recv, tick, tick, tick, tick, tick, .recv, .recv]

theorem two_events_run (hchunks : chunks SSE_CHUNK_SIZE samples = [chunk])
    (hchunk : engine.process_chunk chunk (engine.create_state none) sessions 0 =
      (.ok [seg], stream))
    (hflush : flush_state stream 0 = (some last, stream')) :
    SseRequest.run {} (fun _ => .ok samples) engine [1] false (two_events sessions) =
        some (answered D [sse_event (.ok seg), sse_event (.ok last)]) ∧
      SseRequest.calls_of {} (fun _ => .ok samples) engine [1] false (two_events sessions) =
        [.chunk { samples := chunk, triplet := sessions, ts := 0 }, .flush 0] := by
  let unread := Channel.new (Message F) SSE_CHANNEL_CAPACITY
  let step := SseRequest.step (T := Nat) {} (fun _ => .ok samples) engine
  have hcall : step (looping engine samples) (.next sessions 0) =
      some (answering (.sending [seg] [] stream) unread []) := by
    unfold looping
    rw [hchunks]
    exact answering_call hchunk
  have hlast : step (answering (.chunk [] stream) unread [sse_event (.ok seg)])
      (.next sessions 0) = some (answering (.flushing last) unread [sse_event (.ok seg)]) :=
    answering_flush hflush
  constructor
  · rw [two_events, accepted_run]
    refine Steps.run_cons_eq_some.mpr ⟨_, hcall, ?_⟩
    change Steps.run step (answering (.chunk [] stream) unread [sse_event (.ok seg)])
      (.next sessions 0 :: _) = _
    exact Steps.run_cons_eq_some.mpr ⟨_, hlast, rfl⟩
  · change Steps.trace step SseRequest.calls (looping engine samples) (.next sessions 0 :: _) = _
    rw [Steps.trace_cons hcall]
    unfold looping
    rw [hchunks]
    change [_] ++ Steps.trace step SseRequest.calls
      (answering (.chunk [] stream) unread [sse_event (.ok seg)]) (.next sessions 0 :: _) = _
    rw [Steps.trace_cons hlast]
    rfl

end Upload

/-- One frame, in which the engine hears `yes`. -/
def short_upload (_ : List UInt8) : Except Fault (List Int) := .ok (List.replicate 320 1)

/-- The client has read a partial and a final with the word. -/
theorem short_upload_ends :
    ∃ text words,
      SseRequest.run {} short_upload yes_engine [1] false (two_events (says_triplet 1)) =
        some (answered Unit [.partial_ text 0 words, .final text 0 words]) ∧
      words.map WordInfo.word = ["yes".toList] ∧
      SseRequest.calls_of {} short_upload yes_engine [1] false (two_events (says_triplet 1)) =
        [.chunk (yes_call 320), .flush 0] := by
  obtain ⟨seg, stream, hchunk, hseg, -, -, hassembler⟩ := yes_chunk 1 0
  have hflush : ∃ stream',
      flush_state stream 0 = (some (stream.assembler.finalize 0).1, stream') := by
    unfold flush_state
    rw [hassembler]
    exact ⟨_, rfl⟩
  obtain ⟨stream', hflush⟩ := hflush
  have hchunks : chunks SSE_CHUNK_SIZE (List.replicate 320 (1 : Int)) = [List.replicate 320 1] :=
    chunks_short (used_up_frame 1).ne_nil (by rw [List.length_replicate]; decide)
  obtain ⟨hrun, hcalls⟩ := two_events_run hchunks hchunk hflush
  rw [hseg] at hrun
  refine ⟨stream.assembler.text, stream.assembler.words, hrun, ?_, hcalls⟩
  rw [hassembler]
  rfl

theorem short_upload_reads : ∃ s told,
    SseRequest.run {} short_upload yes_engine [1] false (two_events (says_triplet 1)) = some s ∧
      s.events.length = 2 ∧ s.events <+: told.map sse_event ∧
      Transcript yes_engine (chunks SSE_CHUNK_SIZE (List.replicate 320 1))
        [.chunk (yes_call 320), .flush 0] told := by
  obtain ⟨text, words, hrun, -, hcalls⟩ := short_upload_ends
  obtain ⟨told, hread, -, htold⟩ :=
    client_reads_transcript {} short_upload yes_engine [1] false _ _ hrun
  refine ⟨_, told, hrun, rfl, hread, ?_⟩
  rcases htold with rfl | ⟨samples, hd, htranscript⟩
  · exact absurd (List.prefix_nil.mp hread) nofun
  · cases hd
    rwa [hcalls] at htranscript

/-! ## What the client has read at the end -/

/-- The words of the final events. -/
def final_words (events : List (SseEvent F)) : List (WordInfo F) :=
  events.flatMap fun
    | .final _ _ words => words
    | _ => []

omit [F32 F] in
theorem final_words_segments (segments : List (TranscriptSegment F)) :
    final_words ((segments.map (.ok : _ → Message F)).map sse_event) = finals segments := by
  induction segments with
  | nil => rfl
  | cons seg segments ih =>
    rw [List.map_cons, List.map_cons, final_words, List.flatMap_cons]
    rw [final_words] at ih
    rw [ih, finals, finals, List.filter_cons]
    simp only [sse_event]
    split_ifs with hfinal
    · rw [List.flatMap_cons]
    · rfl

theorem SseRequest.Says.ended {past : List (SseCall F)} (hs : s.Says decode engine body past)
    (hended : s.ended = true) (hcancelled : s.cancelled = false) (hlost : s.task ≠ .lost) :
    ∃ samples told, decode body = .ok samples ∧
      Ending engine (chunks SSE_CHUNK_SIZE samples) past told ∧ s.events = told.map sse_event := by
  have hhere : ¬ Gone s.channel s.ended := by
    rw [hended]
    rintro ⟨⟨⟩, -⟩
  unfold SseRequest.Says at hs
  split at hs
  case h_1 =>
    obtain ⟨-, -, -, -, hnot⟩ := hs
    rw [hended] at hnot
    cases hnot
  case h_2 =>
    obtain ⟨-, -, hcarried⟩ := hs
    rw [hcarried.not_ended] at hended
    cases hended
  case h_3 =>
    obtain ⟨samples, sent, -, hcarried, -⟩ := hs
    rw [hcarried.not_ended] at hended
    cases hended
  case h_4 =>
    obtain ⟨samples, sent, hd, ⟨c, received, -, -, -, hevents, hall⟩, htold⟩ := hs
    obtain ⟨-, rfl⟩ := hall hended
    cases htold with
    | stopped hpoint htranscript hread hwhole hwhy =>
      obtain rfl := hwhole.resolve_right hhere
      refine ⟨samples, received, hd, ?_, hevents⟩
      rcases hwhy with hending | hc | hgone
      · exact hending
      · rw [hcancelled] at hc
        cases hc
      · exact absurd hgone hhere
  case h_5 ht => exact absurd ht hlost

/-- The end of a stream that no shutdown cut short: the whole upload with its flush, so that the
final events hold every word once, or all up to a call that failed or panicked. Only a failure
shows, as an error event. -/
theorem client_at_end (limits : RuntimeLimits) (decode : List UInt8 → Except Fault (List F))
    (engine : Engine F D) (body : List UInt8) (cancelled : Bool) (as : List (SseAction T F))
    (s : SseRequest T F D) (hrun : SseRequest.run limits decode engine body cancelled as = some s)
    (hended : s.ended = true) (hcancelled : s.cancelled = false) (hlost : s.task ≠ .lost) :
    ∃ samples made logs st, decode body = .ok samples ∧
      engine.run (engine.create_state none) made = .ok (logs, st) ∧
      ((∃ ts, SseRequest.calls_of limits decode engine body cancelled as =
            made.map .chunk ++ [.flush ts] ∧
          (made.map ChunkCall.samples).flatten = samples ∧
          s.events = (messages logs ++ last_message st ts).map sse_event ∧
          SameWords (final_words s.events) (logs.flatMap ChunkLog.words)) ∨
        (∃ call source, SseRequest.calls_of limits decode engine body cancelled as =
            made.map .chunk ++ [.chunk call] ∧
          (engine.process_chunk call.samples st call.triplet call.ts).1 =
            .error (.Inference source) ∧
          s.events = (messages logs).map sse_event ++
            [.error "Transcription failed." "inference_error"]) ∨
        (∃ last, SseRequest.calls_of limits decode engine body cancelled as =
            made.map .chunk ++ [last] ∧
          ((∃ chunk, last = .panicked chunk) ∨ ∃ call about, last = .chunk call ∧
            (engine.process_chunk call.samples st call.triplet call.ts).1 =
              .error (.panic about)) ∧
          s.events = (messages logs).map sse_event)) := by
  obtain ⟨samples, told, hd, hending, hevents⟩ := (says_run hrun).2.ended hended hcancelled hlost
  generalize SseRequest.calls_of limits decode engine body cancelled as = calls at hending ⊢
  cases hending with
  | @flushed made logs st ts heard =>
    refine ⟨samples, made, logs, st, hd, heard.ran, .inl ⟨ts, rfl, ?_, hevents, ?_⟩⟩
    · rw [← chunks_flatten (by decide : 0 < SSE_CHUNK_SIZE) samples, ← heard.of, List.append_nil]
    · have hall := run_delivered heard.ran Assembled.new
      obtain ⟨hwords, -, -⟩ := flush_spec ts hall.assembled
      rw [hevents, messages, last_message, ← List.map_append, final_words_segments, finals_append]
      exact (SameWords.append rfl hwords).trans hall.finals
  | @failed made logs st left source st' call heard fails =>
    refine ⟨samples, made, logs, st, hd, heard.ran,
      .inr (.inl ⟨call, source, rfl, by rw [fails], ?_⟩)⟩
    rw [hevents, List.map_append]
    rfl
  | @panicked made logs st left about st' call heard panics =>
    exact ⟨samples, made, logs, st, hd, heard.ran,
      .inr (.inr ⟨.chunk call, rfl, .inr ⟨call, about, rfl, by rw [panics]⟩, hevents⟩)⟩
  | @panicked_outside made logs st left chunk heard =>
    exact ⟨samples, made, logs, st, hd, heard.ran,
      .inr (.inr ⟨.panicked chunk, rfl, .inl ⟨chunk, rfl⟩, hevents⟩)⟩

theorem short_upload_at_end : ∃ s made logs st ts,
    SseRequest.run {} short_upload yes_engine [1] false (two_events (says_triplet 1)) = some s ∧
      yes_engine.run (yes_engine.create_state none) made = .ok (logs, st) ∧
      SseRequest.calls_of {} short_upload yes_engine [1] false (two_events (says_triplet 1)) =
        made.map .chunk ++ [.flush ts] ∧
      (made.map ChunkCall.samples).flatten = List.replicate 320 1 ∧
      s.events = (messages logs ++ last_message st ts).map sse_event ∧
      SameWords (final_words s.events) (logs.flatMap ChunkLog.words) ∧
      (final_words s.events).map WordInfo.word = ["yes".toList] := by
  obtain ⟨text, words, hrun, hwords, hcalls⟩ := short_upload_ends
  obtain ⟨samples, made, logs, st, hd, hmade, hend⟩ :=
    client_at_end {} short_upload yes_engine [1] false _ _ hrun rfl rfl nofun
  cases hd
  have hflush : ∀ last, [.chunk (yes_call 320), .flush 0] = made.map SseCall.chunk ++ [last] →
      last = .flush 0 := by
    intro last h
    have hlast := congrArg List.getLast? h
    rw [List.getLast?_concat] at hlast
    exact (Option.some.inj hlast).symm
  rw [hcalls] at hend
  rcases hend with ⟨ts, hmade', hsamples, hevents, hsame⟩ | ⟨call, source, hlast, -⟩ |
    ⟨last, hlast, hpanic, -⟩
  · refine ⟨_, made, logs, st, ts, hrun, hmade, hcalls.trans hmade', hsamples, hevents, hsame, ?_⟩
    rw [← hwords]
    simp [answered, final_words]
  · cases hflush _ hlast
  · obtain rfl := hflush _ hlast
    rcases hpanic with ⟨chunk, h⟩ | ⟨call, about, h, -⟩
    · cases h
    · cases h

end Gigastt.Server
