import Gigastt.Session.Returns

/-!
# How a session ends

The cause of the last turn decides what the server says last. The idle timeout says
nothing, and so leaves words behind that the other endings of the server deliver.
-/

namespace Gigastt.Session

open Decode Server Streaming Words

variable {F D R : Type} {env : Env F D R} {deadline : Instant} {triplet : Triplet F}

/-- The last messages of a session that ends by this cause. -/
def Ending : Cause → List (Sent F) → Prop
  | .stop, msgs => ∃ seg, msgs = [.Text (.Final seg)]
  | .shutdown, msgs => ∃ seg,
      msgs = [.Text (.Final seg), .Close { code := 1001, reason := "server shutdown" }]
  | .session_cap, msgs => ∃ seg,
      msgs = [.Text (.Error "Maximum session duration exceeded" "max_session_duration_exceeded" none),
        .Text (.Final seg), .Close { code := 1008, reason := "max session duration" }]
  | .idle, msgs | .other, msgs => msgs = []

/-- `Ready`, then the body, then these messages. -/
def Spoken (env : Env F D R) (v : Vars F D R) (ending : List (Sent F)) : Prop :=
  ∃ body, v.sink = .Text (ready env) :: (body ++ ending) ∧ ∀ m ∈ body, m.is_body = true

theorem Spoken.said {v v' : Vars F D R} (h : Spoken env v []) (h' : Said v v') :
    Spoken env v' [] := by
  obtain ⟨body, hsink, hbody⟩ := h
  obtain ⟨more, hsink', hmore⟩ := h'
  refine ⟨body ++ more, by simp [hsink', hsink], ?_⟩
  intro m hm
  rcases List.mem_append.mp hm with hm | hm
  · exact hbody m hm
  · exact hmore m hm

theorem Spoken.append {v v' : Vars F D R} {ending : List (Sent F)} (h : Spoken env v [])
    (hsink : v'.sink = v.sink ++ ending) : Spoken env v' ending := by
  obtain ⟨body, hbefore, hbody⟩ := h
  exact ⟨body, by simp [hsink, hbefore], hbody⟩

/-- A turn that goes on adds to the body, and a turn that does not adds its ending. -/
theorem spoken_of_turned {slot : Nat} {it : Iteration F} {result : Option (Except Fault Unit)}
    {v v' : Vars F D R} (hv : Sound slot v) (hspoken : Spoken env v [])
    (h : Turned env deadline slot it v result v') :
    (result = none → Spoken env v' []) ∧
      (result ≠ none → ∃ ending, Ending (it.cause env deadline) ending ∧ Spoken env v' ending) ∧
      (it.cause env deadline ≠ .other → result ≠ none) := by
  cases h with
  | cancelled hc =>
    obtain ⟨seg, hsink, -⟩ := on_cancel_spec env it.ts hv
    refine ⟨by simp, fun _ => ⟨_, ?_, hspoken.append hsink⟩, by simp⟩
    rw [hc]
    exact ⟨seg, rfl⟩
  | capped hc =>
    obtain ⟨seg, hsink, -⟩ := on_deadline_spec env it.ts hv
    refine ⟨by simp, fun _ => ⟨_, ?_, hspoken.append hsink⟩, by simp⟩
    rw [hc]
    exact ⟨seg, rfl⟩
  | idle hc =>
    refine ⟨by simp, fun _ => ⟨[], ?_, hspoken⟩, by simp⟩
    rw [hc]
    rfl
  | hung_up r hc =>
    refine ⟨by simp, fun _ => ⟨[], ?_, hspoken⟩, by simp⟩
    rw [hc]
    rfl
  | message hc h =>
    cases h with
    | served hstop hsound hsaid =>
      have hother : it.cause env deadline = .other := by rw [hc, hstop]; rfl
      have hspoken' : Spoken env v' [] := hspoken.said hsaid
      refine ⟨fun _ => hspoken', fun _ => ⟨[], ?_, hspoken'⟩, fun h => absurd hother h⟩
      rw [hother]
      rfl
    | stopped seg hstop hr =>
      refine ⟨fun h => absurd h (broken_by_stop hr), fun _ => ⟨_, ?_, hspoken.append rfl⟩,
        fun _ => broken_by_stop hr⟩
      rw [hc, hstop]
      exact ⟨seg, rfl⟩
    | unjoined hstop _ _ hsink =>
      have hother : it.cause env deadline = .other := by rw [hc, hstop]; rfl
      refine ⟨by simp [broken_by], fun _ => ⟨[], ?_, hspoken.append ?_⟩, fun h => absurd hother h⟩
      · rw [hother]
        rfl
      · simpa using hsink

/-- The messages whose send worked. -/
def Env.delivered (env : Env F D R) (sink : List (Sent F)) : List (Sent F) :=
  (sink.zipIdx.filter fun m => env.accepts m.2).map Prod.fst

theorem delivered_eq (hsends : ∀ n, env.accepts n = true) (sink : List (Sent F)) :
    env.delivered sink = sink := by
  simp [Env.delivered, hsends]

variable [F32Pcm F]

/-- The session as it is at a loop head. -/
def AtHead (env : Env F D R) (slot : Nat) (s : WsLoop F D R) : Prop :=
  s.result = none → Sound slot s.vars ∧ Spoken env s.vars []

theorem atHead_new : AtHead env triplet.slot (WsLoop.new env triplet) :=
  fun _ => ⟨sound_new triplet, [], rfl, by simp⟩

theorem atHead_step (s : WsLoop F D R) (it : Iteration F) (s' : WsLoop F D R)
    (h : WsLoop.step env deadline s it = some s') (hs : AtHead env triplet.slot s) :
    AtHead env triplet.slot s' := by
  obtain ⟨hv, hspoken⟩ := hs (open_of_step h)
  intro hopen
  exact ⟨sound_step (fun _ => hv) h hopen,
    (spoken_of_turned hv hspoken (turned_of_step hv h)).1 hopen⟩

theorem atHead_of_run {its : List (Iteration F)} {s : WsLoop F D R}
    (hrun : WsLoop.run env deadline triplet its = some s) : AtHead env triplet.slot s :=
  Steps.inv_of_run (AtHead env triplet.slot) atHead_step hrun atHead_new

/-- The turn begins with the token cancelled or the deadline reached. -/
def Iteration.late (deadline : Instant) (it : Iteration F) : Prop :=
  it.cancelled = true ∨ session_cap_reached deadline it.now = true

theorem late_step {s s' : WsLoop F D R} {it : Iteration F}
    (hv : Sound triplet.slot s.vars) (hlate : it.late deadline)
    (h : WsLoop.step env deadline s it = some s') :
    s'.vars.source = s.vars.source ∧ s'.result ≠ none := by
  have hcause : it.cause env deadline = .shutdown ∨ it.cause env deadline = .session_cap := by
    unfold Iteration.cause
    by_cases hc : it.cancelled
    · exact .inl (if_pos hc)
    · rw [if_neg hc, if_pos (hlate.resolve_left hc)]
      exact .inr rfl
  have hturn := turned_of_step hv h
  obtain ⟨v', result⟩ := s'
  dsimp only at hturn ⊢
  cases hturn with
  | cancelled =>
    obtain ⟨-, -, -, -, hsource⟩ := on_cancel_spec env it.ts hv
    exact ⟨hsource, by simp⟩
  | capped =>
    obtain ⟨-, -, -, -, hsource⟩ := on_deadline_spec env it.ts hv
    exact ⟨hsource, by simp⟩
  | idle hc | hung_up _ hc => simp [hc] at hcause
  | message hc =>
    rw [hc] at hcause
    split at hcause <;> simp at hcause

/-- The messages of a session in which sends work: `Ready`, then partials, finals and errors,
then the ending that the cause of the last turn calls for. -/
theorem message_grammar (env : Env F D R) (deadline : Instant) (triplet : Triplet F)
    (its : List (Iteration F)) (s : WsLoop F D R)
    (hsends : ∀ n, env.accepts n = true)
    (hrun : WsLoop.run env deadline triplet its = some s) :
    (s.result = none → ∃ body,
      env.delivered s.vars.sink = .Text (ready env) :: body ∧ ∀ m ∈ body, m.is_body = true) ∧
    (s.result ≠ none → (∀ it, WsLoop.step env deadline s it = none) ∧
      ∃ before last body ending, its = before ++ [last] ∧
        env.delivered s.vars.sink = .Text (ready env) :: (body ++ ending) ∧
        (∀ m ∈ body, m.is_body = true) ∧ Ending (last.cause env deadline) ending) ∧
    Steps.EachStep (WsLoop.step env deadline)
      (fun s it => ∀ s', WsLoop.step env deadline s it = some s' →
        (it.cause env deadline ≠ .other → s'.result ≠ none) ∧
        (it.late deadline → s'.vars.source = s.vars.source ∧ s'.result ≠ none))
      (WsLoop.new env triplet) its := by
  rw [delivered_eq hsends]
  refine ⟨?_, ?_, ?_⟩
  · intro hopen
    obtain ⟨-, body, hsink, hbody⟩ := atHead_of_run hrun hopen
    exact ⟨body, by simpa using hsink, hbody⟩
  · intro hended
    constructor
    · intro it
      obtain ⟨result, hresult⟩ := Option.ne_none_iff_exists'.mp hended
      simp [WsLoop.step, hresult]
    · rcases Steps.run_last hrun with ⟨-, rfl⟩ | ⟨before, last, s₁, hits, hbefore, hlast⟩
      · exact absurd rfl hended
      · obtain ⟨hv, hspoken⟩ := atHead_of_run hbefore (open_of_step hlast)
        obtain ⟨-, hend, -⟩ := spoken_of_turned hv hspoken (turned_of_step hv hlast)
        obtain ⟨ending, hending, body, hsink, hbody⟩ := hend hended
        exact ⟨before, last, body, ending, hits, hsink, hbody, hending⟩
  · refine Steps.eachStep_of_inv (AtHead env triplet.slot) atHead_step ?_ atHead_new its
    intro s it hs s' h
    obtain ⟨hv, hspoken⟩ := hs (open_of_step h)
    obtain ⟨-, -, hends⟩ := spoken_of_turned hv hspoken (turned_of_step hv h)
    exact ⟨hends, fun hlate => late_step hv hlate h⟩

theorem message_grammar_after_panic :
    ∃ s, WsLoop.run yes_env .last yes_triplet (rough_session ++ [stop_turn]) = some s ∧
      s.result ≠ none ∧ ∃ body seg,
        yes_env.delivered s.vars.sink = .Text (ready yes_env) :: (body ++ [.Text (.Final seg)]) ∧
        body.length = 2 ∧ ∀ m ∈ body, m.is_body = true := by
  obtain ⟨s, seg, last, hrun, hresult, hsaid⟩ := rough_session_stops
  have hended : s.result ≠ none := by simp [hresult]
  obtain ⟨-, before, last, body, ending, hits, hsink, hbody, hending⟩ :=
    (message_grammar yes_env .last yes_triplet _ s (fun _ => rfl) hrun).2.1 hended
  obtain ⟨rfl, hlast⟩ := List.append_inj' hits rfl
  obtain rfl := List.singleton_inj.mp hlast
  have hcause : stop_turn.cause yes_env .last = .stop := by
    have hahead : session_cap_reached .last stop_turn.now = false := rfl
    unfold Iteration.cause stops
    rw [hahead]
    simp [stop_turn, yes_turn, from_str_stop]
  rw [hcause] at hending
  obtain ⟨seg, rfl⟩ := hending
  refine ⟨s, hrun, hended, body, seg, hsink, ?_, hbody⟩
  have hlength := congrArg List.length (hsink.symm.trans (delivered_eq (fun _ => rfl) _))
  simp [hsaid, rough_sink] at hlength
  exact hlength

/-! ## Words at the end -/

def Cause.by_server : Cause → Bool
  | .shutdown | .session_cap | .idle => true
  | .stop | .other => false

/-- The messages between these two states carry the pending words in a final. -/
def Farewell (env : Env F D R) (s s' : WsLoop F D R) : Prop :=
  s.vars.pending ≠ [] → ∃ seg, seg.words = s.vars.pending ∧
    .Text (.Final seg) ∈ (env.delivered s'.vars.sink).drop (env.delivered s.vars.sink).length

/-- Of the endings of the server, only the idle timeout leaves pending words behind. -/
theorem farewell_iff (env : Env F D R) (deadline : Instant) (triplet : Triplet F)
    (its : List (Iteration F)) (last : Iteration F) (s s' : WsLoop F D R)
    (hsends : ∀ n, env.accepts n = true)
    (hrun : WsLoop.run env deadline triplet its = some s)
    (hlast : WsLoop.step env deadline s last = some s')
    (hserver : (last.cause env deadline).by_server = true) :
    Farewell env s s' ↔ ¬ (last.cause env deadline = .idle ∧ s.vars.pending ≠ []) := by
  have hv := sound_of_run hrun (open_of_step hlast)
  have hturn := turned_of_step hv hlast
  unfold Farewell
  rw [delivered_eq hsends, delivered_eq hsends]
  obtain ⟨v', result⟩ := s'
  dsimp only at hturn ⊢
  cases hturn with
  | cancelled hc =>
    obtain ⟨seg, hsink, hwords, -⟩ := on_cancel_spec env last.ts hv
    refine iff_of_true (fun _ => ⟨seg, hwords, ?_⟩) (by simp [hc])
    rw [hsink, List.drop_left]
    simp
  | capped hc =>
    obtain ⟨seg, hsink, hwords, -⟩ := on_deadline_spec env last.ts hv
    refine iff_of_true (fun _ => ⟨seg, hwords, ?_⟩) (by simp [hc])
    rw [hsink, List.drop_left]
    simp
  | idle hc =>
    simp [hc]
  | hung_up _ hc => simp [hc, Cause.by_server] at hserver
  | message hc =>
    rw [hc] at hserver
    split at hserver <;> simp [Cause.by_server] at hserver

/-- Before its Stop the rough session has a word pending, and has sent no final. -/
theorem yes_pending :
    ∃ its s, WsLoop.run yes_env .last yes_triplet its = some s ∧ s.result = none ∧
      s.vars.pending.map WordInfo.word = ["yes".toList] ∧
      ∀ seg, .Text (.Final seg) ∉ s.vars.sink := by
  obtain ⟨seg, stream, hrun, hsegment, hwords⟩ := rough_session_open
  refine ⟨rough_session, _, hrun, rfl, hwords, ?_⟩
  simp [rough, rough_sink, segment_message, hsegment, ready]

/-- A shutdown sends the pending word in a final. -/
theorem farewell_at_shutdown :
    ∃ its s s', WsLoop.run yes_env .last yes_triplet its = some s ∧
      s.vars.pending.map WordInfo.word = ["yes".toList] ∧
      WsLoop.step yes_env .last s { yes_turn .idle_timeout with cancelled := true } = some s' ∧
      Farewell yes_env s s' := by
  obtain ⟨its, s, hrun, hopen, hwords, -⟩ := yes_pending
  obtain ⟨s', hlast⟩ :=
    step_of_open yes_env .last hopen { yes_turn .idle_timeout with cancelled := true }
  refine ⟨its, s, s', hrun, hwords, hlast,
    (farewell_iff yes_env .last yes_triplet _ _ s s' (fun _ => rfl) hrun hlast rfl).mpr ?_⟩
  simp [Iteration.cause]

/-- The word `yes` of an idle client is never sent in a final. -/
theorem idle_timeout_drops_words :
    (∀ n, yes_env.accepts n = true) ∧
    ∃ its s s', WsLoop.run yes_env .last yes_triplet its = some s ∧
      s.vars.pending.map WordInfo.word = ["yes".toList] ∧
      WsLoop.step yes_env .last s (yes_turn .idle_timeout) = some s' ∧
      ((yes_turn .idle_timeout).cause yes_env .last).by_server = true ∧
      s'.result = some (.ok ()) ∧ (∀ seg, .Text (.Final seg) ∉ yes_env.delivered s'.vars.sink) ∧
      ¬ Farewell yes_env s s' := by
  refine ⟨fun _ => rfl, ?_⟩
  obtain ⟨its, s, hrun, hopen, hwords, hfinal⟩ := yes_pending
  have hlast : WsLoop.step yes_env .last s (yes_turn .idle_timeout) =
      some { vars := s.vars, result := some (.ok ()) } := by
    unfold WsLoop.step
    rw [hopen]
    rfl
  have hdelivered : yes_env.delivered s.vars.sink = s.vars.sink := delivered_eq (fun _ => rfl) _
  refine ⟨its, s, _, hrun, hwords, hlast, rfl, rfl, ?_, ?_⟩
  · rw [hdelivered]
    exact hfinal
  · intro h
    obtain ⟨seg, -, hseg⟩ := h (by rintro hnil; simp [hnil] at hwords)
    rw [hdelivered] at hseg
    exact hfinal seg (List.mem_of_mem_drop hseg)

end Gigastt.Session
