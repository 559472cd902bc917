import Gigastt.Server.Transcribe

/-!
# The slot of a request

Only the handler gives the triplet back, and it can only do so when it lives to see the
task done. `Trans` lists what a step can do, and `Wf` ties the log to where the handler
and the task are.
-/

namespace Gigastt.Server

variable {T F : Type} {limits : RuntimeLimits} {s s' : Request T F}

def Request.Ended (s : Request T F) : Prop :=
  match s.handler, s.task with
  | .returned _, .none | .returned _, .joined _ => True
  | .dropped, .none | .dropped, .failed | .dropped, .discarded => True
  | _, _ => False

/-- The join failed, or the triplet was given back once, after the closure was done with it. -/
def Request.KeepsSlot (s : Request T F) : Prop :=
  s.task = .joined none ∨ ∃ triplet, s.log = [.closure_done triplet, .checked_in triplet]

/-! ## What a step can do -/

inductive Trans (s : Request T F) : Action T F → Request T F → Prop where
  | obtain_guard {guard} (hh : s.handler = .checking_out) :
      Trans s (.checked_out (.guard guard))
        { s with handler := .joining {}, task := .queued guard.item }
  | refuse {outcome response} (hh : s.handler = .checking_out)
      (ho : ∀ guard, outcome ≠ .guard guard) :
      Trans s (.checked_out outcome) { s with handler := .returned response }
  | start {triplet} (ht : s.task = .queued triplet) :
      Trans s .start { s with task := .running triplet }
  | finish {infer triplet} (ht : s.task = .running triplet) (hh : s.handler ≠ .dropped) :
      Trans s (.finish infer)
        { s with task := .finished (closure infer triplet)
                 log := s.log ++ [.closure_done (closure infer triplet).2] }
  | finish_unseen {infer triplet} (ht : s.task = .running triplet) (hh : s.handler = .dropped) :
      Trans s (.finish infer)
        { s with task := .discarded
                 log := s.log ++ [.closure_done (closure infer triplet).2] }
  | fail {triplet} (ht : s.task = .queued triplet ∨ s.task = .running triplet) :
      Trans s .fail { s with task := .failed }
  | join {reservation value response} (hh : s.handler = .joining reservation)
      (ht : s.task = .finished value) :
      Trans s .poll { handler := .returned response, task := .joined (some value),
                      log := s.log ++ [.checked_in value.2] }
  | join_failed {reservation response} (hh : s.handler = .joining reservation)
      (ht : s.task = .failed) :
      Trans s .poll { s with handler := .returned response, task := .joined none }
  | leave_checkout (hh : s.handler = .checking_out) : Trans s .drop { s with handler := .dropped }
  | leave_join {reservation} (hh : s.handler = .joining reservation) :
      Trans s .drop { s with handler := .dropped, task := s.task.detach }

theorem on_join_some (reservation : OwnedReservation)
    (value : Except Fault (TranscribeResult F) × T) :
    (on_join reservation (some value)).2 = [.checked_in value.2] := by
  obtain ⟨_ | _, triplet⟩ := value <;> rfl

theorem trans_of_step {a : Action T F} (h : s.step limits a = some s') : Trans s a s' := by
  cases a with
  | checked_out outcome =>
    simp only [Request.step] at h
    split at h
    case h_1 hh => cases h; exact .obtain_guard hh
    case h_2 hh => cases h; exact .refuse hh (by simp)
    case h_3 hh => cases h; exact .refuse hh (by simp)
    case h_4 => simp at h
  | start =>
    simp only [Request.step] at h
    split at h
    case h_1 ht => cases h; exact .start ht
    case h_2 => simp at h
  | finish infer =>
    simp only [Request.step] at h
    split at h
    case h_1 ht hh => cases h; exact .finish_unseen ht hh
    case h_2 ht hh => cases h; exact .finish ht hh
    case h_3 => simp at h
  | fail =>
    simp only [Request.step] at h
    split at h
    case h_1 ht => cases h; exact .fail (.inl ht)
    case h_2 ht => cases h; exact .fail (.inr ht)
    case h_3 => simp at h
  | poll =>
    simp only [Request.step, on_join_some] at h
    split at h
    case h_1 hh ht => cases h; exact .join hh ht
    case h_2 hh ht =>
      simp only [on_join, OwnedReservation.drop, List.append_nil] at h
      cases h
      exact .join_failed hh ht
    case h_3 => simp at h
  | drop =>
    simp only [Request.step, OwnedReservation.drop, List.append_nil] at h
    split at h
    case h_1 hh => cases h; exact .leave_checkout hh
    case h_2 hh => cases h; exact .leave_join hh
    case h_3 => simp at h

/-! ## What the log holds -/

def Request.Wf (s : Request T F) : Prop :=
  match s.handler, s.task with
  | .checking_out, .none | .returned _, .none | .dropped, .none => s.log = []
  | .joining _, .queued _ | .joining _, .running _ | .joining _, .failed => s.log = []
  | .dropped, .queued _ | .dropped, .running _ | .dropped, .failed => s.log = []
  | .joining _, .finished value => s.log = [.closure_done value.2]
  | .returned _, .joined (some value) => s.log = [.closure_done value.2, .checked_in value.2]
  | .returned _, .joined none => s.log = []
  | .dropped, .discarded => ∃ triplet, s.log = [.closure_done triplet]
  | _, _ => False

theorem wf_transcribe (limits : RuntimeLimits) (body : List UInt8) :
    (transcribe limits body : Request T F).Wf := by
  unfold transcribe
  split
  · rfl
  · split <;> rfl

theorem wf_step {a : Action T F} (h : s.step limits a = some s') (hwf : s.Wf) : s'.Wf := by
  obtain ⟨handler, task, log⟩ := s
  cases trans_of_step h with
  | obtain_guard hh =>
    subst hh
    cases task <;> simp_all [Request.Wf]
  | refuse hh =>
    subst hh
    cases task <;> simp_all [Request.Wf]
  | start ht =>
    subst ht
    cases handler <;> simp_all [Request.Wf]
  | finish ht hh =>
    subst ht
    cases handler <;> simp_all [Request.Wf]
  | finish_unseen ht hh =>
    subst ht
    subst hh
    simp_all [Request.Wf]
  | fail ht =>
    rcases ht with rfl | rfl <;> cases handler <;> simp_all [Request.Wf]
  | join hh ht =>
    subst hh
    subst ht
    simp_all [Request.Wf]
  | join_failed hh ht =>
    subst hh
    subst ht
    simp_all [Request.Wf]
  | leave_checkout hh =>
    subst hh
    cases task <;> simp_all [Request.Wf]
  | leave_join hh =>
    subst hh
    cases task <;> simp_all [Request.Wf, Task.detach]

/-! ## What the state shows of the run -/

theorem task_step {a : Action T F} (h : s.step limits a = some s') :
    s'.task ≠ .none ↔ s.task ≠ .none ∨ ∃ guard, a = .checked_out (.guard guard) := by
  cases trans_of_step h with
  | fail ht => rcases ht with ht | ht <;> simp [ht]
  | leave_join hh =>
    obtain ⟨handler, task, log⟩ := s
    subst hh
    cases task <;> simp_all [Task.detach]
  | _ => simp_all

theorem dropped_step {a : Action T F} (h : s.step limits a = some s') :
    s'.handler = .dropped ↔ s.handler = .dropped ∨ a = .drop := by
  cases trans_of_step h <;> simp_all

/-- A request that ended kept the slot unless its handler was dropped. -/
theorem keepsSlot_iff_of_ended (hwf : s.Wf) (hend : s.Ended) (htask : s.task ≠ .none) :
    s.KeepsSlot ↔ s.handler ≠ .dropped := by
  obtain ⟨handler, task, log⟩ := s
  cases handler with
  | checking_out => simp [Request.Ended] at hend
  | joining => simp [Request.Ended] at hend
  | returned response =>
    cases task with
    | joined result =>
      cases result with
      | none => simp [Request.KeepsSlot]
      | some value =>
        have hlog : log = [.closure_done value.2, .checked_in value.2] := hwf
        simp [Request.KeepsSlot, hlog]
    | _ => simp_all [Request.Ended]
  | dropped =>
    cases task with
    | failed =>
      have hlog : log = [] := hwf
      simp [Request.KeepsSlot, hlog]
    | discarded =>
      obtain ⟨triplet, hlog⟩ : ∃ triplet, log = [.closure_done triplet] := hwf
      simp [Request.KeepsSlot, hlog]
    | _ => simp_all [Request.Ended]

/-! ## Runs -/

theorem wf_run {body : List UInt8} {as : List (Action T F)}
    (hrun : Request.run limits body as = some s) : s.Wf :=
  Steps.inv_of_run Request.Wf (fun _ _ _ h hwf => wf_step h hwf) hrun (wf_transcribe limits body)

theorem task_run {body : List UInt8} {as : List (Action T F)}
    (hrun : Request.run limits body as = some s) :
    s.task ≠ .none ↔ ∃ guard, .checked_out (.guard guard) ∈ as := by
  have hmark := Steps.mark_of_run (fun s => s.task ≠ .none)
    (fun a => ∃ guard, a = .checked_out (.guard guard)) (fun _ _ _ h => task_step h) hrun
  rw [hmark]
  simp only [transcribe, ne_eq, not_true_eq_false, false_or]
  constructor
  · rintro ⟨_, ha, guard, rfl⟩
    exact ⟨guard, ha⟩
  · rintro ⟨guard, ha⟩
    exact ⟨_, ha, guard, rfl⟩

theorem dropped_transcribe (limits : RuntimeLimits) (body : List UInt8) :
    (transcribe limits body : Request T F).handler ≠ .dropped := by
  unfold transcribe
  split
  · simp
  · split <;> simp

theorem dropped_run {body : List UInt8} {as : List (Action T F)}
    (hrun : Request.run limits body as = some s) : s.handler = .dropped ↔ .drop ∈ as := by
  have hmark := Steps.mark_of_run (fun s => s.handler = .dropped) (fun a => a = .drop)
    (fun _ _ _ h => dropped_step h) hrun
  rw [hmark]
  simp [dropped_transcribe]

/-- A request that got a guard keeps the slot of the pool exactly when its handler lives to the
end. -/
theorem transcribe_keeps_slot_iff (limits : RuntimeLimits) (body : List UInt8)
    (as : List (Action T F)) (s : Request T F) (hrun : Request.run limits body as = some s)
    (hguard : ∃ guard, .checked_out (.guard guard) ∈ as) (hend : s.Ended) :
    s.KeepsSlot ↔ .drop ∉ as := by
  have htask : s.task ≠ .none := (task_run hrun).mpr hguard
  rw [keepsSlot_iff_of_ended (wf_run hrun) hend htask, ne_eq, dropped_run hrun]

/-- Inference panics, and the handler waits for it. -/
def panicking : List (Action Nat Int) :=
  [.checked_out (.guard { item := 7 }), .start, .finish fun triplet => (.panicked, triplet), .poll]

theorem transcribe_keeps_slot_panic :
    ∃ s, Request.run {} [1] panicking = some s ∧ s.KeepsSlot := by
  obtain ⟨s, hrun, hend⟩ : ∃ s, Request.run {} [1] panicking = some s ∧ s.Ended :=
    ⟨_, rfl, trivial⟩
  have hguard : ∃ guard, .checked_out (.guard guard) ∈ panicking :=
    ⟨{ item := 7 }, by simp [panicking]⟩
  exact ⟨s, hrun, (transcribe_keeps_slot_iff {} [1] panicking s hrun hguard hend).mpr
    (by simp [panicking])⟩

/-- Inference returns, but the client left while it ran. -/
theorem slot_lost_to_disconnect :
    ∃ s : Request Nat Int,
      Request.run {} [1] [.checked_out (.guard { item := 7 }), .start, .drop,
        .finish fun triplet =>
          (.returned (.ok { text := [], words := [], duration_s := 1 }), triplet)] = some s ∧
      s.Ended ∧ s.log = [.closure_done 7] ∧ ¬ s.KeepsSlot := by
  refine ⟨_, rfl, trivial, rfl, ?_⟩
  rintro (htask | ⟨triplet, hlog⟩)
  · cases htask
  · have hlen := congrArg List.length hlog
    cases hlen

end Gigastt.Server
