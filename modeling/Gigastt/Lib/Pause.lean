import Mathlib.Data.List.Infix

/-!
# Waiting for a pause

A detector reads a stream of events, `true` where something happens. It counts the
steps since the last event, that step included, and fires when the count reaches a
threshold, once it has seen an event.
-/

namespace Gigastt.Pause

variable {threshold : Nat}

def count (n : Nat) (event : Bool) : Nat := if event then 1 else n + 1

/-- Whether the detector fires at some step, from the count `n`. -/
def fires (threshold : Nat) : (n : Nat) → (seen : Bool) → List Bool → Bool
  | _, _, [] => false
  | n, seen, event :: events =>
    let n := count n event
    let seen := seen || event
    (decide (n ≥ threshold) && seen) || fires threshold n seen events

/-- An event and then nothing, as long as it takes to fire. -/
def pause (threshold : Nat) : List Bool := true :: List.replicate (threshold - 1) false

theorem pause_infix_false_cons (events : List Bool) :
    pause threshold <:+: false :: events ↔ pause threshold <:+: events := by
  rw [List.infix_cons_iff, or_iff_right]
  rintro ⟨rest, hrest⟩
  simp [pause] at hrest

theorem pause_infix_quiet (k : Nat) (events : List Bool) :
    pause threshold <:+: List.replicate k false ++ events ↔ pause threshold <:+: events := by
  induction k with
  | zero => rfl
  | succ k ih => rw [List.replicate_succ, List.cons_append, pause_infix_false_cons, ih]

theorem pause_infix_interrupted {k : Nat} (hk : k + 1 < threshold) (events : List Bool) :
    pause threshold <:+: true :: (List.replicate k false ++ true :: events) ↔
      pause threshold <:+: true :: events := by
  rw [List.infix_cons_iff, pause_infix_quiet, or_iff_right]
  rintro ⟨rest, hrest⟩
  have hevent := congrArg (fun l : List Bool => l[k + 1]?) hrest
  simp [pause, List.getElem?_append, show k < threshold - 1 by omega] at hevent

/-- After an event and `k` quiet steps, the detector fires iff they belong to a pause or one
comes later. -/
theorem fires_after_event {k : Nat} (hk : k + 1 < threshold) (events : List Bool) :
    fires threshold (k + 1) true events = true ↔
      pause threshold <:+: true :: (List.replicate k false ++ events) := by
  induction events generalizing k with
  | nil =>
    simp only [fires, Bool.false_eq_true, false_iff]
    intro hinfix
    have := hinfix.length_le
    simp [pause] at this
    omega
  | cons event events ih =>
    match event with
    | true =>
      rw [pause_infix_interrupted hk]
      simpa [fires, count, show ¬ threshold ≤ 1 by omega] using ih (k := 0) (by omega)
    | false =>
      have hquiet : List.replicate k false ++ false :: events =
          List.replicate (k + 1) false ++ events := by
        rw [List.replicate_succ', List.append_assoc]
        rfl
      rw [hquiet]
      by_cases hlast : k + 2 < threshold
      · simpa [fires, count, show ¬ threshold ≤ k + 2 by omega] using ih hlast
      · have hfull : threshold - 1 = k + 1 := by omega
        simp only [fires, count, show k + 1 + 1 ≥ threshold by omega, decide_true, Bool.and_true,
          Bool.true_or, Bool.false_eq_true, if_false, true_iff]
        unfold pause
        rw [hfull]
        exact (List.prefix_append (true :: List.replicate (k + 1) false) events).isInfix

/-- From any count, a detector that has seen nothing fires iff the stream has a pause. -/
theorem fires_iff (hthreshold : 1 < threshold) (n : Nat) (events : List Bool) :
    fires threshold n false events = true ↔ pause threshold <:+: events := by
  induction events generalizing n with
  | nil => simp [fires, pause]
  | cons event events ih =>
    match event with
    | true =>
      simpa [fires, count, show ¬ threshold ≤ 1 by omega] using
        fires_after_event (k := 0) (by omega) events
    | false => simpa [fires, pause_infix_false_cons] using ih (count n false)

/-! ## One more step -/

/-- The steps since the last event, or since the start. -/
def quiet (events : List Bool) : Nat := (events.reverse.takeWhile fun event => !event).length

theorem quiet_concat (events : List Bool) (event : Bool) :
    quiet (events ++ [event]) = if event then 0 else quiet events + 1 := by
  unfold quiet
  rw [List.reverse_concat]
  cases event
  · rfl
  · rfl

/-- The count is one ahead of the quiet steps once there was an event. -/
theorem foldl_count (events : List Bool) :
    events.foldl count 0 = quiet events + if events.any id then 1 else 0 := by
  induction events using List.reverseRecOn with
  | nil => rfl
  | append_singleton events event ih =>
    rw [List.foldl_concat, quiet_concat, ih]
    cases event
    · simp only [count, Bool.false_eq_true, if_false, List.any_append, List.any_cons, List.any_nil,
        id_eq, Bool.or_false]
      omega
    · simp [count]

theorem fires_concat (n : Nat) (seen : Bool) (events : List Bool) (event : Bool) :
    fires threshold n seen (events ++ [event]) = (fires threshold n seen events ||
      (decide (count (events.foldl count n) event ≥ threshold) &&
        (seen || events.any id || event))) := by
  induction events generalizing n seen with
  | nil => simp [fires]
  | cons first events ih =>
    rw [List.cons_append, fires, fires, ih, List.foldl_cons, List.any_cons]
    simp only [id_eq, Bool.or_assoc]

end Gigastt.Pause
