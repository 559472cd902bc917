import Gigastt.Base
import Gigastt.Server.Limits

/-!
# The deadline of a WebSocket session

`handle_ws_inner` up to its loop, and the test of the deadline in the loop. A clock
reading is what std keeps of it on Unix: seconds in an `i64`, and nanoseconds.
-/

namespace Gigastt.Server

/-! ## Clock readings -/

def NSEC_PER_SEC : Nat := 1000000000

theorem nsec_per_sec_pos : 0 < NSEC_PER_SEC := by decide

@[ext]
structure Instant where
  tv_sec : Int
  tv_nsec : Nat
  sec_ge : -2 ^ 63 ≤ tv_sec
  sec_lt : tv_sec < 2 ^ 63
  nsec_lt : tv_nsec < NSEC_PER_SEC
deriving DecidableEq

structure Duration where
  secs : UInt64
  nanos : Nat
  nanos_lt : nanos < NSEC_PER_SEC
deriving DecidableEq

def Duration.from_secs (secs : UInt64) : Duration := { secs, nanos := 0, nanos_lt := by decide }

instance : LE Instant where
  le t u := t.tv_sec < u.tv_sec ∨ t.tv_sec = u.tv_sec ∧ t.tv_nsec ≤ u.tv_nsec

instance (t u : Instant) : Decidable (t ≤ u) :=
  inferInstanceAs (Decidable (t.tv_sec < u.tv_sec ∨ t.tv_sec = u.tv_sec ∧ t.tv_nsec ≤ u.tv_nsec))

theorem Instant.le_def {t u : Instant} :
    t ≤ u ↔ t.tv_sec < u.tv_sec ∨ t.tv_sec = u.tv_sec ∧ t.tv_nsec ≤ u.tv_nsec := Iff.rfl

def Instant.last : Instant where
  tv_sec := 2 ^ 63 - 1
  tv_nsec := NSEC_PER_SEC - 1
  sec_ge := by decide
  sec_lt := by decide
  nsec_lt := by decide

theorem Instant.le_last (t : Instant) : t ≤ last := by
  have hsec := t.sec_lt
  have hnsec := t.nsec_lt
  rw [le_def]
  unfold last
  simp only
  omega

/-- `Instant::checked_add`. `t + d` panics where this is `none`. -/
def Instant.checked_add (t : Instant) (d : Duration) : Option Instant :=
  let nsec := t.tv_nsec + d.nanos
  let carry : Nat := if nsec < NSEC_PER_SEC then 0 else 1
  let sec := t.tv_sec + d.secs.toNat + carry
  if h : sec < 2 ^ 63 then
    some {
      tv_sec := sec
      tv_nsec := nsec - carry * NSEC_PER_SEC
      sec_ge := by have := t.sec_ge; omega
      sec_lt := h
      nsec_lt := by have := t.nsec_lt; have := d.nanos_lt; grind }
  else none

theorem Instant.checked_add_from_secs {t u : Instant} {secs : UInt64} :
    t.checked_add (.from_secs secs) = some u ↔
      u.tv_sec = t.tv_sec + secs.toNat ∧ u.tv_nsec = t.tv_nsec := by
  have hsec := u.sec_lt
  have hcarry : (if t.tv_nsec < NSEC_PER_SEC then 0 else 1) = 0 := if_pos t.nsec_lt
  unfold checked_add Duration.from_secs
  simp only [Nat.add_zero, hcarry, Nat.zero_mul, Nat.sub_zero, Option.dite_none_right_eq_some,
    Option.some.injEq]
  constructor
  · rintro ⟨-, rfl⟩
    simp
  · rintro ⟨hs, hn⟩
    refine ⟨by omega, Instant.ext ?_ hn.symm⟩
    simp [hs]

theorem Instant.checked_add_from_secs_isSome {t : Instant} {secs : UInt64} :
    (∃ u, t.checked_add (.from_secs secs) = some u) ↔ t.tv_sec + secs.toNat < 2 ^ 63 := by
  constructor
  · rintro ⟨u, hu⟩
    have hsec := u.sec_lt
    have := (checked_add_from_secs.mp hu).1
    omega
  · intro hfits
    have hge := t.sec_ge
    let u : Instant :=
      { tv_sec := t.tv_sec + secs.toNat, tv_nsec := t.tv_nsec, sec_ge := by omega,
        sec_lt := hfits, nsec_lt := t.nsec_lt }
    exact ⟨u, checked_add_from_secs.mpr ⟨rfl, rfl⟩⟩

/-! ## The session -/

def FAR_FUTURE_SECS : UInt64 := 18446744073709551615 / 2

def session_deadline (limits : RuntimeLimits) (now : Instant) : Option Instant :=
  if limits.max_session_secs = 0 then now.checked_add (.from_secs FAR_FUTURE_SECS)
  else now.checked_add (.from_secs limits.max_session_secs)

/-- How far `handle_ws_inner` comes before its loop. -/
inductive Entry (T : Type) where
  | send_failed (triplet : T) (error : Fault)
  | panicked
  | session_loop (deadline : Instant) (triplet : T)
deriving DecidableEq

variable {T : Type}

/-- `handle_ws_inner` up to its loop, where `sent` is what became of the `Ready` message. -/
def enter_session (limits : RuntimeLimits) (now : Instant) (sent : Except Fault Unit)
    (triplet : T) : Entry T :=
  match sent with
  | .error e => .send_failed triplet e
  | .ok () =>
    match session_deadline limits now with
    | none => .panicked
    | some deadline => .session_loop deadline triplet

/-- The check at the head of the loop, and what `sleep_until` waits for. -/
def session_cap_reached (deadline now : Instant) : Bool := decide (deadline ≤ now)

/-- What `handle_ws` gives to `checkin`. A panic unwinds past it. -/
def handle_ws (session_loop : Instant → T → Option T) : Entry T → Option T
  | .send_failed triplet _ => some triplet
  | .panicked => none
  | .session_loop deadline triplet => session_loop deadline triplet

/-- What the cap promises of a session opened at `now`: it runs, and a cap of 0 never ends it. -/
structure CapHolds (limits : RuntimeLimits) (now : Instant) (triplet : T) : Prop where
  enters : ∃ deadline, enter_session limits now (.ok ()) triplet = .session_loop deadline triplet
  uncapped : limits.max_session_secs = 0 → ∀ deadline,
    enter_session limits now (.ok ()) triplet = .session_loop deadline triplet →
      ∀ later, now ≤ later → session_cap_reached deadline later = false

theorem enter_session_ok {limits : RuntimeLimits} {now deadline : Instant} {triplet : T} :
    enter_session limits now (.ok ()) triplet = .session_loop deadline triplet ↔
      session_deadline limits now = some deadline := by
  unfold enter_session
  cases session_deadline limits now <;> simp

/-- The slot of a session whose deadline does not fit is never given back. -/
theorem handle_ws_overflow {limits : RuntimeLimits} {now : Instant}
    (h : session_deadline limits now = none) (session_loop : Instant → T → Option T) (triplet : T) :
    handle_ws session_loop (enter_session limits now (.ok ()) triplet) = none := by
  unfold enter_session
  rw [h]
  rfl

theorem session_deadline_isSome {limits : RuntimeLimits} {now : Instant} :
    (∃ deadline, session_deadline limits now = some deadline) ↔
      now.tv_sec + (if limits.max_session_secs = 0 then FAR_FUTURE_SECS
        else limits.max_session_secs).toNat < 2 ^ 63 := by
  unfold session_deadline
  split <;> exact Instant.checked_add_from_secs_isSome

theorem session_cap_holds_iff (limits : RuntimeLimits) (now : Instant) (triplet : T) :
    CapHolds limits now triplet ↔
      limits.max_session_secs ≠ 0 ∧ now.tv_sec + limits.max_session_secs.toNat < 2 ^ 63 := by
  constructor
  · rintro ⟨⟨deadline, hin⟩, huncapped⟩
    have hcapped : limits.max_session_secs ≠ 0 := by
      intro h0
      have hfires := huncapped h0 deadline hin .last now.le_last
      have hlast : deadline ≤ .last := deadline.le_last
      simp [session_cap_reached, hlast] at hfires
    refine ⟨hcapped, ?_⟩
    have hfits := session_deadline_isSome.mp ⟨deadline, enter_session_ok.mp hin⟩
    rwa [if_neg hcapped] at hfits
  · rintro ⟨hcapped, hfits⟩
    constructor
    · obtain ⟨deadline, hd⟩ := session_deadline_isSome.mpr (by rwa [if_neg hcapped])
      exact ⟨deadline, enter_session_ok.mpr hd⟩
    · intro h0
      exact absurd h0 hcapped

/-- One second after boot, `max_session_secs = 0` no longer fits. -/
theorem uncapped_session_panics :
    ∃ now : Instant, now.tv_sec = 1 ∧
      enter_session { max_session_secs := 0 } now (.ok ()) 7 = .panicked ∧
      ¬ CapHolds { max_session_secs := 0 } now 7 := by
  refine ⟨⟨1, 0, by decide, by decide, by decide⟩, rfl, by decide, ?_⟩
  rintro ⟨⟨deadline, hin⟩, -⟩
  have hpanic : enter_session { max_session_secs := 0 } ⟨1, 0, by decide, by decide, by decide⟩
      (.ok ()) 7 = .panicked := by decide
  rw [hpanic] at hin
  cases hin

end Gigastt.Server
