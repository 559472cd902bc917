import Mathlib.Algebra.Order.Ring.Nat

/-!
# The limits of a running server

`RuntimeLimits` with the fields that the modelled handlers read.
-/

namespace Gigastt.Server

structure RuntimeLimits where
  body_limit_bytes : Nat := 50 * 1024 * 1024
  max_session_secs : UInt64 := 3600
  pool_checkout_timeout_secs : UInt64 := 30
deriving DecidableEq, Repr

def saturating_mul (a b : UInt64) : UInt64 := UInt64.ofNat (min (a.toNat * b.toNat) (2 ^ 64 - 1))

def pool_retry_after_ms (limits : RuntimeLimits) : UInt32 :=
  UInt32.ofNat (min (saturating_mul limits.pool_checkout_timeout_secs 1000).toNat (2 ^ 32 - 1))

def pool_retry_after_secs (limits : RuntimeLimits) : UInt64 := limits.pool_checkout_timeout_secs

end Gigastt.Server
