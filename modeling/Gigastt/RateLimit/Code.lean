import Gigastt.Words.Code
import Mathlib.Algebra.Order.Ring.Unbundled.Rat
import Mathlib.Logic.Function.Basic

/-!
# The per-IP rate limiter: `rate_limit.rs`

With the task of `run_with_config_listener` that drops stale buckets. Time is in
nanoseconds.
-/

namespace Gigastt.RateLimit

open Words

/-! ## Clocks -/

/-- What a call reads: the monotonic clock, and the wall clock from the Unix epoch on. -/
structure Clock where
  instant : Nat
  wall : Int
deriving DecidableEq, Repr

/-- A time before the epoch counts as 0. -/
def unix_ms (wall : Int) : Nat := if wall < 0 then 0 else wall.toNat / 1000000 % 2 ^ 64

/-- The `f64` operations of the limiter. No law is assumed of them. -/
class F64 (Q : Type) extends Add Q, Sub Q, Mul Q, Div Q, NatCast Q where
  min : Q → Q → Q
  le : Q → Q → Bool
  lt : Q → Q → Bool

/-- Exact arithmetic. -/
instance : F64 ℚ where
  min := min
  le x y := x ≤ y
  lt x y := x < y

/-! ## Addresses -/

inductive IpAddr where
  | V4 (octets : UInt8 × UInt8 × UInt8 × UInt8)
  | V6 (segments : Vector UInt16 8)
deriving DecidableEq

structure SocketAddr where
  ip : IpAddr
  port : UInt16
deriving DecidableEq

def is_loopback : IpAddr → Bool
  | .V4 (a, _, _, _) => a == 127
  | .V6 segments => segments.toList == [0, 0, 0, 0, 0, 0, 0, 1]

def is_rfc1918 : IpAddr → Bool
  | .V4 (a, b, _, _) => a == 10 || (a == 172 && b &&& 0xF0 == 16) || (a == 192 && b == 168)
  | .V6 _ => false

/-! ## Reading an address, as `IpAddr::from_str` does -/

def to_digit (radix : Nat) (c : Char) : Option Nat :=
  let digit :=
    if '0' ≤ c ∧ c ≤ '9' then some (c.toNat - '0'.toNat)
    else if 'a' ≤ c ∧ c ≤ 'z' then some (c.toNat - 'a'.toNat + 10)
    else if 'A' ≤ c ∧ c ≤ 'Z' then some (c.toNat - 'A'.toNat + 10)
    else none
  digit.filter (· < radix)

/-- The number of digits, their value and the rest. More than `max_digits` are refused. -/
def read_digits (radix max_digits : Nat) : Nat → Nat → Text → Option (Nat × Nat × Text)
  | count, value, [] => some (count, value, [])
  | count, value, c :: rest =>
    match to_digit radix c with
    | none => some (count, value, c :: rest)
    | some digit =>
      if count + 1 > max_digits then none
      else read_digits radix max_digits (count + 1) (value * radix + digit) rest

def read_number (radix max_digits bound : Nat) (allow_leading_zero : Bool) (text : Text) :
    Option (Nat × Text) :=
  match read_digits radix max_digits 0 0 text with
  | none => none
  | some (count, value, rest) =>
    if count = 0 then none
    else if ! allow_leading_zero && text.head? == some '0' && 1 < count then none
    else if value < bound then some (value, rest)
    else none

def read_given_char (c : Char) : Text → Option Text
  | [] => none
  | x :: rest => if x = c then some rest else none

/-- The separator stands before each part but the first. -/
def read_separator {α : Type} (sep : Char) (index : Nat) (inner : Text → Option (α × Text))
    (text : Text) : Option (α × Text) :=
  if index = 0 then inner text else (read_given_char sep text).bind inner

def read_octet (index : Nat) : Text → Option (Nat × Text) :=
  read_separator '.' index (read_number 10 3 256 false)

def read_ipv4_addr (text : Text) : Option ((Nat × Nat × Nat × Nat) × Text) := do
  let (a, text) ← read_octet 0 text
  let (b, text) ← read_octet 1 text
  let (c, text) ← read_octet 2 text
  let (d, text) ← read_octet 3 text
  return ((a, b, c, d), text)

/-- At most `left` groups of `limit`, the last two of which may be an IPv4 address. -/
def read_groups (limit : Nat) : Nat → Text → List Nat × Bool × Text
  | 0, text => ([], false, text)
  | left + 1, text =>
    let i := limit - (left + 1)
    let ipv4 := if i < limit - 1 then read_separator ':' i read_ipv4_addr text else none
    match ipv4 with
    | some ((a, b, c, d), rest) => ([256 * a + b, 256 * c + d], true, rest)
    | none =>
      match read_separator ':' i (read_number 16 4 65536 true) text with
      | none => ([], false, text)
      | some (group, rest) =>
        let (groups, ipv4, rest) := read_groups limit left rest
        (group :: groups, ipv4, rest)

def read_ipv6_addr (text : Text) : Option (List Nat × Text) :=
  let (head, head_ipv4, text) := read_groups 8 8 text
  if head.length = 8 then some (head, text)
  else if head_ipv4 then none
  else do
    let text ← read_given_char ':' text
    let text ← read_given_char ':' text
    let limit := 8 - (head.length + 1)
    let (tail, _, text) := read_groups limit limit text
    return (head ++ List.replicate (8 - tail.length - head.length) 0 ++ tail, text)

def parse_ip (text : Text) : Option IpAddr :=
  match read_ipv4_addr text with
  | some ((a, b, c, d), rest) =>
    if rest = [] then
      some (.V4 (UInt8.ofNat a, UInt8.ofNat b, UInt8.ofNat c, UInt8.ofNat d))
    else none
  | none =>
    match read_ipv6_addr text with
    | some (groups, []) => some (.V6 (Vector.ofFn fun i => UInt16.ofNat (groups.getD i 0)))
    | _ => none

/-! ## The address of a request -/

/-- The header names are in lower case, as a `HeaderMap` has them. -/
structure Request where
  connect_info : Option SocketAddr
  headers : List (Text × List UInt8)
deriving DecidableEq

def Request.get (req : Request) (name : Text) : Option (List UInt8) :=
  (req.headers.find? (·.1 = name)).map (·.2)

def is_visible_ascii (b : UInt8) : Bool := (32 ≤ b && b < 127) || b == 9

/-- `HeaderValue::to_str` -/
def to_str (value : List UInt8) : Option Text :=
  if value.all is_visible_ascii then some (value.map fun b => Char.ofNat b.toNat) else none

/-- The white space that `to_str` lets through. -/
def is_blank (c : Char) : Bool := c == ' ' || c == '\t'

def trim (text : Text) : Text :=
  ((text.dropWhile is_blank).reverse.dropWhile is_blank).reverse

def X_FORWARDED_FOR : Text := "x-forwarded-for".toList
def X_REAL_IP : Text := "x-real-ip".toList

def forwarded_for (req : Request) : Option IpAddr := do
  let s ← to_str (← req.get X_FORWARDED_FOR)
  parse_ip (trim (s.takeWhile (· ≠ ',')))

def real_ip (req : Request) : Option IpAddr := do
  let s ← to_str (← req.get X_REAL_IP)
  parse_ip (trim s)

def extract_client_ip (req : Request) (trust_proxy : Bool) : Option IpAddr :=
  let direct_ip := req.connect_info.map SocketAddr.ip
  if !trust_proxy then direct_ip
  else if direct_ip.any fun ip => !is_loopback ip && !is_rfc1918 ip then direct_ip
  else (forwarded_for req).or ((real_ip req).or direct_ip)

/-! ## Buckets -/

def MAX_RPM : Nat := 60000

structure TokenBucket (Q : Type) where
  capacity : Q
  refill_per_ms : Q
  tokens : Q
  last_refill : Nat
  last_seen_ms : Nat
deriving DecidableEq

structure RateLimiter (Q : Type) where
  buckets : IpAddr → Option (TokenBucket Q)
  capacity : Nat
  refill_per_ms : Q
  effective_rpm : Nat

section Buckets

variable {Q : Type} [F64 Q]

def TokenBucket.new (capacity : Nat) (refill_per_ms : Q) (clock : Clock) : TokenBucket Q where
  capacity
  refill_per_ms
  tokens := capacity
  last_refill := clock.instant
  last_seen_ms := unix_ms clock.wall

/-- `Duration::as_secs_f64` -/
def as_secs_f64 (nanos : Nat) : Q :=
  ((nanos / 1000000000 : Nat) : Q) + ((nanos % 1000000000 : Nat) : Q) / ((1000000000 : Nat) : Q)

/-- `saturating_duration_since` is the subtraction of `Nat`. -/
def TokenBucket.refill (bucket : TokenBucket Q) (instant : Nat) : TokenBucket Q :=
  let elapsed_ms := as_secs_f64 (instant - bucket.last_refill) * ((1000 : Nat) : Q)
  if F64.lt ((0 : Nat) : Q) elapsed_ms then
    { bucket with
      tokens := F64.min (bucket.tokens + elapsed_ms * bucket.refill_per_ms) bucket.capacity
      last_refill := instant }
  else bucket

def TokenBucket.try_consume (bucket : TokenBucket Q) (clock : Clock) : Bool × TokenBucket Q :=
  let bucket := { bucket.refill clock.instant with last_seen_ms := unix_ms clock.wall }
  if F64.le ((1 : Nat) : Q) bucket.tokens then
    (true, { bucket with tokens := bucket.tokens - ((1 : Nat) : Q) })
  else (false, bucket)

/-! ## The limiter -/

def RateLimiter.new (rpm burst : Nat) : RateLimiter Q :=
  let effective_rpm := max 1 (min rpm MAX_RPM)
  { buckets := fun _ => none
    capacity := max burst 1
    refill_per_ms := ((effective_rpm : Nat) : Q) / ((60000 : Nat) : Q)
    effective_rpm }

/-- `entry(ip).or_insert_with(..)` -/
def RateLimiter.entry (limiter : RateLimiter Q) (clock : Clock) (ip : IpAddr) : TokenBucket Q :=
  (limiter.buckets ip).getD (TokenBucket.new limiter.capacity limiter.refill_per_ms clock)

def RateLimiter.check (limiter : RateLimiter Q) (clock : Clock) (ip : IpAddr) :
    Bool × RateLimiter Q :=
  let (allowed, bucket) := (limiter.entry clock ip).try_consume clock
  (allowed, { limiter with buckets := Function.update limiter.buckets ip (some bucket) })

omit [F64 Q] in
def RateLimiter.evict_stale (limiter : RateLimiter Q) (wall : Int) (older_than_secs : Nat) :
    RateLimiter Q :=
  let cutoff := unix_ms wall - older_than_secs * 1000
  { limiter with buckets := fun ip => (limiter.buckets ip).filter (cutoff ≤ ·.last_seen_ms) }

/-- A pass of the background task. -/
def RateLimiter.evict_pass (limiter : RateLimiter Q) (clock : Clock) : RateLimiter Q :=
  limiter.evict_stale clock.wall 300

/-! ## The middleware -/

structure Rejection where
  status : Nat := 429
  retry_after : String := "60"
  error : String := "Too many requests"
  code : String := "rate_limited"
deriving DecidableEq, Repr

inductive Response where
  | next
  | rejected (rejection : Rejection)
deriving DecidableEq, Repr

def rate_limit_middleware (limiter : RateLimiter Q) (trust_proxy : Bool) (clock : Clock)
    (req : Request) : Response × RateLimiter Q :=
  match extract_client_ip req trust_proxy with
  | none => (.next, limiter)
  | some ip =>
    let (allowed, limiter) := limiter.check clock ip
    (if allowed then .next else .rejected {}, limiter)

end Buckets

end Gigastt.RateLimit
