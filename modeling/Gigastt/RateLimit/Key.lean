import Gigastt.RateLimit.Code

/-!
# Forwarded headers and the key of the limiter

Two runs that differ only in what untrusted peers forward get the same responses, whatever
the arithmetic of the buckets is.
-/

namespace Gigastt.RateLimit

open Words

variable {Q : Type} [F64 Q] {trust_proxy : Bool}

/-! ## Runs -/

inductive Arrival where
  | request (req : Request)
  | evict_pass
deriving DecidableEq

variable (trust_proxy) in
def respond : RateLimiter Q → List (Clock × Arrival) → List Response
  | _, [] => []
  | limiter, (clock, .request req) :: rest =>
    let (response, limiter) := rate_limit_middleware limiter trust_proxy clock req
    response :: respond limiter rest
  | limiter, (clock, .evict_pass) :: rest => respond (limiter.evict_pass clock) rest

/-! ## Requests that differ in what their peer forwards -/

variable (trust_proxy) in
/-- The proxy is not to be trusted, or the peer is no proxy. -/
def Untrusted (req : Request) : Prop :=
  trust_proxy = false ∨
    ∃ addr, req.connect_info = some addr ∧ is_loopback addr.ip = false ∧ is_rfc1918 addr.ip = false

def is_forwarded (header : Text × List UInt8) : Bool :=
  header.1 == X_FORWARDED_FOR || header.1 == X_REAL_IP

variable (trust_proxy) in
structure Alike (req req' : Request) : Prop where
  installed : req.connect_info.isSome
  connect_info : req'.connect_info = req.connect_info
  trusted : ¬ Untrusted trust_proxy req → req'.headers = req.headers
  untrusted : Untrusted trust_proxy req →
    req'.headers.filter (!is_forwarded ·) = req.headers.filter (!is_forwarded ·)

variable (trust_proxy) in
inductive AlikeAt : Clock × Arrival → Clock × Arrival → Prop
  | request {clock : Clock} {req req' : Request} (h : Alike trust_proxy req req') :
      AlikeAt (clock, .request req) (clock, .request req')
  | evict_pass (clock : Clock) : AlikeAt (clock, .evict_pass) (clock, .evict_pass)

/-! ## The key -/

/-- An untrusted request is known by its peer. -/
theorem extract_client_ip_of_untrusted {req : Request} (h : Untrusted trust_proxy req) :
    extract_client_ip req trust_proxy = req.connect_info.map SocketAddr.ip := by
  unfold extract_client_ip
  rcases h with rfl | ⟨addr, haddr, hloopback, hrfc1918⟩
  · rfl
  · split
    · rfl
    · simp [haddr, hloopback, hrfc1918]

theorem Alike.extract_client_ip_eq {req req' : Request} (h : Alike trust_proxy req req') :
    extract_client_ip req' trust_proxy = extract_client_ip req trust_proxy := by
  by_cases huntrusted : Untrusted trust_proxy req
  · have huntrusted' : Untrusted trust_proxy req' := by
      unfold Untrusted at huntrusted ⊢
      rwa [h.connect_info]
    rw [extract_client_ip_of_untrusted huntrusted, extract_client_ip_of_untrusted huntrusted',
      h.connect_info]
  · have hsame : req' = req := by
      obtain ⟨connect_info, headers⟩ := req
      obtain ⟨connect_info', headers'⟩ := req'
      rw [Request.mk.injEq]
      exact ⟨h.connect_info, h.trusted huntrusted⟩
    rw [hsame]

theorem Alike.middleware_eq {req req' : Request} (h : Alike trust_proxy req req')
    (limiter : RateLimiter Q) (clock : Clock) :
    rate_limit_middleware limiter trust_proxy clock req' =
      rate_limit_middleware limiter trust_proxy clock req := by
  unfold rate_limit_middleware
  rw [h.extract_client_ip_eq]

/-- No header that an untrusted peer sends changes a response, to itself or to anyone. -/
theorem respond_alike (limiter : RateLimiter Q) {run run' : List (Clock × Arrival)}
    (h : List.Forall₂ (AlikeAt trust_proxy) run run') :
    respond trust_proxy limiter run' = respond trust_proxy limiter run := by
  induction h generalizing limiter with
  | nil => rfl
  | cons hhead _ ih =>
    cases hhead with
    | request halike =>
      unfold respond
      rw [halike.middleware_eq]
      dsimp only
      rw [ih]
    | evict_pass clock =>
      unfold respond
      exact ih (limiter.evict_pass clock)

/-! ## A forged header -/

/-- A request from a public address. -/
def forged (headers : List (Text × List UInt8)) : Clock × Arrival :=
  (⟨0, 0⟩, .request { connect_info := some ⟨.V4 (198, 51, 100, 7), 40000⟩, headers })

theorem forged_alike {headers headers' : List (Text × List UInt8)}
    (h : headers'.filter (!is_forwarded ·) = headers.filter (!is_forwarded ·)) :
    AlikeAt true (forged headers) (forged headers') := by
  have huntrusted :
      Untrusted true { connect_info := some ⟨.V4 (198, 51, 100, 7), 40000⟩, headers } :=
    .inr ⟨_, rfl, by decide, by decide⟩
  exact .request ⟨rfl, rfl, fun htrusted => absurd huntrusted htrusted, fun _ => h⟩

/-- Two requests that claim to be of two clients are those of one. -/
theorem respond_alike_forged :
    respond true (RateLimiter.new 1 1 : RateLimiter ℚ)
        [forged [(X_FORWARDED_FOR, "203.0.113.1".toUTF8.toList)],
          forged [(X_REAL_IP, "203.0.113.2".toUTF8.toList)]] =
      respond true (RateLimiter.new 1 1 : RateLimiter ℚ) [forged [], forged []] :=
  respond_alike (RateLimiter.new 1 1)
    (.cons (forged_alike rfl) (.cons (forged_alike rfl) .nil))

end Gigastt.RateLimit
