import Gigastt.Server.Origin
import Gigastt.RateLimit.Code

/-!
# The origin middleware

From the bytes of a header to the verdict.
-/

namespace Gigastt.Server

open Words

/-! ## Requests and responses -/

/-- The header names are in lower case, as a `HeaderMap` has them. -/
structure HttpRequest where
  path : Text
  headers : List (Text × List UInt8)
deriving DecidableEq

def HttpRequest.get (req : HttpRequest) (name : Text) : Option (List UInt8) :=
  (req.headers.find? (·.1 = name)).map (·.2)

inductive Body where
  | bytes (data : List UInt8)
  | json (fields : List (String × String))
deriving DecidableEq

structure HttpResponse where
  status : Nat
  headers : List (Text × List UInt8)
  body : Body
deriving DecidableEq

def utf8 (text : Text) : List UInt8 := text.flatMap String.utf8EncodeChar

/-- `HeaderMap::insert` -/
def HttpResponse.insert (response : HttpResponse) (name : Text) (value : List UInt8) :
    HttpResponse :=
  { response with headers := response.headers.filter (·.1 ≠ name) ++ [(name, value)] }

/-- `HeaderValue::from_str` -/
def from_str (text : Text) : Option (List UInt8) :=
  if (utf8 text).all fun b => (32 ≤ b && b != 127) || b == 9 then some (utf8 text) else none

/-! ## The middleware -/

def origin_denied : HttpResponse where
  status := 403
  headers := [("content-type".toList, utf8 "application/json".toList)]
  body := .json [("error", "Origin not allowed"), ("code", "origin_denied")]

def OriginPolicy.cors (policy : OriginPolicy) (echo : Text) (response : HttpResponse) :
    HttpResponse :=
  let value := if policy.allow_any then ['*'] else echo
  let response :=
    match from_str value with
    | some v => response.insert "access-control-allow-origin".toList v
    | none => response
  ((response.insert "access-control-allow-methods".toList (utf8 "GET, POST, OPTIONS".toList)).insert
    "access-control-allow-headers".toList (utf8 ['*'])).insert "vary".toList (utf8 "origin".toList)

def HttpRequest.origin (req : HttpRequest) : Option Text :=
  (req.get "origin".toList).bind RateLimit.to_str

def origin_middleware {m : Type → Type} [Monad m] (policy : OriginPolicy) (req : HttpRequest)
    (next : HttpRequest → m HttpResponse) : m HttpResponse :=
  if req.path = "/health".toList then next req
  else
    match policy.evaluate req.origin with
    | .AllowedNoEcho => next req
    | .Allowed echo => do
      let response ← next req
      return policy.cors echo response
    | .Denied => return origin_denied

/-! ## Values as bytes -/

/-- One character for each byte. -/
def latin1 (value : List UInt8) : Text := value.map fun b => Char.ofNat b.toNat

/-- A port that an origin may have. -/
def IsPort (port : Text) : Prop := port ≠ [] ∧ ∀ c ∈ port, c.isDigit

/-- The text is the origin of a loopback host. -/
def IsLoopback (text : Text) : Prop :=
  ∃ o : SerializedOrigin, o.text = text ∧ o.IsLoopback ∧ ∀ port, o.port = some port → IsPort port

/-- The text goes on after a loopback host as no origin does, so its host may be another. -/
def IsLookalike (text : Text) : Prop :=
  ∃ scheme ∈ schemes, ∃ host ∈ loopbackHosts, ∃ c rest,
    to_ascii_lowercase text = scheme ++ "://".toList ++ host ++ c :: rest ∧
      (c = '/' ∨ c = ':' ∧ ¬ IsPort rest)

/-- The origins that a policy is for, whatever bytes they are. -/
def OriginPolicy.Accepts (policy : OriginPolicy) (value : List UInt8) : Prop :=
  eq_ignore_ascii_case (latin1 value) "null".toList ∨ IsLoopback (latin1 value) ∨
    ∃ a ∈ policy.allowed_origins, eq_ignore_ascii_case (latin1 (utf8 a)) (latin1 value)

/-! ## Loopback origins -/

theorem not_digit_of_alpha {c : Char} (h : c.isAlpha) : c.isDigit = false := by
  simp only [Char.isAlpha, Char.isUpper, Char.isLower, Char.isDigit, Bool.or_eq_true,
    Bool.and_eq_true, decide_eq_true_eq, Bool.and_eq_false_iff, decide_eq_false_iff_not,
    ge_iff_le, UInt32.le_iff_toNat_le] at h ⊢
  have hvalues : 'A'.val.toNat = 65 ∧ 'a'.val.toNat = 97 ∧ '9'.val.toNat = 57 := ⟨rfl, rfl, rfl⟩
  omega

theorem isDigit_toLower (c : Char) : c.toLower.isDigit = c.isDigit := by
  cases h : c.isAlpha with
  | false => rw [toLower_eq_self h]
  | true =>
    have hlower : c.toLower.isAlpha = true := by rw [Char.isAlpha_toLower_eq_isAlpha, h]
    rw [not_digit_of_alpha h, not_digit_of_alpha hlower]

theorem isPort_lowercase {port : Text} : IsPort (to_ascii_lowercase port) ↔ IsPort port := by
  simp [IsPort, to_ascii_lowercase, isDigit_toLower]

theorem isHost_of_lowercase {host : Text} (h : to_ascii_lowercase host ∈ loopbackHosts) :
    IsHost host := by
  have hsame : ∀ text : Text, (∀ c ∈ text, c.isAlpha = false) →
      to_ascii_lowercase host = text → host = text := by
    intro text htext heq
    subst heq
    have hid : ∀ c ∈ host, c.toLower = c := by
      intro c hc
      have halpha := htext c.toLower (List.mem_map_of_mem hc)
      rw [Char.isAlpha_toLower_eq_isAlpha] at halpha
      exact toLower_eq_self halpha
    exact ((List.map_congr_left hid).trans (List.map_id host)).symm
  simp only [loopbackHosts, List.mem_cons, List.not_mem_nil, or_false] at h
  rcases h with h | h | h
  · refine .name host ?_ fun c hc hspecial => ?_
    · rintro rfl
      simp [to_ascii_lowercase] at h
    · have halpha : c.isAlpha = false := by
        have hall : ∀ d ∈ [':', '/', '[', ']', '@'], d.isAlpha = false := by simp
        exact hall c hspecial
      have hmem := (mem_to_ascii_lowercase halpha host).mpr hc
      rw [h] at hmem
      exact (by simp : ∀ d ∈ "localhost".toList, d ∉ [':', '/', '[', ']', '@']) c hmem hspecial
  · rw [hsame "127.0.0.1".toList (by simp) h]
    exact isHost_of_loopback (by simp [loopbackHosts])
  · rw [hsame "[::1]".toList (by simp) h]
    exact isHost_of_loopback (by simp [loopbackHosts])

/-- The parts of a text that is lowered to a scheme, a host and more. -/
theorem split_lowercase {text scheme host rest : Text}
    (h : to_ascii_lowercase text = scheme ++ "://".toList ++ host ++ rest) :
    ∃ scheme' host' rest', text = scheme' ++ "://".toList ++ host' ++ rest' ∧
      to_ascii_lowercase scheme' = scheme ∧ to_ascii_lowercase host' = host ∧
      to_ascii_lowercase rest' = rest := by
  obtain ⟨front, rest', rfl, hfront, hrest⟩ := List.map_eq_append_iff.mp h
  obtain ⟨start, host', rfl, hstart, hhost⟩ := List.map_eq_append_iff.mp hfront
  obtain ⟨scheme', sep, rfl, hscheme, hsep⟩ := List.map_eq_append_iff.mp hstart
  have hsame : sep = "://".toList := by
    obtain ⟨c, sep, rfl, hc, hsep⟩ := List.map_eq_cons_iff.mp hsep
    obtain ⟨d, sep, rfl, hd, hsep⟩ := List.map_eq_cons_iff.mp hsep
    obtain ⟨e, sep, rfl, he, hsep⟩ := List.map_eq_cons_iff.mp hsep
    rw [List.map_eq_nil_iff.mp hsep, (toLower_eq_iff rfl).mp hc, (toLower_eq_iff rfl).mp hd,
      (toLower_eq_iff rfl).mp he]
    rfl
  subst hsame
  exact ⟨scheme', host', rest', rfl, hscheme, hhost, hrest⟩

theorem isLoopback_of_parts {text scheme host rest : Text} (hs : scheme ∈ schemes)
    (hh : host ∈ loopbackHosts) (h : to_ascii_lowercase text = scheme ++ "://".toList ++ host ++ rest)
    (hrest : rest = [] ∨ ∃ port, rest = ':' :: port ∧ IsPort port) : IsLoopback text := by
  obtain ⟨scheme', host', rest', rfl, rfl, rfl, rfl⟩ := split_lowercase h
  have hends : ':' ∉ scheme' := by
    rw [← mem_to_ascii_lowercase rfl]
    exact (by decide : ∀ s ∈ schemes, ':' ∉ s) _ hs
  rcases hrest with hrest | ⟨port, hrest, hport⟩
  · rw [List.map_eq_nil_iff.mp hrest]
    exact ⟨⟨scheme', host', none, hends, isHost_of_lowercase hh⟩, rfl, ⟨hs, hh⟩, nofun⟩
  · obtain ⟨c, port', rfl, hc, rfl⟩ := List.map_eq_cons_iff.mp hrest
    rw [(toLower_eq_iff rfl).mp hc]
    refine ⟨⟨scheme', host', some port', hends, isHost_of_lowercase hh⟩, rfl, ⟨hs, hh⟩, ?_⟩
    rintro _ ⟨⟩
    exact isPort_lowercase.mp hport

/-- What the source takes for a loopback origin. -/
theorem is_loopback_origin_cases (text : Text) :
    is_loopback_origin text = true ↔ IsLoopback text ∨ IsLookalike text := by
  constructor
  · intro h
    obtain ⟨p, hp, rest, htext, hrest⟩ := (is_loopback_origin_eq text).mp h
    obtain ⟨s, hs, host, hh, rfl⟩ := mem_host_prefixes.mp hp
    cases rest with
    | nil => exact .inl (isLoopback_of_parts hs hh htext (.inl rfl))
    | cons c rest =>
      simp only [ends_host, Bool.or_eq_true, beq_iff_eq] at hrest
      rcases hrest with rfl | rfl
      · by_cases hport : IsPort rest
        · exact .inl (isLoopback_of_parts hs hh htext (.inr ⟨rest, rfl, hport⟩))
        · exact .inr ⟨s, hs, host, hh, ':', rest, htext, .inr ⟨rfl, hport⟩⟩
      · exact .inr ⟨s, hs, host, hh, '/', rest, htext, .inl rfl⟩
  · rintro (⟨o, rfl, hloop, -⟩ | ⟨s, hs, host, hh, c, rest, htext, hc⟩)
    · exact (is_loopback_origin_iff o).mpr hloop
    · refine (is_loopback_origin_eq text).mpr
        ⟨_, mem_host_prefixes.mpr ⟨s, hs, host, hh, rfl⟩, c :: rest, htext, ?_⟩
      rcases hc with rfl | ⟨rfl, -⟩ <;> rfl

theorem not_isLoopback {text : Text} (h : IsLookalike text) : ¬ IsLoopback text := by
  obtain ⟨s, hs, host, hh, c, rest, htext, hc⟩ := h
  rintro ⟨o, rfl, -, hport⟩
  have hscheme : ':' ∉ to_ascii_lowercase o.scheme := by
    rw [mem_to_ascii_lowercase rfl]
    exact o.scheme_ends
  have hs' : ':' ∉ s := (by decide : ∀ s ∈ schemes, ':' ∉ s) s hs
  have hends : ends_host (c :: rest) = true := by
    rcases hc with rfl | ⟨rfl, -⟩ <;> rfl
  rw [lowered_text] at htext
  have hsplit : to_ascii_lowercase o.scheme ++ ':' :: ("//".toList ++ (to_ascii_lowercase o.host ++
      to_ascii_lowercase o.tail)) = s ++ ':' :: ("//".toList ++ (host ++ c :: rest)) := by
    simpa using htext
  have hafter := List.append_cancel_left ((append_cons_inj hscheme hs').mp hsplit).2
  have hhost := host_unique o.is_host.to_ascii_lowercase (isHost_of_loopback hh)
    (tail_ends_host o) hends hafter
  rw [hhost] at hafter
  have htail : to_ascii_lowercase o.tail = c :: rest := List.append_cancel_left hafter
  unfold SerializedOrigin.tail at htail
  cases ho : o.port with
  | none => simp [ho, to_ascii_lowercase] at htail
  | some port =>
    rw [ho] at htail
    obtain ⟨rfl, rfl⟩ := List.cons.inj htail
    rcases hc with hslash | ⟨-, hnot⟩
    · exact absurd hslash (by decide)
    · exact hnot (isPort_lowercase.mpr (hport port ho))

def is_ascii (text : Text) : Prop := ∀ c ∈ text, c.toNat < 128

theorem toNat_ofNat_byte (b : UInt8) : (Char.ofNat b.toNat).toNat = b.toNat := by
  have hvalid : b.toNat.isValidChar := by
    have := b.toNat_lt
    exact .inl (by omega)
  rw [Char.toNat_ofNat, if_pos hvalid]

theorem toLower_lt_iff (c : Char) : c.toLower.toNat < 128 ↔ c.toNat < 128 := by
  unfold Char.toLower
  split
  · rename_i h
    have hle : c.val.toNat ≤ 90 := UInt32.le_iff_toNat_le.mp h.2
    have hshift : ('a'.val - 'A'.val).toNat = 32 := rfl
    have hadd : (c.val + ('a'.val - 'A'.val)).toNat = c.val.toNat + 32 := by
      rw [UInt32.toNat_add, Nat.mod_eq_of_lt (by omega), hshift]
    unfold Char.toNat
    dsimp only
    omega
  · rfl

theorem is_ascii_lowercase {text : Text} : is_ascii (to_ascii_lowercase text) ↔ is_ascii text := by
  simp [is_ascii, to_ascii_lowercase, toLower_lt_iff]

theorem is_ascii_of_eq {a b : Text} (h : eq_ignore_ascii_case a b) : is_ascii a ↔ is_ascii b := by
  rw [← is_ascii_lowercase, beq_iff_eq.mp h, is_ascii_lowercase]

theorem utf8EncodeChar_of_lt {c : Char} (h : c.toNat < 128) :
    String.utf8EncodeChar c = [UInt8.ofNat c.toNat] := by
  have hle : c.val.toNat ≤ 0x7f := by
    change c.toNat ≤ 127
    omega
  unfold String.utf8EncodeChar
  dsimp only
  rw [if_pos hle]
  rfl

/-- The last byte of a character that is not ASCII. -/
theorem exists_mem_utf8EncodeChar {c : Char} (h : 128 ≤ c.toNat) :
    ∃ b ∈ String.utf8EncodeChar c, 128 ≤ b.toNat := by
  have hlast : 128 ≤ (UInt8.ofNat (c.val.toNat % 64 + 128)).toNat := by
    rw [UInt8.toNat_ofNat']
    omega
  have hnot : ¬ c.val.toNat ≤ 0x7f := by
    change ¬ c.toNat ≤ 127
    omega
  refine ⟨_, ?_, hlast⟩
  unfold String.utf8EncodeChar
  dsimp only
  rw [if_neg hnot]
  split
  · simp
  · split
    · simp
    · simp

theorem is_ascii_latin1 {value : List UInt8} :
    is_ascii (latin1 value) ↔ ∀ b ∈ value, b.toNat < 128 := by
  simp [is_ascii, latin1, toNat_ofNat_byte]

theorem latin1_utf8 {text : Text} (h : is_ascii text) : latin1 (utf8 text) = text := by
  induction text with
  | nil => rfl
  | cons c text ih =>
    obtain ⟨hc, htext⟩ := List.forall_mem_cons.mp h
    have hbyte : (UInt8.ofNat c.toNat).toNat = c.toNat := by
      rw [UInt8.toNat_ofNat']
      omega
    have hrest := ih htext
    unfold latin1 utf8 at hrest ⊢
    rw [List.flatMap_cons, List.map_append, hrest, utf8EncodeChar_of_lt hc, List.map_singleton,
      hbyte, Char.ofNat_toNat]
    rfl

theorem is_ascii_of_utf8 {text : Text} (h : is_ascii (latin1 (utf8 text))) : is_ascii text := by
  intro c hc
  by_contra hlarge
  obtain ⟨b, hb, hle⟩ := exists_mem_utf8EncodeChar (not_lt.mp hlarge)
  have hlt := is_ascii_latin1.mp h b (List.mem_flatMap.mpr ⟨c, hc, hb⟩)
  omega

/-- A listed origin is compared as text, or as its bytes. -/
theorem eq_utf8_iff {a : Text} {value : List UInt8} (h : is_ascii (latin1 value)) :
    eq_ignore_ascii_case (latin1 (utf8 a)) (latin1 value) ↔ eq_ignore_ascii_case a (latin1 value) := by
  constructor
  · intro heq
    rwa [latin1_utf8 (is_ascii_of_utf8 ((is_ascii_of_eq heq).mpr h))] at heq
  · intro heq
    rwa [latin1_utf8 ((is_ascii_of_eq heq).mpr h)]

/-! ## The verdict on bytes -/

theorem to_str_eq (value : List UInt8) :
    RateLimit.to_str value =
      if value.all RateLimit.is_visible_ascii then some (latin1 value) else none := rfl

theorem is_ascii_of_visible {value : List UInt8} (h : value.all RateLimit.is_visible_ascii) :
    is_ascii (latin1 value) := by
  rw [is_ascii_latin1]
  intro b hb
  have hvisible := List.all_eq_true.mp h b hb
  simp only [RateLimit.is_visible_ascii, Bool.or_eq_true, Bool.and_eq_true, decide_eq_true_eq,
    beq_iff_eq, UInt8.lt_iff_toNat_lt] at hvisible
  rcases hvisible with ⟨-, hlt⟩ | rfl
  · have : (127 : UInt8).toNat = 127 := rfl
    omega
  · decide

/-- What a policy does not accept is denied, unless it looks like a loopback origin. -/
theorem evaluate_latin1 {policy : OriginPolicy} (hany : policy.allow_any = false)
    {value : List UInt8} (hvisible : value.all RateLimit.is_visible_ascii)
    (h : ¬ policy.Accepts value) :
    policy.evaluate (some (latin1 value)) =
      if is_loopback_origin (latin1 value) then .Allowed (latin1 value) else .Denied := by
  obtain ⟨hnull, -, hlisted⟩ := by simpa only [OriginPolicy.Accepts, not_or] using h
  have hlisted' : ¬ policy.allowed_origins.any fun a => eq_ignore_ascii_case a (latin1 value) := by
    rw [List.any_eq_true]
    rintro ⟨a, ha, heq⟩
    exact hlisted ⟨a, ha, (eq_utf8_iff (is_ascii_of_visible hvisible)).mpr heq⟩
  unfold OriginPolicy.evaluate
  dsimp only
  rw [if_neg hnull, hany, Bool.false_or, if_neg hlisted']

/-! ## The handler -/

/-- A handler that puts down what it is run on. -/
def logged (handler : HttpRequest → HttpResponse) (req : HttpRequest) :
    StateM (List HttpRequest) HttpResponse := do
  modify (· ++ [req])
  return handler req

/-- The response is a 403, and the handler is not run. -/
def Denies (policy : OriginPolicy) (req : HttpRequest) (handler : HttpRequest → HttpResponse) :
    Prop :=
  ∃ response, (origin_middleware policy req (logged handler)).run [] = (response, []) ∧
    response.status = 403

/-- What is not accepted is denied exactly when the header is text, and does not look like a
loopback origin. -/
theorem origin_middleware_denies_iff {policy : OriginPolicy} (hany : policy.allow_any = false)
    {req : HttpRequest} (hpath : req.path ≠ "/health".toList) {value : List UInt8}
    (hvalue : req.get "origin".toList = some value) (handler : HttpRequest → HttpResponse) :
    (¬ policy.Accepts value → Denies policy req handler) ↔
      value.all RateLimit.is_visible_ascii ∧ ¬ IsLookalike (latin1 value) ∨
        policy.Accepts value := by
  by_cases haccepts : policy.Accepts value
  · simp [haccepts]
  · have horigin : req.origin =
        if value.all RateLimit.is_visible_ascii then some (latin1 value) else none := by
      rw [HttpRequest.origin, hvalue, Option.bind_some, to_str_eq]
    have hloopback : is_loopback_origin (latin1 value) = true ↔ IsLookalike (latin1 value) := by
      rw [is_loopback_origin_cases]
      exact or_iff_right fun h => haccepts (.inr (.inl h))
    have hruns : ∀ response, ¬ ((response, [req]) : HttpResponse × List HttpRequest).2 = [] := by
      simp
    simp only [haccepts, not_false_eq_true, forall_const, or_false]
    unfold Denies origin_middleware
    rw [if_neg hpath, horigin]
    by_cases hvisible : value.all RateLimit.is_visible_ascii
    · rw [if_pos hvisible, evaluate_latin1 hany hvisible haccepts]
      by_cases hlookalike : IsLookalike (latin1 value)
      · rw [if_pos (hloopback.mpr hlookalike)]
        refine iff_of_false ?_ fun h => h.2 hlookalike
        rintro ⟨response, hrun, -⟩
        exact hruns _ (congrArg Prod.snd hrun)
      · rw [if_neg fun h => hlookalike (hloopback.mp h)]
        exact iff_of_true ⟨origin_denied, rfl, rfl⟩ ⟨hvisible, hlookalike⟩
    · rw [if_neg hvisible]
      refine iff_of_false ?_ fun h => hvisible h.1
      rintro ⟨response, hrun, -⟩
      exact hruns (handler req) (congrArg Prod.snd hrun)

def request (origin : Text) : HttpRequest where
  path := "/v1/transcribe".toList
  headers := [("origin".toList, utf8 origin)]

def done : HttpResponse where
  status := 200
  headers := []
  body := .json []

theorem lookalike : IsLookalike (latin1 (utf8 "http://localhost:@evil.example".toList)) :=
  ⟨"http".toList, by decide, "localhost".toList, by decide, ':', "@evil.example".toList, rfl,
    .inr ⟨rfl, fun h => absurd (h.2 '@' (by decide)) (by decide)⟩⟩

/-- The same host with an accent and without one, and behind the name of a loopback host. -/
theorem accented_origin_runs :
    ¬ ({} : OriginPolicy).Accepts (utf8 "https://évil.example".toList) ∧
      (origin_middleware {} (request "https://évil.example".toList) (logged fun _ => done)).run [] =
        (done, [request "https://évil.example".toList]) ∧
      (origin_middleware {} (request "https://evil.example".toList) (logged fun _ => done)).run [] =
        (origin_denied, []) ∧
      ¬ ({} : OriginPolicy).Accepts (utf8 "http://localhost:@evil.example".toList) ∧
      ((origin_middleware {} (request "http://localhost:@evil.example".toList)
        (logged fun _ => done)).run []).2 = [request "http://localhost:@evil.example".toList] := by
  have haccented : is_loopback_origin (latin1 (utf8 "https://évil.example".toList)) = false := rfl
  refine ⟨?_, rfl, rfl, ?_, rfl⟩
  · rintro (hnull | hloopback | ⟨a, ha, -⟩)
    · exact absurd hnull (by decide)
    · have h := (is_loopback_origin_cases _).mpr (.inl hloopback)
      rw [haccented] at h
      cases h
    · cases ha
  · rintro (hnull | hloopback | ⟨a, ha, -⟩)
    · exact absurd hnull (by decide)
    · exact not_isLoopback lookalike hloopback
    · cases ha

theorem origin_middleware_denies_iff_of_evil :
    (¬ ({} : OriginPolicy).Accepts (utf8 "https://evil.example".toList) →
      Denies {} (request "https://evil.example".toList) fun _ => done) ↔
    (utf8 "https://evil.example".toList).all RateLimit.is_visible_ascii ∧
        ¬ IsLookalike (latin1 (utf8 "https://evil.example".toList)) ∨
      ({} : OriginPolicy).Accepts (utf8 "https://evil.example".toList) :=
  origin_middleware_denies_iff rfl (by decide) rfl _

end Gigastt.Server
