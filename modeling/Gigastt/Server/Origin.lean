import Gigastt.Server.Text

/-!
# The origin policy
-/

namespace Gigastt.Server

open Words

structure OriginPolicy where
  allow_any : Bool := false
  allowed_origins : List Text := []
deriving DecidableEq, Repr

inductive OriginVerdict where
  | AllowedNoEcho
  | Allowed (echo : Text)
  | Denied
deriving DecidableEq, Repr

def HOST_PREFIXES : List Text :=
  ["http://localhost".toList, "https://localhost".toList, "http://127.0.0.1".toList,
    "https://127.0.0.1".toList, "http://[::1]".toList, "https://[::1]".toList]

/-- What may follow the host of a loopback origin. -/
def ends_host : Text → Bool
  | [] => true
  | c :: _ => c == ':' || c == '/'

def is_loopback_origin (origin : Text) : Bool :=
  HOST_PREFIXES.any fun p =>
    match (to_ascii_lowercase origin).dropPrefix? p with
    | none => false
    | some rest => ends_host rest

def OriginPolicy.evaluate (policy : OriginPolicy) : Option Text → OriginVerdict
  | none => .AllowedNoEcho
  | some origin =>
    if eq_ignore_ascii_case origin "null".toList then .AllowedNoEcho
    else if policy.allow_any || is_loopback_origin origin then .Allowed origin
    else if policy.allowed_origins.any fun a => eq_ignore_ascii_case a origin then .Allowed origin
    else .Denied

/-! ## Serialized origins -/

/-- A literal in brackets, or a name. -/
inductive IsHost : Text → Prop where
  | literal (body : Text) (h : ']' ∉ body) : IsHost ('[' :: body ++ [']'])
  | name (host : Text) (hne : host ≠ []) (h : ∀ c ∈ host, c ∉ [':', '/', '[', ']', '@']) :
      IsHost host

/-- `scheme://host[:port]`. Of the scheme only the `:` that ends it matters, and of the port
nothing does. -/
structure SerializedOrigin where
  scheme : Text
  host : Text
  port : Option Text
  scheme_ends : ':' ∉ scheme
  is_host : IsHost host

def SerializedOrigin.tail (o : SerializedOrigin) : Text :=
  match o.port with
  | none => []
  | some port => ':' :: port

def SerializedOrigin.text (o : SerializedOrigin) : Text :=
  o.scheme ++ "://".toList ++ o.host ++ o.tail

def schemes : List Text := ["http".toList, "https".toList]

def loopbackHosts : List Text := ["localhost".toList, "127.0.0.1".toList, "[::1]".toList]

def SerializedOrigin.IsLoopback (o : SerializedOrigin) : Prop :=
  to_ascii_lowercase o.scheme ∈ schemes ∧ to_ascii_lowercase o.host ∈ loopbackHosts

/-! ## Prefixes and hosts -/

theorem mem_host_prefixes {p : Text} :
    p ∈ HOST_PREFIXES ↔ ∃ s ∈ schemes, ∃ h ∈ loopbackHosts, p = s ++ "://".toList ++ h := by
  simp [HOST_PREFIXES, schemes, loopbackHosts]
  tauto

theorem isHost_of_loopback {h : Text} (hh : h ∈ loopbackHosts) : IsHost h := by
  simp only [loopbackHosts, List.mem_cons, List.not_mem_nil, or_false] at hh
  rcases hh with rfl | rfl | rfl
  · exact .name _ (by decide) (by simp)
  · exact .name _ (by decide) (by simp)
  · exact .literal "::1".toList (by decide)

theorem IsHost.to_ascii_lowercase {host : Text} (h : IsHost host) :
    IsHost (to_ascii_lowercase host) := by
  cases h with
  | literal body h =>
    have hlower : Server.to_ascii_lowercase ('[' :: body ++ [']']) =
        '[' :: Server.to_ascii_lowercase body ++ [']'] := by
      simp [Server.to_ascii_lowercase]
    rw [hlower]
    exact .literal _ (by rwa [mem_to_ascii_lowercase rfl])
  | name host hne h =>
    refine .name _ (by simpa [Server.to_ascii_lowercase] using hne) ?_
    intro c hc hcs
    have halpha : ∀ d ∈ [':', '/', '[', ']', '@'], d.isAlpha = false := by simp
    exact h c ((mem_to_ascii_lowercase (halpha c hcs) host).mp hc) hcs

/-- A name ends at the first `:` or `/`. -/
theorem takeWhile_name {host rest : Text} (h : ∀ c ∈ host, c ∉ [':', '/', '[', ']', '@'])
    (hrest : ends_host rest = true) :
    (host ++ rest).takeWhile (fun c => c != ':' && c != '/') = host := by
  rw [List.takeWhile_append_of_pos]
  · cases rest with
    | nil => simp
    | cons c rest =>
      have hc : (c != ':' && c != '/') = false := by
        simp only [ends_host] at hrest
        grind
      simp [hc]
  · intro c hc
    have := h c hc
    simp_all

theorem literal_not_name {body rest host tail : Text} (hne : host ≠ [])
    (h : ∀ c ∈ host, c ∉ [':', '/', '[', ']', '@']) :
    '[' :: body ++ [']'] ++ rest ≠ host ++ tail := by
  obtain ⟨c, cs, rfl⟩ := List.exists_cons_of_ne_nil hne
  intro heq
  have hc : '[' = c := (List.cons.inj heq).1
  exact h c List.mem_cons_self (by simp [← hc])

/-- There is one way to read a host off the front of a text. -/
theorem host_unique {a b rest rest' : Text} (ha : IsHost a) (hb : IsHost b)
    (hrest : ends_host rest = true) (hrest' : ends_host rest' = true)
    (h : a ++ rest = b ++ rest') : a = b := by
  cases ha with
  | literal body hbody =>
    cases hb with
    | literal body' hbody' =>
      have htail : body ++ ']' :: rest = body' ++ ']' :: rest' := by simpa using h
      rw [((append_cons_inj hbody hbody').mp htail).1]
    | name host hne hname => exact absurd h (literal_not_name hne hname)
  | name host hne hname =>
    cases hb with
    | literal body' hbody' => exact absurd h.symm (literal_not_name hne hname)
    | name host' hne' hname' =>
      rw [← takeWhile_name hname hrest, h, takeWhile_name hname' hrest']

/-! ## The verdict -/

theorem tail_ends_host (o : SerializedOrigin) :
    ends_host (to_ascii_lowercase o.tail) = true := by
  unfold SerializedOrigin.tail
  cases o.port <;> rfl

theorem lowered_text (o : SerializedOrigin) :
    to_ascii_lowercase o.text =
      to_ascii_lowercase o.scheme ++ ':' :: ("//".toList ++ (to_ascii_lowercase o.host ++
        to_ascii_lowercase o.tail)) := by
  simp [SerializedOrigin.text, to_ascii_lowercase]

theorem is_loopback_origin_eq (origin : Text) :
    is_loopback_origin origin = true ↔ ∃ p ∈ HOST_PREFIXES, ∃ rest,
      to_ascii_lowercase origin = p ++ rest ∧ ends_host rest = true := by
  unfold is_loopback_origin
  simp only [List.any_eq_true]
  refine exists_congr fun p => and_congr_right fun _ => ?_
  constructor
  · intro h
    split at h
    · simp at h
    · rename_i rest hrest
      exact ⟨rest, strip_prefix_eq_some.mp hrest, h⟩
  · rintro ⟨rest, hrest, h⟩
    rw [strip_prefix_eq_some.mpr hrest]
    exact h

theorem is_loopback_origin_iff (o : SerializedOrigin) :
    is_loopback_origin o.text = true ↔ o.IsLoopback := by
  have hscheme : ':' ∉ to_ascii_lowercase o.scheme := by
    rw [mem_to_ascii_lowercase rfl]
    exact o.scheme_ends
  rw [is_loopback_origin_eq]
  constructor
  · rintro ⟨p, hp, rest, htext, hrest⟩
    obtain ⟨s, hs, h, hh, rfl⟩ := mem_host_prefixes.mp hp
    have hs' : ':' ∉ s := (by decide : ∀ s ∈ schemes, ':' ∉ s) s hs
    rw [lowered_text] at htext
    have hsplit : to_ascii_lowercase o.scheme ++ ':' :: ("//".toList ++ (to_ascii_lowercase o.host ++
        to_ascii_lowercase o.tail)) = s ++ ':' :: ("//".toList ++ (h ++ rest)) := by
      simpa using htext
    obtain ⟨hscheme_eq, htail⟩ := (append_cons_inj hscheme hs').mp hsplit
    have hhost := host_unique o.is_host.to_ascii_lowercase (isHost_of_loopback hh)
      (tail_ends_host o) hrest (List.append_cancel_left htail)
    exact ⟨hscheme_eq ▸ hs, hhost ▸ hh⟩
  · rintro ⟨hs, hh⟩
    refine ⟨_, mem_host_prefixes.mpr ⟨_, hs, _, hh, rfl⟩, to_ascii_lowercase o.tail, ?_,
      tail_ends_host o⟩
    simp [lowered_text]

instance (o : SerializedOrigin) : Decidable o.IsLoopback :=
  inferInstanceAs (Decidable (_ ∧ _))

theorem not_null (o : SerializedOrigin) : eq_ignore_ascii_case o.text "null".toList = false := by
  have hnull : ':' ∉ to_ascii_lowercase "null".toList := by decide
  have htext : ':' ∈ to_ascii_lowercase o.text := by simp [lowered_text]
  unfold eq_ignore_ascii_case
  rw [beq_eq_false_iff_ne]
  intro heq
  exact hnull (heq ▸ htext)

theorem evaluate_serialized (policy : OriginPolicy) (hany : policy.allow_any = false)
    (o : SerializedOrigin) :
    policy.evaluate (some o.text) =
      if o.IsLoopback ∨ ∃ a ∈ policy.allowed_origins,
          to_ascii_lowercase a = to_ascii_lowercase o.text then .Allowed o.text
      else .Denied := by
  have hlisted : policy.allowed_origins.any (fun a => eq_ignore_ascii_case a o.text) = true ↔
      ∃ a ∈ policy.allowed_origins, to_ascii_lowercase a = to_ascii_lowercase o.text := by
    simp [eq_ignore_ascii_case]
  unfold OriginPolicy.evaluate
  simp only [not_null, hany, Bool.false_or, Bool.false_eq_true, if_false, is_loopback_origin_iff,
    hlisted]
  by_cases hloop : o.IsLoopback
  · simp [hloop]
  · simp [hloop]

/-- A look-alike of a loopback host, and a listed origin in another case. -/
theorem evaluate_lookalike :
    let policy : OriginPolicy := { allowed_origins := ["https://app.example.com".toList] }
    policy.evaluate (some "http://localhost.evil".toList) = .Denied ∧
      policy.evaluate (some "HTTPS://App.example.com".toList) =
        .Allowed "HTTPS://App.example.com".toList := by
  let policy : OriginPolicy := { allowed_origins := ["https://app.example.com".toList] }
  have hevil := evaluate_serialized policy rfl
    { scheme := "http".toList, host := "localhost.evil".toList, port := none
      scheme_ends := by decide, is_host := .name _ (by decide) (by simp) }
  have happ := evaluate_serialized policy rfl
    { scheme := "HTTPS".toList, host := "App.example.com".toList, port := none
      scheme_ends := by decide, is_host := .name _ (by decide) (by simp) }
  rw [if_neg (by decide)] at hevil
  rw [if_pos (by decide)] at happ
  exact ⟨hevil, happ⟩

end Gigastt.Server
