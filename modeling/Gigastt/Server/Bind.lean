import Gigastt.Lib.Str
import Gigastt.Server.Address

/-!
# The guard of the bind and the bind

`main.rs` decides from the host alone whether it may be bound without consent, and
`run_with_config` parses host and port.
-/

namespace Gigastt.Server

open Words
open RateLimit (IpAddr SocketAddr to_digit read_given_char read_ipv4_addr read_ipv6_addr parse_ip is_loopback)
open Str (is_whitespace trim_start_matches trim_end_matches)

/-! ## The guard -/

def is_loopback_host (host : Text) : Bool :=
  let lowered := to_ascii_lowercase (Str.trim host)
  if lowered = "localhost".toList ∨ lowered = "::1".toList then true
  else
    let stripped := trim_end_matches (· == ']') (trim_start_matches (· == '[') lowered)
    match parse_ip stripped with
    | some ip => is_loopback ip
    | none => false

/-- The value of `GIGASTT_ALLOW_BIND_ANY`, if it is set, opts in. -/
def opts_in (allow_bind_any : Option Text) : Bool :=
  allow_bind_any.any fun v => (["1", "true", "TRUE", "yes", "YES"].map String.toList).contains (Str.trim v)

def refused (host : Text) : Text :=
  "refusing to bind to '".toList ++ host ++ ("': non-loopback addresses require " ++
    "`--bind-all` (or env GIGASTT_ALLOW_BIND_ANY=1) to prevent accidental " ++
    "public exposure of local transcription").toList

def ensure_bind_allowed (allow_bind_any : Option Text) (host : Text) (bind_all_flag : Bool) :
    Except Text Unit :=
  if is_loopback_host host then .ok ()
  else if bind_all_flag || opts_in allow_bind_any then .ok ()
  else .error (refused host)

theorem ensure_bind_allowed_iff {allow_bind_any : Option Text} {host : Text} {bind_all_flag : Bool}
    (hflag : bind_all_flag = false) (henv : opts_in allow_bind_any = false) :
    ensure_bind_allowed allow_bind_any host bind_all_flag = .ok () ↔ is_loopback_host host = true := by
  unfold ensure_bind_allowed
  rw [hflag, henv]
  cases is_loopback_host host with
  | true => exact iff_of_true rfl rfl
  | false => exact iff_of_false (fun h => nomatch h) Bool.false_ne_true

/-! ## The bind -/

/-- The address that `run_with_config` listens on. -/
def bind_addr (host : Text) (port : UInt16) : Except Text SocketAddr :=
  match parse_socket_addr (host ++ ':' :: Nat.toDigits 10 port.toNat) with
  | some addr => .ok addr
  | none => .error "Invalid host:port".toList

/-- The server binds the host, on the port it was given, where nobody outside reaches it. -/
def BindsLoopback (host : Text) (port : UInt16) : Prop :=
  ∃ addr, bind_addr host port = .ok addr ∧ is_loopback addr.ip = true ∧ addr.port = port

/-- The host is a dotted IPv4 address, or an IPv6 address in one pair of brackets. -/
def Bindable (host : Text) : Prop :=
  (∃ octets, parse_ip host = some (.V4 octets)) ∨
    ∃ literal segments, host = '[' :: literal ++ [']'] ∧ parse_ip literal = some (.V6 segments)

/-! ## One address, two readers -/

theorem parse_ip_eq (text : Text) : parse_ip text =
    match read_ipv4_addr text with
    | some (octets, left) => if left = [] then some (v4_addr octets) else none
    | none =>
      match read_ipv6_addr text with
      | some (groups, []) => some (v6_addr groups)
      | _ => none := by
  unfold parse_ip
  cases read_ipv4_addr text with
  | some read => rfl
  | none => rfl

theorem parse_ip_lower (text : Text) : parse_ip (to_ascii_lowercase text) = parse_ip text := by
  have h4 := read_ipv4_addr_alike (alike_lower 10) (Nat.le_refl 10) List.mem_cons_self text
  have h6 := read_ipv6_addr_alike (alike_lower 16) (by decide) (by decide) text
  rw [List.append_nil] at h4 h6
  rw [parse_ip_eq, parse_ip_eq, to_ascii_lowercase, h4, h6]
  cases read_ipv4_addr text with
  | some read =>
    obtain ⟨octets, left⟩ := read
    cases left with
    | nil => rfl
    | cons c left => rfl
  | none =>
    cases read_ipv6_addr text with
    | none => rfl
    | some read =>
      obtain ⟨groups, left⟩ := read
      cases left with
      | nil => rfl
      | cons c left => rfl

theorem parse_ip_v4 {text : Text} {octets : UInt8 × UInt8 × UInt8 × UInt8}
    (h : parse_ip text = some (.V4 octets)) :
    ∃ read, read_ipv4_addr text = some (read, []) ∧ v4_addr read = .V4 octets := by
  rw [parse_ip_eq] at h
  split at h
  · next read left hread =>
    split_ifs at h with hleft
    exact ⟨read, hleft ▸ hread, Option.some.inj h⟩
  · split at h
    · nomatch h
    · nomatch h

theorem parse_ip_v6 {text : Text} {segments : Vector UInt16 8} (h : parse_ip text = some (.V6 segments)) :
    ∃ groups, read_ipv6_addr text = some (groups, []) ∧ v6_addr groups = .V6 segments := by
  rw [parse_ip_eq] at h
  split at h
  · next read left hread =>
    split_ifs at h
    nomatch h
  · split at h
    · next groups hgroups => exact ⟨groups, hgroups, Option.some.inj h⟩
    · nomatch h

/-- What the guard makes of a host that has no blanks around it. -/
theorem is_loopback_host_eq {host : Text} (inner : Text) (htrim : Str.trim host = host)
    (hname : to_ascii_lowercase host ≠ "localhost".toList ∧ to_ascii_lowercase host ≠ "::1".toList)
    (hbrackets : trim_end_matches (· == ']') (trim_start_matches (· == '[') (to_ascii_lowercase host)) =
      to_ascii_lowercase inner) :
    is_loopback_host host = (parse_ip inner).any is_loopback := by
  unfold is_loopback_host
  rw [htrim, if_neg (not_or.mpr hname), hbrackets]
  dsimp only
  rw [parse_ip_lower]
  cases parse_ip inner with
  | none => rfl
  | some ip => rfl

/-! ## Hosts -/

theorem not_blank_of_digit {c : Char} (hc : to_digit 10 c ≠ none ∨ c = '.') :
    is_whitespace c = false ∧ c.toLower ≠ '[' ∧ c.toLower ≠ ']' := by
  have hrange : 46 ≤ c.toNat ∧ c.toNat ≤ 57 := by
    rcases hc with hdigit | rfl
    · by_contra hrange
      rw [to_digit_eq] at hdigit
      apply hdigit
      rw [Option.filter_eq_none_iff]
      intro n hn
      split_ifs at hn with h₁ h₂ h₃
      · omega
      · have := Option.some.inj hn
        simp only [decide_eq_true_eq]
        omega
      · have := Option.some.inj hn
        simp only [decide_eq_true_eq]
        omega
    · decide
  refine ⟨?_, ?_, ?_⟩
  · unfold is_whitespace
    simp only [Bool.or_eq_false_iff, Bool.and_eq_false_iff, beq_eq_false_iff_ne, decide_eq_false_iff_not]
    omega
  · rw [ne_eq, toLower_eq_iff (by decide)]
    rintro rfl
    exact absurd hrange (by decide)
  · rw [ne_eq, toLower_eq_iff (by decide)]
    rintro rfl
    exact absurd hrange (by decide)

/-- The guard reads a dotted address as it is. -/
theorem is_loopback_host_v4 {host : Text} {octets : UInt8 × UInt8 × UInt8 × UInt8}
    (h : parse_ip host = some (.V4 octets)) : is_loopback_host host = is_loopback (.V4 octets) := by
  obtain ⟨read, hread, -⟩ := parse_ip_v4 h
  obtain ⟨first, last, hfirst, hlast, hends⟩ := ends_of_ipv4 hread
  obtain ⟨hfirst_blank, hopen, -⟩ := not_blank_of_digit (hends first (.inl rfl))
  obtain ⟨hlast_blank, -, hclose⟩ := not_blank_of_digit (hends last (.inr rfl))
  obtain ⟨rest, hrest⟩ := List.head?_eq_some_iff.mp hfirst
  obtain ⟨init, hinit⟩ := List.getLast?_eq_some_iff.mp hlast
  have hname : ∀ name, parse_ip name ≠ some (.V4 octets) → to_ascii_lowercase host ≠ name := by
    rintro _ hne rfl
    exact hne ((parse_ip_lower host).trans h)
  have hlocalhost : parse_ip "localhost".toList = none := by decide
  have hv6 : ∃ segments, parse_ip "::1".toList = some (.V6 segments) := ⟨_, rfl⟩
  obtain ⟨segments, hv6⟩ := hv6
  rw [is_loopback_host_eq host (Str.trim_eq_self hfirst_blank hlast_blank hfirst hlast), h]
  · rfl
  · refine ⟨hname _ ?_, hname _ ?_⟩
    · rw [hlocalhost]
      nofun
    · rw [hv6]
      nofun
  · have hstart : trim_start_matches (· == '[') (to_ascii_lowercase host) = to_ascii_lowercase host := by
      rw [hrest]
      exact Str.trim_start_matches_cons (by simpa using hopen)
    have hend : trim_end_matches (· == ']') (to_ascii_lowercase host) = to_ascii_lowercase host := by
      rw [hinit, to_ascii_lowercase, List.map_append]
      exact Str.trim_end_matches_append (by simpa using hclose)
    rw [hstart, hend]

theorem head_ne_bracket {text left : Text} {groups : List Nat} (h : read_ipv6_addr text = some (groups, left))
    (rest : Text) : text ≠ '[' :: rest := by
  rintro rfl
  have hnone := read_ipv6_addr_append '[' (by decide) (by decide) [] rest
  rw [List.nil_append, h] at hnone
  nomatch hnone

/-- The guard reads what stands in one pair of brackets. -/
theorem is_loopback_host_bracketed {literal left : Text} {groups : List Nat}
    (h : read_ipv6_addr literal = some (groups, left)) (hlast : literal.getLast? ≠ some ']') :
    is_loopback_host ('[' :: literal ++ [']']) = (parse_ip literal).any is_loopback := by
  have hlower : to_ascii_lowercase ('[' :: literal ++ [']']) = '[' :: to_ascii_lowercase literal ++ [']'] := by
    unfold to_ascii_lowercase
    rw [List.map_append, List.map_cons]
    rfl
  have htrim : Str.trim ('[' :: literal ++ [']']) = '[' :: literal ++ [']'] :=
    Str.trim_eq_self (c := '[') (d := ']') (by decide) (by decide) rfl
      (List.getLast?_eq_some_iff.mpr ⟨'[' :: literal, rfl⟩)
  refine is_loopback_host_eq literal htrim ?_ ?_
  · rw [hlower]
    exact ⟨by simp, by simp⟩
  · have hstart : trim_start_matches (· == '[') ('[' :: to_ascii_lowercase literal ++ [']']) =
        to_ascii_lowercase literal ++ [']'] := by
      unfold trim_start_matches
      rw [List.cons_append, List.dropWhile_cons_of_pos (by decide)]
      cases literal with
      | nil => rfl
      | cons c rest =>
        have hc : c.toLower ≠ '[' := by
          rw [ne_eq, toLower_eq_iff (by decide)]
          rintro rfl
          exact head_ne_bracket h rest rfl
        exact Str.trim_start_matches_cons (by simpa using hc)
    have hend : trim_end_matches (· == ']') (to_ascii_lowercase literal ++ [']']) =
        to_ascii_lowercase literal := by
      unfold trim_end_matches
      rw [List.reverse_append, List.reverse_singleton, List.singleton_append,
        List.dropWhile_cons_of_pos (by decide)]
      rcases List.eq_nil_or_concat literal with rfl | ⟨init, c, rfl⟩
      · rfl
      · rw [List.concat_eq_append] at hlast ⊢
        have hc : c.toLower ≠ ']' := by
          rw [ne_eq, toLower_eq_iff (by decide)]
          rintro rfl
          exact hlast (by simp)
        rw [to_ascii_lowercase, List.map_append]
        exact Str.trim_end_matches_append (by simpa using hc)
    rw [hlower, hstart, hend]

/-! ## The claim of the guard on the bind -/

theorem parse_ip_of_v6 {text : Text} {groups : List Nat} (h : read_ipv6_addr text = some (groups, [])) :
    parse_ip text = some (v6_addr groups) := by
  rw [parse_ip_eq]
  cases hv4 : read_ipv4_addr text with
  | some read => exact absurd (read_ipv6_of_ipv4 hv4) (by rw [h]; nofun)
  | none => rw [h]

theorem parse_ip_of_left {text left : Text} {groups : List Nat} (h : read_ipv6_addr text = some (groups, left))
    (hleft : left ≠ []) : parse_ip text = none := by
  rw [parse_ip_eq]
  cases hv4 : read_ipv4_addr text with
  | some read => exact absurd (read_ipv6_of_ipv4 hv4) (by rw [h]; nofun)
  | none =>
    rw [h]
    cases left with
    | nil => exact absurd rfl hleft
    | cons c left => rfl

/-- A dotted address binds. -/
theorem bind_addr_v4 {host : Text} {octets : UInt8 × UInt8 × UInt8 × UInt8} (h : parse_ip host = some (.V4 octets))
    (port : UInt16) : bind_addr host port = .ok ⟨.V4 octets, port⟩ := by
  obtain ⟨read, hread, haddr⟩ := parse_ip_v4 h
  have hhost := read_ipv4_addr_append ':' rfl (by decide) host (Nat.toDigits 10 port.toNat)
  simp only [hread, Option.map_some, List.nil_append] at hhost
  have hport := read_port_toDigits port.toNat_lt
  have hv4 : read_socket_addr_v4 (host ++ ':' :: Nat.toDigits 10 port.toNat) = some (⟨.V4 octets, port⟩, []) := by
    unfold read_socket_addr_v4
    simp only [hhost, hport, bind, Option.bind_some, haddr, UInt16.ofNat_toNat]
    rfl
  unfold bind_addr parse_socket_addr
  rw [hv4]
  rfl

/-- A literal in brackets binds. -/
theorem bind_addr_bracketed {literal : Text} {segments : Vector UInt16 8}
    (h : parse_ip literal = some (.V6 segments)) (port : UInt16) :
    bind_addr ('[' :: literal ++ [']']) port = .ok ⟨.V6 segments, port⟩ := by
  obtain ⟨groups, hread, haddr⟩ := parse_ip_v6 h
  have htext : '[' :: literal ++ [']'] ++ ':' :: Nat.toDigits 10 port.toNat =
      '[' :: (literal ++ ']' :: ':' :: Nat.toDigits 10 port.toNat) := by
    simp
  have hliteral := read_ipv6_addr_append ']' rfl (by decide) literal
    (':' :: Nat.toDigits 10 port.toNat)
  simp only [hread, Option.map_some, List.nil_append] at hliteral
  have hport := read_port_toDigits port.toNat_lt
  have hv4 : read_socket_addr_v4 ('[' :: (literal ++ ']' :: ':' :: Nat.toDigits 10 port.toNat)) = none := by
    have hnone := read_ipv4_addr_append '[' rfl (by decide) []
      (literal ++ ']' :: ':' :: Nat.toDigits 10 port.toNat)
    unfold read_socket_addr_v4
    rw [← List.nil_append ('[' :: _), hnone]
    rfl
  have hv6 : read_socket_addr_v6 ('[' :: (literal ++ ']' :: ':' :: Nat.toDigits 10 port.toNat)) =
      some (⟨.V6 segments, port⟩, []) := by
    have hopen : read_given_char '[' ('[' :: (literal ++ ']' :: ':' :: Nat.toDigits 10 port.toNat)) =
        some (literal ++ ']' :: ':' :: Nat.toDigits 10 port.toNat) := rfl
    have hclose : read_given_char ']' (']' :: ':' :: Nat.toDigits 10 port.toNat) =
        some (':' :: Nat.toDigits 10 port.toNat) := rfl
    have hscope : read_scope_id (']' :: ':' :: Nat.toDigits 10 port.toNat) = none := rfl
    unfold read_socket_addr_v6
    simp only [hopen, hliteral, hscope, hclose, hport, bind, Option.bind_some, Option.map_none,
      Option.getD_none, haddr, UInt16.ofNat_toNat]
    rfl
  unfold bind_addr parse_socket_addr
  rw [htext, hv4, hv6]
  rfl

/-- The text after the scope, should there be one. -/
def after_scope (text : Text) : Text := ((read_scope_id text).map (·.2)).getD text

theorem read_socket_addr_v6_inv {text left : Text} {addr : SocketAddr}
    (h : read_socket_addr_v6 text = some (addr, left)) :
    ∃ inner groups l port l', text = '[' :: inner ∧ read_ipv6_addr inner = some (groups, l) ∧
      after_scope l = ']' :: l' ∧ read_port l' = some (port, left) := by
  have hgiven : ∀ {c : Char} {text left : Text}, read_given_char c text = some left → text = c :: left := by
    intro c text left hread
    cases text with
    | nil => nomatch hread
    | cons d text =>
      rw [RateLimit.read_given_char] at hread
      split_ifs at hread with hd
      rw [hd, Option.some.inj hread]
  unfold read_socket_addr_v6 at h
  simp only [bind, Option.bind_eq_some_iff, Prod.exists] at h
  obtain ⟨inner, hopen, groups, l, hgroups, l', hclose, port, l'', hport, heq⟩ := h
  obtain ⟨-, rfl⟩ := Prod.mk.inj (Option.some.inj heq)
  exact ⟨inner, groups, l, port, l', hgiven hopen, hgroups, hgiven hclose, hport⟩

theorem bindable_of_v4 {host rest : Text} {addr : SocketAddr}
    (h : read_socket_addr_v4 (host ++ ':' :: rest) = some (addr, [])) :
    ∃ octets, parse_ip host = some (.V4 octets) := by
  unfold read_socket_addr_v4 at h
  rw [read_ipv4_addr_append ':' rfl (by decide)] at h
  cases hhost : read_ipv4_addr host with
  | none =>
    rw [hhost] at h
    nomatch h
  | some read =>
    obtain ⟨octets, left⟩ := read
    simp only [hhost, Option.map_some, bind, Option.bind_some, Option.bind_eq_some_iff, Prod.exists] at h
    obtain ⟨port, l, hport, heq⟩ := h
    obtain ⟨-, rfl⟩ := Prod.mk.inj (Option.some.inj heq)
    obtain rfl := eq_nil_of_read_port hport
    rw [parse_ip_eq, hhost]
    exact ⟨_, rfl⟩

/-- No bracket is read over on the way to the port. -/
theorem bracket_not_mem_after_scope {text left : Text} {groups : List Nat}
    (h : read_ipv6_addr text = some (groups, left)) (htext : ']' ∉ text) : ']' ∉ after_scope left := by
  have hleft : ']' ∉ left := by
    refine bracket_not_mem_of_alike (fun text => ?_) h htext
    have halike := read_ipv6_addr_alike (alike_bracket 16) (by simp) (by simp) text
    rwa [List.append_nil] at halike
  unfold after_scope
  cases hscope : read_scope_id left with
  | none => exact hleft
  | some read =>
    refine bracket_not_mem_of_alike (fun text => ?_) hscope hleft
    have halike := read_scope_id_alike (alike_bracket 10) (by simp) text
    rwa [List.append_nil] at halike

theorem after_scope_append (left rest : Text) :
    after_scope (left ++ ']' :: rest) = after_scope left ++ ']' :: rest := by
  have halike : Alike 10 ['%'] id (']' :: rest) := alike_append ['%'] ']' rest rfl (by decide)
  have h := read_scope_id_alike halike List.mem_cons_self left
  rw [List.map_id, carry_id] at h
  unfold after_scope
  rw [h]
  cases read_scope_id left with
  | none => rfl
  | some read => rfl

theorem bindable_of_v6 {host : Text} {port : UInt16} {addr : SocketAddr} (hhost : is_loopback_host host = true)
    (h : read_socket_addr_v6 (host ++ ':' :: Nat.toDigits 10 port.toNat) = some (addr, [])) :
    ∃ literal segments, host = '[' :: literal ++ [']'] ∧ parse_ip literal = some (.V6 segments) := by
  obtain ⟨inner, groups, l, port', l', hopen, hgroups, hclose, hport⟩ := read_socket_addr_v6_inv h
  obtain ⟨body, rfl, rfl⟩ : ∃ body, host = '[' :: body ∧ inner = body ++ ':' :: Nat.toDigits 10 port.toNat := by
    cases host with
    | nil => exact absurd (List.cons.inj hopen).1 (by decide)
    | cons c body =>
      obtain ⟨rfl, rfl⟩ := List.cons.inj hopen
      exact ⟨body, rfl, rfl⟩
  have hmem : ']' ∈ body := by
    by_contra hbody
    have hinner : ']' ∉ body ++ ':' :: Nat.toDigits 10 port.toNat := by
      intro hmem
      rcases List.mem_append.mp hmem with hmem | hmem
      · exact hbody hmem
      · rcases List.mem_cons.mp hmem with heq | hmem
        · exact absurd heq (by decide)
        · exact absurd (Nat.isDigit_of_mem_toDigits (by decide) (by decide) hmem) (by decide)
    exact bracket_not_mem_after_scope hgroups hinner (hclose ▸ List.mem_cons_self)
  obtain ⟨literal, rest, rfl, hliteral⟩ := List.eq_append_cons_of_mem hmem
  rw [List.append_assoc, List.cons_append, read_ipv6_addr_append ']' rfl (by decide)] at hgroups
  obtain ⟨⟨groups', left⟩, hread, heq⟩ := Option.map_eq_some_iff.mp hgroups
  obtain ⟨rfl, rfl⟩ := Prod.mk.inj heq
  -- What is left of the literal is a scope that is read over, so the bracket closes it.
  have hempty := bracket_not_mem_after_scope hread hliteral
  rw [after_scope_append] at hclose
  obtain rfl : l' = rest ++ ':' :: Nat.toDigits 10 port.toNat := by
    cases hscope : after_scope left with
    | nil =>
      rw [hscope] at hclose
      exact (List.cons.inj hclose).2.symm
    | cons c after =>
      rw [hscope] at hclose hempty
      exact absurd (List.mem_cons.mpr (.inl (List.cons.inj hclose).1.symm)) hempty
  obtain rfl := eq_nil_of_read_port hport
  have hlast : literal.getLast? ≠ some ']' := fun h => hliteral (List.mem_of_getLast? h)
  rw [← List.cons_append, is_loopback_host_bracketed hread hlast] at hhost
  by_cases hleft : left = []
  · rw [hleft] at hread
    exact ⟨literal, _, rfl, parse_ip_of_v6 hread⟩
  · rw [parse_ip_of_left hread hleft] at hhost
    nomatch hhost

/-- Whatever the server binds is a host of these two kinds. -/
theorem bindable_of_bind_addr {host : Text} {port : UInt16} {addr : SocketAddr}
    (hhost : is_loopback_host host = true) (h : bind_addr host port = .ok addr) : Bindable host := by
  unfold bind_addr parse_socket_addr at h
  cases hv4 : read_socket_addr_v4 (host ++ ':' :: Nat.toDigits 10 port.toNat) with
  | some read =>
    obtain ⟨addr', left⟩ := read
    rw [hv4] at h
    cases left with
    | nil => exact .inl (bindable_of_v4 hv4)
    | cons c left => nomatch h
  | none =>
    rw [hv4, Option.none_or] at h
    cases hv6 : read_socket_addr_v6 (host ++ ':' :: Nat.toDigits 10 port.toNat) with
    | some read =>
      obtain ⟨addr', left⟩ := read
      rw [hv6] at h
      cases left with
      | nil => exact .inr (bindable_of_v6 hhost hv6)
      | cons c left => nomatch h
    | none =>
      rw [hv6] at h
      nomatch h

/-- A loopback host is bound exactly if it is spelled as a socket address spells it. -/
theorem loopback_host_binds_iff (host : Text) (port : UInt16) (hhost : is_loopback_host host = true) :
    BindsLoopback host port ↔ Bindable host := by
  constructor
  · rintro ⟨addr, haddr, -, -⟩
    exact bindable_of_bind_addr hhost haddr
  · rintro (⟨octets, hv4⟩ | ⟨literal, segments, rfl, hv6⟩)
    · rw [is_loopback_host_v4 hv4] at hhost
      exact ⟨_, bind_addr_v4 hv4 port, hhost, rfl⟩
    · obtain ⟨groups, hread, -⟩ := parse_ip_v6 hv6
      have hlast : literal.getLast? ≠ some ']' := by
        intro h
        obtain ⟨init, rfl⟩ := List.getLast?_eq_some_iff.mp h
        rw [read_ipv6_addr_append ']' rfl (by decide)] at hread
        obtain ⟨read, -, heq⟩ := Option.map_eq_some_iff.mp hread
        exact absurd (congrArg Prod.snd heq) (List.append_ne_nil_of_right_ne_nil _ (List.cons_ne_nil _ _))
      rw [is_loopback_host_bracketed hread hlast, hv6] at hhost
      exact ⟨_, bind_addr_bracketed hv6 port, hhost, rfl⟩

theorem loopback_v4_binds : BindsLoopback "127.0.0.2".toList 9876 ∧ BindsLoopback "[::1]".toList 9876 :=
  ⟨(loopback_host_binds_iff "127.0.0.2".toList 9876 (by decide)).mpr (.inl ⟨_, rfl⟩),
    (loopback_host_binds_iff "[::1]".toList 9876 (by decide)).mpr (.inr ⟨"::1".toList, _, rfl, rfl⟩)⟩

/-- The host that the guard knows by name. -/
theorem localhost_does_not_bind : ¬ ∀ (host : Text) (port : UInt16), is_loopback_host host = true →
    BindsLoopback host port := by
  intro h
  obtain ⟨addr, haddr, -, -⟩ := h "localhost".toList 9876 (by decide)
  have hnone : bind_addr "localhost".toList 9876 = .error "Invalid host:port".toList := by decide
  rw [hnone] at haddr
  nomatch haddr

end Gigastt.Server
