import Gigastt.RateLimit.Code
import Gigastt.Server.Text

/-!
# Socket addresses, as `SocketAddr::from_str` reads them

With what the readers of an address make of a text in lower case, and of one that goes on.
-/

namespace Gigastt.Server

open Words
open RateLimit (IpAddr SocketAddr to_digit read_digits read_number read_given_char read_separator read_octet
  read_ipv4_addr read_groups read_ipv6_addr parse_ip)

/-! ## The parser -/

def v4_addr : Nat × Nat × Nat × Nat → IpAddr
  | (a, b, c, d) => .V4 (UInt8.ofNat a, UInt8.ofNat b, UInt8.ofNat c, UInt8.ofNat d)

def v6_addr (groups : List Nat) : IpAddr :=
  .V6 (Vector.ofFn fun i => UInt16.ofNat (groups.getD i 0))

/-- A number with as many digits as there are. -/
def read_decimal (bound : Nat) (text : Text) : Option (Nat × Text) :=
  read_number 10 text.length bound true text

def read_port (text : Text) : Option (Nat × Text) :=
  (read_given_char ':' text).bind (read_decimal (2 ^ 16))

def read_scope_id (text : Text) : Option (Nat × Text) :=
  (read_given_char '%' text).bind (read_decimal (2 ^ 32))

def read_socket_addr_v4 (text : Text) : Option (SocketAddr × Text) := do
  let (octets, text) ← read_ipv4_addr text
  let (port, text) ← read_port text
  return (⟨v4_addr octets, UInt16.ofNat port⟩, text)

/-- The scope is read over: no `SocketAddr` here has one. -/
def read_socket_addr_v6 (text : Text) : Option (SocketAddr × Text) := do
  let text ← read_given_char '[' text
  let (groups, text) ← read_ipv6_addr text
  let text := ((read_scope_id text).map (·.2)).getD text
  let text ← read_given_char ']' text
  let (port, text) ← read_port text
  return (⟨v6_addr groups, UInt16.ofNat port⟩, text)

def parse_socket_addr (text : Text) : Option SocketAddr :=
  match (read_socket_addr_v4 text).or (read_socket_addr_v6 text) with
  | some (addr, []) => some addr
  | _ => none

/-! ## Texts that read alike -/

/-- Readers do not tell a text from the text that `f` and `tail` make of it. -/
structure Alike (radix : Nat) (seps : List Char) (f : Char → Char) (tail : Text) : Prop where
  to_digit : ∀ r c, to_digit r (f c) = to_digit r c
  zero : ∀ c, f c = '0' ↔ c = '0'
  sep : ∀ s ∈ seps, ∀ c, f c = s ↔ c = s
  stops : ∀ c ∈ tail.head?, RateLimit.to_digit radix c = none ∧ c ∉ seps

/-- What is left of the text is made in the same way. -/
def carry {α : Type} (f : Char → Char) (tail : Text) (r : Option (α × Text)) : Option (α × Text) :=
  r.map fun (a, left) => (a, left.map f ++ tail)

variable {radix max_digits bound : Nat} {seps : List Char} {f : Char → Char} {tail : Text}

theorem read_digits_alike (h : Alike radix seps f tail) (count value : Nat) (text : Text) :
    read_digits radix max_digits count value (text.map f ++ tail) =
      (read_digits radix max_digits count value text).map fun (n, v, left) =>
        (n, v, left.map f ++ tail) := by
  induction text generalizing count value with
  | nil =>
    cases tail with
    | nil => rfl
    | cons c rest =>
      rw [List.map_nil, List.nil_append, read_digits, read_digits, (h.stops c rfl).1]
      rfl
  | cons c text ih =>
    rw [List.map_cons, List.cons_append, read_digits, read_digits, h.to_digit]
    cases to_digit radix c with
    | none => rfl
    | some digit =>
      dsimp only
      split_ifs
      · rfl
      · exact ih _ _

theorem read_number_alike (max_digits bound : Nat) (h : Alike radix seps f tail) (allow_leading_zero : Bool)
    (text : Text) :
    read_number radix max_digits bound allow_leading_zero (text.map f ++ tail) =
      carry f tail (read_number radix max_digits bound allow_leading_zero text) := by
  unfold read_number
  rw [read_digits_alike h]
  cases text with
  | nil => rfl
  | cons c text =>
    have hzero : (((c :: text).map f ++ tail).head? == some '0') = ((c :: text).head? == some '0') := by
      rw [List.map_cons, List.cons_append, List.head?_cons, List.head?_cons, Bool.eq_iff_iff, beq_iff_eq,
        beq_iff_eq, Option.some_inj, Option.some_inj, h.zero]
    rw [hzero]
    cases read_digits radix max_digits 0 0 (c :: text) with
    | none => rfl
    | some read =>
      obtain ⟨count, value, left⟩ := read
      dsimp only [Option.map_some]
      split_ifs
      · rfl
      · rfl
      · rfl
      · rfl

theorem read_given_char_alike (h : Alike radix seps f tail) {s : Char} (hs : s ∈ seps) (text : Text) :
    read_given_char s (text.map f ++ tail) = (read_given_char s text).map fun left => left.map f ++ tail := by
  cases text with
  | nil =>
    cases tail with
    | nil => rfl
    | cons c rest =>
      refine if_neg ?_
      rintro rfl
      exact (h.stops c rfl).2 hs
  | cons c text =>
    rw [List.map_cons, List.cons_append, read_given_char, read_given_char, if_congr (h.sep s hs c) rfl rfl]
    split_ifs
    · rfl
    · rfl

theorem read_separator_alike {α : Type} (h : Alike radix seps f tail) {s : Char} (hs : s ∈ seps) (index : Nat)
    {inner : Text → Option (α × Text)} (hinner : ∀ text, inner (text.map f ++ tail) = carry f tail (inner text))
    (text : Text) :
    read_separator s index inner (text.map f ++ tail) = carry f tail (read_separator s index inner text) := by
  unfold read_separator
  split_ifs
  · exact hinner text
  · rw [read_given_char_alike h hs]
    cases read_given_char s text with
    | none => rfl
    | some left => exact hinner left

theorem Alike.of_radix (h : Alike radix seps f tail) {r : Nat} (hr : r ≤ radix) : Alike r seps f tail where
  to_digit := h.to_digit
  zero := h.zero
  sep := h.sep
  stops := by
    intro c hc
    obtain ⟨hdigit, hsep⟩ := h.stops c hc
    refine ⟨?_, hsep⟩
    unfold RateLimit.to_digit at hdigit ⊢
    rw [Option.filter_eq_none_iff] at hdigit ⊢
    intro n hn hlt
    refine hdigit n hn ?_
    simp only [decide_eq_true_eq] at hlt ⊢
    omega

theorem read_ipv4_addr_alike (h : Alike radix seps f tail) (hradix : 10 ≤ radix) (hdot : '.' ∈ seps)
    (text : Text) : read_ipv4_addr (text.map f ++ tail) = carry f tail (read_ipv4_addr text) := by
  have hoctet : ∀ index text, read_octet index (text.map f ++ tail) = carry f tail (read_octet index text) :=
    fun index => read_separator_alike h hdot index (read_number_alike 3 256 (h.of_radix hradix) false)
  have hbind : ∀ {α β : Type} (r : Option (α × Text)) (k : α × Text → Option (β × Text)),
      (∀ a left, k (a, left.map f ++ tail) = carry f tail (k (a, left))) →
      carry f tail r >>= k = carry f tail (r >>= k) := by
    intro α β r k hk
    cases r with
    | none => rfl
    | some read => exact hk read.1 read.2
  unfold read_ipv4_addr
  rw [hoctet]
  refine hbind _ _ fun a left => ?_
  dsimp only
  rw [hoctet]
  refine hbind _ _ fun b left => ?_
  dsimp only
  rw [hoctet]
  refine hbind _ _ fun c left => ?_
  dsimp only
  rw [hoctet]
  exact hbind _ _ fun d left => rfl

theorem read_groups_alike (h : Alike 16 seps f tail) (hdot : '.' ∈ seps) (hcolon : ':' ∈ seps)
    (limit left : Nat) (text : Text) :
    read_groups limit left (text.map f ++ tail) =
      ((read_groups limit left text).1, (read_groups limit left text).2.1,
        (read_groups limit left text).2.2.map f ++ tail) := by
  induction left generalizing text with
  | zero => rfl
  | succ left ih =>
    have hipv4 := read_separator_alike h hcolon (limit - (left + 1)) (read_ipv4_addr_alike h (by decide) hdot)
    have hgroup := read_separator_alike h hcolon (limit - (left + 1))
      (read_number_alike 4 65536 h true)
    unfold read_groups
    dsimp only
    rw [hipv4, hgroup]
    -- An address in dotted form ends the groups, if it may stand here.
    cases hread : if limit - (left + 1) < limit - 1 then
        read_separator ':' (limit - (left + 1)) read_ipv4_addr text else none with
    | some read =>
      obtain ⟨hlt, hread⟩ := Option.ite_none_right_eq_some.mp hread
      rw [if_pos hlt, hread]
      rfl
    | none =>
      have hcarry : (if limit - (left + 1) < limit - 1 then
          carry f tail (read_separator ':' (limit - (left + 1)) read_ipv4_addr text) else none) = none := by
        split_ifs at hread ⊢
        · rw [hread]
          rfl
        · rfl
      rw [hcarry]
      cases read_separator ':' (limit - (left + 1)) (read_number 16 4 65536 true) text with
      | none => rfl
      | some read =>
        dsimp only [carry, Option.map_some]
        rw [ih]

theorem read_ipv6_addr_alike (h : Alike 16 seps f tail) (hdot : '.' ∈ seps) (hcolon : ':' ∈ seps) (text : Text) :
    read_ipv6_addr (text.map f ++ tail) = carry f tail (read_ipv6_addr text) := by
  unfold read_ipv6_addr
  rw [read_groups_alike h hdot hcolon]
  generalize read_groups 8 8 text = groups
  obtain ⟨head, head_ipv4, left⟩ := groups
  dsimp only
  split_ifs
  · rfl
  · rfl
  · rw [read_given_char_alike h hcolon]
    cases read_given_char ':' left with
    | none => rfl
    | some left =>
      show ((read_given_char ':' (left.map f ++ tail)).bind _) = carry f tail ((read_given_char ':' left).bind _)
      rw [read_given_char_alike h hcolon]
      cases read_given_char ':' left with
      | none => rfl
      | some left =>
        dsimp only [Option.map_some, Option.bind_some]
        rw [read_groups_alike h hdot hcolon]
        rfl

theorem read_digits_max (max_digits max_digits' : Nat) (text : Text) (count value : Nat)
    (h : count + text.length ≤ max_digits) (h' : count + text.length ≤ max_digits') :
    read_digits radix max_digits count value text = read_digits radix max_digits' count value text := by
  induction text generalizing count value with
  | nil => rfl
  | cons c text ih =>
    rw [List.length_cons] at h h'
    rw [read_digits, read_digits]
    cases to_digit radix c with
    | none => rfl
    | some digit =>
      dsimp only
      rw [if_neg (by omega), if_neg (by omega), ih _ _ (by omega) (by omega)]

theorem read_number_max (text : Text) (h : text.length ≤ max_digits) :
    read_number 10 max_digits bound true text = read_decimal bound text := by
  unfold read_decimal read_number
  rw [read_digits_max max_digits text.length text 0 0 (by omega) (by omega)]

theorem read_scope_id_alike (h : Alike 10 seps f tail) (hpercent : '%' ∈ seps) (text : Text) :
    read_scope_id (text.map f ++ tail) = carry f tail (read_scope_id text) := by
  unfold read_scope_id
  rw [read_given_char_alike h hpercent]
  cases read_given_char '%' text with
  | none => rfl
  | some left =>
    have hnumber := read_number_alike (left.map f ++ tail).length (2 ^ 32) h true left
    rw [read_number_max left (by simp)] at hnumber
    exact hnumber

/-! ## Lower case, and texts that go on -/

theorem toNat_toLower (c : Char) :
    c.toLower.toNat = if 65 ≤ c.toNat ∧ c.toNat ≤ 90 then c.toNat + 32 else c.toNat := by
  unfold Char.toLower
  by_cases h : c.val ≥ 'A'.val ∧ c.val ≤ 'Z'.val
  · have hrange : 65 ≤ c.toNat ∧ c.toNat ≤ 90 := h
    rw [dif_pos h, if_pos hrange]
    show (c.val.toNat + 32) % 2 ^ 32 = c.toNat + 32
    exact Nat.mod_eq_of_lt (by change c.toNat + 32 < 2 ^ 32; omega)
  · rw [dif_neg h]
    exact (if_neg h).symm

theorem to_digit_eq (r : Nat) (c : Char) : to_digit r c =
    (if 48 ≤ c.toNat ∧ c.toNat ≤ 57 then some (c.toNat - 48)
     else if 97 ≤ c.toNat ∧ c.toNat ≤ 122 then some (c.toNat - 97 + 10)
     else if 65 ≤ c.toNat ∧ c.toNat ≤ 90 then some (c.toNat - 65 + 10)
     else none).filter (· < r) := rfl

theorem to_digit_toLower (r : Nat) (c : Char) : to_digit r c.toLower = to_digit r c := by
  rw [to_digit_eq, to_digit_eq, toNat_toLower]
  congr 1
  split_ifs
  all_goals first | omega | rfl

theorem alike_lower (radix : Nat) : Alike radix ['.', ':'] Char.toLower [] where
  to_digit := to_digit_toLower
  zero := fun c => toLower_eq_iff (by decide)
  sep := by
    intro s hs c
    rcases List.mem_cons.mp hs with rfl | hs
    · exact toLower_eq_iff (by decide)
    · rw [List.mem_singleton.mp hs]
      exact toLower_eq_iff (by decide)
  stops := nofun

theorem alike_append (seps : List Char) (stop : Char) (rest : Text) (hdigit : to_digit radix stop = none)
    (hsep : stop ∉ seps) : Alike radix seps id (stop :: rest) where
  to_digit := fun _ _ => rfl
  zero := fun _ => Iff.rfl
  sep := fun _ _ _ => Iff.rfl
  stops := by
    intro c hc
    obtain rfl := Option.some.inj hc
    exact ⟨hdigit, hsep⟩

/-- Another bracket reads like a closing one. -/
theorem alike_bracket (radix : Nat) :
    Alike radix ['.', ':', '%'] (fun c => if c = ']' then '[' else c) [] where
  to_digit := by
    intro r c
    split_ifs with hc
    · rw [hc]
      simp [to_digit_eq]
    · rfl
  zero := by
    intro c
    split_ifs with hc
    · rw [hc]
      decide
    · rfl
  sep := by
    intro s hs c
    split_ifs with hc
    · have hne : s ≠ '[' ∧ s ≠ ']' := by
        constructor
        · rintro rfl
          simp at hs
        · rintro rfl
          simp at hs
      rw [hc]
      exact iff_of_false hne.1.symm hne.2.symm
    · rfl
  stops := nofun

/-- No closing bracket is left of a text without one. -/
theorem bracket_not_mem_of_alike {α : Type} {read : Text → Option (α × Text)}
    (hread : ∀ text, read (text.map fun c => if c = ']' then '[' else c) =
      carry (fun c => if c = ']' then '[' else c) [] (read text))
    {text left : Text} {a : α} (h : read text = some (a, left)) (htext : ']' ∉ text) : ']' ∉ left := by
  have hsame : text.map (fun c => if c = ']' then '[' else c) = text := by
    refine (List.map_congr_left fun c hc => if_neg ?_).trans (List.map_id text)
    rintro rfl
    exact htext hc
  have hleft := hread text
  rw [hsame, h] at hleft
  have hmap : left = left.map (fun c => if c = ']' then '[' else c) ++ [] :=
    congrArg Prod.snd (Option.some.inj hleft)
  intro hmem
  rw [hmap, List.append_nil] at hmem
  obtain ⟨c, -, hc⟩ := List.mem_map.mp hmem
  split_ifs at hc with heq
  · exact absurd hc (by decide)
  · exact heq hc

/-! ## Ends -/

theorem carry_id {α : Type} (r : Option (α × Text)) :
    carry id tail r = r.map fun (a, left) => (a, left ++ tail) := by
  unfold carry
  simp only [List.map_id]

theorem read_ipv4_addr_append (stop : Char) (hdigit : to_digit 10 stop = none) (hdot : stop ≠ '.')
    (text rest : Text) : read_ipv4_addr (text ++ stop :: rest) =
      (read_ipv4_addr text).map fun (octets, left) => (octets, left ++ stop :: rest) := by
  have h := read_ipv4_addr_alike (alike_append ['.'] stop rest hdigit (by simpa using hdot))
    (Nat.le_refl 10) List.mem_cons_self text
  rwa [List.map_id, carry_id] at h

theorem read_ipv6_addr_append (stop : Char) (hdigit : to_digit 16 stop = none) (hsep : stop ∉ ['.', ':'])
    (text rest : Text) : read_ipv6_addr (text ++ stop :: rest) =
      (read_ipv6_addr text).map fun (groups, left) => (groups, left ++ stop :: rest) := by
  have h := read_ipv6_addr_alike (alike_append ['.', ':'] stop rest hdigit hsep) (by decide) (by decide) text
  rwa [List.map_id, carry_id] at h

/-- A dotted address begins and ends with a digit or a dot. -/
theorem ends_of_ipv4 {text : Text} {octets : Nat × Nat × Nat × Nat} (h : read_ipv4_addr text = some (octets, [])) :
    ∃ first last, text.head? = some first ∧ text.getLast? = some last ∧
      ∀ c, c = first ∨ c = last → to_digit 10 c ≠ none ∨ c = '.' := by
  cases text with
  | nil => nomatch h
  | cons first rest =>
    obtain ⟨init, last, hlast⟩ : ∃ init last, first :: rest = init ++ [last] :=
      ⟨_, _, (List.dropLast_append_getLast (List.cons_ne_nil first rest)).symm⟩
    refine ⟨first, last, rfl, List.getLast?_eq_some_iff.mpr ⟨init, hlast⟩, ?_⟩
    rintro c (rfl | rfl)
    · by_contra! hc
      have hnone := read_ipv4_addr_append c hc.1 hc.2 [] rest
      rw [List.nil_append, h] at hnone
      nomatch hnone
    · by_contra! hc
      have hleft := read_ipv4_addr_append c hc.1 hc.2 init []
      rw [← hlast, h] at hleft
      cases hinit : read_ipv4_addr init with
      | none =>
        rw [hinit] at hleft
        nomatch hleft
      | some read =>
        rw [hinit] at hleft
        have hnil : [] = read.2 ++ [c] := congrArg Prod.snd (Option.some.inj hleft)
        exact absurd hnil.symm (List.append_ne_nil_of_right_ne_nil _ (List.cons_ne_nil _ _))

/-- What starts with a dotted address is no address of the other kind. -/
theorem read_ipv6_of_ipv4 {text : Text} {octets : Nat × Nat × Nat × Nat} {left : Text}
    (h : read_ipv4_addr text = some (octets, left)) : read_ipv6_addr text = none := by
  obtain ⟨a, b, c, d⟩ := octets
  have hgroups : read_groups 8 8 text =
      ([256 * a + b, 256 * c + d], true, left) := by
    unfold read_groups
    simp only [Nat.sub_self]
    rw [if_pos (by decide), read_separator, if_pos rfl, h]
  unfold read_ipv6_addr
  rw [hgroups]
  rfl

/-! ## Ports -/

theorem read_digits_toDigits (max_digits : Nat) {digits : Text}
    (hdigits : ∀ c ∈ digits, c.isDigit = true) (count value : Nat)
    (hmax : count + digits.length ≤ max_digits) :
    read_digits 10 max_digits count value digits =
      some (count + digits.length, Nat.ofDigitChars 10 digits value, []) := by
  induction digits generalizing count value with
  | nil => rfl
  | cons c digits ih =>
    obtain ⟨hc, hdigits⟩ := List.forall_mem_cons.mp hdigits
    obtain ⟨hlow, hhigh⟩ : 48 ≤ c.toNat ∧ c.toNat ≤ 57 := Char.isDigit_iff_toNat.mp hc
    have hdigit : to_digit 10 c = some (c.toNat - 48) := by
      rw [to_digit_eq, if_pos ⟨hlow, hhigh⟩]
      exact Option.filter_eq_some_iff.mpr ⟨rfl, decide_eq_true (by omega)⟩
    rw [List.length_cons] at hmax ⊢
    rw [read_digits, hdigit]
    dsimp only
    rw [if_neg (by omega), ih hdigits _ _ (by omega), Nat.ofDigitChars_cons, Nat.mul_comm value 10]
    simp only [Option.some.injEq, Prod.mk.injEq, and_true]
    exact ⟨by omega, rfl⟩

theorem read_port_toDigits {port : Nat} (hport : port < 2 ^ 16) :
    read_port (':' :: Nat.toDigits 10 port) = some (port, []) := by
  have hdigits : ∀ c ∈ Nat.toDigits 10 port, c.isDigit = true :=
    fun _ hc => Nat.isDigit_of_mem_toDigits (by decide) (by decide) hc
  have hread := read_digits_toDigits (Nat.toDigits 10 port).length hdigits 0 0 (Nat.zero_add _).le
  rw [Nat.zero_add, Nat.ofDigitChars_ten_toDigits] at hread
  have hlength : (Nat.toDigits 10 port).length ≠ 0 := by
    rw [ne_eq, List.length_eq_zero_iff]
    exact Nat.toDigits_ne_nil
  show read_decimal (2 ^ 16) (Nat.toDigits 10 port) = some (port, [])
  unfold read_decimal read_number
  rw [hread]
  dsimp only
  rw [if_neg hlength, if_neg (by simp), if_pos hport]

/-- The port is what follows the last colon. -/
theorem eq_nil_of_read_port {left rest : Text} {port : Nat}
    (h : read_port (left ++ ':' :: rest) = some (port, [])) : left = [] := by
  cases left with
  | nil => rfl
  | cons c left =>
    obtain ⟨text, hcolon, hdecimal⟩ := Option.bind_eq_some_iff.mp h
    have htext : text = left ++ ':' :: rest := by
      rw [List.cons_append, read_given_char] at hcolon
      split_ifs at hcolon
      exact (Option.some.inj hcolon).symm
    have halike : Alike 10 [] id (':' :: rest) := alike_append [] ':' rest rfl (by simp)
    have hstop := read_number_alike text.length (2 ^ 16) halike true left
    rw [List.map_id, carry_id, ← htext] at hstop
    rw [read_decimal, hstop] at hdecimal
    obtain ⟨read, -, hread⟩ := Option.map_eq_some_iff.mp hdecimal
    have hnil : read.2 ++ ':' :: rest = [] := congrArg Prod.snd hread
    exact absurd hnil (List.append_ne_nil_of_right_ne_nil _ (List.cons_ne_nil _ _))

end Gigastt.Server
