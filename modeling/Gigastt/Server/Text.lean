import Gigastt.Words.Code
import Mathlib

/-!
# What the server takes from `str`
-/

namespace Gigastt.Server

open Words

def to_ascii_lowercase (text : Text) : Text := text.map Char.toLower

def eq_ignore_ascii_case (a b : Text) : Bool := to_ascii_lowercase a == to_ascii_lowercase b

theorem toLower_eq_self {c : Char} (hc : c.isAlpha = false) : c.toLower = c := by
  apply Char.toLower_eq_of_not_isUpper
  rw [(Bool.or_eq_false_iff.mp hc).1]
  exact Bool.false_ne_true

theorem toLower_eq_iff {c d : Char} (hd : d.isAlpha = false) : c.toLower = d ↔ c = d := by
  constructor
  · rintro rfl
    rw [Char.isAlpha_toLower_eq_isAlpha] at hd
    exact (toLower_eq_self hd).symm
  · rintro rfl
    exact toLower_eq_self hd

theorem mem_to_ascii_lowercase {d : Char} (hd : d.isAlpha = false) (text : Text) :
    d ∈ to_ascii_lowercase text ↔ d ∈ text := by
  unfold to_ascii_lowercase
  simp [toLower_eq_iff hd]

/-- The first `d` splits a text in one way. -/
theorem append_cons_inj {d : Char} {x x' y y' : Text} (hx : d ∉ x) (hx' : d ∉ x') :
    x ++ d :: y = x' ++ d :: y' ↔ x = x' ∧ y = y' := by
  constructor
  · intro h
    induction x generalizing x' with
    | nil =>
      cases x' with
      | nil => simpa using h
      | cons c cs => exact absurd (List.cons.inj h).1 (List.ne_of_not_mem_cons hx')
    | cons a as ih =>
      cases x' with
      | nil => exact absurd (List.cons.inj h).1.symm (List.ne_of_not_mem_cons hx)
      | cons c cs =>
        obtain ⟨rfl, htail⟩ := List.cons.inj h
        obtain ⟨rfl, hrest⟩ := ih (fun ha => hx (List.mem_cons_of_mem a ha))
          (fun hc => hx' (List.mem_cons_of_mem a hc)) htail
        exact ⟨rfl, hrest⟩
  · rintro ⟨rfl, rfl⟩
    rfl

theorem strip_prefix_eq_some {text p rest : Text} :
    text.dropPrefix? p = some rest ↔ text = p ++ rest := by
  simp [List.dropPrefix?_eq_some_iff]

end Gigastt.Server
