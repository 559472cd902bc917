import Mathlib.Data.List.TakeWhile

/-!
# Cutting a list before its marked elements

Each marked element starts a new group. The elements before the first mark are a group
of their own, which may be empty.
-/

namespace Gigastt.Cut

variable {α : Type} (p : α → Bool)

/-- The elements before the first mark, then the groups that start with a mark. -/
def cut : List α → List α × List (List α)
  | [] => ([], [])
  | a :: l =>
    let (first, groups) := cut l
    if p a then ([], (a :: first) :: groups) else (a :: first, groups)

def groups (l : List α) : List (List α) := (cut p l).1 :: (cut p l).2

/-- The last group, which more elements can still extend. -/
def last (l : List α) : List α := (groups p l).getLastD []

theorem cut_first (l : List α) : (cut p l).1 = l.takeWhile fun a => !p a := by
  induction l with
  | nil => rfl
  | cons a l ih =>
    match h : p a with
    | true => simp [cut, h]
    | false => simp [cut, h, ih]

theorem groups_flatten (l : List α) : (groups p l).flatten = l := by
  induction l with
  | nil => rfl
  | cons a l ih =>
    unfold groups at ih ⊢
    unfold cut
    dsimp only
    rw [List.flatten_cons] at ih
    split
    · rw [List.flatten_cons, List.flatten_cons, List.nil_append, List.cons_append, ih]
    · rw [List.flatten_cons, List.cons_append, ih]

/-- `gs` is `l`, cut before each mark and nowhere else. -/
structure IsCut (l : List α) (gs : List (List α)) : Prop where
  flatten : gs.flatten = l
  first : ∀ first, gs.head? = some first → ∀ a ∈ first, p a = false
  later : ∀ group ∈ gs.tail, ∃ a rest, group = a :: rest ∧ p a = true ∧ ∀ b ∈ rest, p b = false

theorem cut_first_unmarked (l : List α) : ∀ a ∈ (cut p l).1, p a = false := by
  intro a ha
  rw [cut_first] at ha
  simpa using List.mem_takeWhile_imp ha

theorem groups_isCut (l : List α) : IsCut p l (groups p l) := by
  refine ⟨groups_flatten p l, ?_, ?_⟩
  · intro first hfirst
    obtain rfl := Option.some.inj hfirst
    exact cut_first_unmarked p l
  · unfold groups
    rw [List.tail_cons]
    induction l with
    | nil =>
      intro group hgroup
      cases hgroup
    | cons a l ih =>
      unfold cut
      dsimp only
      split
      · rename_i hmark
        rw [List.forall_mem_cons]
        exact ⟨⟨a, _, rfl, hmark, cut_first_unmarked p l⟩, ih⟩
      · exact ih

theorem groups_append (l₁ l₂ : List α) :
    groups p (l₁ ++ l₂) =
      (groups p l₁).dropLast ++ (last p l₁ ++ (cut p l₂).1) :: (cut p l₂).2 := by
  induction l₁ with
  | nil => rfl
  | cons a l₁ ih =>
    simp only [groups, last, List.cons_append, cut] at ih ⊢
    -- Only the group that `a` joins changes: the first of those after it.
    match hcut : cut p l₁ with
    | (first, []) =>
      rw [hcut] at ih
      obtain ⟨hfirst, hgroups⟩ := List.cons.inj ih
      split_ifs <;> simp [hfirst, hgroups]
    | (first, group :: gs) =>
      rw [hcut] at ih
      obtain ⟨hfirst, hgroups⟩ := List.cons.inj ih
      split_ifs <;> simp [hfirst, hgroups]

end Gigastt.Cut
