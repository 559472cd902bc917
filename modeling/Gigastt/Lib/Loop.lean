import Mathlib.Logic.Basic

/-!
# Loops that stop

A `loop` body either goes on with a new state, breaks with a value, or fails. A `Loop`
carries the measure that its passes decrease, so running it needs no fuel. For a `for`
loop that may fail, `List.foldlM` in `Except` is the run.
-/

namespace Gigastt

/-! ## Outcomes -/

section Outcomes

variable {ε ε' α α' β β' : Type}

theorem bind_eq_ok {x : Except ε α} {f : α → Except ε β} {b : β} :
    x >>= f = .ok b ↔ ∃ a, x = .ok a ∧ f a = .ok b := by
  cases x <;> simp [bind, Except.bind]

theorem map_eq_ok {x : Except ε α} {f : α → β} {b : β} :
    f <$> x = .ok b ↔ ∃ a, x = .ok a ∧ f a = b := by
  cases x <;> simp [Functor.map, Except.map]

inductive ResultSpec (Q : β → Prop) (E : ε → Prop) : Except ε β → Prop
  | ok {b : β} (h : Q b) : ResultSpec Q E (.ok b)
  | error {e : ε} (h : E e) : ResultSpec Q E (.error e)

theorem ResultSpec.of_true (x : Except ε β) : ResultSpec (fun _ => True) (fun _ => True) x := by
  cases x with
  | error e => exact .error trivial
  | ok b => exact .ok trivial

theorem ResultSpec.mono {Q Q' : β → Prop} {E E' : ε → Prop} {x : Except ε β}
    (h : ResultSpec Q E x) (hQ : ∀ b, Q b → Q' b) (hE : ∀ e, E e → E' e) : ResultSpec Q' E' x := by
  match h with
  | .error h => exact .error (hE _ h)
  | .ok h => exact .ok (hQ _ h)

theorem ResultSpec.and {Q Q' : β → Prop} {E : ε → Prop} {x : Except ε β} (h : ResultSpec Q E x)
    (h' : ResultSpec Q' (fun _ => True) x) : ResultSpec (fun b => Q b ∧ Q' b) E x := by
  match h, h' with
  | .error h, _ => exact .error h
  | .ok h, .ok h' => exact .ok ⟨h, h'⟩

theorem ResultSpec.bind {P : α → Prop} {Q : β → Prop} {E : ε → Prop} {x : Except ε α}
    {f : α → Except ε β} (hx : ResultSpec P E x) (hf : ∀ a, P a → ResultSpec Q E (f a)) :
    ResultSpec Q E (x >>= f) := by
  match hx with
  | .error h => exact .error h
  | .ok h => exact hf _ h

theorem ResultSpec.map {P : α → Prop} {Q : β → Prop} {E : ε → Prop} {x : Except ε α} {f : α → β}
    (hx : ResultSpec P E x) (hf : ∀ a, P a → Q (f a)) : ResultSpec Q E (f <$> x) := by
  match hx with
  | .error h => exact .error h
  | .ok h => exact .ok (hf _ h)

/-- Two outcomes that succeed alike, or fail alike. -/
inductive ResultRel (S : β → β' → Prop) (E : ε → ε' → Prop) : Except ε β → Except ε' β' → Prop
  | ok {b : β} {b' : β'} (h : S b b') : ResultRel S E (.ok b) (.ok b')
  | error {e : ε} {e' : ε'} (h : E e e') : ResultRel S E (.error e) (.error e')

theorem ResultRel.bind {R : α → α' → Prop} {S : β → β' → Prop} {E : ε → ε' → Prop}
    {x : Except ε α} {y : Except ε' α'} {f : α → Except ε β} {g : α' → Except ε' β'}
    (hxy : ResultRel R E x y) (hfg : ∀ a b, R a b → ResultRel S E (f a) (g b)) :
    ResultRel S E (x >>= f) (y >>= g) := by
  match hxy with
  | .error h => exact .error h
  | .ok h => exact hfg _ _ h

theorem ResultRel.and_spec {S : β → β' → Prop} {E : ε → ε' → Prop} {Q : β → Prop} {Q' : β' → Prop}
    {x : Except ε β} {y : Except ε' β'} (h : ResultRel S E x y)
    (hx : ResultSpec Q (fun _ => True) x) (hy : ResultSpec Q' (fun _ => True) y) :
    ResultRel (fun b b' => S b b' ∧ Q b ∧ Q' b') E x y := by
  match h, hx, hy with
  | .error h, _, _ => exact .error h
  | .ok h, .ok hb, .ok hb' => exact .ok ⟨h, hb, hb'⟩

/-- Two outcomes in step with a third are in step with one another. -/
theorem ResultRel.meet {ε'' γ : Type} {R : α → γ → Prop} {S : β → γ → Prop} {E : ε → ε'' → Prop}
    {E' : ε' → ε'' → Prop} {x : Except ε α} {y : Except ε' β} {z : Except ε'' γ}
    (hx : ResultRel R E x z) (hy : ResultRel S E' y z) :
    ResultRel (fun a b => ∃ c, R a c ∧ S b c) (fun e e' => ∃ e'', E e e'' ∧ E' e' e'') x y := by
  match hx, hy with
  | .error h, .error h' => exact .error ⟨_, h, h'⟩
  | .ok h, .ok h' => exact .ok ⟨_, h, h'⟩

theorem ResultRel.mono {S S' : β → β' → Prop} {E E' : ε → ε' → Prop} {x : Except ε β}
    {y : Except ε' β'} (h : ResultRel S E x y) (hS : ∀ b b', S b b' → S' b b')
    (hE : ∀ e e', E e e' → E' e e') : ResultRel S' E' x y := by
  match h with
  | .error h => exact .error (hE _ _ h)
  | .ok h => exact .ok (hS _ _ h)

theorem ResultRel.refl (x : Except ε α) : ResultRel (· = ·) (· = ·) x x := by
  cases x with
  | error e => exact .error rfl
  | ok a => exact .ok rfl

theorem ResultRel.eq {x y : Except ε α} (h : ResultRel (· = ·) (· = ·) x y) : x = y := by
  match h with
  | .error h => exact congrArg Except.error h
  | .ok h => exact congrArg Except.ok h

end Outcomes

/-! ## Loops -/

/-- How one pass through the body of a loop ends. -/
inductive Turn (σ β : Type) where
  | next (s : σ)
  | stop (b : β)

inductive Turn.Holds {σ β : Type} (I : σ → Prop) (Q : β → Prop) : Turn σ β → Prop
  | next {s : σ} (h : I s) : Turn.Holds I Q (.next s)
  | stop {b : β} (h : Q b) : Turn.Holds I Q (.stop b)

/-- Two passes that end alike. -/
inductive Turn.Rel {σ σ' β β' : Type} (R : σ → σ' → Prop) (S : β → β' → Prop) :
    Turn σ β → Turn σ' β' → Prop
  | next {s : σ} {s' : σ'} (h : R s s') : Turn.Rel R S (.next s) (.next s')
  | stop {b : β} {b' : β'} (h : S b b') : Turn.Rel R S (.stop b) (.stop b')

structure Loop (ε σ β : Type) where
  body : σ → Except ε (Turn σ β)
  measure : σ → Nat
  decreases : ∀ s s', body s = .ok (.next s') → measure s' < measure s

namespace Loop

variable {ε ε' σ σ' β β' : Type}

/-- At most `n` passes. The bound keeps the recursion structural, so a run computes. -/
def runWithin (L : Loop ε σ β) : (n : Nat) → (s : σ) → L.measure s < n → Except ε β
  | 0, _, h => absurd h (Nat.not_lt_zero _)
  | n + 1, s, h =>
    match hb : L.body s with
    | .error e => .error e
    | .ok (.stop b) => .ok b
    | .ok (.next s') => L.runWithin n s' (by have := L.decreases s s' hb; omega)

def run (L : Loop ε σ β) (s : σ) : Except ε β := L.runWithin (L.measure s + 1) s (Nat.lt_succ_self _)

theorem runWithin_eq_run (L : Loop ε σ β) (n : Nat) (s : σ) (h : L.measure s < n) :
    L.runWithin n s h = L.run s := by
  induction hm : L.measure s using Nat.strongRecOn generalizing n s with
  | _ m ih =>
    subst hm
    obtain ⟨k, rfl⟩ : ∃ k, n = k + 1 := ⟨n - 1, by omega⟩
    unfold run runWithin
    split
    · rfl
    · rfl
    · rename_i s' hb
      have hlt := L.decreases s s' hb
      rw [ih _ hlt k s' (by omega) rfl, ih _ hlt _ s' (by omega) rfl]

theorem run_eq (L : Loop ε σ β) (s : σ) :
    L.run s = match L.body s with
      | .error e => .error e
      | .ok (.stop b) => .ok b
      | .ok (.next s') => L.run s' := by
  rw [run, runWithin]
  split <;> rename_i hb <;> simp only [hb]
  exact L.runWithin_eq_run _ _ _

theorem run_of_error {L : Loop ε σ β} {s : σ} {e : ε} (h : L.body s = .error e) :
    L.run s = .error e := by rw [run_eq, h]

theorem run_of_stop {L : Loop ε σ β} {s : σ} {b : β} (h : L.body s = .ok (.stop b)) :
    L.run s = .ok b := by rw [run_eq, h]

theorem run_of_next {L : Loop ε σ β} {s s' : σ} (h : L.body s = .ok (.next s')) :
    L.run s = L.run s' := by rw [run_eq, h]

/-- Induction along a run: a case for each way a pass can end. -/
theorem run_induction (L : Loop ε σ β) {motive : σ → Except ε β → Prop}
    (error : ∀ s e, L.body s = .error e → motive s (.error e))
    (stop : ∀ s b, L.body s = .ok (.stop b) → motive s (.ok b))
    (next : ∀ s s', L.body s = .ok (.next s') → motive s' (L.run s') → motive s (L.run s'))
    (s : σ) : motive s (L.run s) := by
  induction hm : L.measure s using Nat.strongRecOn generalizing s with
  | _ m ih =>
    subst hm
    match hb : L.body s with
    | .error e => rw [run_of_error hb]; exact error s e hb
    | .ok (.stop b) => rw [run_of_stop hb]; exact stop s b hb
    | .ok (.next s') =>
      rw [run_of_next hb]
      exact next s s' hb (ih _ (L.decreases s s' hb) s' rfl)

theorem run_spec (L : Loop ε σ β) {I : σ → Prop} {Q : β → Prop} {E : ε → Prop}
    (hbody : ∀ s, I s → ResultSpec (Turn.Holds I Q) E (L.body s)) (s : σ) (h0 : I s) :
    ResultSpec Q E (L.run s) := by
  refine L.run_induction (motive := fun s r => I s → ResultSpec Q E r) ?_ ?_ ?_ s h0
  · intro s e hb hI
    match hb ▸ hbody s hI with
    | .error h => exact .error h
  · intro s b hb hI
    match hb ▸ hbody s hI with
    | .ok (.stop h) => exact .ok h
  · intro s s' hb ih hI
    match hb ▸ hbody s hI with
    | .ok (.next h) => exact ih h

/-- The simulation rule: loops whose passes stay in step end in step. -/
theorem run_rel (L : Loop ε σ β) (M : Loop ε' σ' β') {R : σ → σ' → Prop} {S : β → β' → Prop}
    {E : ε → ε' → Prop} (hbody : ∀ s t, R s t → ResultRel (Turn.Rel R S) E (L.body s) (M.body t))
    (s : σ) : ∀ t, R s t → ResultRel S E (L.run s) (M.run t) := by
  refine L.run_induction (motive := fun s r => ∀ t, R s t → ResultRel S E r (M.run t)) ?_ ?_ ?_ s
  · intro s e hb t hR
    have h := hbody s t hR
    rw [hb] at h
    match hm : M.body t, h with
    | .error e', .error h => rw [run_of_error hm]; exact .error h
  · intro s b hb t hR
    have h := hbody s t hR
    rw [hb] at h
    match hm : M.body t, h with
    | .ok (.stop b'), .ok (.stop h) => rw [run_of_stop hm]; exact .ok h
  · intro s s' hb ih t hR
    have h := hbody s t hR
    rw [hb] at h
    match hm : M.body t, h with
    | .ok (.next t'), .ok (.next h) => rw [run_of_next hm]; exact ih t' h

/-! ### Passes -/

/-- `n` passes lead from `s` to this state, and none of them ends the loop. -/
inductive Reaches (L : Loop ε σ β) (s : σ) : Nat → σ → Prop
  | start : L.Reaches s 0 s
  | next {n : Nat} {s₁ s₂ : σ} (hs₁ : L.Reaches s n s₁) (hs₂ : L.body s₁ = .ok (.next s₂)) :
      L.Reaches s (n + 1) s₂

/-- The loop comes to this end on its `n`-th pass from `s`. -/
inductive Finishes (L : Loop ε σ β) (s : σ) : Nat → Except ε β → Prop
  | error {n : Nat} {s' : σ} {e : ε} (hs' : L.Reaches s n s') (h : L.body s' = .error e) :
      L.Finishes s (n + 1) (.error e)
  | stop {n : Nat} {s' : σ} {b : β} (hs' : L.Reaches s n s') (h : L.body s' = .ok (.stop b)) :
      L.Finishes s (n + 1) (.ok b)

theorem Reaches.measure_le {L : Loop ε σ β} {s s' : σ} {n : Nat} (h : L.Reaches s n s') :
    L.measure s' + n ≤ L.measure s := by
  induction h with
  | start => exact Nat.le_refl _
  | next _ hs₂ ih =>
    have := L.decreases _ _ hs₂
    omega

theorem Reaches.head {L : Loop ε σ β} {s s₁ s' : σ} {n : Nat} (hs₁ : L.body s = .ok (.next s₁))
    (h : L.Reaches s₁ n s') : L.Reaches s (n + 1) s' := by
  induction h with
  | start => exact .next .start hs₁
  | next _ hs₂ ih => exact .next ih hs₂

theorem Finishes.head {L : Loop ε σ β} {s s₁ : σ} {n : Nat} {r : Except ε β}
    (hs₁ : L.body s = .ok (.next s₁)) (h : L.Finishes s₁ n r) : L.Finishes s (n + 1) r := by
  cases h with
  | error hs' h => exact .error (hs'.head hs₁) h
  | stop hs' h => exact .stop (hs'.head hs₁) h

theorem Finishes.le {L : Loop ε σ β} {s : σ} {n : Nat} {r : Except ε β} (h : L.Finishes s n r) :
    n ≤ L.measure s + 1 := by
  cases h with
  | error hs' _ =>
    have := hs'.measure_le
    omega
  | stop hs' _ =>
    have := hs'.measure_le
    omega

theorem run_finishes (L : Loop ε σ β) (s : σ) : ∃ n, L.Finishes s n (L.run s) := by
  refine L.run_induction (motive := fun s r => ∃ n, L.Finishes s n r) ?_ ?_ ?_ s
  · exact fun s e h => ⟨1, .error .start h⟩
  · exact fun s b h => ⟨1, .stop .start h⟩
  · rintro s s' h ⟨n, hn⟩
    exact ⟨n + 1, hn.head h⟩

/-- Only the passes that are reached count. -/
theorem run_congr {L M : Loop ε σ β} {s : σ}
    (h : ∀ n s', L.Reaches s n s' → L.body s' = M.body s') : L.run s = M.run s := by
  revert h
  refine L.run_induction
    (motive := fun s r => (∀ n s', L.Reaches s n s' → L.body s' = M.body s') → r = M.run s) ?_ ?_ ?_ s
  · intro s e hb h
    exact (run_of_error ((h 0 s .start).symm.trans hb)).symm
  · intro s b hb h
    exact (run_of_stop ((h 0 s .start).symm.trans hb)).symm
  · intro s s' hb ih h
    rw [run_of_next ((h 0 s .start).symm.trans hb)]
    exact ih fun n s'' hs'' => h (n + 1) s'' (hs''.head hb)

end Loop

/-! ## `for` loops that may fail -/

section Fold

variable {ε ε' σ σ' α : Type}

/-- The simulation rule for folds over one list. -/
theorem foldlM_rel {f : σ → α → Except ε σ} {g : σ' → α → Except ε' σ'} {R : σ → σ' → Prop}
    {E : ε → ε' → Prop} (h : ∀ a s t, R s t → ResultRel R E (f s a) (g t a)) (as : List α)
    (s : σ) (t : σ') (hR : R s t) : ResultRel R E (as.foldlM f s) (as.foldlM g t) := by
  induction as generalizing s t with
  | nil => exact .ok hR
  | cons a as ih =>
    rw [List.foldlM_cons, List.foldlM_cons]
    exact (h a s t hR).bind ih

theorem foldlM_spec {f : σ → α → Except ε σ} {I : σ → Prop} {E : ε → Prop} {as : List α}
    (h : ∀ a ∈ as, ∀ s, I s → ResultSpec I E (f s a)) (s : σ) (h0 : I s) :
    ResultSpec I E (as.foldlM f s) := by
  induction as generalizing s with
  | nil => exact .ok h0
  | cons a as ih =>
    rw [List.foldlM_cons]
    exact (h a List.mem_cons_self s h0).bind fun s' hs' =>
      ih (fun b hb => h b (List.mem_cons_of_mem a hb)) s' hs'

theorem mapM_spec {β : Type} {f : α → Except ε β} {E : ε → Prop} {as : List α}
    (h : ∀ a ∈ as, ResultSpec (fun _ => True) E (f a)) :
    ResultSpec (fun bs => bs.length = as.length) E (as.mapM f) := by
  induction as with
  | nil => exact .ok rfl
  | cons a as ih =>
    rw [List.mapM_cons]
    apply (h a List.mem_cons_self).bind
    intro b _
    refine (ih fun a' ha' => h a' (List.mem_cons_of_mem a ha')).bind fun bs hbs => .ok ?_
    simpa using hbs

theorem mem_of_mapM_eq_ok {β : Type} {f : α → Except ε β} {as : List α} {bs : List β}
    (h : as.mapM f = .ok bs) (b : β) : b ∈ bs ↔ ∃ a ∈ as, f a = .ok b := by
  induction as generalizing bs with
  | nil =>
    obtain rfl : [] = bs := Except.ok.inj h
    simp
  | cons a as ih =>
    rw [List.mapM_cons] at h
    obtain ⟨b', hb', h⟩ := bind_eq_ok.mp h
    obtain ⟨bs', hbs', h⟩ := bind_eq_ok.mp h
    obtain rfl : b' :: bs' = bs := Except.ok.inj h
    simp [ih hbs', hb', eq_comm]

theorem mapM_isOk {β : Type} {f : α → Except ε β} {as : List α} :
    (∃ bs, as.mapM f = .ok bs) ↔ ∀ a ∈ as, ∃ b, f a = .ok b := by
  induction as with
  | nil => exact ⟨fun _ => nofun, fun _ => ⟨[], rfl⟩⟩
  | cons a as ih =>
    rw [List.forall_mem_cons, ← ih]
    constructor
    · rintro ⟨bs, h⟩
      rw [List.mapM_cons] at h
      obtain ⟨b, hb, h⟩ := bind_eq_ok.mp h
      obtain ⟨bs', hbs', -⟩ := bind_eq_ok.mp h
      exact ⟨⟨b, hb⟩, bs', hbs'⟩
    · rintro ⟨⟨b, hb⟩, bs, hbs⟩
      refine ⟨b :: bs, ?_⟩
      rw [List.mapM_cons]
      exact bind_eq_ok.mpr ⟨b, hb, bind_eq_ok.mpr ⟨bs, hbs, rfl⟩⟩

theorem mapM_congr {β : Type} {f g : α → Except ε β} {as : List α}
    (h : ∀ a ∈ as, f a = g a) : as.mapM f = as.mapM g := by
  induction as with
  | nil => rfl
  | cons a as ih =>
    rw [List.mapM_cons, List.mapM_cons, h a List.mem_cons_self,
      ih fun b hb => h b (List.mem_cons_of_mem a hb)]

theorem mapM_eq_map {β : Type} {f : α → Except ε β} {g : α → β} {as : List α}
    (h : ∀ a ∈ as, f a = .ok (g a)) : as.mapM f = .ok (as.map g) := by
  induction as with
  | nil => rfl
  | cons a as ih =>
    rw [List.mapM_cons, h a List.mem_cons_self, ih fun b hb => h b (List.mem_cons_of_mem a hb)]
    rfl

end Fold

end Gigastt
