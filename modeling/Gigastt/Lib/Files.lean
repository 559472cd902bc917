import Mathlib.Logic.Function.Basic

/-!
# The files of a directory

Names map to inodes. A file that is open is known by its inode, so it outlives its name.
-/

namespace Gigastt.Files

variable {N : Type}

/-- A directory, with the bytes of all inodes and the first inode that is not used yet. -/
structure Dir (N : Type) where
  entry : N → Option Nat
  bytes : Nat → List UInt8
  fresh : Nat

/-- A file that is open for writing. -/
structure Handle where
  inode : Nat
  pos : Nat
deriving DecidableEq, Repr

def Dir.empty : Dir N := { entry := fun _ => none, bytes := fun _ => [], fresh := 0 }

/-- No two names share an inode, and the next inode is not taken. -/
structure Dir.Sound (d : Dir N) : Prop where
  injective : ∀ n n' i, d.entry n = some i → d.entry n' = some i → n = n'
  bounded : ∀ n i, d.entry n = some i → i < d.fresh

theorem Dir.sound_empty : (Dir.empty : Dir N).Sound := ⟨by simp [empty], by simp [empty]⟩

/-- The bytes after a write at `pos`. A gap before it is filled with zeros. -/
def overwrite (old : List UInt8) (pos : Nat) (new : List UInt8) : List UInt8 :=
  old.take pos ++ List.replicate (pos - old.length) 0 ++ new ++ old.drop (pos + new.length)

theorem overwrite_end (old new : List UInt8) : overwrite old old.length new = old ++ new := by
  unfold overwrite
  rw [List.take_length, Nat.sub_self, List.drop_of_length_le (by omega)]
  simp

def Dir.write (d : Dir N) (file : Handle) (data : List UInt8) : Dir N × Handle :=
  let bytes := overwrite (d.bytes file.inode) file.pos data
  ({ d with bytes := Function.update d.bytes file.inode bytes },
    { file with pos := file.pos + data.length })

section Names

variable [DecidableEq N]

def Dir.remove (d : Dir N) (n : N) : Dir N := { d with entry := Function.update d.entry n none }

/-- The file under this name, emptied, or a new one. -/
def Dir.create (d : Dir N) (n : N) : Dir N × Handle :=
  match d.entry n with
  | some i => ({ d with bytes := Function.update d.bytes i [] }, ⟨i, 0⟩)
  | none =>
    ({ entry := Function.update d.entry n (some d.fresh)
       bytes := Function.update d.bytes d.fresh []
       fresh := d.fresh + 1 }, ⟨d.fresh, 0⟩)

/-- Whatever had the new name has lost it. -/
def Dir.rename (d : Dir N) (n n' : N) : Option (Dir N) :=
  match d.entry n with
  | some i => some { d with entry := Function.update (Function.update d.entry n none) n' (some i) }
  | none => none

/-! ## What each operation leaves -/

@[simp]
theorem remove_self (d : Dir N) (n : N) : (d.remove n).entry n = none := Function.update_self ..

theorem remove_of_ne (d : Dir N) {n n' : N} (h : n' ≠ n) : (d.remove n).entry n' = d.entry n' :=
  Function.update_of_ne h ..

@[simp]
theorem remove_bytes (d : Dir N) (n : N) : (d.remove n).bytes = d.bytes := rfl

omit [DecidableEq N] in
@[simp]
theorem write_entry (d : Dir N) (file : Handle) (data : List UInt8) :
    (d.write file data).1.entry = d.entry := rfl

omit [DecidableEq N] in
theorem write_bytes_self (d : Dir N) (file : Handle) (data : List UInt8) :
    (d.write file data).1.bytes file.inode = overwrite (d.bytes file.inode) file.pos data :=
  Function.update_self ..

omit [DecidableEq N] in
theorem write_bytes_of_ne (d : Dir N) {file : Handle} (data : List UInt8) {i : Nat}
    (h : i ≠ file.inode) : (d.write file data).1.bytes i = d.bytes i :=
  Function.update_of_ne h ..

theorem create_self (d : Dir N) (n : N) :
    (d.create n).1.entry n = some (d.create n).2.inode := by
  unfold Dir.create
  split
  · assumption
  · exact Function.update_self ..

theorem create_of_ne (d : Dir N) {n n' : N} (h : n' ≠ n) :
    (d.create n).1.entry n' = d.entry n' := by
  unfold Dir.create
  split
  · rfl
  · exact Function.update_of_ne h ..

theorem create_bytes_self (d : Dir N) (n : N) :
    (d.create n).1.bytes (d.create n).2.inode = [] := by
  unfold Dir.create
  split
  · exact Function.update_self ..
  · exact Function.update_self ..

theorem create_pos (d : Dir N) (n : N) : (d.create n).2.pos = 0 := by
  unfold Dir.create
  split
  · rfl
  · rfl

/-- A file under another name keeps its bytes. -/
theorem create_bytes_of_ne {d : Dir N} (hd : d.Sound) {n n' : N} {i : Nat} (h : n' ≠ n)
    (hi : d.entry n' = some i) : (d.create n).1.bytes i = d.bytes i := by
  unfold Dir.create
  split
  · rename_i j hj
    refine Function.update_of_ne ?_ ..
    rintro rfl
    exact h (hd.injective n' n i hi hj)
  · exact Function.update_of_ne (Nat.ne_of_lt (hd.bounded n' i hi)) ..

theorem rename_eq_some {d d' : Dir N} {n n' : N} (h : d.rename n n' = some d') (hne : n ≠ n') :
    ∃ i, d.entry n = some i ∧ d'.entry n' = some i ∧ d'.entry n = none ∧ d'.bytes = d.bytes ∧
      ∀ m, m ≠ n → m ≠ n' → d'.entry m = d.entry m := by
  unfold Dir.rename at h
  split at h
  · rename_i i hi
    cases h
    refine ⟨i, hi, Function.update_self .., ?_, rfl, fun m hm hm' => ?_⟩
    · exact (Function.update_of_ne hne ..).trans (Function.update_self ..)
    · exact (Function.update_of_ne hm' ..).trans (Function.update_of_ne hm ..)
  · simp at h

theorem rename_isSome {d : Dir N} {n : N} {i : Nat} (h : d.entry n = some i) (n' : N) :
    ∃ d', d.rename n n' = some d' := by
  unfold Dir.rename
  rw [h]
  exact ⟨_, rfl⟩

/-- A rename takes no other name away. -/
theorem rename_stays {d d' : Dir N} {n n' m : N} (h : d.rename n n' = some d') (hne : n ≠ n')
    (hm : m ≠ n) (hsome : (d.entry m).isSome) : (d'.entry m).isSome := by
  obtain ⟨i, -, hnew, -, -, hrest⟩ := rename_eq_some h hne
  by_cases hm' : m = n'
  · rw [hm', hnew]
    rfl
  · rwa [hrest m hm hm']

/-! ## Operations keep a directory sound -/

theorem Dir.Sound.remove {d : Dir N} (hd : d.Sound) (n : N) : (d.remove n).Sound := by
  have hentry : ∀ m i, (d.remove n).entry m = some i → d.entry m = some i := by
    intro m i hi
    by_cases h : m = n
    · rw [h, remove_self] at hi
      simp at hi
    · rwa [remove_of_ne d h] at hi
  exact ⟨fun m m' i hi hi' => hd.injective m m' i (hentry m i hi) (hentry m' i hi'),
    fun m i hi => hd.bounded m i (hentry m i hi)⟩

omit [DecidableEq N] in
theorem Dir.Sound.write {d : Dir N} (hd : d.Sound) (file : Handle) (data : List UInt8) :
    (d.write file data).1.Sound := ⟨hd.injective, hd.bounded⟩

theorem Dir.Sound.create {d : Dir N} (hd : d.Sound) (n : N) : (d.create n).1.Sound := by
  unfold Dir.create
  split
  · exact ⟨hd.injective, hd.bounded⟩
  · have hentry : ∀ m i, Function.update d.entry n (some d.fresh) m = some i →
        (m = n ∧ i = d.fresh) ∨ (d.entry m = some i ∧ i < d.fresh) := by
      intro m i hi
      by_cases h : m = n
      · rw [h, Function.update_self] at hi
        exact .inl ⟨h, (Option.some.inj hi).symm⟩
      · rw [Function.update_of_ne h] at hi
        exact .inr ⟨hi, hd.bounded m i hi⟩
    constructor
    · intro m m' i hi hi'
      rcases hentry m i hi with ⟨rfl, rfl⟩ | ⟨hi, hlt⟩
      · rcases hentry m' _ hi' with ⟨rfl, -⟩ | ⟨-, hlt⟩
        · rfl
        · exact absurd hlt (Nat.lt_irrefl _)
      · rcases hentry m' i hi' with ⟨-, rfl⟩ | ⟨hi', -⟩
        · exact absurd hlt (Nat.lt_irrefl _)
        · exact hd.injective m m' i hi hi'
    · intro m i hi
      rcases hentry m i hi with ⟨-, rfl⟩ | ⟨-, hlt⟩
      · exact Nat.lt_succ_self _
      · exact Nat.lt_succ_of_lt hlt

theorem Dir.Sound.rename {d d' : Dir N} (hd : d.Sound) {n n' : N} (hne : n ≠ n')
    (h : d.rename n n' = some d') : d'.Sound := by
  have hfresh : d'.fresh = d.fresh := by
    unfold Dir.rename at h
    split at h
    · cases h
      rfl
    · simp at h
  obtain ⟨i, hi, hnew, hold, -, hrest⟩ := rename_eq_some h hne
  -- The renamed file is the only one that has its inode.
  have hentry : ∀ m j, d'.entry m = some j → (m = n' ∧ j = i) ∨ (m ≠ n ∧ d.entry m = some j) := by
    intro m j hj
    by_cases hm' : m = n'
    · rw [hm', hnew] at hj
      exact .inl ⟨hm', (Option.some.inj hj).symm⟩
    · by_cases hm : m = n
      · rw [hm, hold] at hj
        simp at hj
      · rw [hrest m hm hm'] at hj
        exact .inr ⟨hm, hj⟩
  constructor
  · intro m m' j hj hj'
    rcases hentry m j hj with ⟨rfl, rfl⟩ | ⟨hm, hj⟩
    · rcases hentry m' _ hj' with ⟨rfl, -⟩ | ⟨hm', hj'⟩
      · rfl
      · exact absurd (hd.injective m' n _ hj' hi) hm'
    · rcases hentry m' j hj' with ⟨-, rfl⟩ | ⟨-, hj'⟩
      · exact absurd (hd.injective m n _ hj hi) hm
      · exact hd.injective m m' j hj hj'
  · intro m j hj
    rw [hfresh]
    rcases hentry m j hj with ⟨-, rfl⟩ | ⟨-, hj⟩
    · exact hd.bounded n _ hi
    · exact hd.bounded m j hj

/-! ## Files that an operation leaves alone -/

/-- The name has the file that it had, with the bytes that it had. -/
def Dir.Keeps (d d' : Dir N) (n : N) : Prop :=
  d'.entry n = d.entry n ∧ ∀ i, d.entry n = some i → d'.bytes i = d.bytes i

omit [DecidableEq N] in
theorem Dir.Keeps.refl (d : Dir N) (n : N) : d.Keeps d n := ⟨rfl, fun _ _ => rfl⟩

omit [DecidableEq N] in
/-- What is kept is there as it was. -/
theorem Dir.Keeps.iff {d d' : Dir N} {n : N} (h : d.Keeps d' n) (P : List UInt8 → Prop) :
    (∀ i, d'.entry n = some i → P (d'.bytes i)) ↔ ∀ i, d.entry n = some i → P (d.bytes i) := by
  rw [h.1]
  exact forall₂_congr fun i hi => by rw [h.2 i hi]

theorem keeps_create {d : Dir N} (hd : d.Sound) {n n' : N} (h : n' ≠ n) :
    d.Keeps (d.create n).1 n' := ⟨create_of_ne d h, fun _ hi => create_bytes_of_ne hd h hi⟩

omit [DecidableEq N] in
/-- A write to the file of another name. -/
theorem keeps_write {d : Dir N} (hd : d.Sound) {n n' : N} {file : Handle} (data : List UInt8)
    (hfile : d.entry n = some file.inode) (h : n' ≠ n) : d.Keeps (d.write file data).1 n' := by
  refine ⟨rfl, fun i hi => write_bytes_of_ne d data ?_⟩
  rintro rfl
  exact h (hd.injective n' n _ hi hfile)

theorem keeps_rename {d d' : Dir N} {n n' m : N} (h : d.rename n n' = some d') (hne : n ≠ n')
    (hm : m ≠ n) (hm' : m ≠ n') : d.Keeps d' m := by
  obtain ⟨i, -, -, -, hbytes, hrest⟩ := rename_eq_some h hne
  exact ⟨hrest m hm hm', fun _ _ => by rw [hbytes]⟩

end Names

end Gigastt.Files
