import Mathlib.Algebra.BigOperators.Group.List.Basic
import Mathlib.Algebra.Order.Ring.Int

/-!
# What the code takes from Rust and its crates

Floats are any type with the operations the code uses, so a result about the model
holds of `f32` whatever its rounding does. An ONNX session is a function of its inputs
and of the number of the call, which may fail.
-/

namespace Gigastt

def N_MELS : Nat := 64
def N_FFT : Nat := 320
def HOP_LENGTH : Nat := 160
def PRED_HIDDEN : Nat := 320

/-- The `f32` operations the code uses. No law is assumed of them. -/
class F32 (F : Type) extends Zero F, One F, Add F, Sub F, Mul F, Div F, NatCast F where
  neg_infinity : F
  max : F → F → F
  exp : F → F
  ln : F → F
  total_cmp : F → F → Ordering
  mel_floor : F

/-- Numbers for runs on fixed inputs. Their logits are 0 and -1000, and there `f32` agrees:
`exp` of 0 is 1 and `exp` of -1000 rounds to 0. -/
instance : F32 Int where
  neg_infinity := -1000000
  max := max
  exp x := if x = 0 then 1 else 0
  ln _ := 0
  total_cmp := compare
  mel_floor := 0

section Std

variable {α : Type}

/-- `Iterator::max_by`: the last of the largest elements. -/
def max_by (compare : α → α → Ordering) : List α → Option α
  | [] => none
  | x :: xs => some (xs.foldl (fun x y => if compare x y = .gt then x else y) x)

theorem max_by_mem {compare : α → α → Ordering} {l : List α} {x : α}
    (h : max_by compare l = some x) : x ∈ l := by
  match l with
  | y :: ys =>
    simp only [max_by, Option.some.injEq] at h
    subst h
    induction ys generalizing y with
    | nil => simp
    | cons z zs ih =>
      have hmem := ih (if compare y z = .gt then y else z)
      grind

def float_sum {F : Type} [Zero F] [Add F] (l : List F) : F := l.foldl (· + ·) 0

end Std

/-! ## Errors -/

inductive Panic where
  | index
  | unwrap_none
  | slice_length
deriving DecidableEq, Repr

/-- How a function can stop short. An `anyhow` error is given by the texts this code adds
to it, outermost first. -/
inductive Fault where
  | err (contexts : List String)
  | panic (about : Panic)
deriving DecidableEq, Repr

def context {α : Type} (text : String) : Option α → Except Fault α
  | some a => .ok a
  | none => .error (.err [text])

def index {α : Type} (v : List α) (i : Nat) : Except Fault α :=
  match v[i]? with
  | some a => .ok a
  | none => .error (.panic .index)

def copy_from_slice {α : Type} (dst src : List α) : Except Fault (List α) :=
  if dst.length = src.length then .ok src else .error (.panic .slice_length)

/-! ## ONNX sessions -/

inductive Value (F : Type) where
  | f32 (data : List F)
  | i32 (data : List Int)
deriving DecidableEq, Repr

def Value.try_extract_f32 {F : Type} : Value F → Option (List F)
  | .f32 data => some data
  | .i32 _ => none

def Value.try_extract_i32 {F : Type} : Value F → Option (List Int)
  | .f32 _ => none
  | .i32 data => some data

/-- `Session::run`: its outputs on the inputs of call number `call`. -/
abbrev Session (F I : Type) := (call : Nat) → I → Option (List (Value F))

/-- A session whose outputs depend on its inputs alone. -/
def steady {F I : Type} (f : I → Option (List (Value F))) : Session F I := fun _ => f

/-- `TensorRef::from_array_view`: the data must fill the shape. -/
def from_array_view {α : Type} (shape : List Nat) (data : List α) : Except Fault (List α) :=
  if shape.prod = data.length then .ok data else .error (.err [])

end Gigastt
