import Mathlib.Algebra.Order.Ring.Int

/-!
# `BytesMediaSource` in `inference/audio.rs`

A `usize` has 64 bits, and overflow is checked as in a debug build. An allocation holds fewer
than `2 ^ 63` bytes.
-/

namespace Gigastt.Audio

inductive MediaPanic where
  | overflow
  | slice_index
  | slice_length
deriving DecidableEq, Repr

/-- `std::io::ErrorKind` and the text. -/
inductive IoError where
  | InvalidInput (message : String)
deriving DecidableEq, Repr

inductive SeekFrom where
  | Start (n : UInt64)
  | End (off : Int64)
  | Current (off : Int64)
deriving DecidableEq, Repr

structure Bytes where
  val : List UInt8
  fits : val.length < 2 ^ 63

structure BytesMediaSource where
  data : Bytes
  pos : UInt64

def BytesMediaSource.new (data : Bytes) : BytesMediaSource := { data, pos := 0 }

/-! ## Checked operations -/

def usize_add (a b : Nat) : Except MediaPanic Nat :=
  if a + b < 2 ^ 64 then .ok (a + b) else .error .overflow

def usize_sub (a b : Nat) : Except MediaPanic Nat :=
  if b ≤ a then .ok (a - b) else .error .overflow

def u64_add (a b : UInt64) : Except MediaPanic UInt64 :=
  if a.toNat + b.toNat < 2 ^ 64 then .ok (a + b) else .error .overflow

def i128_add (a b : Int) : Except MediaPanic Int :=
  if -2 ^ 127 ≤ a + b ∧ a + b < 2 ^ 127 then .ok (a + b) else .error .overflow

/-- `&v[start..stop]`. -/
def slice (v : List UInt8) (start stop : Nat) : Except MediaPanic (List UInt8) :=
  if start ≤ stop ∧ stop ≤ v.length then .ok ((v.take stop).drop start) else .error .slice_index

/-- `dst[..n].copy_from_slice(src)`. -/
def copy_to (dst : List UInt8) (n : Nat) (src : List UInt8) : Except MediaPanic (List UInt8) := do
  let part ← slice dst 0 n
  if part.length = src.length then .ok (src ++ dst.drop n) else .error .slice_length

theorem usize_add_of_lt {a b : Nat} (h : a + b < 2 ^ 64) : usize_add a b = .ok (a + b) := if_pos h

theorem usize_sub_of_le {a b : Nat} (h : b ≤ a) : usize_sub a b = .ok (a - b) := if_pos h

theorem u64_add_of_lt {a b : UInt64} (h : a.toNat + b.toNat < 2 ^ 64) :
    u64_add a b = .ok (a + b) := if_pos h

theorem i128_add_of_bounds {a b : Int} (h : -2 ^ 127 ≤ a + b ∧ a + b < 2 ^ 127) :
    i128_add a b = .ok (a + b) := if_pos h

theorem slice_of_le {v : List UInt8} {start stop : Nat} (h : start ≤ stop ∧ stop ≤ v.length) :
    slice v start stop = .ok ((v.take stop).drop start) := if_pos h

theorem copy_to_of_length {dst src : List UInt8} {n : Nat} (hsrc : src.length = n)
    (hdst : n ≤ dst.length) : copy_to dst n src = .ok (src ++ dst.drop n) := by
  have hpart : ((dst.take n).drop 0).length = src.length := by
    rw [List.drop_zero, List.length_take, Nat.min_eq_left hdst, hsrc]
  unfold copy_to
  rw [slice_of_le ⟨Nat.zero_le n, hdst⟩]
  exact if_pos hpart

/-! ## The source -/

/-- The bytes read, what `buf` then holds, and the source. -/
def BytesMediaSource.read (self : BytesMediaSource) (buf : List UInt8) :
    Except MediaPanic ((Nat × List UInt8) × BytesMediaSource) := do
  let len := UInt64.ofNat self.data.val.length
  if self.pos ≥ len then
    return ((0, buf), self)
  let start := self.pos.toNat
  let available ← usize_sub self.data.val.length start
  let n := min available buf.length
  let stop ← usize_add start n
  let buf ← copy_to buf n (← slice self.data.val start stop)
  let pos ← u64_add self.pos (UInt64.ofNat n)
  return ((n, buf), { self with pos })

def BytesMediaSource.seek (self : BytesMediaSource) (pos : SeekFrom) :
    Except MediaPanic (Except IoError UInt64 × BytesMediaSource) := do
  let len := UInt64.ofNat self.data.val.length
  let new_pos ← match pos with
    | .Start n => pure (n.toNat : Int)
    | .End off => i128_add len.toNat off.toInt
    | .Current off => i128_add self.pos.toNat off.toInt
  if new_pos < 0 then
    return (.error (.InvalidInput "seek before start of buffer"), self)
  -- The cast keeps the low 64 bits.
  let pos := UInt64.ofInt new_pos
  return (.ok pos, { self with pos })

/-! ## Runs -/

inductive Op where
  | read (buf : List UInt8)
  | seek (pos : SeekFrom)
deriving DecidableEq, Repr

/-- What the caller sees of an operation. A refused seek gives no position. -/
inductive Output where
  | read (n : Nat) (buf : List UInt8)
  | seek (pos : Option Nat)
deriving DecidableEq, Repr

def sought : Except IoError UInt64 → Output
  | .ok pos => .seek (some pos.toNat)
  | .error _ => .seek none

def BytesMediaSource.step (self : BytesMediaSource) :
    Op → Except MediaPanic (Output × BytesMediaSource)
  | .read buf => do
    let ((n, buf), self) ← self.read buf
    return (.read n buf, self)
  | .seek pos => do
    let (result, self) ← self.seek pos
    return (sought result, self)

def BytesMediaSource.run (self : BytesMediaSource) :
    List Op → Except MediaPanic (List Output × BytesMediaSource)
  | [] => .ok ([], self)
  | op :: ops => do
    let (output, self) ← self.step op
    let (outputs, self) ← self.run ops
    return (output :: outputs, self)

end Gigastt.Audio
