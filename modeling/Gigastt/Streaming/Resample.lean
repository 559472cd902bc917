import Gigastt.Base
import Mathlib.Data.Rat.Defs

/-!
# The cached resampler of `inference/audio.rs`

`SincFixedIn` of the crate rubato is a parameter. The ratio, a quotient of two `f64`s in
the code, is kept exact.
-/

namespace Gigastt.Streaming

/-- What the audio path does with `f32` besides. -/
class F32Pcm (F : Type) extends F32 F, IntCast F where
  is_finite : F → Bool

instance : F32Pcm Int where
  is_finite _ := true

variable {F R : Type}

structure Rubato (F R : Type) where
  -- `SincFixedIn::new` with this ratio and chunk size, for one channel.
  new : ℚ → Nat → Except String R
  -- Whether the chunk size was accepted.
  set_chunk_size : R → Nat → Bool × R
  process : R → List (List F) → Except String (List (List F)) × R

/-- The resampler for a chunk, new if the cached one does not take the chunk size, and the
cache. -/
def Rubato.resampler (rubato : Rubato F R) (ratio : ℚ) (chunk_size : Nat) (cache : Option R) :
    Except Fault R × Option R :=
  let (reused, cache) := match cache with
    | some r =>
      match rubato.set_chunk_size r chunk_size with
      | (true, r) => (some r, some r)
      | (false, r) => (none, some r)
    | none => (none, none)
  match reused with
  | some r => (.ok r, cache)
  | none =>
    match rubato.new ratio chunk_size with
    | .ok r => (.ok r, some r)
    | .error e => (.error (.err ["Resampler init failed: " ++ e]), cache)

def resample_with_cache [F32Pcm F] (rubato : Rubato F R) (samples : List F)
    (from_rate to_rate : UInt32) (cache : Option R) : Except Fault (List F) × Option R :=
  if samples.isEmpty || from_rate == 0 || to_rate == 0 then (.ok [], cache)
  else if from_rate = to_rate then (.ok samples, cache)
  else
    let samples := samples.map fun s => if F32Pcm.is_finite s then s else 0
    match rubato.resampler (to_rate.toNat / from_rate.toNat) samples.length cache with
    | (.error e, cache) => (.error e, cache)
    | (.ok resampler, _) =>
      match rubato.process resampler [samples] with
      | (.error e, resampler) => (.error (.err ["Resampling failed: " ++ e]), some resampler)
      | (.ok out, resampler) => (.ok (out.head?.getD []), some resampler)

end Gigastt.Streaming
