import Mathlib.Data.List.Basic

/-!
# Windows that slide over a list

A window is `n` elements long and starts `h` elements after the one before it. Windows that
do not fit are left out.
-/

namespace Gigastt.Windows

variable {α : Type} {n h : Nat}

def count (n h len : Nat) : Nat := if len < n then 0 else (len - n) / h + 1

def window (n h : Nat) (xs : List α) (i : Nat) : List α := (xs.drop (i * h)).take n

def windows (n h : Nat) (xs : List α) : List (List α) :=
  (List.range (count n h xs.length)).map (window n h xs)

@[simp]
theorem windows_length (xs : List α) : (windows n h xs).length = count n h xs.length := by
  simp [windows]

theorem windows_short {xs : List α} (hxs : xs.length < n) : windows n h xs = [] := by
  unfold windows count
  rw [if_pos hxs]
  rfl

theorem getD_window (xs : List α) (i : Nat) {k : Nat} (hk : k < n) (d : α) :
    (window n h xs i).getD k d = xs.getD (i * h + k) d := by
  unfold window
  rw [List.getD_eq_getElem?_getD, List.getElem?_take_of_lt hk, List.getElem?_drop,
    List.getD_eq_getElem?_getD]

/-- A window that is counted lies in the list. -/
theorem window_fits {len i : Nat} (hi : i < count n h len) : i * h + n ≤ len := by
  unfold count at hi
  split at hi
  · omega
  · have hstart : i * h ≤ (len - n) / h * h := Nat.mul_le_mul_right h (by omega)
    have hend := Nat.div_mul_le_self (len - n) h
    omega

theorem count_drop (hh : 0 < h) (hn : h ≤ n) {len : Nat} (hlen : n ≤ len) :
    count n h len = count n h (len - h) + 1 := by
  unfold count
  rw [if_neg (by omega)]
  split
  · rename_i hshort
    rw [Nat.div_eq_of_lt (by omega)]
  · rename_i hlong
    have hsplit : len - n = len - h - n + h := by omega
    rw [hsplit, Nat.add_div_right _ hh]

theorem count_le {len len' : Nat} (hlen : len ≤ len') : count n h len ≤ count n h len' := by
  unfold count
  split
  · exact Nat.zero_le _
  · rw [if_neg (by omega)]
    exact Nat.succ_le_succ (Nat.div_le_div_right (by omega))

/-- The first window, and those of what is left after one hop. -/
theorem windows_cons (hh : 0 < h) (hn : h ≤ n) {xs : List α} (hxs : n ≤ xs.length) :
    windows n h xs = xs.take n :: windows n h (xs.drop h) := by
  unfold windows
  rw [count_drop hh hn hxs, List.range_succ_eq_map, List.map_cons, List.map_map, List.length_drop]
  congr 1
  · simp [window]
  · refine List.map_congr_left fun i _ => ?_
    unfold window
    rw [Function.comp_apply, List.drop_drop, Nat.succ_mul, Nat.add_comm]

/-- The windows after a cut are those of what follows the last hop before it. -/
theorem windows_append (hh : 0 < h) (hn : h ≤ n) {k : Nat} {xs : List α}
    (hxs : xs.length + h = n + k * h) (ys : List α) :
    windows n h (xs ++ ys) =
      windows n h xs ++ windows n h (xs.drop (xs.length + h - n) ++ ys) := by
  induction k generalizing xs with
  | zero =>
    have hnone : windows n h xs = [] := windows_short (by omega)
    have hall : xs.length + h - n = 0 := by omega
    rw [hnone, hall]
    rfl
  | succ k ih =>
    rw [Nat.succ_mul] at hxs
    have hfits : n ≤ xs.length := by omega
    have hlonger : n ≤ (xs ++ ys).length := by
      rw [List.length_append]
      omega
    have hdropped : (xs.drop h).length + h = n + k * h := by
      rw [List.length_drop]
      omega
    have hrest := ih hdropped
    have hsame : h + (xs.length - h + h - n) = xs.length + h - n := by omega
    rw [windows_cons hh hn hlonger, windows_cons hh hn hfits, List.take_append_of_le_length hfits,
      List.drop_append_of_le_length (by omega), hrest, List.drop_drop, List.length_drop, hsame,
      List.cons_append]

/-- More elements add windows at the end. -/
theorem windows_prefix (xs ys : List α) : windows n h xs <+: windows n h (xs ++ ys) := by
  rw [List.prefix_iff_eq_take, windows_length]
  unfold windows
  have hle : count n h xs.length ≤ count n h (xs ++ ys).length :=
    count_le (by rw [List.length_append]; omega)
  rw [← List.map_take, List.take_range, Nat.min_eq_left hle]
  refine List.map_congr_left fun i hi => ?_
  have hfits := window_fits (List.mem_range.mp hi)
  unfold window
  rw [List.drop_append_of_le_length (by omega),
    List.take_append_of_le_length (by rw [List.length_drop]; omega)]

/-- With hops of half a window, one window straddles a cut, if enough follows it. -/
theorem windows_half (hh : 0 < h) {xs : List α} (hxs : xs.length = h) (ys : List α) :
    windows (h + h) h (xs ++ ys) =
      windows (h + h) h (xs ++ ys.take h) ++ windows (h + h) h ys := by
  by_cases hys : ys.length < h
  · have hrest : windows (h + h) h ys = [] := windows_short (by omega)
    rw [List.take_of_length_le (by omega), hrest, List.append_nil]
  · have hlonger : h + h ≤ (xs ++ ys).length := by
      rw [List.length_append]
      omega
    have honce : (xs ++ ys.take h).length = h + h := by
      rw [List.length_append, List.length_take]
      omega
    have hnone : windows (h + h) h (ys.take h) = [] := by
      refine windows_short ?_
      rw [List.length_take]
      omega
    have hfirst : (xs ++ ys.take h).take (h + h) = (xs ++ ys).take (h + h) := by
      rw [← hxs, List.take_length_add_append, List.take_length_add_append, List.take_take, Nat.min_self]
    rw [windows_cons hh (by omega) hlonger, windows_cons hh (by omega) (Nat.le_of_eq honce.symm), hfirst,
      List.drop_left' hxs, List.drop_left' hxs, hnone, List.singleton_append]

end Gigastt.Windows
